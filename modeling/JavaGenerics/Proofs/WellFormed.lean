import JavaGenerics.Proofs.Acceptance
import JavaGenerics.Proofs.Session

/-!
# The forms of committed types

Resolved types are one kind of tree, in which a wildcard could be an element of an array or
`void` a superclass. None of that is ever committed. A *well-formed* registry
(`JavaGenerics.Registry.WellFormed`) has only such types as their positions admit – class types
as superclass and interfaces, reference types as bounds, class types and type variables as
exceptions, and so on – and inside each type everything has its form as well, down to the
classes, which are all registered.

The position of a type is looked at before its names are looked up
(`JavaGenerics.Position.complaint?`), and what the names stand for does not change the form; so
a position admits what has come through it (`JavaGenerics.Lexicon.admits_type`). One position
is not looked at closely enough: an exception may be any reference type. That no array is
committed as an exception is due to the text, which has no such thing
(`JavaGenerics.MethodSig.parse_eq_ok`).

Registries only grow, so what is registered stays so, and whole sessions keep their registry
well-formed (`JavaGenerics.Session.run_wellFormed`).
-/

namespace JavaGenerics

/-! ### Forms of resolved types -/

mutual

/-- The type of a value: a primitive type or a reference type; the classes in it are among
`K`. -/
inductive ResolvedType.IsValue (K : ClassId → Prop) : ResolvedType → Prop where
  | base (b : BaseType) : ResolvedType.IsValue K (.base b)
  | reference {t : ResolvedType} (h : ResolvedType.IsReference K t) : ResolvedType.IsValue K t

/-- A class type, a type variable or an array of values. -/
inductive ResolvedType.IsReference (K : ClassId → Prop) : ResolvedType → Prop where
  | ofClass {t : ResolvedType} (h : ResolvedType.IsClass K t) : ResolvedType.IsReference K t
  | var (v : TypeVar) : ResolvedType.IsReference K (.var v)
  | array {elem : ResolvedType} (h : ResolvedType.IsValue K elem) :
      ResolvedType.IsReference K (.array elem)

/-- A class type. Without an outer type it is raw or has type arguments; an outer type is a
class type that is not raw. -/
inductive ResolvedType.IsClass (K : ClassId → Prop) : ResolvedType → Prop where
  | raw {c : ClassId} (hc : K c) : ResolvedType.IsClass K (.raw c)
  | parameterized {c : ClassId} {args : List ResolvedType} (hc : K c) (nonempty : args ≠ [])
      (h : ∀ a ∈ args, ResolvedType.IsArgument K a) :
      ResolvedType.IsClass K (.parameterized c args)
  | member {outer : ResolvedType} {c : ClassId} {args : List ResolvedType}
      (houter : ResolvedType.IsClass K outer) (carries : outer.carriesArgs) (hc : K c)
      (h : ∀ a ∈ args, ResolvedType.IsArgument K a) : ResolvedType.IsClass K (.member outer c args)

/-- A type argument: a reference type, or a wildcard whose bound is one, if it has any. -/
inductive ResolvedType.IsArgument (K : ClassId → Prop) : ResolvedType → Prop where
  | exact {t : ResolvedType} (h : ResolvedType.IsReference K t) : ResolvedType.IsArgument K t
  | unbounded : ResolvedType.IsArgument K .unbounded
  | upper {t : ResolvedType} (h : ResolvedType.IsReference K t) :
      ResolvedType.IsArgument K (.upper t)
  | lower {t : ResolvedType} (h : ResolvedType.IsReference K t) :
      ResolvedType.IsArgument K (.lower t)

end

/-- What a method returns: `void` or a value. -/
inductive ResolvedType.IsResult (K : ClassId → Prop) : ResolvedType → Prop where
  | void : IsResult K .void
  | value {t : ResolvedType} (h : t.IsValue K) : IsResult K t

/-- What a method throws: a class type or a type variable. -/
inductive ResolvedType.IsThrown (K : ClassId → Prop) : ResolvedType → Prop where
  | ofClass {t : ResolvedType} (h : t.IsClass K) : IsThrown K t
  | var (v : TypeVar) : IsThrown K (.var v)

/-- The types that a position admits. -/
def Position.Admits (K : ClassId → Prop) : Position → ResolvedType → Prop
  | anything => ResolvedType.IsResult K
  | param => ResolvedType.IsValue K
  | reference => ResolvedType.IsReference K
  | classType => ResolvedType.IsClass K

namespace ResolvedType

variable {K K' : ClassId → Prop} {t : ResolvedType}

mutual

/-- A type keeps its form when more classes are registered. -/
theorem IsValue.mono (hK : ∀ c, K c → K' c) : ∀ {t : ResolvedType}, t.IsValue K → t.IsValue K'
  | _, .base b => .base b
  | _, .reference h => .reference (h.mono hK)

theorem IsReference.mono (hK : ∀ c, K c → K' c) :
    ∀ {t : ResolvedType}, t.IsReference K → t.IsReference K'
  | _, .ofClass h => .ofClass (h.mono hK)
  | _, .var v => .var v
  | _, .array h => .array (h.mono hK)

theorem IsClass.mono (hK : ∀ c, K c → K' c) : ∀ {t : ResolvedType}, t.IsClass K → t.IsClass K'
  | _, .raw hc => .raw (hK _ hc)
  | _, .parameterized hc nonempty h =>
    .parameterized (hK _ hc) nonempty fun a ha => (h a ha).mono hK
  | _, .member houter carries hc h =>
    .member (houter.mono hK) carries (hK _ hc) fun a ha => (h a ha).mono hK

theorem IsArgument.mono (hK : ∀ c, K c → K' c) :
    ∀ {t : ResolvedType}, t.IsArgument K → t.IsArgument K'
  | _, .exact h => .exact (h.mono hK)
  | _, .unbounded => .unbounded
  | _, .upper h => .upper (h.mono hK)
  | _, .lower h => .lower (h.mono hK)

end

theorem IsResult.mono (hK : ∀ c, K c → K' c) (h : t.IsResult K) : t.IsResult K' := by
  cases h with
  | void => exact .void
  | value h => exact .value (h.mono hK)

theorem IsThrown.mono (hK : ∀ c, K c → K' c) (h : t.IsThrown K) : t.IsThrown K' := by
  cases h with
  | ofClass h => exact .ofClass (h.mono hK)
  | var v => exact .var v

/-- A class type may stand everywhere. -/
theorem IsClass.admitted (h : t.IsClass K) (position : Position) : position.Admits K t := by
  cases position with
  | anything => exact .value (.reference (.ofClass h))
  | param => exact .reference (.ofClass h)
  | reference => exact .ofClass h
  | classType => exact h

/-- A reference type may stand everywhere but where a class type is asked for. -/
theorem IsReference.admitted (h : t.IsReference K) {position : Position}
    (hposition : position ≠ .classType) : position.Admits K t := by
  cases position with
  | anything => exact .value (.reference h)
  | param => exact .reference h
  | reference => exact h
  | classType => exact absurd rfl hposition

theorem isClass_step {outer : Option ResolvedType} {c : ClassId} {args : List ResolvedType}
    (houter : ∀ t, outer = some t → t.IsClass K) (hc : K c) (hargs : ∀ a ∈ args, a.IsArgument K) :
    (ResolvedType.step outer c args).IsClass K := by
  unfold ResolvedType.step
  split
  · rename_i t ht
    obtain ⟨ht, hcarries⟩ := Option.filter_eq_some_iff.1 ht
    exact .member (houter t ht) hcarries hc hargs
  · split
    · exact .raw hc
    · rename_i hne
      exact .parameterized hc (by simpa using hne) hargs

theorem isArgument_argument (variance : Variance) (h : t.IsReference K) :
    (ResolvedType.argument variance t).IsArgument K := by
  cases variance with
  | exact => exact .exact h
  | upper => exact .upper h
  | lower => exact .lower h

end ResolvedType

/-! ### What comes through a position -/

theorem Position.complaint?_param {s : TypeSig} (hs : s ≠ .void) :
    Position.param.complaint? s = none := by
  cases s with
  | void => exact absurd rfl hs
  | _ => rfl

namespace Lexicon

variable {l : Lexicon} {K : ClassId → Prop}

/-- Every class that a lexicon gives is one of `K`. -/
def ClassesIn (l : Lexicon) (K : ClassId → Prop) : Prop := ∀ name c, l.class? name = some c → K c

theorem ClassesIn.classNamed (hl : l.ClassesIn K) {name : String} {c : ClassId}
    (h : l.classNamed name = .ok c) : K c := by
  unfold Lexicon.classNamed at h
  split at h
  · cases h
    exact hl name c ‹_›
  · cases h

theorem ClassesIn.classNamed_option (hl : l.ClassesIn K) {name : Option String}
    {c : Option ClassId} (h : name.mapM l.classNamed = .ok c) : ∀ d, c = some d → K d := by
  rintro d rfl
  cases name with
  | none => cases h
  | some name =>
    obtain ⟨c, hc, h⟩ := bind_eq_ok.1 h
    cases h
    exact hl.classNamed hc

mutual

/-- **What comes through a position is admitted there.** -/
theorem admits_type (hl : l.ClassesIn K) : ∀ {s : TypeSig} {t : ResolvedType},
    l.type s = .ok t → ∀ position : Position, position.complaint? s = none → position.Admits K t
  | .base b, t, h, position, hposition => by
    cases h
    cases position with
    | anything => exact .value (.base b)
    | param => exact .base b
    | reference | classType => cases hposition
  | .void, t, h, position, hposition => by
    cases h
    cases position with
    | anything => exact .void
    | param | reference | classType => cases hposition
  | .var name, t, h, position, hposition => by
    simp only [type] at h
    split at h
    · cases h
      refine (ResolvedType.IsReference.var _).admitted ?_
      rintro rfl
      cases hposition
    · cases h
  | .array elem, t, h, position, hposition => by
    obtain ⟨hne, e, he, rfl⟩ := type_array_eq_ok.1 h
    have hvalue : e.IsValue K := admits_type hl he .param (Position.complaint?_param hne)
    refine (ResolvedType.IsReference.array hvalue).admitted ?_
    rintro rfl
    cases hposition
  | .ofClass outer inner, t, h, position, _ => by
    simp only [type] at h
    obtain ⟨⟨name, u⟩, hu, h⟩ := bind_eq_ok.1 h
    exact (isClass_steps hl (isClass_step hl (by simp) hu) h).admitted position

theorem isClass_step (hl : l.ClassesIn K) {outer : Option ResolvedType}
    (houter : ∀ t, outer = some t → t.IsClass K) :
    ∀ {s : Segment} {name : String} {r : String × ResolvedType},
      l.step name outer s = .ok r → r.2.IsClass K
  | .mk segment args, name, r, h => by
    simp only [step] at h
    obtain ⟨c, hc, h⟩ := bind_eq_ok.1 h
    obtain ⟨ts, hts, h⟩ := bind_eq_ok.1 h
    cases h
    exact ResolvedType.isClass_step houter (hl.classNamed hc) (isArgument_types hl hts)

theorem isClass_steps (hl : l.ClassesIn K) {name : String} {u : ResolvedType} (hu : u.IsClass K) :
    ∀ {ss : List Segment} {t : ResolvedType}, l.steps name u ss = .ok t → t.IsClass K
  | [], t, h => by
    simp only [steps] at h
    cases h
    exact hu
  | s :: ss, t, h => by
    simp only [steps] at h
    obtain ⟨⟨name', u'⟩, hu', h⟩ := bind_eq_ok.1 h
    refine isClass_steps hl (isClass_step hl ?_ hu') h
    rintro _ ⟨⟩
    exact hu

theorem isArgument_types (hl : l.ClassesIn K) :
    ∀ {as : List TypeArg} {ts : List ResolvedType}, l.types as = .ok ts →
      ∀ t ∈ ts, t.IsArgument K
  | [], ts, h => by
    simp only [types] at h
    cases h
    exact nofun
  | a :: as, ts, h => by
    simp only [types] at h
    obtain ⟨t, ht, h⟩ := bind_eq_ok.1 h
    obtain ⟨ts', hts, h⟩ := bind_eq_ok.1 h
    cases h
    exact List.forall_mem_cons.2 ⟨isArgument_argument hl ht, isArgument_types hl hts⟩

theorem isArgument_argument (hl : l.ClassesIn K) :
    ∀ {a : TypeArg} {t : ResolvedType}, l.argument a = .ok t → t.IsArgument K
  | .unbounded, t, h => by
    simp only [argument] at h
    cases h
    exact .unbounded
  | .bounded variance s, t, h => by
    simp only [argument] at h
    split at h
    · cases h
    · rename_i hposition
      obtain ⟨u, hu, h⟩ := bind_eq_ok.1 h
      cases h
      exact ResolvedType.isArgument_argument variance (admits_type hl hu .reference hposition)

end

theorem admits_typeAt (hl : l.ClassesIn K) {position : Position} {s : TypeSig} {t : ResolvedType}
    (h : l.typeAt position s = .ok t) : position.Admits K t :=
  admits_type hl (typeAt_eq_ok.1 h).2 position (typeAt_eq_ok.1 h).1

/-- What is read as an exception comes to one. -/
theorem isThrown_typeAt (hl : l.ClassesIn K) {position : Position} {s : TypeSig} {t : ResolvedType}
    (hs : s.IsThrown) (h : l.typeAt position s = .ok t) : t.IsThrown K := by
  obtain ⟨-, h⟩ := typeAt_eq_ok.1 h
  cases hs with
  | ofClass hs =>
    cases hs with
    | mk => exact .ofClass (admits_type hl h .classType rfl)
  | var =>
    simp only [type] at h
    split at h
    · cases h
      exact .var _
    · cases h

theorem isReference_params (hl : l.ClassesIn K) {owner : Declarer} {first : Nat}
    {ps : List TypeParamSig} {tps : List TypeParam} (h : l.params owner first ps = .ok tps) :
    ∀ p ∈ tps, ∀ t ∈ p.bounds, t.IsReference K :=
  forall_bounds_of_params (fun _ _ => admits_typeAt hl) h

/-- An erased type is that of a value. -/
theorem isValue_raw (hl : l.ClassesIn K) {t : FieldType} {u : ResolvedType} (h : l.raw t = .ok u) :
    u.IsValue K := by
  induction t generalizing u with
  | base b =>
    cases h
    exact .base b
  | object name =>
    obtain ⟨c, hc, h⟩ := bind_eq_ok.1 h
    cases h
    exact .reference (.ofClass (.raw (hl.classNamed hc)))
  | array elem ih =>
    obtain ⟨e, he, h⟩ := bind_eq_ok.1 h
    cases h
    exact .reference (.array (ih he))

theorem isResult_erasedResult (hl : l.ClassesIn K) {m : MethodEntry}
    {result : Option ResolvedType} (h : l.erasedResult m = .ok result) :
    ∀ t, result = some t → t.IsResult K := by
  rintro t rfl
  unfold erasedResult at h
  split at h
  · cases h
  · cases hd : m.descriptor.result with
    | none =>
      rw [hd] at h
      cases h
      exact .void
    | some erased =>
      rw [hd] at h
      obtain ⟨u, hu, h⟩ := bind_eq_ok.1 h
      cases h
      exact .value (isValue_raw hl hu)

end Lexicon

/-! ### Well-formed entries -/

/-- A class that is committed to types of the right forms. -/
structure ClassEntry.WellFormed (K : ClassId → Prop) (e : ClassEntry) : Prop where
  bounds : ∀ p ∈ e.typeParams, ∀ t ∈ p.bounds, t.IsReference K
  superclass : ∀ t, e.superclass = some t → t.IsClass K
  interfaces : ∀ t ∈ e.interfaces, t.IsClass K

/-- A method that is committed to types of the right forms. -/
structure MethodEntry.WellFormed (K : ClassId → Prop) (e : MethodEntry) : Prop where
  bounds : ∀ p ∈ e.typeParams, ∀ t ∈ p.bounds, t.IsReference K
  params : ∀ p ∈ e.params, p.2.IsValue K
  result : ∀ t, e.result = some t → t.IsResult K
  throws : ∀ t ∈ e.throws, t.IsThrown K

/-- A field that is committed to a type of the right form. -/
structure FieldEntry.WellFormed (K : ClassId → Prop) (e : FieldEntry) : Prop where
  type : ∀ t, e.type = some t → t.IsValue K

section Entries

variable {l : Lexicon} {K K' : ClassId → Prop} {declared : List TypeParam}

theorem ClassEntry.WellFormed.mono (hK : ∀ c, K c → K' c) {e : ClassEntry} (h : e.WellFormed K) :
    e.WellFormed K' :=
  ⟨fun p hp t ht => (h.bounds p hp t ht).mono hK, fun t ht => (h.superclass t ht).mono hK,
    fun t ht => (h.interfaces t ht).mono hK⟩

theorem MethodEntry.WellFormed.mono (hK : ∀ c, K c → K' c) {e : MethodEntry} (h : e.WellFormed K) :
    e.WellFormed K' :=
  ⟨fun p hp t ht => (h.bounds p hp t ht).mono hK, fun p hp => (h.params p hp).mono hK,
    fun t ht => (h.result t ht).mono hK, fun t ht => (h.throws t ht).mono hK⟩

theorem FieldEntry.WellFormed.mono (hK : ∀ c, K c → K' c) {e : FieldEntry} (h : e.WellFormed K) :
    e.WellFormed K' :=
  ⟨fun t ht => (h.type t ht).mono hK⟩

/-- Type parameters that are only declared have no bounds. -/
theorem TypeParam.bounds_of_mem_declare {owner : Declarer} {names : List String} {p : TypeParam}
    (hp : p ∈ TypeParam.declare owner names) : p.bounds = [] := by
  have hnone := TypeParam.bounds_declare owner names
  rw [List.flatMap_eq_nil_iff] at hnone
  exact hnone p hp

/-- **What the signature of a class comes to is well-formed.** -/
theorem ClassTypes.wellFormed_fill (hl : l.ClassesIn K) {c : ClassId} {sig : ClassSig}
    {types : ClassTypes} (h : l.classTypes declared c sig = .ok types) (e : ClassEntry) :
    (types.fill e).WellFormed K := by
  obtain ⟨htps, hsuper, hints⟩ := Lexicon.classTypes_eq_ok.1 h
  have hinside : (l.declare (.ofClass c) sig.typeParams).ClassesIn K := hl
  refine ⟨Lexicon.isReference_params hinside (Lexicon.introduce_eq_ok.1 htps).2.2, ?_,
    forall_of_mapM_eq_ok (fun _ _ _ => Lexicon.admits_typeAt hinside) hints⟩
  rintro t ⟨⟩
  exact Lexicon.admits_typeAt hinside hsuper

/-- **What the signature of a method comes to is well-formed**, if its exceptions are what is
read as exceptions. -/
theorem MethodTypes.wellFormed_fill (hl : l.ClassesIn K) {m : MethodId} {sig : MethodSig}
    {types : MethodTypes} (hthrown : ∀ s ∈ sig.throws, s.IsThrown)
    (h : l.methodTypes declared m sig = .ok types) (names : List String) (e : MethodEntry) :
    (types.fill names e).WellFormed K := by
  obtain ⟨htps, hparams, hresult, hthrows⟩ := Lexicon.methodTypes_eq_ok.1 h
  have hinside : (l.declare (.ofMethod m) sig.typeParams).ClassesIn K := hl
  refine ⟨Lexicon.isReference_params hinside (Lexicon.introduce_eq_ok.1 htps).2.2,
    fun p hp => ?_, fun t ht => ?_, ?_⟩
  · exact forall_of_mapM_eq_ok (fun _ _ _ => Lexicon.admits_typeAt hinside) hparams _
      (List.of_mem_zip hp).2
  · rw [fill] at ht
    dsimp only at ht
    split at ht
    · cases ht
    · cases ht
      exact Lexicon.admits_type hinside hresult .anything rfl
  · exact forall_of_mapM_eq_ok (fun s hs _ => Lexicon.isThrown_typeAt hinside (hthrown s hs))
      hthrows

end Entries

/-! ### Well-formed registries -/

namespace Registry

variable {r₀ r r₁ r₂ r' : Registry} {t : Target} {signature : Option String}

/-- The class `c` is registered. -/
def HasClass (r : Registry) (c : ClassId) : Prop := r.classAt? c ≠ none

/-- **A well-formed registry**: all declarations are committed to types of the right forms, in
which all classes are registered. -/
structure WellFormed (r : Registry) : Prop where
  classes : ∀ c e, r.classAt? c = some e → e.WellFormed r.HasClass
  methods : ∀ m e, r.methodAt? m = some e → e.WellFormed r.HasClass
  fields : ∀ f e, r.fieldAt? f = some e → e.WellFormed r.HasClass

theorem hasClass_iff {c : ClassId} : r.HasClass c ↔ c.index < r.classes.size := by
  rw [HasClass, ne_eq, classAt?_eq_none_iff, not_le]

/-- A class that is registered stays so while the registry does not shrink. -/
theorem HasClass.mono (hsize : r.classes.size ≤ r'.classes.size) (c : ClassId)
    (h : r.HasClass c) : r'.HasClass c :=
  hasClass_iff.2 ((hasClass_iff.1 h).trans_le hsize)

/-- The classes that names are looked up to are registered. -/
theorem hasClass_of_lookup (hsize : r.classes.size ≤ r'.classes.size) {name : String} {c : ClassId}
    (h : r.lookup name = some c) : r'.HasClass c := by
  obtain ⟨e, he, -⟩ := name_of_lookup h
  exact HasClass.mono hsize c (by simp [HasClass, he])

namespace WellFormed

/-- A registry stays well-formed if it does not shrink and every entry that comes in is
well-formed. -/
theorem grow (h : r.WellFormed) (hsize : r.classes.size ≤ r'.classes.size)
    (hclasses : ∀ c e, r'.classAt? c = some e → r.classAt? c = some e ∨ e.WellFormed r'.HasClass)
    (hmethods : ∀ m e, r'.methodAt? m = some e → r.methodAt? m = some e ∨ e.WellFormed r'.HasClass)
    (hfields : ∀ f e, r'.fieldAt? f = some e → r.fieldAt? f = some e ∨ e.WellFormed r'.HasClass) :
    r'.WellFormed where
  classes c e he := (hclasses c e he).elim
    (fun he => (h.classes c e he).mono (HasClass.mono hsize)) id
  methods m e he := (hmethods m e he).elim
    (fun he => (h.methods m e he).mono (HasClass.mono hsize)) id
  fields f e he := (hfields f e he).elim
    (fun he => (h.fields f e he).mono (HasClass.mono hsize)) id

theorem modifyClass (h : r.WellFormed) {c : ClassId} {f : ClassEntry → ClassEntry}
    (hf : ∀ e, e.WellFormed r.HasClass → (f e).WellFormed r.HasClass) :
    (r.modifyClass c f).WellFormed := by
  have hsize : (r.modifyClass c f).classes.size = r.classes.size := size_modifyClass r c f
  refine h.grow hsize.ge (fun d e he => ?_) (fun _ _ => .inl) fun _ _ => .inl
  by_cases hd : d = c
  · subst hd
    rw [classAt?_modifyClass_self] at he
    obtain ⟨e₀, he₀, rfl⟩ := Option.map_eq_some_iff.1 he
    exact .inr ((hf e₀ (h.classes d e₀ he₀)).mono (HasClass.mono hsize.ge))
  · rw [classAt?_modifyClass_of_ne _ hd] at he
    exact .inl he

theorem modifyMethod (h : r.WellFormed) {m : MethodId} {f : MethodEntry → MethodEntry}
    (hf : ∀ e, e.WellFormed r.HasClass → (f e).WellFormed r.HasClass) :
    (r.modifyMethod m f).WellFormed := by
  refine h.grow le_rfl (fun _ _ => .inl) (fun n e he => ?_) fun _ _ => .inl
  rw [methodAt?_modifyMethod] at he
  split at he
  · obtain ⟨e₀, he₀, rfl⟩ := Option.map_eq_some_iff.1 he
    exact .inr (hf e₀ (h.methods m e₀ he₀))
  · exact .inl he

theorem modifyField (h : r.WellFormed) {f : FieldId} {g : FieldEntry → FieldEntry}
    (hg : ∀ e, e.WellFormed r.HasClass → (g e).WellFormed r.HasClass) :
    (r.modifyField f g).WellFormed := by
  refine h.grow le_rfl (fun _ _ => .inl) (fun _ _ => .inl) fun n e he => ?_
  rw [fieldAt?_modifyField] at he
  split at he
  · obtain ⟨e₀, he₀, rfl⟩ := Option.map_eq_some_iff.1 he
    exact .inr (hg e₀ (h.fields f e₀ he₀))
  · exact .inl he

theorem setStage (h : r.WellFormed) (stage : Stage) (t : Target) :
    (r.setStage stage t).WellFormed := by
  cases t with
  | ofClass c => exact h.modifyClass fun e he => ⟨he.bounds, he.superclass, he.interfaces⟩
  | ofMethod m =>
    exact h.modifyMethod fun e he => ⟨he.bounds, he.params, he.result, he.throws⟩
  | ofField f => exact h.modifyField fun e he => ⟨he.type⟩

theorem unmark (h : r.WellFormed) (t : Target) : (r.unmark t).WellFormed := by
  unfold Registry.unmark
  split
  · exact h.setStage _ t
  · exact h

end WellFormed

/-! ### Commits -/

theorem Advances.size_le (h : r.Advances r') : r.classes.size ≤ r'.classes.size := h.size_eq.ge

/-- **What is committed for a class is well-formed.** -/
theorem Commits.wellFormed_class {J : Registry → Prop} {c : ClassId}
    (hc : r₀.Commits J r (.ofClass c) signature r₂) (h : r.WellFormed) (hadv : r₀.Advances r) :
    r₂.WellFormed := by
  cases hc with
  | classSignature r₁ _ before after meaning =>
    have hl : (r₁.lexiconAround c).ClassesIn r.HasClass := fun _ _ =>
      hasClass_of_lookup after.1.size_le
    exact h.modifyClass fun e _ => ClassTypes.wellFormed_fill hl meaning e
  | classHeader found superclass_eq interfaces_eq =>
    have hl : (r₀.lexiconAround c).ClassesIn r.HasClass := fun _ _ =>
      hasClass_of_lookup hadv.size_le
    refine h.modifyClass fun e he => ⟨he.bounds, fun t ht => ?_, fun t ht => ?_⟩
    · obtain ⟨d, hd, rfl⟩ := Option.map_eq_some_iff.1 ht
      exact .raw (hl.classNamed_option superclass_eq d hd)
    · obtain ⟨d, hd, rfl⟩ := List.mem_map.1 ht
      exact .raw (forall_of_mapM_eq_ok (fun _ _ _ => hl.classNamed) interfaces_eq d hd)

/-- **What is committed for a method is well-formed.** -/
theorem Commits.wellFormed_method {J : Registry → Prop} {m : MethodId}
    (hc : r₀.Commits J r (.ofMethod m) signature r₂) (h : r.WellFormed) (hadv : r₀.Advances r) :
    r₂.WellFormed := by
  cases hc with
  | @methodSignature _ _ _ entry _ r₁ names parse _ before after meaning =>
    have hl : (r₁.lexiconInside entry.owner).ClassesIn r.HasClass := fun _ _ =>
      hasClass_of_lookup after.1.size_le
    have hthrown := (MethodSig.parse_eq_ok.1 parse).1.throws
    exact h.modifyMethod fun e _ => MethodTypes.wellFormed_fill hl hthrown meaning names e
  | @methodDescriptor _ entry _ _ names found params_eq result_eq =>
    have hl : (r₀.lexiconInside entry.owner).ClassesIn r.HasClass := fun _ _ =>
      hasClass_of_lookup hadv.size_le
    refine h.modifyMethod fun e he => ⟨he.bounds, fun p hp => ?_,
      Lexicon.isResult_erasedResult hl result_eq, nofun⟩
    exact forall_of_mapM_eq_ok (fun _ _ _ => Lexicon.isValue_raw hl) params_eq _
      (List.of_mem_zip hp).2

/-- **What is committed for a field is well-formed.** -/
theorem Commits.wellFormed_field {J : Registry → Prop} {f : FieldId}
    (hc : r₀.Commits J r (.ofField f) signature r₂) (h : r.WellFormed) (hadv : r₀.Advances r) :
    r₂.WellFormed := by
  cases hc with
  | @fieldSignature _ _ _ entry type r₁ _ found before after meaning =>
    have hl : (r₁.lexiconInside entry.owner).ClassesIn r.HasClass := fun _ _ =>
      hasClass_of_lookup after.1.size_le
    refine h.modifyField fun e _ => ⟨?_⟩
    rintro t ⟨⟩
    exact .reference (Lexicon.admits_typeAt hl meaning)
  | @fieldDescriptor _ entry type found meaning =>
    have hl : (r₀.lexiconInside entry.owner).ClassesIn r.HasClass := fun _ _ =>
      hasClass_of_lookup hadv.size_le
    refine h.modifyField fun e _ => ⟨?_⟩
    rintro t ⟨⟩
    exact Lexicon.isValue_raw hl meaning

/-- **Well-formedness is stable under resolutions of classes.** -/
theorem stable_wellFormed : Stable WellFormed fun _ _ => True where
  mark h _ := h.setStage .resolving _
  unmark h _ := h.setStage .unresolved _
  commit _ _ h₁ hadv _ hc := hc.wellFormed_class h₁ hadv

/-- A resolution, whatever its course, leaves a well-formed registry. -/
theorem Course.wellFormed {ok : Bool} (h : r.Course WellFormed t signature ok r₂)
    (hr : r.WellFormed) : r₂.WellFormed := by
  cases h with
  | refused => exact hr
  | failed stage during => exact (during.2 (hr.setStage .resolving t)).unmark t
  | committed stage during commits =>
    have h₁ := during.2 (hr.setStage .resolving t)
    cases t with
    | ofClass c => exact commits.wellFormed_class h₁ during.1
    | ofMethod m => exact commits.wellFormed_method h₁ during.1
    | ofField f => exact commits.wellFormed_field h₁ during.1

/-! ### Registering -/

theorem WellFormed.addClass (h : r.WellFormed) (header : ClassHeader) :
    (r.addClass header).2.WellFormed := by
  unfold Registry.addClass
  cases r.lookup (internalToBinary header.name) with
  | some c => exact h
  | none =>
    refine h.grow (by simp) (fun c e he => ?_) (fun _ _ => .inl) fun _ _ => .inl
    rw [classAt?_push] at he
    split at he
    · cases he
      refine .inr ⟨fun p hp => ?_, nofun, nofun⟩
      rw [TypeParam.bounds_of_mem_declare hp]
      exact nofun
    · exact .inl he

theorem WellFormed.addMethod (h : r.WellFormed) (owner : ClassId) (name : String)
    (descriptor : MethodDescriptor) (argNames names : List String) :
    (r.addMethod owner name descriptor argNames names).2.WellFormed := by
  let m : MethodId := ⟨r.methods.size⟩
  let entry : MethodEntry :=
    { owner, name, descriptor, argNames
      typeParams := TypeParam.declare (.ofMethod m) names
      params := [], result := none, throws := [], stage := .unresolved }
  have hpushed : { r with methods := r.methods.push entry }.WellFormed := by
    refine h.grow le_rfl (fun _ _ => .inl) (fun n e he => ?_) fun _ _ => .inl
    rw [methodAt?_push] at he
    split at he
    · cases he
      refine .inr ⟨fun p hp => ?_, nofun, nofun, nofun⟩
      rw [TypeParam.bounds_of_mem_declare hp]
      exact nofun
    · exact .inl he
  exact hpushed.modifyClass fun e he => ⟨he.bounds, he.superclass, he.interfaces⟩

theorem WellFormed.addField (h : r.WellFormed) (owner : ClassId) (name : String)
    (descriptor : FieldType) : (r.addField owner name descriptor).2.WellFormed := by
  let entry : FieldEntry := { owner, name, descriptor, type := none, stage := .unresolved }
  have hpushed : { r with fields := r.fields.push entry }.WellFormed := by
    refine h.grow le_rfl (fun _ _ => .inl) (fun _ _ => .inl) fun f e he => ?_
    rw [fieldAt?_push] at he
    split at he
    · cases he
      exact .inr ⟨nofun⟩
    · exact .inl he
  exact hpushed.modifyClass fun e he => ⟨he.bounds, he.superclass, he.interfaces⟩

theorem wellFormed_empty : ({} : Registry).WellFormed := ⟨nofun, nofun, nofun⟩

theorem wellFormed_ofHeaders (headers : List ClassHeader) : (ofHeaders headers).WellFormed := by
  have hfold : ∀ (headers : List ClassHeader) (r : Registry), r.WellFormed →
      (headers.foldl (fun r h => (r.addClass h).2) r).WellFormed := by
    intro headers
    induction headers with
    | nil => exact fun _ hr => hr
    | cons header headers ih => exact fun r hr => ih _ (hr.addClass header)
  exact hfold headers {} wellFormed_empty

/-- The class that declares a type variable that is bound is registered. -/
theorem Binds.hasClass {v : TypeVar} {c : ClassId} (h : r.Binds v) (howner : v.owner = .ofClass c) :
    r.HasClass c := by
  obtain ⟨p, hp, -⟩ := h
  rintro hnone
  simp [typeParam?, typeParams, howner, hnone] at hp

end Registry

/-! ### Sessions -/

namespace Session

variable {w : Workspace}

/-- **What one step of a session preserves.** -/
theorem Step.run_keeps_forms (h : w.registry.WellFormed) (s : Step) :
    (s.run w).2.registry.WellFormed := by
  cases s with
  | addClass header =>
    change (Workspace.addClass header w).2.registry.WellFormed
    rw [Workspace.addClass_registry]
    exact h.addClass header
  | addMethod owner name descriptor argNames names =>
    exact h.addMethod owner name descriptor argNames names
  | addField owner name descriptor => exact h.addField owner name descriptor
  | setEnclosing c enclosing | setHeader c superclass interfaces =>
    exact h.modifyClass fun e he => ⟨he.bounds, he.superclass, he.interfaces⟩
  | setStage t stage => exact h.setStage stage t
  | resolve k options t signature =>
    have hcourse := Workspace.resolve_course Registry.stable_wellFormed (k.serves_trivial _) options
      t signature w
    exact hcourse.wellFormed h

/-- What a session preserves, by induction on its steps. -/
theorem run_keeps_forms (h : w.registry.WellFormed) (steps : List Step) :
    (run steps w).2.registry.WellFormed := by
  induction steps generalizing w with
  | nil => exact h
  | cons s steps ih => exact ih (s.run_keeps_forms h)

theorem start_wellFormed (withPlatform : Bool) : (start withPlatform).registry.WellFormed := by
  cases withPlatform
  · exact Registry.wellFormed_empty
  · exact Registry.wellFormed_ofHeaders _

/-- **Whatever a session does, the committed types have the forms of their positions**, after
every step, and every class that they refer to is registered – also the class that declares a
type variable in them. -/
theorem run_wellFormed (withPlatform : Bool) (steps : List Step) :
    let r := (run steps (start withPlatform)).2.registry
    r.WellFormed ∧
      ∀ t, r.Mentions t → ∀ v ∈ t.vars, ∀ c, v.owner = .ofClass c → r.HasClass c := by
  intro r
  have hscoped := (run_wellScoped (start_wellScoped withPlatform) steps).1
  exact ⟨run_keeps_forms (start_wellFormed withPlatform) steps, fun t ht v hv _ howner =>
    (hscoped.binds t ht v hv).hasClass howner⟩

end Session

end JavaGenerics
