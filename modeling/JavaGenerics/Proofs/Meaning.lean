import JavaGenerics.Resolution.Class
import JavaGenerics.Resolution.Method
import Mathlib.Data.List.Forall2

/-!
# What a signature means

A resolution looks up one name after the other, and between two look-ups it may ask
for classes, report warnings and leave records. What it *finds* depends on none of
that: it is settled by two functions, one from binary names to classes and one from
names to type variables. A `JavaGenerics.Lexicon` is such a pair, and
`JavaGenerics.Lexicon.type`, `JavaGenerics.Lexicon.classTypes` and
`JavaGenerics.Lexicon.methodTypes` are the types – or the error – that a signature
comes to under it.

Two facts about these functions are used throughout.

* A resolved type contains no type variable that the lexicon does not give
  (`JavaGenerics.Lexicon.known_type`).
* A signature that has a meaning keeps it when the lexicon gives the same type
  variables for the names the signature takes from around it, however many more
  names it knows (`JavaGenerics.Lexicon.classTypes_mono`).
-/

namespace JavaGenerics

/-- What the names in a signature stand for. -/
structure Lexicon where
  /-- The class with a binary name. -/
  class? : String → Option ClassId
  /-- The type variable that a name stands for. -/
  var? : String → Option TypeVar

namespace Lexicon

variable (l : Lexicon)

/-! ### Meanings -/

/-- The class with a binary name, or the error that there is none. -/
def classNamed (name : String) : Except ResolveError ClassId :=
  match l.class? name with
  | some c => .ok c
  | none => .error (.unknownClass name)

mutual

/-- The type that a symbolic type comes to. -/
def type : TypeSig → Except ResolveError ResolvedType
  | .base b => .ok (.base b)
  | .void => .ok .void
  | .var name =>
    match l.var? name with
    | some v => .ok (.var v)
    | none => .error (.unknownTypeVariable name)
  | .array .void => .error (.malformed .arrayOfVoid)
  | .array elem => do return .array (← type elem)
  | .ofClass outer inner => do
    let (name, t) ← step "" none outer
    steps name t inner

/-- The name and the type that one step of a class type leads to. -/
def step (outer : String) (t : Option ResolvedType) :
    Segment → Except ResolveError (String × ResolvedType)
  | .mk segment args => do
    let name := joinName outer segment
    let c ← l.classNamed name
    let args ← types args
    pure (name, .step t c args)

/-- The type that the steps inwards from a class lead to. -/
def steps (outer : String) (t : ResolvedType) : List Segment → Except ResolveError ResolvedType
  | [] => .ok t
  | segment :: segments => do
    let (name, t) ← step outer (some t) segment
    steps name t segments

/-- What type arguments come to. -/
def types : List TypeArg → Except ResolveError (List ResolvedType)
  | [] => .ok []
  | a :: as => do
    let t ← argument a
    let ts ← types as
    pure (t :: ts)

/-- What a type argument comes to. -/
def argument : TypeArg → Except ResolveError ResolvedType
  | .unbounded => .ok .unbounded
  | .bounded variance t =>
    match Position.reference.complaint? t with
    | some cause => .error (.malformed cause)
    | none => do return .argument variance (← type t)

end

/-- The type that a symbolic type comes to at a position. -/
def typeAt (position : Position) (t : TypeSig) : Except ResolveError ResolvedType :=
  match position.complaint? t with
  | some cause => .error (.malformed cause)
  | none => l.type t

/-- The lexicon in which the type parameters of `owner` are in force as well. -/
def declare (owner : Declarer) (params : List TypeParamSig) : Lexicon :=
  { l with var? := fun name =>
      (((params.map (·.name)).idxOf? name).map (TypeVar.mk owner)).or (l.var? name) }

/-- What the type parameters of `owner` come to, the first of which is at position
`first`. -/
def params (owner : Declarer) (first : Nat) :
    List TypeParamSig → Except ResolveError (List TypeParam)
  | [] => .ok []
  | p :: ps => do
    let bounds ← p.bounds.mapM (l.typeAt .reference)
    let rest ← params owner (first + 1) ps
    pure (⟨p.name, ⟨owner, first⟩, bounds⟩ :: rest)

/-- What the type parameters that `owner` introduces come to, some of which are perhaps
declared already. -/
def introduce (declared : List TypeParam) (owner : Declarer) (ps : List TypeParamSig) :
    Except ResolveError (List TypeParam) := do
  checkDistinct ps
  checkDeclared declared ps
  (l.declare owner ps).params owner 0 ps

/-- What the signature of a class comes to; some of its type parameters are perhaps
declared already. -/
def classTypes (declared : List TypeParam) (c : ClassId) (sig : ClassSig) :
    Except ResolveError ClassTypes := do
  let typeParams ← l.introduce declared (.ofClass c) sig.typeParams
  let inside := l.declare (.ofClass c) sig.typeParams
  let superclass ← inside.typeAt .classType sig.superclass
  let interfaces ← sig.interfaces.mapM (inside.typeAt .classType)
  pure ⟨typeParams, superclass, interfaces⟩

/-- What the signature of a method comes to. -/
def methodTypes (declared : List TypeParam) (m : MethodId) (sig : MethodSig) :
    Except ResolveError MethodTypes := do
  let typeParams ← l.introduce declared (.ofMethod m) sig.typeParams
  let inside := l.declare (.ofMethod m) sig.typeParams
  let params ← sig.params.mapM (inside.typeAt .param)
  let result ← inside.type sig.result
  let throws ← sig.throws.mapM (inside.typeAt .reference)
  pure ⟨typeParams, params, result, throws⟩

/-- What an erased type comes to. -/
def raw : FieldType → Except ResolveError ResolvedType
  | .base b => .ok (.base b)
  | .object name => do return .raw (← l.classNamed (internalToBinary name))
  | .array elem => do return .array (← raw elem)

/-- What the result in the descriptor of a method comes to; a constructor has none. -/
def erasedResult (m : MethodEntry) : Except ResolveError (Option ResolvedType) :=
  if m.isConstructor then .ok none
  else
    match m.descriptor.result with
    | none => .ok (some .void)
    | some erased => do return some (← l.raw erased)

end Lexicon

/-! ### Where an `Except` ends well -/

theorem isOk_iff_exists {ε α : Type} {x : Except ε α} : x.isOk = true ↔ ∃ a, x = .ok a := by
  cases x <;> simp [Except.isOk, Except.toBool]

theorem bind_eq_ok {α β : Type} {x : Except ResolveError α} {f : α → Except ResolveError β}
    {b : β} : (x >>= f) = .ok b ↔ ∃ a, x = .ok a ∧ f a = .ok b := by
  cases x with
  | error e => simp [bind, Except.bind]
  | ok a => simp [bind, Except.bind]

theorem mapM_eq_ok {α β : Type} {f : α → Except ResolveError β} {as : List α} {bs : List β} :
    as.mapM f = .ok bs ↔ List.Forall₂ (fun a b => f a = .ok b) as bs := by
  induction as generalizing bs with
  | nil =>
    rw [List.mapM_nil]
    constructor
    · intro h
      cases h
      exact .nil
    · rintro ⟨⟩
      rfl
  | cons a as ih =>
    rw [List.mapM_cons, bind_eq_ok]
    constructor
    · rintro ⟨b, hb, h⟩
      obtain ⟨bs', hbs, h⟩ := bind_eq_ok.1 h
      cases h
      exact .cons hb (ih.1 hbs)
    · rintro (_ | ⟨hb, hbs⟩)
      exact ⟨_, hb, bind_eq_ok.2 ⟨_, ih.2 hbs, rfl⟩⟩

theorem forall_of_mapM_eq_ok {α β : Type} {f : α → Except ResolveError β} {P : β → Prop}
    {as : List α} {bs : List β} (hf : ∀ a ∈ as, ∀ b, f a = .ok b → P b)
    (h : as.mapM f = .ok bs) : ∀ b ∈ bs, P b := by
  have hall := mapM_eq_ok.1 h
  clear h
  induction hall with
  | nil => simp
  | cons hab _ ih =>
    obtain ⟨ha, has⟩ := List.forall_mem_cons.1 hf
    exact List.forall_mem_cons.2 ⟨ha _ hab, ih has⟩

theorem mapM_mono {α β : Type} {f g : α → Except ResolveError β} {as : List α} {bs : List β}
    (hfg : ∀ a ∈ as, ∀ b, f a = .ok b → g a = .ok b) (h : as.mapM f = .ok bs) :
    as.mapM g = .ok bs := by
  have hall := mapM_eq_ok.1 h
  clear h
  refine mapM_eq_ok.2 ?_
  induction hall with
  | nil => exact .nil
  | cons hab _ ih =>
    exact .cons (hfg _ List.mem_cons_self _ hab)
      (ih fun a ha => hfg a (List.mem_cons_of_mem _ ha))

/-! ### The type variables in a type -/

mutual

/-- The type variables in a resolved type. -/
def ResolvedType.vars : ResolvedType → List TypeVar
  | .base _ => []
  | .void => []
  | .raw _ => []
  | .parameterized _ args => varsAll args
  | .member outer _ args => vars outer ++ varsAll args
  | .var v => [v]
  | .array elem => vars elem
  | .unbounded => []
  | .upper bound => vars bound
  | .lower bound => vars bound

/-- The type variables in some resolved types. -/
def ResolvedType.varsAll : List ResolvedType → List TypeVar
  | [] => []
  | t :: ts => vars t ++ varsAll ts

end

theorem ResolvedType.mem_varsAll {v : TypeVar} {ts : List ResolvedType} :
    v ∈ varsAll ts ↔ ∃ t ∈ ts, v ∈ t.vars := by
  induction ts with
  | nil => simp [varsAll]
  | cons t ts ih => simp [varsAll, ih]

/-- The type variables of a step are those of its outer type and its arguments. -/
theorem ResolvedType.vars_step {v : TypeVar} {outer : Option ResolvedType} {c : ClassId}
    {args : List ResolvedType} (h : v ∈ (ResolvedType.step outer c args).vars) :
    (∃ t, outer = some t ∧ v ∈ t.vars) ∨ v ∈ varsAll args := by
  unfold ResolvedType.step at h
  split at h
  · rename_i t ht
    rw [Option.filter_eq_some_iff] at ht
    rw [vars, List.mem_append] at h
    exact h.imp (fun hv => ⟨t, ht.1, hv⟩) id
  · split at h
    · simp [vars] at h
    · exact Or.inr (by simpa [vars] using h)

theorem ResolvedType.vars_argument (variance : Variance) (t : ResolvedType) :
    (ResolvedType.argument variance t).vars = t.vars := by
  cases variance <;> simp [ResolvedType.argument, vars]

namespace Lexicon

variable {l l' : Lexicon}

theorem classNamed_eq_ok {name : String} {c : ClassId} :
    l.classNamed name = .ok c ↔ l.class? name = some c := by
  unfold classNamed
  cases l.class? name <;> simp

theorem type_array_eq_ok {s : TypeSig} {t : ResolvedType} :
    l.type (.array s) = .ok t ↔ s ≠ .void ∧ ∃ e, l.type s = .ok e ∧ t = .array e := by
  by_cases hs : s = .void
  · subst hs
    simp [type]
  · rw [type.eq_5 l s hs, bind_eq_ok]
    simp only [pure, Except.pure, Except.ok.injEq, hs, ne_eq, not_false_eq_true, true_and]
    exact ⟨fun ⟨e, he, h⟩ => ⟨e, he, h.symm⟩, fun ⟨e, he, h⟩ => ⟨e, he, h.symm⟩⟩

theorem length_types {as : List TypeArg} {ts : List ResolvedType} (h : l.types as = .ok ts) :
    ts.length = as.length := by
  induction as generalizing ts with
  | nil =>
    simp only [types] at h
    cases h
    rfl
  | cons a as ih =>
    simp only [types] at h
    obtain ⟨t, -, h⟩ := bind_eq_ok.1 h
    obtain ⟨rest, hrest, h⟩ := bind_eq_ok.1 h
    cases h
    exact congrArg (· + 1) (ih hrest)

/-- Every type variable that a lexicon gives is one of `K`. -/
def Known (l : Lexicon) (K : TypeVar → Prop) : Prop :=
  ∀ name v, l.var? name = some v → K v

mutual

theorem known_type {K : TypeVar → Prop} (hl : l.Known K) :
    ∀ {s : TypeSig} {t : ResolvedType}, l.type s = .ok t → ∀ v ∈ t.vars, K v
  | .base b, t, h => by cases h; simp [ResolvedType.vars]
  | .void, t, h => by cases h; simp [ResolvedType.vars]
  | .var name, t, h => by
    simp only [type] at h
    split at h
    · rename_i v hv
      cases h
      simpa [ResolvedType.vars] using hl name v hv
    · cases h
  | .array elem, t, h => by
    obtain ⟨-, e, he, rfl⟩ := type_array_eq_ok.1 h
    simpa [ResolvedType.vars] using known_type hl he
  | .ofClass outer inner, t, h => by
    simp only [type] at h
    obtain ⟨⟨name, u⟩, hu, h⟩ := bind_eq_ok.1 h
    exact known_steps hl (known_step hl (by simp) hu) h

theorem known_step {K : TypeVar → Prop} (hl : l.Known K) {outer : Option ResolvedType}
    (ho : ∀ t, outer = some t → ∀ v ∈ t.vars, K v) :
    ∀ {s : Segment} {name : String} {r : String × ResolvedType},
      l.step name outer s = .ok r → ∀ v ∈ r.2.vars, K v
  | .mk segment args, name, r, h => by
    simp only [step] at h
    obtain ⟨c, -, h⟩ := bind_eq_ok.1 h
    obtain ⟨ts, hts, h⟩ := bind_eq_ok.1 h
    cases h
    intro v hv
    rcases ResolvedType.vars_step hv with ⟨t, ht, hv⟩ | hv
    · exact ho t ht v hv
    · obtain ⟨t, ht, hv⟩ := ResolvedType.mem_varsAll.1 hv
      exact known_types hl hts t ht v hv

theorem known_steps {K : TypeVar → Prop} (hl : l.Known K) {name : String} {u : ResolvedType}
    (hu : ∀ v ∈ u.vars, K v) :
    ∀ {ss : List Segment} {t : ResolvedType}, l.steps name u ss = .ok t → ∀ v ∈ t.vars, K v
  | [], t, h => by
    simp only [steps] at h
    cases h
    exact hu
  | s :: ss, t, h => by
    simp only [steps] at h
    obtain ⟨⟨name', u'⟩, hu', h⟩ := bind_eq_ok.1 h
    refine known_steps hl (known_step hl ?_ hu') h
    rintro _ ⟨⟩
    exact hu

theorem known_types {K : TypeVar → Prop} (hl : l.Known K) :
    ∀ {as : List TypeArg} {ts : List ResolvedType}, l.types as = .ok ts →
      ∀ t ∈ ts, ∀ v ∈ t.vars, K v
  | [], ts, h => by
    simp only [types] at h
    cases h
    simp
  | a :: as, ts, h => by
    simp only [types] at h
    obtain ⟨t, ht, h⟩ := bind_eq_ok.1 h
    obtain ⟨ts', hts, h⟩ := bind_eq_ok.1 h
    cases h
    simp only [List.mem_cons, forall_eq_or_imp]
    exact ⟨known_argument hl ht, known_types hl hts⟩

theorem known_argument {K : TypeVar → Prop} (hl : l.Known K) :
    ∀ {a : TypeArg} {t : ResolvedType}, l.argument a = .ok t → ∀ v ∈ t.vars, K v
  | .unbounded, t, h => by
    simp only [argument] at h
    cases h
    simp [ResolvedType.vars]
  | .bounded variance s, t, h => by
    simp only [argument] at h
    split at h
    · cases h
    · obtain ⟨u, hu, h⟩ := bind_eq_ok.1 h
      cases h
      rw [ResolvedType.vars_argument]
      exact known_type hl hu

end

end Lexicon

/-! ### The names that a signature uses -/

mutual

/-- The names of type variables in a symbolic type. -/
def TypeSig.varNames : TypeSig → List String
  | .base _ => []
  | .void => []
  | .var name => [name]
  | .array elem => elem.varNames
  | .ofClass outer inner => outer.varNames ++ Segment.varNamesAll inner

/-- The names of type variables in one step of a class type. -/
def Segment.varNames : Segment → List String
  | .mk _ args => TypeArg.varNamesAll args

/-- The names of type variables in the steps of a class type. -/
def Segment.varNamesAll : List Segment → List String
  | [] => []
  | s :: ss => s.varNames ++ Segment.varNamesAll ss

/-- The names of type variables in some type arguments. -/
def TypeArg.varNamesAll : List TypeArg → List String
  | [] => []
  | a :: as => a.varNames ++ TypeArg.varNamesAll as

/-- The names of type variables in a type argument. -/
def TypeArg.varNames : TypeArg → List String
  | .unbounded => []
  | .bounded _ t => t.varNames

end

/-- The names of type variables in the signature of a class that it does not declare
itself. -/
def ClassSig.borrowedNames (sig : ClassSig) : List String :=
  ((sig.typeParams.flatMap fun p => p.bounds.flatMap TypeSig.varNames)
    ++ sig.superclass.varNames ++ sig.interfaces.flatMap TypeSig.varNames).filter
      (· ∉ sig.typeParams.map (·.name))

namespace Lexicon

variable {l l' : Lexicon}

/-- `l'` gives the classes that `l` gives, and for the names in `names` also its type
variables. -/
structure Refines (l l' : Lexicon) (names : List String) : Prop where
  class?_eq : l'.class? = l.class?
  var?_le : ∀ name ∈ names, ∀ v, l.var? name = some v → l'.var? name = some v

theorem Refines.mono {names names' : List String} (h : l.Refines l' names')
    (hn : ∀ name ∈ names, name ∈ names') : l.Refines l' names :=
  ⟨h.class?_eq, fun name hm => h.var?_le name (hn name hm)⟩

/-- Lexicons that give the same classes fail to find the same ones. -/
theorem classNamed_congr (h : l'.class? = l.class?) : l'.classNamed = l.classNamed := by
  funext name
  unfold Lexicon.classNamed
  rw [h]

mutual

/-- A type that has a meaning keeps it in a richer lexicon. -/
theorem type_mono : ∀ {s : TypeSig} {t : ResolvedType}, l.Refines l' s.varNames →
    l.type s = .ok t → l'.type s = .ok t
  | .base b, t, _, h => h
  | .void, t, _, h => h
  | .var name, t, hr, h => by
    simp only [type] at h ⊢
    split at h
    · rename_i v hv
      rw [hr.var?_le name (by simp [TypeSig.varNames]) v hv]
      exact h
    · cases h
  | .array elem, t, hr, h => by
    obtain ⟨hne, e, he, rfl⟩ := type_array_eq_ok.1 h
    exact type_array_eq_ok.2 ⟨hne, e, type_mono hr he, rfl⟩
  | .ofClass outer inner, t, hr, h => by
    simp only [type] at h ⊢
    obtain ⟨r, hs, h⟩ := bind_eq_ok.1 h
    refine bind_eq_ok.2 ⟨r, step_mono (hr.mono fun name hm => ?_) hs,
      steps_mono (hr.mono fun name hm => ?_) h⟩
    · exact List.mem_append_left _ hm
    · exact List.mem_append_right _ hm

theorem step_mono : ∀ {s : Segment} {name : String} {outer : Option ResolvedType}
    {r : String × ResolvedType}, l.Refines l' s.varNames →
    l.step name outer s = .ok r → l'.step name outer s = .ok r
  | .mk segment args, name, outer, r, hr, h => by
    simp only [step] at h ⊢
    obtain ⟨c, hc, h⟩ := bind_eq_ok.1 h
    obtain ⟨ts, hts, h⟩ := bind_eq_ok.1 h
    exact bind_eq_ok.2 ⟨c, by rw [classNamed_congr hr.class?_eq, hc],
      bind_eq_ok.2 ⟨ts, types_mono hr hts, h⟩⟩

theorem steps_mono : ∀ {ss : List Segment} {name : String} {u t : ResolvedType},
    l.Refines l' (Segment.varNamesAll ss) → l.steps name u ss = .ok t →
    l'.steps name u ss = .ok t
  | [], name, u, t, _, h => by simpa only [steps] using h
  | s :: ss, name, u, t, hr, h => by
    simp only [steps] at h ⊢
    obtain ⟨r, hs, h⟩ := bind_eq_ok.1 h
    refine bind_eq_ok.2 ⟨r, step_mono (hr.mono fun name hm => ?_) hs,
      steps_mono (hr.mono fun name hm => ?_) h⟩
    · exact List.mem_append_left _ hm
    · exact List.mem_append_right _ hm

theorem types_mono : ∀ {as : List TypeArg} {ts : List ResolvedType},
    l.Refines l' (TypeArg.varNamesAll as) → l.types as = .ok ts → l'.types as = .ok ts
  | [], ts, _, h => by simpa only [types] using h
  | a :: as, ts, hr, h => by
    simp only [types] at h ⊢
    obtain ⟨t, ht, h⟩ := bind_eq_ok.1 h
    obtain ⟨ts', hts, h⟩ := bind_eq_ok.1 h
    refine bind_eq_ok.2 ⟨t, argument_mono (hr.mono fun name hm => ?_) ht,
      bind_eq_ok.2 ⟨ts', types_mono (hr.mono fun name hm => ?_) hts, h⟩⟩
    · exact List.mem_append_left _ hm
    · exact List.mem_append_right _ hm

theorem argument_mono : ∀ {a : TypeArg} {t : ResolvedType}, l.Refines l' a.varNames →
    l.argument a = .ok t → l'.argument a = .ok t
  | .unbounded, t, _, h => by simpa only [argument] using h
  | .bounded variance s, t, hr, h => by
    simp only [argument] at h ⊢
    split at h
    · cases h
    · obtain ⟨u, hu, h⟩ := bind_eq_ok.1 h
      exact bind_eq_ok.2 ⟨u, type_mono hr hu, h⟩

end

theorem typeAt_eq_ok {position : Position} {s : TypeSig} {t : ResolvedType} :
    l.typeAt position s = .ok t ↔ position.complaint? s = none ∧ l.type s = .ok t := by
  unfold typeAt
  split
  · rename_i hc
    simp [hc]
  · rename_i hc
    simp [hc]

theorem known_typeAt {K : TypeVar → Prop} (hl : l.Known K) {position : Position} {s : TypeSig}
    {t : ResolvedType} (h : l.typeAt position s = .ok t) : ∀ v ∈ t.vars, K v :=
  known_type hl (typeAt_eq_ok.1 h).2

theorem typeAt_mono {position : Position} {s : TypeSig} {t : ResolvedType}
    (hr : l.Refines l' s.varNames) (h : l.typeAt position s = .ok t) :
    l'.typeAt position s = .ok t :=
  typeAt_eq_ok.2 ⟨(typeAt_eq_ok.1 h).1, type_mono hr (typeAt_eq_ok.1 h).2⟩

/-! ### Type parameters -/

theorem known_declare {K : TypeVar → Prop} (hl : l.Known K) {owner : Declarer}
    {ps : List TypeParamSig} (hp : ∀ i < ps.length, K ⟨owner, i⟩) :
    (l.declare owner ps).Known K := by
  intro name v hv
  rcases Option.or_eq_some_iff.1 hv with hv | ⟨-, hv⟩
  · obtain ⟨i, hi, rfl⟩ := Option.map_eq_some_iff.1 hv
    obtain ⟨hlt, -⟩ := List.findIdx?_eq_some_iff_getElem.1 hi
    exact hp i (by simpa using hlt)
  · exact hl name v hv

/-- A lexicon that is richer outside is richer inside, and there also for the names
that are declared. -/
theorem Refines.declare {names names' : List String} (h : l.Refines l' names')
    {owner : Declarer} {ps : List TypeParamSig}
    (hn : ∀ name ∈ names, name ∉ ps.map (·.name) → name ∈ names') :
    (l.declare owner ps).Refines (l'.declare owner ps) names := by
  refine ⟨h.class?_eq, fun name hm v hv => ?_⟩
  -- a declared name is found inside, any other one is looked for outside
  rcases Option.or_eq_some_iff.1 hv with hv | ⟨hno, hv⟩
  · exact Option.or_eq_some_iff.2 (Or.inl hv)
  · refine Option.or_eq_some_iff.2 (Or.inr ⟨hno, h.var?_le name (hn name hm fun hin => ?_) v hv⟩)
    rw [Option.map_eq_none_iff, List.idxOf?_eq_none_iff] at hno
    exact hno hin

/-- Type parameters come to what the first one and the others come to. -/
theorem params_cons_eq_ok {owner : Declarer} {first : Nat} {p : TypeParamSig}
    {ps : List TypeParamSig} {tps : List TypeParam} :
    l.params owner first (p :: ps) = .ok tps ↔ ∃ bounds rest,
      p.bounds.mapM (l.typeAt .reference) = .ok bounds ∧
        l.params owner (first + 1) ps = .ok rest ∧
        tps = ⟨p.name, ⟨owner, first⟩, bounds⟩ :: rest := by
  rw [params, bind_eq_ok]
  constructor
  · rintro ⟨bounds, hbounds, h⟩
    obtain ⟨rest, hrest, h⟩ := bind_eq_ok.1 h
    cases h
    exact ⟨bounds, rest, hbounds, hrest, rfl⟩
  · rintro ⟨bounds, rest, hbounds, hrest, rfl⟩
    exact ⟨bounds, hbounds, bind_eq_ok.2 ⟨rest, hrest, rfl⟩⟩

theorem params_vars {owner : Declarer} {first : Nat} {ps : List TypeParamSig}
    {tps : List TypeParam} (h : l.params owner first ps = .ok tps) :
    tps.map (·.var) = (List.range' first ps.length).map (TypeVar.mk owner) := by
  induction ps generalizing first tps with
  | nil => cases h; rfl
  | cons p ps ih =>
    obtain ⟨bounds, rest, -, hrest, rfl⟩ := params_cons_eq_ok.1 h
    rw [List.length_cons, List.range'_succ, List.map_cons, List.map_cons, ih hrest]

theorem params_names {owner : Declarer} {first : Nat} {ps : List TypeParamSig}
    {tps : List TypeParam} (h : l.params owner first ps = .ok tps) :
    tps.map (·.name) = ps.map (·.name) := by
  induction ps generalizing first tps with
  | nil => cases h; rfl
  | cons p ps ih =>
    obtain ⟨bounds, rest, -, hrest, rfl⟩ := params_cons_eq_ok.1 h
    rw [List.map_cons, List.map_cons, ih hrest]

/-- What holds of all types that stand for references holds of all bounds. -/
theorem forall_bounds_of_params {P : ResolvedType → Prop}
    (hP : ∀ s t, l.typeAt .reference s = .ok t → P t) {owner : Declarer} {first : Nat}
    {ps : List TypeParamSig} {tps : List TypeParam} (h : l.params owner first ps = .ok tps) :
    ∀ p ∈ tps, ∀ t ∈ p.bounds, P t := by
  induction ps generalizing first tps with
  | nil => cases h; simp
  | cons p ps ih =>
    obtain ⟨bounds, rest, hb, hrest, rfl⟩ := params_cons_eq_ok.1 h
    exact List.forall_mem_cons.2 ⟨forall_of_mapM_eq_ok (fun s _ => hP s) hb, ih hrest⟩

theorem known_params {K : TypeVar → Prop} (hl : l.Known K) {owner : Declarer} {first : Nat}
    {ps : List TypeParamSig} {tps : List TypeParam} (h : l.params owner first ps = .ok tps) :
    ∀ p ∈ tps, ∀ t ∈ p.bounds, ∀ v ∈ t.vars, K v :=
  forall_bounds_of_params (fun _ _ => known_typeAt hl) h

theorem params_mono {owner : Declarer} {first : Nat} {ps : List TypeParamSig}
    {tps : List TypeParam}
    (hr : l.Refines l' (ps.flatMap fun p => p.bounds.flatMap TypeSig.varNames))
    (h : l.params owner first ps = .ok tps) : l'.params owner first ps = .ok tps := by
  induction ps generalizing first tps with
  | nil => exact h
  | cons p ps ih =>
    obtain ⟨bounds, rest, hb, hrest, rfl⟩ := params_cons_eq_ok.1 h
    rw [List.flatMap_cons] at hr
    refine params_cons_eq_ok.2 ⟨bounds, rest,
      mapM_mono (fun s hs t => typeAt_mono (hr.mono ?_)) hb,
      ih (hr.mono fun name => List.mem_append_right _) hrest, rfl⟩
    exact fun name hm => List.mem_append_left _ (List.mem_flatMap.2 ⟨s, hs, hm⟩)

theorem checkDeclared_eq_ok {declared : List TypeParam} {ps : List TypeParamSig} :
    checkDeclared declared ps = .ok () ↔
      declared = [] ∨ ps.map (·.name) = declared.map (·.name) := by
  rw [show ps.map (·.name) = declared.map (·.name) ↔ declared.map (·.name) = ps.map (·.name) from
    eq_comm]
  unfold checkDeclared
  dsimp only
  split <;> simp_all

theorem introduce_eq_ok {declared : List TypeParam} {owner : Declarer}
    {ps : List TypeParamSig} {tps : List TypeParam} :
    l.introduce declared owner ps = .ok tps ↔ checkDistinct ps = .ok () ∧
      checkDeclared declared ps = .ok () ∧ (l.declare owner ps).params owner 0 ps = .ok tps := by
  unfold introduce
  rw [bind_eq_ok]
  constructor
  · rintro ⟨⟨⟩, hd, h⟩
    obtain ⟨⟨⟩, hc, h⟩ := bind_eq_ok.1 h
    exact ⟨hd, hc, h⟩
  · rintro ⟨hd, hc, h⟩
    exact ⟨(), hd, bind_eq_ok.2 ⟨(), hc, h⟩⟩

/-! ### Signatures of classes and methods -/

theorem classTypes_eq_ok {declared : List TypeParam} {c : ClassId} {sig : ClassSig}
    {types : ClassTypes} :
    l.classTypes declared c sig = .ok types ↔
      l.introduce declared (.ofClass c) sig.typeParams = .ok types.typeParams ∧
      (l.declare (.ofClass c) sig.typeParams).typeAt .classType sig.superclass
        = .ok types.superclass ∧
      sig.interfaces.mapM ((l.declare (.ofClass c) sig.typeParams).typeAt .classType)
        = .ok types.interfaces := by
  unfold classTypes
  rw [bind_eq_ok]
  constructor
  · rintro ⟨tps, htps, h⟩
    obtain ⟨superclass, hs, h⟩ := bind_eq_ok.1 h
    obtain ⟨interfaces, hi, h⟩ := bind_eq_ok.1 h
    cases h
    exact ⟨htps, hs, hi⟩
  · rintro ⟨htps, hs, hi⟩
    exact ⟨_, htps, bind_eq_ok.2 ⟨_, hs, bind_eq_ok.2 ⟨_, hi, rfl⟩⟩⟩

theorem methodTypes_eq_ok {declared : List TypeParam} {m : MethodId} {sig : MethodSig}
    {types : MethodTypes} :
    l.methodTypes declared m sig = .ok types ↔
      l.introduce declared (.ofMethod m) sig.typeParams = .ok types.typeParams ∧
      sig.params.mapM ((l.declare (.ofMethod m) sig.typeParams).typeAt .param)
        = .ok types.params ∧
      (l.declare (.ofMethod m) sig.typeParams).type sig.result = .ok types.result ∧
      sig.throws.mapM ((l.declare (.ofMethod m) sig.typeParams).typeAt .reference)
        = .ok types.throws := by
  unfold methodTypes
  rw [bind_eq_ok]
  constructor
  · rintro ⟨tps, htps, h⟩
    obtain ⟨params, hp, h⟩ := bind_eq_ok.1 h
    obtain ⟨result, hr, h⟩ := bind_eq_ok.1 h
    obtain ⟨throws, ht, h⟩ := bind_eq_ok.1 h
    cases h
    exact ⟨htps, hp, hr, ht⟩
  · rintro ⟨htps, hp, hr, ht⟩
    exact ⟨_, htps, bind_eq_ok.2 ⟨_, hp, bind_eq_ok.2 ⟨_, hr, bind_eq_ok.2 ⟨_, ht, rfl⟩⟩⟩⟩

/-- **A class signature that has a meaning keeps it in a richer lexicon**, where only
the names count that it takes from around it. -/
theorem classTypes_mono {declared : List TypeParam} {c : ClassId} {sig : ClassSig}
    {types : ClassTypes} (hr : l.Refines l' sig.borrowedNames)
    (h : l.classTypes declared c sig = .ok types) :
    l'.classTypes declared c sig = .ok types := by
  obtain ⟨htps, hs, hi⟩ := classTypes_eq_ok.1 h
  obtain ⟨hd, hc, hp⟩ := introduce_eq_ok.1 htps
  -- inside, all names of the signature count: those it declares come out alike, and the
  -- others are borrowed
  have inside : ∀ names : List String,
      (∀ name ∈ names, name ∈ (sig.typeParams.flatMap fun p => p.bounds.flatMap TypeSig.varNames)
        ++ sig.superclass.varNames ++ sig.interfaces.flatMap TypeSig.varNames) →
      (l.declare (.ofClass c) sig.typeParams).Refines
        (l'.declare (.ofClass c) sig.typeParams) names := fun names hn =>
    hr.declare fun name hm hno => List.mem_filter.2 ⟨hn name hm, by simpa using hno⟩
  refine classTypes_eq_ok.2 ⟨introduce_eq_ok.2 ⟨hd, hc, params_mono (inside _ ?_) hp⟩,
    typeAt_mono (inside _ ?_) hs, mapM_mono (fun s hm t => typeAt_mono (inside _ ?_)) hi⟩
  · exact fun name hn => List.mem_append_left _ (List.mem_append_left _ hn)
  · exact fun name hn => List.mem_append_left _ (List.mem_append_right _ hn)
  · exact fun name hn => List.mem_append_right _ (List.mem_flatMap.2 ⟨s, hm, hn⟩)

end Lexicon

end JavaGenerics
