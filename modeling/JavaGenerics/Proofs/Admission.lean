import JavaGenerics.Proofs.Definedness
import JavaGenerics.Proofs.Nesting
import Mathlib.Logic.Relation

/-!
# What a registry admits

Whether a signature fits a declaration can be said in terms of the registry and of the
signature alone, and in the same words for classes, methods and fields
(`JavaGenerics.Registry.Admits`): the type parameters are declared once and under the
names they have already, every class is registered, every type variable is declared by the
signature or around it, and, if a check is made, the signature erases to what the class
file records. Whatever is missing is an error that the registry *objects* to the signature
with (`JavaGenerics.Registry.Objects`).

Two things have to be shown before a resolution can be held against this. The classes
around a declaration are found by a walk along links that may lead in a circle; it finds
all of them (`JavaGenerics.Registry.mem_enclosingChain_iff`), so a lexicon gives exactly the
names that are in force (`JavaGenerics.Registry.objects_iff`). And a resolution finds its
own declaration marked, which is no matter to any of this
(`JavaGenerics.Registry.objects_setStage`).
-/

namespace JavaGenerics

/-! ### Signatures of declarations -/

/-- What the signature of a declaration is read into. -/
def Target.Signature : Target → Type
  | .ofClass _ => ClassSig
  | .ofMethod _ => MethodSig
  | .ofField _ => TypeSig

/-- Reads the text of the signature of a declaration. -/
def Target.parse : (t : Target) → String → Except SyntaxError t.Signature
  | .ofClass _, text => ClassSig.parse text
  | .ofMethod _, text => MethodSig.parse text
  | .ofField _, text => TypeSig.parse text

namespace Target.Signature

/-- The names of the type parameters that a signature declares. -/
def paramNames : {t : Target} → t.Signature → List String
  | .ofClass _, (sig : ClassSig) => sig.typeParams.map (·.name)
  | .ofMethod _, (sig : MethodSig) => sig.typeParams.map (·.name)
  | .ofField _, _ => []

/-- All types in a signature. -/
def types : {t : Target} → t.Signature → List TypeSig
  | .ofClass _, (sig : ClassSig) => sig.types
  | .ofMethod _, (sig : MethodSig) => sig.types
  | .ofField _, (sig : TypeSig) => [sig]

/-- The binary names of the classes in a signature. -/
def classNames {t : Target} (sig : t.Signature) : List String :=
  sig.types.flatMap TypeSig.classNames

/-- The names of the type variables in a signature. -/
def varNames {t : Target} (sig : t.Signature) : List String :=
  sig.types.flatMap TypeSig.varNames

end Target.Signature

/-! ### What a registry admits -/

namespace Registry

/-- Whether a class is registered under a binary name. -/
def Registers (r : Registry) (name : String) : Prop := ∃ e ∈ r.classes, e.name = name

/-- Whether the links outwards lead from a class to another. -/
def LiesIn (r : Registry) : ClassId → ClassId → Prop :=
  Relation.TransGen fun c outer => r.enclosing? c = some outer

/-- **The classes whose type parameters are in force** where the signature of a declaration
stands: for a class those around it, and for a member its owner and those around that.
A class does not lie in itself, even if the links lead in a circle. -/
def InForce (r : Registry) : Target → ClassId → Prop
  | .ofClass c, outer => outer ≠ c ∧ r.LiesIn c outer
  | .ofMethod m, outer => ∃ owner, (r.methodAt? m).map (·.owner) = some owner ∧
      (outer = owner ∨ r.LiesIn owner outer)
  | .ofField f, outer => ∃ owner, (r.fieldAt? f).map (·.owner) = some owner ∧
      (outer = owner ∨ r.LiesIn owner outer)

/-- The names of the type parameters that a class declares. -/
def paramNames (r : Registry) (c : ClassId) : List String :=
  (r.typeParams (.ofClass c)).map (·.name)

/-- The names of the type parameters that a declaration has already. -/
def declaredNames (r : Registry) : Target → List String
  | .ofClass c => r.paramNames c
  | .ofMethod m => (r.typeParams (.ofMethod m)).map (·.name)
  | .ofField _ => []

/-- **Whether a signature erases to what the class file records**: for a class its
superclass and its interfaces, where a superclass is recorded, and for a member its
descriptor. -/
def Erases (r : Registry) : (t : Target) → t.Signature → Prop
  | .ofClass c, (sig : ClassSig) => ∀ entry erased, r.classAt? c = some entry →
      entry.erasedSuper = some erased → sig.superclass.erasedName? = some erased ∧
        sig.interfaces.filterMap TypeSig.erasedName? = entry.erasedInterfaces
  | .ofMethod m, (sig : MethodSig) => ∀ entry, r.methodAt? m = some entry →
      r.MethodAgrees entry (sig.params.map TypeSig.erasure) sig.result.erasure
  | .ofField f, (sig : TypeSig) => ∀ entry, r.fieldAt? f = some entry →
      sig.erasure.Fits entry.descriptor

/-- **What a registry admits as the signature of a declaration.** -/
structure Admits (r : Registry) (verify : Bool) (t : Target) (sig : t.Signature) : Prop where
  distinct : sig.paramNames.Nodup
  /-- Type parameters that are declared already are declared again. -/
  declared : r.declaredNames t = [] ∨ sig.paramNames = r.declaredNames t
  classes : ∀ name ∈ sig.classNames, r.Registers name
  /-- A type variable is declared by the signature or around it. -/
  vars : ∀ name ∈ sig.varNames, name ∈ sig.paramNames ∨
    ∃ c, r.InForce t c ∧ name ∈ r.paramNames c
  erased : verify = true → r.Erases t sig

/-- **What a registry has to object** to a signature: the errors for all that keeps it from
being admitted. -/
inductive Objects (r : Registry) (verify : Bool) (t : Target) (sig : t.Signature) :
    ResolveError → Prop where
  | duplicate {name : String} (twice : sig.paramNames.Duplicate name) :
      Objects r verify t sig (.malformed (.duplicateTypeParam name))
  | differ (already : r.declaredNames t ≠ []) (ne : sig.paramNames ≠ r.declaredNames t) :
      Objects r verify t sig (.mismatch (.typeParams sig.paramNames (r.declaredNames t)))
  | unknownClass {name : String} (used : name ∈ sig.classNames) (missing : ¬r.Registers name) :
      Objects r verify t sig (.unknownClass name)
  | unknownTypeVariable {name : String} (used : name ∈ sig.varNames)
      (missing : ¬(name ∈ sig.paramNames ∨ ∃ c, r.InForce t c ∧ name ∈ r.paramNames c)) :
      Objects r verify t sig (.unknownTypeVariable name)
  | erasure (cause : Mismatch) (verified : verify = true) (disagrees : ¬r.Erases t sig) :
      Objects r verify t sig (.mismatch cause)

variable {r : Registry} {verify : Bool} {t : Target} {sig : t.Signature}

/-- A registry admits what it has nothing to object to. -/
theorem admits_iff : r.Admits verify t sig ↔ ∀ e, ¬r.Objects verify t sig e := by
  constructor
  · rintro h _ (twice | ⟨already, ne⟩ | ⟨used, missing⟩ | ⟨used, missing⟩ | ⟨cause, hv, hno⟩)
    · exact twice.not_nodup h.distinct
    · exact h.declared.elim already ne
    · exact missing (h.classes _ used)
    · exact missing (h.vars _ used)
    · exact hno (h.erased hv)
  · intro h
    refine ⟨?_, ?_, ?_, ?_, ?_⟩
    · exact List.nodup_iff_forall_not_duplicate.2 fun name twice => h _ (.duplicate twice)
    · by_contra hno
      rw [not_or] at hno
      exact h _ (.differ hno.1 hno.2)
    · exact fun name used => by_contra fun missing => h _ (.unknownClass used missing)
    · exact fun name used => by_contra fun missing => h _ (.unknownTypeVariable used missing)
    · exact fun hv => by_contra fun hno => h _ (.erasure (.result "") hv hno)

/-! ### Names around a declaration -/

theorem lookup_eq_none_iff {name : String} : r.lookup name = none ↔ ¬r.Registers name := by
  simp [lookup, Registers]

/-- What a walk outwards finds: classes that were not seen before, and all to which links
lead from `c` or from a class that it finds, those seen before apart. -/
theorem outward_spec (r : Registry) (seen : List ClassId) (c : ClassId) :
    (∀ x ∈ (r.outward seen c).1, x ∉ seen ∧ r.LiesIn c x) ∧
      ∀ x ∈ c :: (r.outward seen c).1, ∀ y, r.enclosing? x = some y →
        y ∈ seen ∨ y ∈ (r.outward seen c).1 := by
  induction seen, c using outward.induct r with
  | case1 seen c hnone =>
    rw [outward_eq, hnone]
    simp [hnone]
  | case2 seen c outer hsome hseen =>
    rw [outward_eq, hsome]
    simp [hsome, hseen]
  | case3 seen c outer hsome hseen ih =>
    rw [outward_eq, hsome]
    dsimp only
    rw [if_neg hseen]
    obtain ⟨hfound, hclosed⟩ := ih
    constructor
    · rintro x (_ | ⟨_, hx⟩)
      · exact ⟨hseen, .single hsome⟩
      · obtain ⟨hfresh, hlies⟩ := hfound x hx
        exact ⟨fun h => hfresh (List.mem_cons_of_mem _ h), .head hsome hlies⟩
    · intro x hx y hy
      rcases List.mem_cons.1 hx with rfl | hx
      · cases hsome.symm.trans hy
        exact .inr List.mem_cons_self
      · rcases hclosed x hx y hy with hseen | hrest
        · exact (List.mem_cons.1 hseen).elim (fun h => .inr (h ▸ List.mem_cons_self)) .inl
        · exact .inr (List.mem_cons_of_mem _ hrest)

/-- The walk outwards from a class finds exactly the classes that it lies in. -/
theorem mem_enclosingChain_iff {c outer : ClassId} :
    outer ∈ r.enclosingChain c ↔ outer ≠ c ∧ r.LiesIn c outer := by
  obtain ⟨hfound, hclosed⟩ := r.outward_spec [c] c
  unfold enclosingChain
  rw [List.mem_reverse]
  constructor
  · intro h
    obtain ⟨hne, hlies⟩ := hfound outer h
    exact ⟨by simpa using hne, hlies⟩
  · rintro ⟨hne, hlies⟩
    -- `c` and what is found from it are closed under the links
    have hclosure : ∀ x ∈ c :: (r.outward [c] c).1, ∀ y, r.enclosing? x = some y →
        y ∈ c :: (r.outward [c] c).1 := fun x hx y hy =>
      (hclosed x hx y hy).elim (fun h => List.mem_singleton.1 h ▸ List.mem_cons_self)
        (List.mem_cons_of_mem _)
    have hreached : ∀ x, r.LiesIn c x → x ∈ c :: (r.outward [c] c).1 := by
      intro x hx
      induction hx with
      | single hlink => exact hclosure c List.mem_cons_self _ hlink
      | tail _ hlink ih => exact hclosure _ ih _ hlink
    exact (List.mem_cons.1 (hreached outer hlies)).resolve_left hne

end Registry

namespace Scope

variable {s : Scope} {name : String}

theorem resolve_eq_none_iff :
    s.resolve name = none ↔ ∀ frame ∈ s.frames, name ∉ frame.names.map (·.1) := by
  unfold resolve
  rw [List.findSome?_eq_none_iff]
  refine forall₂_congr fun frame _ => ?_
  rw [resolveIn, Option.map_eq_none_iff, List.lookup_eq_none_iff]
  simp only [List.mem_map, not_exists, not_and, bne_iff_ne, ne_eq]
  exact forall₂_congr fun p _ => not_congr eq_comm

/-- A name stands for nothing where no type parameter has it. -/
theorem resolve_pushTypeParams_eq_none {ps : List TypeParam} :
    (s.pushTypeParams ps).resolve name = none ↔
      name ∉ ps.map (·.name) ∧ s.resolve name = none := by
  cases ps with
  | nil => simp [pushTypeParams]
  | cons p ps =>
    rw [resolve_eq_none_iff, resolve_eq_none_iff, pushTypeParams, List.forall_mem_cons,
      List.map_map]
    rfl

theorem resolve_foldl_pushClass_eq_none {r : Registry} {chain : List ClassId} :
    (chain.foldl (fun s c => s.pushClass r c) s).resolve name = none ↔
      (∀ c ∈ chain, name ∉ r.paramNames c) ∧ s.resolve name = none := by
  induction chain generalizing s with
  | nil => simp
  | cons c chain ih =>
    rw [List.foldl_cons, ih, pushClass, resolve_pushTypeParams_eq_none, List.forall_mem_cons]
    tauto

end Scope

namespace Lexicon

variable {l : Lexicon} {name : String}

theorem var?_declare_eq_none {owner : Declarer} {ps : List TypeParamSig} :
    (l.declare owner ps).var? name = none ↔ name ∉ ps.map (·.name) ∧ l.var? name = none := by
  simp only [declare, Option.or_eq_none_iff, Option.map_eq_none_iff, List.idxOf?_eq_none_iff]

end Lexicon

namespace Registry

variable {r : Registry} {verify : Bool} {t : Target} {sig : t.Signature}

theorem var?_lexiconAround_eq_none {c : ClassId} {name : String} :
    (r.lexiconAround c).var? name = none ↔
      ¬∃ outer, r.InForce (.ofClass c) outer ∧ name ∈ r.paramNames outer := by
  have hempty : ({} : Scope).resolve name = none := rfl
  rw [lexiconAround, Scope.pushEnclosing, Scope.resolve_foldl_pushClass_eq_none]
  simp [InForce, mem_enclosingChain_iff, hempty]

theorem var?_lexiconInside_eq_none {c : ClassId} {name : String} :
    (r.lexiconInside c).var? name = none ↔
      ¬∃ outer, (outer = c ∨ r.LiesIn c outer) ∧ name ∈ r.paramNames outer := by
  have hempty : ({} : Scope).resolve name = none := rfl
  rw [lexiconInside, Scope.pushBody, Scope.pushClass, Scope.resolve_pushTypeParams_eq_none,
    Scope.pushEnclosing, Scope.resolve_foldl_pushClass_eq_none]
  simp only [hempty, and_true, mem_enclosingChain_iff, not_exists, not_and]
  constructor
  · rintro ⟨hown, haround⟩ outer (rfl | hlies)
    · exact hown
    · by_cases hne : outer = c
      · exact hne ▸ hown
      · exact haround outer ⟨hne, hlies⟩
  · intro h
    exact ⟨h c (.inl rfl), fun outer ⟨_, hlies⟩ => h outer (.inr hlies)⟩

/-- What a registry objects to, seen from a lexicon that gives what the registry does: the
names of type parameters, names that are missing, and what erasure leaves. -/
theorem objects_iff (r : Registry) (verify : Bool) {t : Target} (sig : t.Signature) {l : Lexicon}
    (hclass : l.class? = r.lookup)
    (hvar : ∀ name, l.var? name = none ↔
      ¬(name ∈ sig.paramNames ∨ ∃ c, r.InForce t c ∧ name ∈ r.paramNames c)) {e : ResolveError} :
    r.Objects verify t sig e ↔
      (Lexicon.Misdeclared (r.declaredNames t) sig.paramNames e ∨
        l.Missing sig.classNames sig.varNames e) ∨
      verify = true ∧ ¬r.Erases t sig ∧ ∃ cause, e = .mismatch cause := by
  have hregisters : ∀ name, l.class? name = none ↔ ¬r.Registers name := fun name => by
    rw [hclass, lookup_eq_none_iff]
  constructor
  · rintro (twice | ⟨already, ne⟩ | ⟨used, missing⟩ | ⟨used, missing⟩ | ⟨cause, hv, hno⟩)
    · exact .inl (.inl (.duplicate twice))
    · exact .inl (.inl (.differ already ne))
    · exact .inl (.inr (.ofClass used ((hregisters _).2 missing)))
    · exact .inl (.inr (.var used ((hvar _).2 missing)))
    · exact .inr ⟨hv, hno, cause, rfl⟩
  · rintro (((twice | ⟨already, ne⟩) | (⟨used, missing⟩ | ⟨used, missing⟩)) | ⟨hv, hno, cause, rfl⟩)
    · exact .duplicate twice
    · exact .differ already ne
    · exact .unknownClass used ((hregisters _).1 missing)
    · exact .unknownTypeVariable used ((hvar _).1 missing)
    · exact .erasure cause hv hno

end Registry

/-! ### The checks -/

namespace Registry

variable {r : Registry}

/-- The check of a class is failed by a signature that does not erase to the header. -/
theorem failsBy_checkHeader {c : ClassId} {entry : ClassEntry} (hc : r.classAt? c = some entry)
    {l : Lexicon} (hl : l.class? = r.lookup) {declared : List TypeParam} {sig : ClassSig}
    {types : ClassTypes} (hsig : sig.IsReadable)
    (htypes : l.classTypes declared c sig = .ok types) :
    FailsBy (fun e => ¬r.Erases (.ofClass c) sig ∧ ∃ cause, e = .mismatch cause)
      (r.checkHeader c types.superclass types.interfaces) := by
  obtain ⟨-, hsuper, hinterfaces⟩ := Lexicon.classTypes_eq_ok.1 htypes
  have hdeclare : (l.declare (.ofClass c) sig.typeParams).class? = r.lookup := hl
  have hname : r.erasedName? types.superclass = sig.superclass.erasedName? :=
    Lexicon.erasedName?_type hdeclare (.reference (.ofClass hsig.superclass))
      (Lexicon.typeAt_eq_ok.1 hsuper).2
  have hmap : types.interfaces.map r.erasedName? = sig.interfaces.map TypeSig.erasedName? :=
    Lexicon.map_of_forall₂ (mapM_eq_ok.1 hinterfaces) fun t ht u hu =>
      Lexicon.erasedName?_type hdeclare (.reference (.ofClass (hsig.interfaces t ht))) hu
  have hnames : types.interfaces.filterMap r.erasedName? =
      sig.interfaces.filterMap TypeSig.erasedName? := by
    simpa [List.filterMap_map] using congrArg (List.filterMap id) hmap
  refine failsBy_check ?_ fun e => checkHeader_eq_error
  rw [checkHeader_eq_ok hc, hname, hnames]
  constructor
  · intro h entry' erased hfound herased
    cases hc.symm.trans hfound
    exact h erased herased
  · exact fun h erased herased => h entry erased hc herased

/-- The check of a method is failed by a signature that does not erase to the descriptor. -/
theorem failsBy_checkDescriptor {m : MethodId} {entry : MethodEntry}
    (hm : r.methodAt? m = some entry) {declared : List TypeParam} {sig : MethodSig}
    {types : MethodTypes} (hsig : sig.IsReadable)
    (htypes : (r.lexiconInside entry.owner).methodTypes declared m sig = .ok types) :
    FailsBy (fun e => ¬r.Erases (.ofMethod m) sig ∧ ∃ cause, e = .mismatch cause)
      (r.checkDescriptor entry (r.syntheticCount entry types.params.length) types.params
        types.result) := by
  obtain ⟨-, hparams, hresult, -⟩ := Lexicon.methodTypes_eq_ok.1 htypes
  have hmap : types.params.map r.erasure = sig.params.map TypeSig.erasure :=
    Lexicon.map_of_forall₂ (mapM_eq_ok.1 hparams) fun t ht u hu =>
      Lexicon.erasure_type rfl (hsig.params t ht) hu
  refine failsBy_check ?_ fun e => checkDescriptor_eq_error
  rw [checkDescriptor_eq_ok, hmap, Lexicon.erasure_result rfl hsig.result hresult]
  simp only [Erases, hm, Option.some.injEq, forall_eq']

/-- The check of a field is failed by a signature that does not erase to the descriptor. -/
theorem failsBy_checkErasure {f : FieldId} {entry : FieldEntry} (hf : r.fieldAt? f = some entry)
    {sig : TypeSig} {type : ResolvedType} (hsig : sig.IsReadable)
    (htype : (r.lexiconInside entry.owner).typeAt .reference sig = .ok type) :
    FailsBy (fun e => ¬r.Erases (.ofField f) sig ∧ ∃ cause, e = .mismatch cause)
      (r.checkErasure entry.descriptor type) := by
  refine failsBy_check ?_ fun e => checkErasure_eq_error
  rw [checkErasure_eq_ok, Lexicon.erasure_type rfl (.reference hsig.reference)
    (Lexicon.typeAt_eq_ok.1 htype).2]
  simp only [Erases, hf, Option.some.injEq, forall_eq']

end Registry

/-! ### Behind a mark -/

namespace Registry

variable {r r' : Registry}

theorem typeParams_setStage (r : Registry) (s : Stage) (t : Target) (owner : Declarer) :
    (r.setStage s t).typeParams owner = r.typeParams owner := by
  cases owner with
  | ofClass c => rw [typeParams, map_classAt?_setStage fun _ => rfl, typeParams]
  | ofMethod m => rw [typeParams, map_methodAt?_setStage fun _ => rfl, typeParams]

theorem registers_setStage {s : Stage} {t : Target} {name : String} :
    (r.setStage s t).Registers name ↔ r.Registers name := by
  rw [← not_iff_not, ← lookup_eq_none_iff, ← lookup_eq_none_iff,
    lookup_congr (map_classAt?_setStage (fun _ => rfl) r t)]

theorem enclosing?_setStage (r : Registry) (s : Stage) (t : Target) (c : ClassId) :
    (r.setStage s t).enclosing? c = r.enclosing? c := by
  have hmap := map_classAt?_setStage (f := (·.enclosing)) (s := s) (fun _ => rfl) r t c
  simpa [enclosing?, Option.bind_map] using congrArg (Option.bind · id) hmap

theorem inForce_setStage {s : Stage} {t : Target} {c : ClassId} :
    (r.setStage s t).InForce t c ↔ r.InForce t c := by
  have hlies : (r.setStage s t).LiesIn = r.LiesIn := by
    unfold LiesIn
    simp only [enclosing?_setStage]
  cases t with
  | ofClass d => rw [InForce, InForce, hlies]
  | ofMethod m => rw [InForce, InForce, hlies, map_methodAt?_setStage fun _ => rfl]
  | ofField f => rw [InForce, InForce, hlies, map_fieldAt?_setStage fun _ => rfl]

theorem erases_setStage {s : Stage} {t : Target} {sig : t.Signature} :
    (r.setStage s t).Erases t sig ↔ r.Erases t sig := by
  cases t with
  | ofClass c =>
    constructor
    · intro h entry erased hc
      exact h { entry with stage := s } erased (by simp [setStage, hc])
    · intro h marked erased hmarked
      rw [setStage, classAt?_modifyClass_self] at hmarked
      obtain ⟨entry, hc, rfl⟩ := Option.map_eq_some_iff.1 hmarked
      exact h entry erased hc
  | ofMethod m =>
    constructor
    · intro h entry hm
      exact h { entry with stage := s } (by simp [setStage, methodAt?_modifyMethod, hm])
    · intro h marked hmarked
      rw [setStage, methodAt?_modifyMethod, if_pos rfl] at hmarked
      obtain ⟨entry, hm, rfl⟩ := Option.map_eq_some_iff.1 hmarked
      exact h entry hm
  | ofField f =>
    constructor
    · intro h entry hf
      exact h { entry with stage := s } (by simp [setStage, fieldAt?_modifyField, hf])
    · intro h marked hmarked
      rw [setStage, fieldAt?_modifyField, if_pos rfl] at hmarked
      obtain ⟨entry, hf, rfl⟩ := Option.map_eq_some_iff.1 hmarked
      exact h entry hf

/-- What a registry objects to is the same behind a mark. -/
theorem objects_setStage {verify : Bool} {s : Stage} {t : Target} {sig : t.Signature}
    {e : ResolveError} : (r.setStage s t).Objects verify t sig e ↔ r.Objects verify t sig e := by
  have hnames : ∀ c, (r.setStage s t).paramNames c = r.paramNames c := fun c => by
    rw [paramNames, typeParams_setStage, paramNames]
  have hdeclared : (r.setStage s t).declaredNames t = r.declaredNames t := by
    cases t with
    | ofClass c => exact hnames c
    | ofMethod m => rw [declaredNames, typeParams_setStage, declaredNames]
    | ofField f => rfl
  constructor
  · rintro (twice | ⟨already, ne⟩ | ⟨used, missing⟩ | ⟨used, missing⟩ | ⟨cause, hv, hno⟩)
    · exact .duplicate twice
    · rw [hdeclared] at already ne ⊢
      exact .differ already ne
    · exact .unknownClass used (registers_setStage.not.1 missing)
    · simp only [inForce_setStage, hnames] at missing
      exact .unknownTypeVariable used missing
    · exact .erasure cause hv (erases_setStage.not.1 hno)
  · rintro (twice | ⟨already, ne⟩ | ⟨used, missing⟩ | ⟨used, missing⟩ | ⟨cause, hv, hno⟩)
    · exact .duplicate twice
    · rw [← hdeclared] at already ne ⊢
      exact .differ already ne
    · exact .unknownClass used (registers_setStage.not.2 missing)
    · refine .unknownTypeVariable used ?_
      simp only [inForce_setStage, hnames]
      exact missing
    · exact .erasure cause hv (erases_setStage.not.2 hno)

end Registry

end JavaGenerics
