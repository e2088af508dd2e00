import JavaGenerics.Proofs.Erasure
import JavaGenerics.Proofs.Evolution
import JavaGenerics.Proofs.TypeReading
import Mathlib.Data.List.Duplicate

/-!
# When a signature has a meaning

A signature that follows the grammar can lack a meaning for few reasons: it declares a type
parameter twice, it declares others than are declared already, or it uses a name that
stands for nothing. Here it is proved that there are no more reasons, and that each of
these is one.

Both directions are carried by one notion. A computation is *failed by* a set of errors
(`JavaGenerics.FailsBy`) if it fails with one of them, and only if there is one. The set
for a computation in two parts is the union of theirs, whatever the first part returns;
so the set for a signature is put together from those for its types, which hold one
error for each name in them that is missing (`JavaGenerics.Lexicon.Missing`).

What erasure leaves of the type that a signature comes to can be read off the signature
itself (`JavaGenerics.Lexicon.erasure_type`): classes go by their names, and a name never
stands for a class that has another.
-/

namespace JavaGenerics

/-! ### The errors that fail a computation -/

variable {α β : Type} {E E' : ResolveError → Prop} {v : Except ResolveError α}

/-- **Failed by a set of errors**: a computation fails with one of them, and succeeds only
if there is none. -/
def FailsBy (E : ResolveError → Prop) : Except ResolveError α → Prop
  | .error e => E e
  | .ok _ => ∀ e, ¬E e

theorem FailsBy.congr (h : FailsBy E v) (hE : ∀ e, E e ↔ E' e) : FailsBy E' v := by
  cases v with
  | error e => exact (hE e).1 h
  | ok a => exact fun e he => h e ((hE e).2 he)

/-- Two parts are failed by what fails one of them. -/
theorem FailsBy.bind {f : α → Except ResolveError β} (h : FailsBy E v)
    (hf : ∀ a, v = .ok a → FailsBy E' (f a)) : FailsBy (fun e => E e ∨ E' e) (v >>= f) := by
  cases v with
  | error e => exact .inl h
  | ok a =>
    have ha := hf a rfl
    change FailsBy _ (f a)
    cases hfa : f a with
    | error e => exact .inr (by rwa [hfa] at ha)
    | ok b =>
      rw [hfa] at ha
      exact fun e he => he.elim (h e) (ha e)

/-- What is done with a result cannot fail. -/
theorem FailsBy.map (h : FailsBy E v) (f : α → β) : FailsBy E (v >>= fun a => pure (f a)) := by
  cases v <;> exact h

/-- What is failed by some errors succeeds if there are none. -/
theorem FailsBy.eq_ok_iff {v : Except ResolveError Unit} (h : FailsBy E v) :
    v = .ok () ↔ ∀ e, ¬E e := by
  rcases v with e | ⟨⟨⟩⟩
  · exact ⟨nofun, fun hE => absurd h (hE e)⟩
  · exact ⟨fun _ => h, fun _ => rfl⟩

theorem FailsBy.error {e : ResolveError} (h : FailsBy E v) (he : v = .error e) : E e := by
  subst he
  exact h

/-- A check is failed by its complaints, if what it asks for does not hold. -/
theorem failsBy_check {v : Except ResolveError Unit} {P : Prop} (hok : v = .ok () ↔ P)
    (hmismatch : ∀ e, v = .error e → ∃ cause, e = .mismatch cause) :
    FailsBy (fun e => ¬P ∧ ∃ cause, e = .mismatch cause) v := by
  rcases v with e | ⟨⟨⟩⟩
  · exact ⟨fun hP => by simpa using hok.2 hP, hmismatch e rfl⟩
  · exact fun e he => he.1 (hok.1 rfl)

/-! ### The types in a signature -/

/-- All types in the signature of a class, bounds first. -/
def ClassSig.types (s : ClassSig) : List TypeSig :=
  TypeParamSig.allBounds s.typeParams ++ s.superclass :: s.interfaces

/-- All types in the signature of a method, bounds first. -/
def MethodSig.types (s : MethodSig) : List TypeSig :=
  TypeParamSig.allBounds s.typeParams ++ s.params ++ s.result :: s.throws

theorem TypeSig.IsThrown.isReference {t : TypeSig} (h : t.IsThrown) : t.IsReference := by
  rcases h with h | h
  · exact .ofClass h
  · exact .var h

/-! ### The names of classes in a signature -/

/-- The binary name of the class that steps inwards lead to from the class named
`outer`. -/
def Segment.memberName (outer : String) (inner : List Segment) : String :=
  inner.foldl (fun outer s => outer ++ "$" ++ s.name) outer

mutual

/-- The binary names of the classes in a symbolic type: each step of a class type leads to
one. -/
def TypeSig.classNames : TypeSig → List String
  | .base _ => []
  | .void => []
  | .var _ => []
  | .array elem => elem.classNames
  | .ofClass outer inner =>
    internalToBinary outer.name :: (outer.argClassNames
      ++ Segment.memberClassNames (internalToBinary outer.name) inner)

/-- The names of classes in the type arguments of a step. -/
def Segment.argClassNames : Segment → List String
  | .mk _ args => TypeArg.classNamesAll args

/-- The names of classes in the steps inwards from the class named `outer`. -/
def Segment.memberClassNames (outer : String) : List Segment → List String
  | [] => []
  | s :: ss => (outer ++ "$" ++ s.name) :: (s.argClassNames
      ++ Segment.memberClassNames (outer ++ "$" ++ s.name) ss)

/-- The names of classes in some type arguments. -/
def TypeArg.classNamesAll : List TypeArg → List String
  | [] => []
  | a :: as => a.classNames ++ TypeArg.classNamesAll as

/-- The names of classes in a type argument. -/
def TypeArg.classNames : TypeArg → List String
  | .unbounded => []
  | .bounded _ t => t.classNames

end

theorem joinName_of_ne {outer : String} (h : outer ≠ "") (segment : String) :
    joinName outer segment = outer ++ "$" ++ segment := by
  unfold joinName
  rw [if_neg (by simpa using h)]

theorem joinName_empty (segment : String) : joinName "" segment = internalToBinary segment := rfl

/-- The name of a class is not empty. -/
theorem IsClassName.ne_empty {name : String} (h : IsClassName name) : name ≠ "" := by
  rintro rfl
  exact (isClassName_iff.1 h).1.1 rfl

theorem internalToBinary_ne {name : String} (h : name ≠ "") : internalToBinary name ≠ "" := by
  simpa [internalToBinary] using h

theorem TypeSig.IsValue.name_ne {outer : Segment} {inner : List Segment}
    (h : (TypeSig.ofClass outer inner).IsValue) : outer.name ≠ "" := by
  rcases h with _ | ⟨⟨hname, -, -⟩⟩
  exact hname.ne_empty

theorem memberName_ne {outer : String} (h : outer ≠ "") (segment : String) :
    outer ++ "$" ++ segment ≠ "" := by
  simp [h]

namespace Lexicon

variable {l : Lexicon} {cs cs' vs vs' : List String}

/-- **The names that stand for nothing**, among some names of classes and of type variables,
each as the error that it leads to. -/
inductive Missing (l : Lexicon) (classes vars : List String) : ResolveError → Prop where
  | ofClass {name : String} (used : name ∈ classes) (missing : l.class? name = none) :
      Missing l classes vars (.unknownClass name)
  | var {name : String} (used : name ∈ vars) (missing : l.var? name = none) :
      Missing l classes vars (.unknownTypeVariable name)

theorem missing_append {e : ResolveError} :
    l.Missing (cs ++ cs') (vs ++ vs') e ↔ l.Missing cs vs e ∨ l.Missing cs' vs' e := by
  constructor
  · rintro (⟨used, missing⟩ | ⟨used, missing⟩)
    · exact (List.mem_append.1 used).imp (.ofClass · missing) (.ofClass · missing)
    · exact (List.mem_append.1 used).imp (.var · missing) (.var · missing)
  · rintro ((⟨used, missing⟩ | ⟨used, missing⟩) | (⟨used, missing⟩ | ⟨used, missing⟩))
    · exact .ofClass (List.mem_append_left _ used) missing
    · exact .var (List.mem_append_left _ used) missing
    · exact .ofClass (List.mem_append_right _ used) missing
    · exact .var (List.mem_append_right _ used) missing

theorem failsBy_pure (a : α) : FailsBy (l.Missing [] []) (pure a) := by
  rintro _ (⟨⟨⟩, -⟩ | ⟨⟨⟩, -⟩)

/-- Two parts are failed by the names that are missing in one of them. -/
theorem bind_missing {f : α → Except ResolveError β} (h : FailsBy (l.Missing cs vs) v)
    (hf : ∀ a, v = .ok a → FailsBy (l.Missing cs' vs') (f a)) :
    FailsBy (l.Missing (cs ++ cs') (vs ++ vs')) (v >>= f) :=
  (h.bind hf).congr fun _ => missing_append.symm

theorem failsBy_mapM {f : α → Except ResolveError β} {classes vars : α → List String}
    {as : List α} (hf : ∀ a ∈ as, FailsBy (l.Missing (classes a) (vars a)) (f a)) :
    FailsBy (l.Missing (as.flatMap classes) (as.flatMap vars)) (as.mapM f) := by
  induction as with
  | nil => exact failsBy_pure []
  | cons a as ih =>
    rw [List.mapM_cons, List.flatMap_cons, List.flatMap_cons]
    obtain ⟨ha, has⟩ := List.forall_mem_cons.1 hf
    refine bind_missing ha fun b _ => ?_
    exact (ih has).map (b :: ·)

theorem failsBy_classNamed (name : String) : FailsBy (l.Missing [name] []) (l.classNamed name) := by
  unfold classNamed
  cases h : l.class? name with
  | none => exact .ofClass List.mem_cons_self h
  | some c =>
    rintro _ (⟨used, missing⟩ | ⟨⟨⟩, -⟩)
    rw [List.mem_singleton.1 used, h] at missing
    cases missing

/-! ### Types -/

theorem typeAt_of_complaint {position : Position} {t : TypeSig}
    (h : position.complaint? t = none) : l.typeAt position t = l.type t := by
  unfold typeAt
  rw [h]

theorem complaint?_reference {t : TypeSig} (h : t.IsReference) :
    Position.reference.complaint? t = none := by
  rcases h with ⟨⟨⟩⟩ | _ | _ <;> rfl

theorem complaint?_classType {t : TypeSig} (h : t.IsClass) :
    Position.classType.complaint? t = none := by
  cases h
  rfl

theorem complaint?_param {t : TypeSig} (h : t.IsValue) :
    Position.param.complaint? t = none := by
  rcases h with _ | ⟨⟨⟨⟩⟩ | _ | _⟩ <;> rfl

theorem isValue_elem {elem : TypeSig} (h : (TypeSig.array elem).IsValue) : elem.IsValue := by
  rcases h with _ | ⟨⟨⟨⟩⟩ | _ | h⟩
  exact h

theorem not_isValue_void : ¬TypeSig.void.IsValue := by
  rintro (_ | ⟨⟨⟨⟩⟩⟩)

/-- A step leads to its class. -/
theorem step_eq_ok {name : String} {outer : Option ResolvedType} {s : Segment}
    {r : String × ResolvedType} (h : l.step name outer s = .ok r) :
    r.1 = joinName name s.name ∧ ∃ c, l.class? r.1 = some c ∧ r.2.class? = some c := by
  obtain ⟨segment, args⟩ := s
  simp only [step] at h
  obtain ⟨c, hc, h⟩ := bind_eq_ok.1 h
  obtain ⟨ts, -, h⟩ := bind_eq_ok.1 h
  cases h
  refine ⟨rfl, c, ?_, ?_⟩
  · unfold classNamed at hc
    split at hc
    · cases hc
      assumption
    · cases hc
  · unfold ResolvedType.step
    split
    · rfl
    · split <;> rfl

mutual

/-- **A type of the grammar has a meaning unless a name in it is missing.** -/
theorem failsBy_type : ∀ {t : TypeSig}, t.IsValue →
    FailsBy (l.Missing t.classNames t.varNames) (l.type t)
  | .base b, _ => failsBy_pure _
  | .void, h => absurd h not_isValue_void
  | .var name, _ => by
    simp only [type]
    cases h : l.var? name with
    | none => exact .var List.mem_cons_self h
    | some v =>
      rintro _ (⟨⟨⟩, -⟩ | ⟨used, missing⟩)
      rw [List.mem_singleton.1 used, h] at missing
      cases missing
  | .array elem, h => by
    have helem := isValue_elem h
    have hvoid : elem ≠ .void := fun hvoid => not_isValue_void (hvoid ▸ helem)
    rw [type.eq_5 l elem hvoid]
    exact (failsBy_type helem).map ResolvedType.array
  | .ofClass outer inner, h => by
    obtain ⟨hname, hargs, hinner⟩ : IsClassName outer.name ∧ (∀ a ∈ outer.args, a.IsArgument) ∧
        ∀ s ∈ inner, s.IsMember := by
      rcases h with _ | ⟨⟨hname, hargs, hinner⟩⟩
      exact ⟨hname, hargs, hinner⟩
    simp only [type]
    refine bind_missing (failsBy_step outer hargs) fun r hr => ?_
    obtain ⟨hjoined, -⟩ := step_eq_ok hr
    rw [joinName_empty] at hjoined
    obtain ⟨name, t⟩ := r
    subst hjoined
    exact failsBy_steps inner hinner (internalToBinary_ne hname.ne_empty)

theorem failsBy_step : ∀ (s : Segment) {name : String} {outer : Option ResolvedType},
    (∀ a ∈ s.args, a.IsArgument) →
      FailsBy (l.Missing (joinName name s.name :: s.argClassNames) s.varNames)
        (l.step name outer s)
  | .mk segment args, name, outer, h => by
    simp only [step]
    refine bind_missing (failsBy_classNamed _) fun c _ => ?_
    exact (failsBy_types args h).map _

theorem failsBy_steps : ∀ (ss : List Segment) {name : String} {t : ResolvedType},
    (∀ s ∈ ss, s.IsMember) → name ≠ "" →
      FailsBy (l.Missing (Segment.memberClassNames name ss) (Segment.varNamesAll ss))
        (l.steps name t ss)
  | [], name, t, _, _ => by
    simp only [steps]
    exact failsBy_pure _
  | s :: ss, name, t, h, hname => by
    obtain ⟨hs, hss⟩ := List.forall_mem_cons.1 h
    have hargs : ∀ a ∈ s.args, a.IsArgument := by
      obtain ⟨-, hargs⟩ := hs
      exact hargs
    simp only [steps]
    rw [Segment.memberClassNames, ← List.cons_append, ← joinName_of_ne hname]
    refine bind_missing (failsBy_step s hargs) fun r hr => ?_
    obtain ⟨hjoined, -⟩ := step_eq_ok hr
    obtain ⟨name', t'⟩ := r
    subst hjoined
    refine failsBy_steps ss hss ?_
    rw [joinName_of_ne hname]
    exact memberName_ne hname _

theorem failsBy_types : ∀ (as : List TypeArg), (∀ a ∈ as, a.IsArgument) →
    FailsBy (l.Missing (TypeArg.classNamesAll as) (TypeArg.varNamesAll as)) (l.types as)
  | [], _ => by
    simp only [types]
    exact failsBy_pure _
  | a :: as, h => by
    obtain ⟨ha, has⟩ := List.forall_mem_cons.1 h
    simp only [types]
    refine bind_missing (failsBy_argument ha) fun t _ => ?_
    exact (failsBy_types as has).map (t :: ·)

theorem failsBy_argument : ∀ {a : TypeArg}, a.IsArgument →
    FailsBy (l.Missing a.classNames a.varNames) (l.argument a)
  | .unbounded, _ => failsBy_pure _
  | .bounded variance t, h => by
    have ht : t.IsReference := by
      rcases h with _ | ⟨-, ht⟩
      exact ht
    simp only [argument, complaint?_reference ht]
    exact (failsBy_type (.reference ht)).map _

end

theorem failsBy_result {t : TypeSig} (h : t.IsResult) :
    FailsBy (l.Missing t.classNames t.varNames) (l.type t) := by
  cases h with
  | void => exact failsBy_pure _
  | value h => exact failsBy_type h

theorem failsBy_typeAt_reference {t : TypeSig} (h : t.IsReference) :
    FailsBy (l.Missing t.classNames t.varNames) (l.typeAt .reference t) := by
  rw [typeAt_of_complaint (complaint?_reference h)]
  exact failsBy_type (.reference h)

theorem failsBy_typeAt_classType {t : TypeSig} (h : t.IsClass) :
    FailsBy (l.Missing t.classNames t.varNames) (l.typeAt .classType t) := by
  rw [typeAt_of_complaint (complaint?_classType h)]
  exact failsBy_type (.reference (.ofClass h))

theorem failsBy_typeAt_param {t : TypeSig} (h : t.IsValue) :
    FailsBy (l.Missing t.classNames t.varNames) (l.typeAt .param t) := by
  rw [typeAt_of_complaint (complaint?_param h)]
  exact failsBy_type h

/-! ### Type parameters -/

/-- **What may be wrong with the names of type parameters**, where some are declared
already, each as the error that it leads to. -/
inductive Misdeclared (declared names : List String) : ResolveError → Prop where
  | duplicate {name : String} (twice : names.Duplicate name) :
      Misdeclared declared names (.malformed (.duplicateTypeParam name))
  | differ (already : declared ≠ []) (ne : names ≠ declared) :
      Misdeclared declared names (.mismatch (.typeParams names declared))

theorem failsBy_params {ps : List TypeParamSig} (h : ∀ p ∈ ps, p.IsGrammatical)
    (owner : Declarer) (first : Nat) :
    FailsBy (l.Missing ((TypeParamSig.allBounds ps).flatMap TypeSig.classNames)
      ((TypeParamSig.allBounds ps).flatMap TypeSig.varNames)) (l.params owner first ps) := by
  induction ps generalizing first with
  | nil => exact failsBy_pure _
  | cons p ps ih =>
    obtain ⟨hp, hps⟩ := List.forall_mem_cons.1 h
    rw [TypeParamSig.allBounds, List.flatMap_cons, List.flatMap_append, List.flatMap_append]
    refine bind_missing (failsBy_mapM fun t ht => failsBy_typeAt_reference (hp.bounds t ht))
      fun bounds _ => ?_
    exact (ih hps (first + 1)).map _

/-- The search for a repeated name finds one unless there is none. -/
theorem firstRepeated_eq_none {seen names : List String} (h : firstRepeated seen names = none) :
    names.Nodup ∧ ∀ name ∈ names, name ∉ seen := by
  induction names generalizing seen with
  | nil => simp
  | cons n names ih =>
    unfold firstRepeated at h
    split at h
    · cases h
    · obtain ⟨hnodup, hfresh⟩ := ih h
      simp only [List.mem_cons, not_or] at hfresh
      refine ⟨List.nodup_cons.2 ⟨fun hn => (hfresh n hn).1 rfl, hnodup⟩, ?_⟩
      rintro name (_ | ⟨_, hname⟩)
      · assumption
      · exact (hfresh name hname).2

theorem firstRepeated_eq_some {seen names : List String} {name : String}
    (h : firstRepeated seen names = some name) :
    names.Duplicate name ∨ name ∈ names ∧ name ∈ seen := by
  induction names generalizing seen with
  | nil => cases h
  | cons n names ih =>
    unfold firstRepeated at h
    split at h
    · cases h
      exact .inr ⟨List.mem_cons_self, by assumption⟩
    · rcases ih h with hdup | ⟨hmem, hseen⟩
      · exact .inl (hdup.duplicate_cons n)
      · rcases List.mem_cons.1 hseen with rfl | hseen
        · exact .inl hmem.duplicate_cons_self
        · exact .inr ⟨List.mem_cons_of_mem _ hmem, hseen⟩

/-- **Type parameters are introduced** unless something is wrong with their names, or a
name in their bounds is missing. -/
theorem failsBy_introduce {declared : List TypeParam} {owner : Declarer}
    {ps : List TypeParamSig} (h : ∀ p ∈ ps, p.IsGrammatical) :
    FailsBy (fun e => Misdeclared (declared.map (·.name)) (ps.map (·.name)) e ∨
        (l.declare owner ps).Missing ((TypeParamSig.allBounds ps).flatMap TypeSig.classNames)
          ((TypeParamSig.allBounds ps).flatMap TypeSig.varNames) e)
      (l.introduce declared owner ps) := by
  have hdistinct : FailsBy (fun e => ∃ name, (ps.map (·.name)).Duplicate name ∧
      e = .malformed (.duplicateTypeParam name)) (checkDistinct ps) := by
    unfold checkDistinct
    cases hfirst : firstRepeated [] (ps.map (·.name)) with
    | none =>
      rintro _ ⟨name, hdup, -⟩
      exact hdup.not_nodup (firstRepeated_eq_none hfirst).1
    | some name =>
      exact ⟨name, (firstRepeated_eq_some hfirst).resolve_right (by simp), rfl⟩
  have hdeclared : FailsBy (fun e => (declared.map (·.name) ≠ [] ∧
        ps.map (·.name) ≠ declared.map (·.name)) ∧
      e = .mismatch (.typeParams (ps.map (·.name)) (declared.map (·.name))))
        (checkDeclared declared ps) := by
    unfold checkDeclared
    dsimp only
    split
    · rename_i hagree
      rintro _ ⟨⟨already, ne⟩, -⟩
      rcases Bool.or_eq_true _ _ ▸ hagree with hempty | heq
      · exact already (List.isEmpty_iff.1 hempty)
      · exact ne (beq_iff_eq.1 heq).symm
    · rename_i hdiffer
      rw [Bool.or_eq_true, not_or, List.isEmpty_iff, beq_iff_eq] at hdiffer
      exact ⟨⟨hdiffer.1, Ne.symm hdiffer.2⟩, rfl⟩
  unfold introduce
  refine (hdistinct.bind fun _ _ => hdeclared.bind fun _ _ => failsBy_params h owner 0).congr ?_
  intro e
  rw [← or_assoc]
  refine or_congr_left ⟨?_, ?_⟩
  · rintro (⟨name, hdup, rfl⟩ | ⟨⟨already, ne⟩, rfl⟩)
    · exact .duplicate hdup
    · exact .differ already ne
  · rintro (⟨hdup⟩ | ⟨already, ne⟩)
    · exact .inl ⟨_, hdup, rfl⟩
    · exact .inr ⟨⟨already, ne⟩, rfl⟩

/-! ### Signatures -/

variable {declared : List TypeParam}

/-- **A class signature of the grammar has a meaning** unless something is wrong with its
type parameters or a name in it is missing. -/
theorem failsBy_classTypes {c : ClassId} {sig : ClassSig} (h : sig.IsReadable) :
    FailsBy (fun e => Misdeclared (declared.map (·.name)) (sig.typeParams.map (·.name)) e ∨
        (l.declare (.ofClass c) sig.typeParams).Missing (sig.types.flatMap TypeSig.classNames)
          (sig.types.flatMap TypeSig.varNames) e)
      (l.classTypes declared c sig) := by
  have hafter : ∀ typeParams, FailsBy ((l.declare (.ofClass c) sig.typeParams).Missing
      ((sig.superclass :: sig.interfaces).flatMap TypeSig.classNames)
      ((sig.superclass :: sig.interfaces).flatMap TypeSig.varNames)) (do
        let superclass ← (l.declare (.ofClass c) sig.typeParams).typeAt .classType sig.superclass
        let interfaces ← sig.interfaces.mapM
          ((l.declare (.ofClass c) sig.typeParams).typeAt .classType)
        pure (⟨typeParams, superclass, interfaces⟩ : ClassTypes)) := by
    intro typeParams
    refine bind_missing (failsBy_typeAt_classType h.superclass) fun superclass _ => ?_
    exact (failsBy_mapM fun t ht => failsBy_typeAt_classType (h.interfaces t ht)).map _
  refine ((failsBy_introduce h.typeParams).bind fun typeParams _ => hafter typeParams).congr ?_
  intro e
  simp only [ClassSig.types, List.flatMap_append, missing_append, or_assoc]

/-- **A method signature of the grammar has a meaning** unless something is wrong with its
type parameters or a name in it is missing. -/
theorem failsBy_methodTypes {m : MethodId} {sig : MethodSig} (h : sig.IsReadable) :
    FailsBy (fun e => Misdeclared (declared.map (·.name)) (sig.typeParams.map (·.name)) e ∨
        (l.declare (.ofMethod m) sig.typeParams).Missing (sig.types.flatMap TypeSig.classNames)
          (sig.types.flatMap TypeSig.varNames) e)
      (l.methodTypes declared m sig) := by
  have hthrown : ∀ t ∈ sig.throws, t.IsReference := fun t ht => (h.throws t ht).isReference
  have hafter : ∀ typeParams, FailsBy ((l.declare (.ofMethod m) sig.typeParams).Missing
      ((sig.params ++ sig.result :: sig.throws).flatMap TypeSig.classNames)
      ((sig.params ++ sig.result :: sig.throws).flatMap TypeSig.varNames)) (do
        let params ← sig.params.mapM ((l.declare (.ofMethod m) sig.typeParams).typeAt .param)
        let result ← (l.declare (.ofMethod m) sig.typeParams).type sig.result
        let throws ← sig.throws.mapM ((l.declare (.ofMethod m) sig.typeParams).typeAt .reference)
        pure (⟨typeParams, params, result, throws⟩ : MethodTypes)) := by
    intro typeParams
    rw [List.flatMap_append, List.flatMap_append]
    refine bind_missing (failsBy_mapM fun t ht => failsBy_typeAt_param (h.params t ht))
      fun params _ => bind_missing (failsBy_result h.result) fun result _ => ?_
    exact (failsBy_mapM fun t ht => failsBy_typeAt_reference (hthrown t ht)).map _
  refine ((failsBy_introduce h.typeParams).bind fun typeParams _ => hafter typeParams).congr ?_
  intro e
  simp only [MethodSig.types, List.append_assoc, List.flatMap_append, missing_append, or_assoc]

end Lexicon

/-! ### What erasure leaves of a signature -/

/-- What erasure leaves of a symbolic type. -/
def TypeSig.erasure : TypeSig → Erasure
  | .base b => ⟨0, .base b⟩
  | .void => ⟨0, .void⟩
  | .var _ => ⟨0, .var⟩
  | .array elem => elem.erasure.array
  | .ofClass outer inner =>
    ⟨0, .ofClass (Segment.memberName (internalToBinary outer.name) inner)⟩

/-- The name that a symbolic class type erases to. -/
def TypeSig.erasedName? : TypeSig → Option String
  | .ofClass outer inner => some (Segment.memberName (internalToBinary outer.name) inner)
  | _ => none

namespace Lexicon

variable {l : Lexicon} {r : Registry}

theorem class?_steps {ss : List Segment} {name : String} {t u : ResolvedType} {c : ClassId}
    (hname : name ≠ "") (hc : l.class? name = some c) (ht : t.class? = some c)
    (h : l.steps name t ss = .ok u) :
    ∃ d, l.class? (Segment.memberName name ss) = some d ∧ u.class? = some d := by
  induction ss generalizing name t c with
  | nil =>
    simp only [steps] at h
    cases h
    exact ⟨c, hc, ht⟩
  | cons s ss ih =>
    simp only [steps] at h
    obtain ⟨⟨name', t'⟩, hstep, h⟩ := bind_eq_ok.1 h
    obtain ⟨hjoined, d, hd, ht'⟩ := step_eq_ok hstep
    rw [joinName_of_ne hname] at hjoined
    subst hjoined
    exact ih (memberName_ne hname _) hd ht' h

/-- A class type comes to the class that its steps lead to. -/
theorem class?_type {outer : Segment} {inner : List Segment} {u : ResolvedType}
    (hname : outer.name ≠ "") (h : l.type (.ofClass outer inner) = .ok u) :
    ∃ c, l.class? (Segment.memberName (internalToBinary outer.name) inner) = some c ∧
      u.class? = some c := by
  simp only [type] at h
  obtain ⟨⟨name, t⟩, hstep, h⟩ := bind_eq_ok.1 h
  obtain ⟨hjoined, c, hc, ht'⟩ := step_eq_ok hstep
  rw [joinName_empty] at hjoined
  subst hjoined
  exact class?_steps (internalToBinary_ne hname) hc ht' h

/-- **Erasure can be read off the signature**, where names of classes are looked up in the
registry. -/
theorem erasure_type (hl : l.class? = r.lookup) :
    ∀ {t : TypeSig} {u : ResolvedType}, t.IsValue → l.type t = .ok u → r.erasure u = t.erasure
  | .base b, u, _, h => by
    cases h
    rfl
  | .void, u, ht, _ => absurd ht not_isValue_void
  | .var name, u, _, h => by
    simp only [type] at h
    split at h <;> cases h
    rfl
  | .array elem, u, ht, h => by
    obtain ⟨-, e, he, rfl⟩ := type_array_eq_ok.1 h
    rw [Registry.erasure, TypeSig.erasure, erasure_type hl (isValue_elem ht) he]
  | .ofClass outer inner, u, ht, h => by
    obtain ⟨c, hc, hu⟩ := class?_type ht.name_ne h
    obtain ⟨entry, hentry, hname⟩ := Registry.name_of_lookup (hl ▸ hc)
    rw [Registry.erasure_of_class? hu, hentry, Erasure.Core.ofEntry, hname]
    rfl

theorem erasure_result (hl : l.class? = r.lookup) {t : TypeSig} {u : ResolvedType}
    (ht : t.IsResult) (h : l.type t = .ok u) : r.erasure u = t.erasure := by
  cases ht with
  | void =>
    cases h
    rfl
  | value ht => exact erasure_type hl ht h

/-- The name that a type erases to can be read off the signature. -/
theorem erasedName?_type (hl : l.class? = r.lookup) :
    ∀ {t : TypeSig} {u : ResolvedType}, t.IsValue → l.type t = .ok u →
      r.erasedName? u = t.erasedName?
  | .base b, u, _, h => by
    cases h
    rfl
  | .void, u, ht, _ => absurd ht not_isValue_void
  | .var name, u, _, h => by
    simp only [type] at h
    split at h <;> cases h
    rfl
  | .array elem, u, ht, h => by
    obtain ⟨-, e, -, rfl⟩ := type_array_eq_ok.1 h
    rfl
  | .ofClass outer inner, u, ht, h => by
    obtain ⟨c, hc, hu⟩ := class?_type ht.name_ne h
    obtain ⟨entry, hentry, hname⟩ := Registry.name_of_lookup (hl ▸ hc)
    rw [Registry.erasedName?, hu, Option.map_some, Registry.className, hentry]
    exact congrArg some hname

/-- What is read off some types goes with what is read off the types they come to. -/
theorem map_of_forall₂ {f : ResolvedType → α} {g : TypeSig → α} {ts : List TypeSig}
    {us : List ResolvedType} {position : Position}
    (h : List.Forall₂ (fun t u => l.typeAt position t = .ok u) ts us)
    (hfg : ∀ t ∈ ts, ∀ u, l.type t = .ok u → f u = g t) : us.map f = ts.map g := by
  induction h with
  | nil => rfl
  | cons hu _ ih =>
    obtain ⟨ht, hts⟩ := List.forall_mem_cons.1 hfg
    rw [List.map_cons, List.map_cons, ht _ (typeAt_eq_ok.1 hu).2, ih hts]

end Lexicon

end JavaGenerics
