import Mathlib.Data.Set.Basic
import JavaGenerics.Proofs.Scoping

/-!
# The classes that a resolution comes by

Every class in the types that a resolution comes to is one that it has looked up by name,
and at that moment it may have asked for it. So what is ensured of a class when it is looked
up is ensured, in the end, of every class that is committed.

This file carries such facts along a resolution. An *assertion* `I` says of a state that
something holds there of all classes of a set. If a look-up extends the set by the class
that it finds (`JavaGenerics.Resolution.Collects`), the resolution of a type extends it by
all classes in the type (`JavaGenerics.Resolution.gains_type`), and the resolution of a
class signature by all classes in the types that it declares
(`JavaGenerics.Resolution.gains_classTypes`). What fails need not extend anything, but it
leaves the assertion intact for the empty set, and the error is one of few kinds
(`JavaGenerics.ResolveError.OfType`).
-/

namespace JavaGenerics

open Attempt

/-! ### The classes in a type -/

mutual

/-- The classes that a resolved type mentions. -/
def ResolvedType.classes : ResolvedType → List ClassId
  | .base _ => []
  | .void => []
  | .raw c => [c]
  | .parameterized c args => c :: classesAll args
  | .member outer c args => classes outer ++ c :: classesAll args
  | .var _ => []
  | .array elem => classes elem
  | .unbounded => []
  | .upper bound => classes bound
  | .lower bound => classes bound

/-- The classes that some resolved types mention. -/
def ResolvedType.classesAll : List ResolvedType → List ClassId
  | [] => []
  | t :: ts => classes t ++ classesAll ts

end

namespace ResolvedType

theorem mem_classesAll {d : ClassId} {ts : List ResolvedType} :
    d ∈ classesAll ts ↔ ∃ t ∈ ts, d ∈ t.classes := by
  induction ts with
  | nil => simp [classesAll]
  | cons t ts ih => simp [classesAll, ih]

theorem classes_step {d : ClassId} {outer : Option ResolvedType} {c : ClassId}
    {args : List ResolvedType} (h : d ∈ (ResolvedType.step outer c args).classes) :
    (∃ t, outer = some t ∧ d ∈ t.classes) ∨ d = c ∨ d ∈ classesAll args := by
  unfold ResolvedType.step at h
  split at h
  · rename_i t ht
    rw [classes, List.mem_append, List.mem_cons] at h
    exact h.imp_left fun h => ⟨t, (Option.filter_eq_some_iff.1 ht).1, h⟩
  · split at h
    · exact .inr (.inl (by simpa [classes] using h))
    · exact .inr (by simpa [classes] using h)

theorem classes_argument (variance : Variance) (t : ResolvedType) :
    (ResolvedType.argument variance t).classes = t.classes := by
  cases variance <;> simp [ResolvedType.argument, classes]

end ResolvedType

open ResolvedType

/-- The types that the signature of a class comes to. -/
def ClassTypes.all (types : ClassTypes) : List ResolvedType :=
  types.typeParams.flatMap (·.bounds) ++ types.superclass :: types.interfaces

theorem ClassTypes.types_fill (types : ClassTypes) (e : ClassEntry) :
    (types.fill e).types = types.all := by
  simp [ClassEntry.types, fill, all]

/-! ### Attempts that gain classes -/

namespace Attempt

variable {α β : Type} {I : Set ClassId → Progress → Prop} {E : ResolveError → Prop}
  {A A' : Set ClassId}

/-- What is asserted of a set of classes is asserted of every smaller one. -/
def Hereditary (I : Set ClassId → Progress → Prop) : Prop :=
  ∀ ⦃A B : Set ClassId⦄, A ⊆ B → ∀ p, I B p → I A p

/-- Begun in a state with `I A`, `x` comes to some `a` and a state with `I (B a)`; or it
fails by an error with `E`, in a state with `I ∅`. -/
def Gains (I : Set ClassId → Progress → Prop) (E : ResolveError → Prop) (A : Set ClassId)
    (x : Attempt α) (B : α → Set ClassId) : Prop :=
  ∀ p, I A p → match x.outcome p with
    | (.ok a, q) => I (B a) q
    | (.error e, q) => E e ∧ I ∅ q

theorem gains_pure (hI : Hereditary I) (a : α) {B : α → Set ClassId} (h : B a ⊆ A) :
    Gains I E A (pure a) B := fun p hp => hI h p hp

theorem gains_throw (hI : Hereditary I) {e : ResolveError} (he : E e) {B : α → Set ClassId} :
    Gains I E A (throw e) B := fun p hp => ⟨he, hI (Set.empty_subset A) p hp⟩

theorem Gains.bind {x : Attempt α} {f : α → Attempt β} {B : α → Set ClassId}
    {C : β → Set ClassId} (hx : Gains I E A x B) (hf : ∀ a, Gains I E (B a) (f a) C) :
    Gains I E A (x >>= f) C := by
  intro p hp
  have h := hx p hp
  rw [outcome_bind]
  rcases hout : x.outcome p with ⟨_ | a, q⟩ <;> rw [hout] at h
  · exact h
  · exact hf a q h

/-- What is gained holds the more of less. -/
theorem Gains.mono (hI : Hereditary I) {x : Attempt α} {B B' : α → Set ClassId}
    (h : Gains I E A x B) (hB : ∀ a, B' a ⊆ B a) : Gains I E A x B' := by
  intro p hp
  have hx := h p hp
  rcases hout : x.outcome p with ⟨_ | a, q⟩ <;> rw [hout] at hx
  · exact hx
  · exact hI (hB a) q hx

theorem gains_ofExcept (hI : Hereditary I) {v : Except ResolveError α}
    (hv : ∀ e, v = .error e → E e) : Gains I E A (ofExcept v) fun _ => A := by
  cases v with
  | error e => exact gains_throw hI (hv e rfl)
  | ok a => exact gains_pure hI a subset_rfl

theorem Gains.lift {x : StateM Progress α} {f : α → Attempt β} {C : β → Set ClassId}
    (hx : Keeps (I A) x) (hf : ∀ a, Gains I E A (f a) C) : Gains I E A (liftM x >>= f) C :=
  fun p hp => hf _ _ (hx p hp)

theorem Gains.ofRegistry {f : Registry → Attempt β} {C : β → Set ClassId}
    (hf : ∀ r, Gains I E A (f r) C) : Gains I E A (liftM getRegistry >>= f) C :=
  fun p hp => hf _ p hp

/-- What single steps gain, a list of steps gains. -/
theorem Gains.mapM (hI : Hereditary I) {f : α → Attempt β} {F : β → Set ClassId}
    (hf : ∀ a A, Gains I E A (f a) fun b => A ∪ F b) (as : List α) (A : Set ClassId) :
    Gains I E A (as.mapM f) fun bs => A ∪ {d | ∃ b ∈ bs, d ∈ F b} := by
  induction as generalizing A with
  | nil =>
    refine gains_pure hI [] ?_
    rintro d (hd | ⟨b, hb, -⟩)
    · exact hd
    · cases hb
  | cons a as ih =>
    rw [List.mapM_cons]
    refine (hf a A).bind fun b => (ih (A ∪ F b)).bind fun bs => gains_pure hI (b :: bs) ?_
    rintro d (hd | ⟨b', hb', hd⟩)
    · exact .inl (.inl hd)
    · rcases List.mem_cons.1 hb' with rfl | hb'
      · exact .inl (.inr hd)
      · exact .inr ⟨b', hb', hd⟩

theorem Gains.mapM_option (hI : Hereditary I) {f : α → Attempt β} {F : β → Set ClassId}
    (hf : ∀ a A, Gains I E A (f a) fun b => A ∪ F b) (a : Option α) (A : Set ClassId) :
    Gains I E A (a.mapM f) fun b => A ∪ {d | ∃ b' ∈ b, d ∈ F b'} := by
  cases a with
  | none =>
    refine gains_pure hI none ?_
    rintro d (hd | ⟨b, hb, -⟩)
    · exact hd
    · cases hb
  | some a =>
    refine (hf a A).bind fun b => gains_pure hI (some b) ?_
    rintro d (hd | ⟨b', hb', hd⟩)
    · exact .inl hd
    · cases hb'
      exact .inr hd

end Attempt

/-! ### Types -/

/-- The errors by which the resolution of a type may fail. -/
inductive ResolveError.OfType : ResolveError → Prop where
  | unknownTypeVariable (name : String) : OfType (.unknownTypeVariable name)
  | unknownClass (name : String) : OfType (.unknownClass name)
  | arrayOfVoid : OfType (.malformed .arrayOfVoid)
  | position {position : Position} {t : TypeSig} {cause : Malformed}
      (complaint : position.complaint? t = some cause) : OfType (.malformed cause)

namespace Resolution

variable {res : Resolution} {I : Set ClassId → Progress → Prop} {E : ResolveError → Prop}
  {A : Set ClassId}

/-- **An assertion that look-ups extend**: what is done on the way keeps it, and a look-up
adds the class that it finds. The errors of the resolution of a type are among those
with `E`. -/
structure Collects (res : Resolution) (I : Set ClassId → Progress → Prop)
    (E : ResolveError → Prop) : Prop where
  hereditary : Hereditary I
  steady : ∀ A, res.Steady (I A)
  find : ∀ A name, Gains I E A (res.find name) fun c => A ∪ {c}
  fails : ∀ e, e.OfType → E e

theorem find_outcome (res : Resolution) (name : String) (p : Progress) :
    (res.find name).outcome p = match p.workspace.registry.lookup name with
      | some c => (.ok c, (res.request c p).2)
      | none => (.error (.unknownClass name), p) := by
  change (match p.workspace.registry.lookup name with
    | some c => liftM (res.request c) >>= fun _ => pure c
    | none => throw (.unknownClass name) : Attempt ClassId).outcome p = _
  cases p.workspace.registry.lookup name <;> rfl

mutual

/-- **The resolution of a type gains the classes in it.** -/
theorem gains_type (h : res.Collects I E) (scope : Scope) :
    ∀ (t : TypeSig) (A : Set ClassId),
      Gains I E A (res.resolve scope t) fun u => A ∪ {d | d ∈ u.classes}
  | .base b, A => by
    simp only [resolve]
    exact gains_pure h.hereditary _ (by simp [classes])
  | .void, A => by
    simp only [resolve]
    exact gains_pure h.hereditary _ (by simp [classes])
  | .var name, A => by
    simp only [resolve]
    cases scope.resolve name with
    | none => exact gains_throw h.hereditary (h.fails _ (.unknownTypeVariable name))
    | some v => exact gains_pure h.hereditary _ (by simp [classes])
  | .array elem, A => by
    by_cases he : elem = .void
    · subst he
      simp only [resolve]
      exact gains_throw h.hereditary (h.fails _ .arrayOfVoid)
    · rw [resolve.eq_5 res scope elem he]
      exact (gains_type h scope elem A).bind fun t => gains_pure h.hereditary _ (by simp [classes])
  | .ofClass outer inner, A => by
    simp only [resolve]
    refine Gains.bind (gains_step h scope outer ?_) fun r => ?_
    · exact fun _ ht => nomatch ht
    exact (gains_steps h scope inner fun d hd => .inr hd).mono h.hereditary fun u =>
      Set.union_subset_union_left _ Set.subset_union_left

theorem gains_step (h : res.Collects I E) (scope : Scope) :
    ∀ (s : Segment) {name : String} {outer : Option ResolvedType} {A : Set ClassId},
      (∀ t, outer = some t → ∀ d ∈ t.classes, d ∈ A) →
      Gains I E A (res.resolveStep scope name outer s) fun r => A ∪ {d | d ∈ r.2.classes}
  | .mk segment args, name, outer, A, houter => by
    simp only [resolveStep]
    refine (h.find A _).bind fun c => (gains_args h scope args _).bind fun ts => ?_
    refine Gains.lift ((h.steady _).warnArity c ts.length) fun _ => gains_pure h.hereditary _ ?_
    rintro d (hd | hd)
    · exact .inl (.inl hd)
    · -- a class in the type comes from outside, is the class found, or is in an argument
      rcases classes_step hd with ⟨t, ht, hd⟩ | rfl | hd
      · exact .inl (.inl (houter t ht d hd))
      · exact .inl (.inr rfl)
      · exact .inr hd

theorem gains_steps (h : res.Collects I E) (scope : Scope) :
    ∀ (ss : List Segment) {name : String} {t : ResolvedType} {A : Set ClassId},
      (∀ d ∈ t.classes, d ∈ A) →
      Gains I E A (res.resolveInner scope name t ss) fun u => A ∪ {d | d ∈ u.classes}
  | [], name, t, A, ht => by
    simp only [resolveInner]
    refine gains_pure h.hereditary t ?_
    rintro d (hd | hd)
    · exact hd
    · exact ht d hd
  | s :: ss, name, t, A, ht => by
    simp only [resolveInner]
    refine (gains_step h scope s ?_).bind fun r => ?_
    · rintro _ ⟨⟩
      exact ht
    · exact (gains_steps h scope ss fun d hd => .inr hd).mono h.hereditary fun u =>
        Set.union_subset_union_left _ Set.subset_union_left

theorem gains_args (h : res.Collects I E) (scope : Scope) :
    ∀ (as : List TypeArg) (A : Set ClassId),
      Gains I E A (res.resolveArgs scope as) fun ts => A ∪ {d | d ∈ classesAll ts}
  | [], A => by
    simp only [resolveArgs]
    exact gains_pure h.hereditary _ (by simp [classesAll])
  | a :: as, A => by
    simp only [resolveArgs]
    refine (gains_arg h scope a A).bind fun t => (gains_args h scope as _).bind fun ts =>
      gains_pure h.hereditary _ ?_
    rintro d (hd | hd)
    · exact .inl (.inl hd)
    · rcases List.mem_append.1 hd with hd | hd
      · exact .inl (.inr hd)
      · exact .inr hd

theorem gains_arg (h : res.Collects I E) (scope : Scope) :
    ∀ (a : TypeArg) (A : Set ClassId),
      Gains I E A (res.resolveArg scope a) fun t => A ∪ {d | d ∈ t.classes}
  | .unbounded, A => by
    simp only [resolveArg]
    exact gains_pure h.hereditary _ (by simp [classes])
  | .bounded variance t, A => by
    simp only [resolveArg]
    cases hc : Position.reference.complaint? t with
    | some cause => exact gains_throw h.hereditary (h.fails _ (.position hc))
    | none =>
      exact (gains_type h scope t A).bind fun u =>
        gains_pure h.hereditary _ (by simp [classes_argument])

end

theorem gains_typeAt (h : res.Collects I E) (position : Position) (scope : Scope) (t : TypeSig)
    (A : Set ClassId) :
    Gains I E A (res.resolveAt position scope t) fun u => A ∪ {d | d ∈ u.classes} := by
  unfold resolveAt
  cases hc : position.complaint? t with
  | some cause => exact gains_throw h.hereditary (h.fails _ (.position hc))
  | none => exact gains_type h scope t A

/-- Types that stand at positions of one kind, one after the other. -/
theorem gains_typesAt (h : res.Collects I E) (position : Position) (scope : Scope)
    (ts : List TypeSig) (A : Set ClassId) :
    Gains I E A (ts.mapM (res.resolveAt position scope)) fun us => A ∪ {d | d ∈ classesAll us} := by
  simp only [mem_classesAll]
  exact Gains.mapM h.hereditary (gains_typeAt h position scope) ts A

/-! ### Class signatures -/

theorem gains_bounds (h : res.Collects I E) (scope : Scope) (owner : Declarer) (first : Nat)
    (ps : List TypeParamSig) (A : Set ClassId) :
    Gains I E A (res.resolveBounds scope owner first ps) fun tps =>
      A ∪ {d | d ∈ classesAll (tps.flatMap (·.bounds))} := by
  induction ps generalizing first A with
  | nil => exact gains_pure h.hereditary _ (by simp [classesAll])
  | cons p ps ih =>
    refine (gains_typesAt h .reference scope p.bounds A).bind fun bounds =>
      (ih (first + 1) _).bind fun rest => gains_pure h.hereditary _ ?_
    rintro d (hd | hd)
    · exact .inl (.inl hd)
    · obtain ⟨t, ht, hd⟩ := mem_classesAll.1 hd
      rcases List.mem_append.1 ht with ht | ht
      · exact .inl (.inr (mem_classesAll.2 ⟨t, ht, hd⟩))
      · exact .inr (mem_classesAll.2 ⟨t, ht, hd⟩)

theorem gains_introduce (h : res.Collects I E) (hE : ∀ e, E e) (scope : Scope)
    (owner : Declarer) (ps : List TypeParamSig) (A : Set ClassId) :
    Gains I E A (res.introduce scope owner ps) fun r =>
      A ∪ {d | d ∈ classesAll (r.1.flatMap (·.bounds))} := by
  refine Gains.ofRegistry fun r => (gains_ofExcept h.hereditary fun e _ => hE e).bind fun _ => ?_
  exact (gains_bounds h _ owner 0 ps A).bind fun tps => gains_pure h.hereditary _ subset_rfl

/-- **The resolution of a class signature gains the classes in it.** -/
theorem gains_classTypes (h : res.Collects I E) (hE : ∀ e, E e) (c : ClassId) (scope : Scope)
    (sig : ClassSig) (A : Set ClassId) :
    Gains I E A (res.resolveClassTypes c scope sig) fun types =>
      A ∪ {d | d ∈ classesAll types.all} := by
  refine (gains_ofExcept h.hereditary fun e _ => hE e).bind fun _ => ?_
  refine (gains_introduce h hE scope _ _ A).bind fun r => ?_
  refine (gains_typeAt h .classType r.2 sig.superclass _).bind fun superclass => ?_
  refine (gains_typesAt h .classType r.2 sig.interfaces _).bind fun ts => ?_
  refine gains_pure h.hereditary _ ?_
  rintro d (hd | hd)
  · exact .inl (.inl (.inl hd))
  · obtain ⟨t, ht, hdt⟩ := mem_classesAll.1 hd
    rcases List.mem_append.1 ht with ht | ht
    · exact .inl (.inl (.inr (mem_classesAll.2 ⟨t, ht, hdt⟩)))
    · rcases List.mem_cons.1 ht with rfl | ht
      · exact .inl (.inr hdt)
      · exact .inr (mem_classesAll.2 ⟨t, ht, hdt⟩)

/-! ### Errors -/

/-- Where nothing is asserted, there remains what is said of errors. -/
theorem collects_ofType (res : Resolution) :
    res.Collects (fun _ _ => True) ResolveError.OfType where
  hereditary _ _ _ _ := id
  steady _ := ⟨fun _ _ _ => trivial, fun _ _ _ _ => trivial, fun _ _ _ => trivial⟩
  find A name p _ := by
    rw [find_outcome]
    cases p.workspace.registry.lookup name with
    | none => exact ⟨.unknownClass name, trivial⟩
    | some c => trivial
  fails _ := id

theorem ofType_of_gains {α : Type} {x : Attempt α} {B : α → Set ClassId} {e : ResolveError}
    {p q : Progress} (hx : Gains (fun _ _ => True) ResolveError.OfType A x B)
    (h : x.outcome p = (.error e, q)) : e.OfType := by
  have hp := hx p trivial
  rw [h] at hp
  exact hp.1

theorem ofType_resolve {scope : Scope} {t : TypeSig} {e : ResolveError} {p q : Progress}
    (h : (res.resolve scope t).outcome p = (.error e, q)) : e.OfType :=
  ofType_of_gains (gains_type (collects_ofType res) scope t ∅) h

theorem ofType_resolveAt {position : Position} {scope : Scope} {t : TypeSig} {e : ResolveError}
    {p q : Progress} (h : (res.resolveAt position scope t).outcome p = (.error e, q)) : e.OfType :=
  ofType_of_gains (gains_typeAt (collects_ofType res) position scope t ∅) h

theorem ofType_resolveBounds {scope : Scope} {owner : Declarer} {first : Nat}
    {ps : List TypeParamSig} {e : ResolveError} {p q : Progress}
    (h : (res.resolveBounds scope owner first ps).outcome p = (.error e, q)) : e.OfType :=
  ofType_of_gains (gains_bounds (collects_ofType res) scope owner first ps ∅) h

end Resolution

end JavaGenerics
