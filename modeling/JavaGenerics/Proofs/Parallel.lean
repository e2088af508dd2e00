import JavaGenerics.Proofs.Resemblance

/-!
# Two resolutions side by side

Much of what is to be said of a resolution compares it with another: with one that asks
somebody else, that makes a check less, that finds a different state. Such comparisons
all have the same middle part. Two resolutions go through one signature side by side, and
as long as they find related states they take the same steps and come to the same.

`JavaGenerics.Attempt.Alike` says this of two computations and a relation of states,
`JavaGenerics.Attempt.Together` of two attempts, and
`JavaGenerics.Resolution.together_type` and its companions follow the readings of types
and signatures. What has to be known of the relation is little
(`JavaGenerics.Resolution.Parallel`): that requests, warnings and notes of circles keep
it, and that names stand for the same in related states.

To follow two resolutions to their ends, checks and commits included, their states must
moreover resemble each other, and what they commit must keep them in some relation
(`JavaGenerics.Resolution.Abreast`, `JavaGenerics.Resolution.together_body`). In the
simplest case the two states are one (`JavaGenerics.Resolution.Lockstep`).
-/

namespace JavaGenerics

namespace Attempt

variable {α β : Type} {R R' : Progress → Progress → Prop}

/-! ### Computations side by side -/

/-- **Side by side**: begun in states that `R` relates, `x` and `y` return the same and
leave states that `R` relates. -/
def Alike (R : Progress → Progress → Prop) (x y : StateM Progress α) : Prop :=
  ∀ p q, R p q → (x p).1 = (y q).1 ∧ R (x p).2 (y q).2

/-- Attempts that go side by side, whether they succeed or fail. -/
def Together (R : Progress → Progress → Prop) (x y : Attempt α) : Prop :=
  ∀ p q, R p q → (x.outcome p).1 = (y.outcome q).1 ∧ R (x.outcome p).2 (y.outcome q).2

/-- Attempts that go side by side, where the states that they leave are related as `R'`
says. -/
def TogetherTo (R R' : Progress → Progress → Prop) (x y : Attempt α) : Prop :=
  ∀ p q, R p q → (x.outcome p).1 = (y.outcome q).1 ∧ R' (x.outcome p).2 (y.outcome q).2

theorem alike_pure (a : α) : Alike R (pure a) (pure a) := fun _ _ h => ⟨rfl, h⟩

theorem Alike.bind {x y : StateM Progress α} {f g : α → StateM Progress β} (h : Alike R x y)
    (hf : ∀ a, Alike R (f a) (g a)) : Alike R (x >>= f) (y >>= g) := by
  intro p q hpq
  obtain ⟨hresult, hstate⟩ := h p q hpq
  change (f (x p).1 (x p).2).1 = (g (y q).1 (y q).2).1 ∧
    R (f (x p).1 (x p).2).2 (g (y q).1 (y q).2).2
  rw [← hresult]
  exact hf (x p).1 (x p).2 (y q).2 hstate

theorem Alike.forM {f g : α → StateM Progress Unit} (hf : ∀ a, Alike R (f a) (g a))
    (as : List α) : Alike R (as.forM f) (as.forM g) := by
  induction as with
  | nil => exact alike_pure ()
  | cons a as ih => exact (hf a).bind fun _ => ih

theorem together_pure (a : α) : Together R (pure a) (pure a) := fun _ _ h => ⟨rfl, h⟩

theorem together_throw (e : ResolveError) : Together R (throw e : Attempt α) (throw e) :=
  fun _ _ h => ⟨rfl, h⟩

theorem together_ofExcept (v : Except ResolveError α) : Together R (ofExcept v) (ofExcept v) := by
  cases v with
  | error e => exact together_throw e
  | ok a => exact together_pure a

theorem Together.to {x y : Attempt α} (h : Together R x y) (hR : ∀ p q, R p q → R' p q) :
    TogetherTo R R' x y := fun p q hpq => ⟨(h p q hpq).1, hR _ _ (h p q hpq).2⟩

/-- What ends the first part ends the whole, so that its states have to be related as those
at the end are. -/
theorem Together.bind_to {x y : Attempt α} {f g : α → Attempt β} (h : Together R x y)
    (hR : ∀ p q, R p q → R' p q) (hf : ∀ a, TogetherTo R R' (f a) (g a)) :
    TogetherTo R R' (x >>= f) (y >>= g) := by
  intro p q hpq
  obtain ⟨hresult, hstate⟩ := h p q hpq
  rw [outcome_bind, outcome_bind]
  rcases hx : x.outcome p with ⟨_ | a, p'⟩ <;> rcases hy : y.outcome q with ⟨_ | b, q'⟩ <;>
    rw [hx, hy] at hresult hstate <;> cases hresult
  · exact ⟨rfl, hR _ _ hstate⟩
  · exact hf a p' q' hstate

theorem Together.bind {x y : Attempt α} {f g : α → Attempt β} (h : Together R x y)
    (hf : ∀ a, Together R (f a) (g a)) : Together R (x >>= f) (y >>= g) :=
  h.bind_to (fun _ _ => id) hf

theorem Alike.lift_to {x y : StateM Progress α} {f g : α → Attempt β} (h : Alike R x y)
    (hf : ∀ a, TogetherTo R R' (f a) (g a)) : TogetherTo R R' (liftM x >>= f) (liftM y >>= g) := by
  intro p q hpq
  obtain ⟨hresult, hstate⟩ := h p q hpq
  change ((f (x p).1).outcome (x p).2).1 = ((g (y q).1).outcome (y q).2).1 ∧
    R' ((f (x p).1).outcome (x p).2).2 ((g (y q).1).outcome (y q).2).2
  rw [← hresult]
  exact hf (x p).1 (x p).2 (y q).2 hstate

theorem Alike.lift_bind {x y : StateM Progress α} {f g : α → Attempt β} (h : Alike R x y)
    (hf : ∀ a, Together R (f a) (g a)) : Together R (liftM x >>= f) (liftM y >>= g) :=
  h.lift_to hf

theorem TogetherTo.ofRegistry {f g : Registry → Attempt β}
    (h : ∀ p q, R p q → TogetherTo R R' (f p.workspace.registry) (g q.workspace.registry)) :
    TogetherTo R R' (liftM getRegistry >>= f) (liftM getRegistry >>= g) :=
  fun p q hpq => h p q hpq p q hpq

theorem Together.ofRegistry {f g : Registry → Attempt β}
    (h : ∀ p q, R p q → Together R (f p.workspace.registry) (g q.workspace.registry)) :
    Together R (liftM getRegistry >>= f) (liftM getRegistry >>= g) := TogetherTo.ofRegistry h

theorem Together.mapM {f g : α → Attempt β} (hf : ∀ a, Together R (f a) (g a)) (as : List α) :
    Together R (as.mapM f) (as.mapM g) := by
  induction as with
  | nil => exact together_pure []
  | cons a as ih =>
    rw [List.mapM_cons, List.mapM_cons]
    exact (hf a).bind fun b => ih.bind fun bs => together_pure (b :: bs)

theorem Together.mapM_option {f g : α → Attempt β} (hf : ∀ a, Together R (f a) (g a))
    (a : Option α) : Together R (a.mapM f) (a.mapM g) := by
  cases a with
  | none => exact together_pure none
  | some a => exact (hf a).bind fun b => together_pure (some b)

end Attempt

open Attempt

/-! ### Resolutions side by side -/

namespace Resolution

/-- **What two resolutions need to go side by side**, where `R` relates their states. -/
structure Parallel (res res' : Resolution) (R : Progress → Progress → Prop) : Prop where
  request : ∀ c, Alike R (res.request c) (res'.request c)
  warnArity : ∀ c supplied, Alike R (res.warnArity c supplied) (res'.warnArity c supplied)
  noteCycle : ∀ c, Alike R (work (Workspace.noteCycle c)) (work (Workspace.noteCycle c))
  agrees : ∀ p q, R p q → p.workspace.registry.Agrees q.workspace.registry

variable {res res' : Resolution} {R : Progress → Progress → Prop}

theorem alike_requestEnclosing (h : res.Parallel res' R) (c : ClassId) :
    Alike R (res.requestEnclosing c) (res'.requestEnclosing c) := by
  have hchain : Alike R (work (Workspace.enclosingChain c))
      (work (Workspace.enclosingChain c)) := by
    intro p q hpq
    obtain ⟨-, hstate⟩ := h.noteCycle c p q hpq
    exact ⟨((h.agrees _ _ hstate).enclosingChain c).symm, hstate⟩
  exact hchain.bind fun cs => Alike.forM h.request cs

/-- The type parameters around a class are brought into force alike. -/
theorem alike_scopeAround (h : res.Parallel res' R) (c : ClassId) :
    Alike R (res.scopeAround c) (res'.scopeAround c) := by
  refine (alike_requestEnclosing h c).bind fun _ p q hpq => ?_
  obtain ⟨-, hstate⟩ := h.noteCycle c p q hpq
  exact ⟨((h.agrees _ _ hstate).pushEnclosing {} c).symm, hstate⟩

theorem alike_scopeInside (h : res.Parallel res' R) (c : ClassId) :
    Alike R (res.scopeInside c) (res'.scopeInside c) := by
  refine (alike_requestEnclosing h c).bind fun _ => (h.request c).bind fun _ p q hpq => ?_
  obtain ⟨-, hstate⟩ := h.noteCycle c p q hpq
  exact ⟨((h.agrees _ _ hstate).pushBody {} c).symm, hstate⟩

theorem together_find (h : res.Parallel res' R) (name : String) :
    Together R (res.find name) (res'.find name) := by
  refine Together.ofRegistry fun p q hpq => ?_
  rw [(h.agrees p q hpq).lookup]
  cases p.workspace.registry.lookup name with
  | none => exact together_throw _
  | some c => exact (h.request c).lift_bind fun _ => together_pure c

theorem together_raw (h : res.Parallel res' R) (t : FieldType) :
    Together R (res.resolveRaw t) (res'.resolveRaw t) := by
  induction t with
  | base b => exact together_pure _
  | object name => exact (together_find h _).bind fun c => together_pure _
  | array elem ih => exact ih.bind fun t => together_pure _

theorem together_erasedResult (h : res.Parallel res' R) (m : MethodEntry) :
    Together R (res.resolveErasedResult m) (res'.resolveErasedResult m) := by
  unfold resolveErasedResult
  split
  · exact together_pure _
  · cases m.descriptor.result with
    | none => exact together_pure _
    | some erased => exact (together_raw h erased).bind fun t => together_pure _

mutual

/-- **Two resolutions side by side read a type alike.** -/
theorem together_type (h : res.Parallel res' R) (scope : Scope) :
    ∀ t : TypeSig, Together R (res.resolve scope t) (res'.resolve scope t)
  | .base b => by
    simp only [resolve]
    exact together_pure _
  | .void => by
    simp only [resolve]
    exact together_pure _
  | .var name => by
    simp only [resolve]
    cases scope.resolve name with
    | none => exact together_throw _
    | some v => exact together_pure _
  | .array elem => by
    by_cases he : elem = .void
    · subst he
      simp only [resolve]
      exact together_throw _
    · rw [resolve.eq_5 res scope elem he, resolve.eq_5 res' scope elem he]
      exact (together_type h scope elem).bind fun t => together_pure _
  | .ofClass outer inner => by
    simp only [resolve]
    exact (together_step h scope outer).bind fun r => together_steps h scope inner

theorem together_step (h : res.Parallel res' R) (scope : Scope) :
    ∀ (s : Segment) {name : String} {outer : Option ResolvedType},
      Together R (res.resolveStep scope name outer s) (res'.resolveStep scope name outer s)
  | .mk segment args, name, outer => by
    simp only [resolveStep]
    refine (together_find h _).bind fun c => (together_args h scope args).bind fun ts => ?_
    exact (h.warnArity c ts.length).lift_bind fun _ => together_pure _

theorem together_steps (h : res.Parallel res' R) (scope : Scope) :
    ∀ (ss : List Segment) {name : String} {t : ResolvedType},
      Together R (res.resolveInner scope name t ss) (res'.resolveInner scope name t ss)
  | [], name, t => by
    simp only [resolveInner]
    exact together_pure _
  | s :: ss, name, t => by
    simp only [resolveInner]
    exact (together_step h scope s).bind fun r => together_steps h scope ss

theorem together_args (h : res.Parallel res' R) (scope : Scope) :
    ∀ as : List TypeArg, Together R (res.resolveArgs scope as) (res'.resolveArgs scope as)
  | [] => by
    simp only [resolveArgs]
    exact together_pure _
  | a :: as => by
    simp only [resolveArgs]
    exact (together_arg h scope a).bind fun t =>
      (together_args h scope as).bind fun ts => together_pure _

theorem together_arg (h : res.Parallel res' R) (scope : Scope) :
    ∀ a : TypeArg, Together R (res.resolveArg scope a) (res'.resolveArg scope a)
  | .unbounded => by
    simp only [resolveArg]
    exact together_pure _
  | .bounded variance t => by
    simp only [resolveArg]
    cases Position.reference.complaint? t with
    | some cause => exact together_throw _
    | none => exact (together_type h scope t).bind fun u => together_pure _

end

theorem together_typeAt (h : res.Parallel res' R) (position : Position) (scope : Scope)
    (t : TypeSig) :
    Together R (res.resolveAt position scope t) (res'.resolveAt position scope t) := by
  unfold resolveAt
  cases position.complaint? t with
  | some cause => exact together_throw _
  | none => exact together_type h scope t

theorem together_params (h : res.Parallel res' R) (scope : Scope) (owner : Declarer) (first : Nat)
    (ps : List TypeParamSig) :
    Together R (res.resolveBounds scope owner first ps)
      (res'.resolveBounds scope owner first ps) := by
  induction ps generalizing first with
  | nil => exact together_pure _
  | cons p ps ih =>
    refine (Together.mapM (together_typeAt h .reference scope) p.bounds).bind fun bs => ?_
    exact (ih (first + 1)).bind fun rest => together_pure _

theorem together_introduce (h : res.Parallel res' R) (scope : Scope) (owner : Declarer)
    (ps : List TypeParamSig) :
    Together R (res.introduce scope owner ps) (res'.introduce scope owner ps) := by
  refine Together.ofRegistry fun p q hpq => ?_
  rw [checkDeclared_congr ((h.agrees p q hpq).declared owner)]
  refine (together_ofExcept _).bind fun _ => ?_
  exact (together_params h _ owner 0 ps).bind fun tps => together_pure _

/-- Two resolutions side by side read a class signature alike. -/
theorem together_classTypes (h : res.Parallel res' R) (c : ClassId) (scope : Scope)
    (sig : ClassSig) :
    Together R (res.resolveClassTypes c scope sig) (res'.resolveClassTypes c scope sig) := by
  refine (together_ofExcept _).bind fun _ => (together_introduce h scope _ _).bind fun r => ?_
  refine (together_typeAt h .classType r.2 sig.superclass).bind fun superclass => ?_
  refine (Together.mapM (together_typeAt h .classType r.2) sig.interfaces).bind fun ts => ?_
  exact together_pure _

/-- Two resolutions side by side read a method signature alike. -/
theorem together_methodTypes (h : res.Parallel res' R) (m : MethodId) (scope : Scope)
    (sig : MethodSig) :
    Together R (res.resolveMethodTypes m scope sig) (res'.resolveMethodTypes m scope sig) := by
  refine (together_ofExcept _).bind fun _ => (together_introduce h scope _ _).bind fun r => ?_
  refine (Together.mapM (together_typeAt h .param r.2) sig.params).bind fun params => ?_
  refine (together_type h r.2 sig.result).bind fun result => ?_
  refine (Together.mapM (together_typeAt h .reference r.2) sig.throws).bind fun throws => ?_
  exact together_pure _

theorem alike_nameParams (howner : res'.owner = res.owner)
    (hwarn : ∀ supplied declared, Alike R (res.warn (.argumentNames supplied declared res.owner))
      (res'.warn (.argumentNames supplied declared res.owner)))
    (names : List String) (declared synthetic : Nat) :
    Alike R (res.nameParams names declared synthetic)
      (res'.nameParams names declared synthetic) := by
  unfold nameParams
  rw [howner]
  split
  · exact alike_pure _
  · split
    · exact (hwarn _ _).bind fun _ => alike_pure _
    · exact alike_pure _

end Resolution

/-! ### Side by side to the ends -/

/-- Changes of a registry that fill in what a declaration is resolved to. -/
inductive Registry.Fills : (Registry → Registry) → Prop where
  | ofClass (c : ClassId) {f : ClassEntry → ClassEntry} (hf : ∀ e, (f e).stage = .resolved) :
      Fills fun r => r.modifyClass c f
  | ofMethod (m : MethodId) (f : MethodEntry → MethodEntry) : Fills fun r => r.modifyMethod m f
  | ofField (x : FieldId) (f : FieldEntry → FieldEntry) : Fills fun r => r.modifyField x f

namespace Resolution

/-- **What two resolutions need to go side by side to their ends**: besides what they need
on the way, their states must look alike to a check and stay related when the names of
parameters are found fault with, and whatever they commit must lead from states that `R`
relates to states that `R'` relates. -/
structure Abreast (res res' : Resolution) (R R' : Progress → Progress → Prop) : Prop where
  parallel : res.Parallel res' R
  resembles : ∀ p q, R p q → p.workspace.registry.Resembles q.workspace.registry
  weaken : ∀ p q, R p q → R' p q
  warn : ∀ supplied declared, Alike R (res.warn (.argumentNames supplied declared res.owner))
    (res'.warn (.argumentNames supplied declared res.owner))
  commits : ∀ f n, Registry.Fills f → TogetherTo R R' (commit f n) (commit f n)
  verifyErasure : res'.options.verifyErasure = res.options.verifyErasure
  owner : res'.owner = res.owner

variable {res res' : Resolution} {R R' : Progress → Progress → Prop}

theorem Abreast.throw {α : Type} (h : res.Abreast res' R R') (e : ResolveError) :
    TogetherTo R R' (throw e : Attempt α) (throw e) := (together_throw e).to h.weaken

theorem together_commitClass (h : res.Abreast res' R R') (c : ClassId) (types : ClassTypes) :
    TogetherTo R R' (res.commitClass c types) (res'.commitClass c types) := by
  unfold commitClass
  rw [h.verifyErasure, h.owner]
  refine TogetherTo.ofRegistry fun p q hpq => ?_
  have hlike := h.resembles p q hpq
  rw [hlike.records.isNone_classAt?, hlike.checkHeader_eq]
  have hcommit := h.commits _ (.classResolved res.owner types.typeParams.length)
    (.ofClass c (f := types.fill) fun _ => rfl)
  have hchecked : TogetherTo R R'
      (if (p.workspace.registry.classAt? c).isNone then
        (throw (.unknownDeclaration (.ofClass c)) : Attempt PUnit) >>= fun _ =>
          commit (fun r => r.modifyClass c types.fill)
            (.classResolved res.owner types.typeParams.length)
        else commit (fun r => r.modifyClass c types.fill)
          (.classResolved res.owner types.typeParams.length))
      (if (p.workspace.registry.classAt? c).isNone then
        (throw (.unknownDeclaration (.ofClass c)) : Attempt PUnit) >>= fun _ =>
          commit (fun r => r.modifyClass c types.fill)
            (.classResolved res.owner types.typeParams.length)
        else commit (fun r => r.modifyClass c types.fill)
          (.classResolved res.owner types.typeParams.length)) := by
    split
    · exact h.throw _
    · exact hcommit
  by_cases hv : res.options.verifyErasure = true
  · simp only [hv, if_true]
    exact (together_ofExcept _).bind_to h.weaken fun _ => hchecked
  · simp only [hv]
    exact hchecked

theorem together_classText (h : res.Abreast res' R R') (c : ClassId) (text : String) :
    TogetherTo R R' (res.resolveClassText c text) (res'.resolveClassText c text) := by
  unfold resolveClassText
  split
  · exact h.throw _
  · refine (alike_scopeAround h.parallel c).lift_to fun scope => ?_
    refine (together_classTypes h.parallel c scope _).bind_to h.weaken fun types => ?_
    exact together_commitClass h c types

theorem together_classHeader (h : res.Abreast res' R R') (c : ClassId) :
    TogetherTo R R' (res.resolveClassHeader c) (res'.resolveClassHeader c) := by
  unfold resolveClassHeader
  rw [h.owner]
  refine TogetherTo.ofRegistry fun p q hpq => ?_
  rcases (h.resembles p q hpq).records.classAt?_cases c with
      ⟨hc, hc'⟩ | ⟨e, e', hc, hc', hrecord⟩ <;>
    rw [hc, hc']
  · exact h.throw _
  · dsimp only
    rw [show e'.erasedSuper = e.erasedSuper from congrArg ClassEntry.Record.erasedSuper hrecord,
      show e'.erasedInterfaces = e.erasedInterfaces from
        congrArg ClassEntry.Record.erasedInterfaces hrecord]
    refine (Together.mapM_option (together_find h.parallel) _).bind_to h.weaken fun superclass => ?_
    refine (Together.mapM (together_find h.parallel) _).bind_to h.weaken fun interfaces => ?_
    exact h.commits _ _ (.ofClass c fun _ => rfl)

theorem together_commitMethod (h : res.Abreast res' R R') (m : MethodId) (types : MethodTypes) :
    TogetherTo R R' (res.commitMethod m types) (res'.commitMethod m types) := by
  unfold commitMethod
  rw [h.verifyErasure]
  refine TogetherTo.ofRegistry fun p q hpq => ?_
  have hlike := h.resembles p q hpq
  rw [hlike.methodAt?_eq]
  split
  · exact h.throw _
  · rename_i entry _
    have hnames := (alike_nameParams h.owner h.warn entry.argNames types.params.length
      (p.workspace.registry.syntheticCount entry types.params.length)).lift_to fun names =>
        h.commits _ (.methodResolved res.owner) (.ofMethod m (types.fill names))
    rw [h.owner]
    simp only [hlike.records.syntheticCount_eq, hlike.checkDescriptor_eq]
    by_cases hv : res.options.verifyErasure = true
    · simp only [hv, if_true]
      exact (together_ofExcept _).bind_to h.weaken fun _ => hnames
    · simp only [hv]
      exact hnames

theorem together_methodText (h : res.Abreast res' R R') (m : MethodId) (text : String) :
    TogetherTo R R' (res.resolveMethodText m text) (res'.resolveMethodText m text) := by
  unfold resolveMethodText
  split
  · exact h.throw _
  · refine TogetherTo.ofRegistry fun p q hpq => ?_
    rw [(h.resembles p q hpq).methodAt?_eq]
    split
    · exact h.throw _
    · refine (alike_scopeInside h.parallel _).lift_to fun scope => ?_
      refine (together_methodTypes h.parallel m scope _).bind_to h.weaken fun types => ?_
      exact together_commitMethod h m types

theorem together_methodDescriptor (h : res.Abreast res' R R') (m : MethodId) :
    TogetherTo R R' (res.resolveMethodDescriptor m) (res'.resolveMethodDescriptor m) := by
  unfold resolveMethodDescriptor
  rw [h.owner]
  refine TogetherTo.ofRegistry fun p q hpq => ?_
  rw [(h.resembles p q hpq).methodAt?_eq]
  split
  · exact h.throw _
  · refine (Together.mapM (together_raw h.parallel) _).bind_to h.weaken fun params => ?_
    refine (together_erasedResult h.parallel _).bind_to h.weaken fun result => ?_
    refine (alike_nameParams h.owner h.warn _ _ _).lift_to fun names => ?_
    exact h.commits _ _ (.ofMethod m _)

theorem together_fieldText (h : res.Abreast res' R R') (owner : ClassId) (descriptor : FieldType)
    (text : String) :
    Together R (res.resolveFieldText owner descriptor text)
      (res'.resolveFieldText owner descriptor text) := by
  unfold resolveFieldText
  rw [h.verifyErasure]
  refine (alike_scopeInside h.parallel owner).lift_bind fun scope => ?_
  split
  · exact together_throw _
  · refine (together_typeAt h.parallel .reference scope _).bind fun type => ?_
    by_cases hv : res.options.verifyErasure = true
    · simp only [hv, if_true]
      refine Together.ofRegistry fun p q hpq => ?_
      rw [(h.resembles p q hpq).checkErasure_eq]
      exact (together_ofExcept _).bind fun _ => together_pure type
    · simp only [hv]
      exact together_pure type

theorem together_fieldEntry (h : res.Abreast res' R R') (f : FieldId) (signature : Option String) :
    TogetherTo R R' (res.resolveFieldEntry f signature) (res'.resolveFieldEntry f signature) := by
  unfold resolveFieldEntry
  rw [h.owner]
  refine TogetherTo.ofRegistry fun p q hpq => ?_
  rw [(h.resembles p q hpq).fieldAt?_eq]
  split
  · exact h.throw _
  · rename_i entry _
    have hcommit := fun type => h.commits _ (.fieldResolved res.owner)
      (.ofField f (FieldEntry.fill type))
    cases signature with
    | none => exact (together_raw h.parallel entry.descriptor).bind_to h.weaken hcommit
    | some text =>
      exact (together_fieldText h entry.owner entry.descriptor text).bind_to h.weaken hcommit

/-- **Two resolutions abreast** go side by side to their ends. -/
theorem together_body (h : res.Abreast res' R R') (t : Target) (signature : Option String) :
    TogetherTo R R' (res.body t signature) (res'.body t signature) := by
  cases t with
  | ofClass c =>
    cases signature with
    | none => exact together_classHeader h c
    | some text => exact together_classText h c text
  | ofMethod m =>
    cases signature with
    | none => exact together_methodDescriptor h m
    | some text => exact together_methodText h m text
  | ofField f => exact together_fieldEntry h f signature

end Resolution

/-! ### The same state on both sides -/

namespace Attempt

variable {α : Type} {I : Progress → Prop}

/-- The two states are one, and it satisfies `I`. -/
def Same (I : Progress → Prop) (p q : Progress) : Prop := p = q ∧ I p

theorem Keeps.alike {x : StateM Progress α} (h : Keeps I x) : Alike (Same I) x x := by
  rintro p _ ⟨rfl, hp⟩
  exact ⟨rfl, rfl, h p hp⟩

/-- Everything that a resolution may commit keeps `I`. -/
def KeptByCommits (I : Progress → Prop) : Prop :=
  ∀ f n p, Registry.Fills f → I p → I ((commit f n).outcome p).2

end Attempt

namespace Resolution

variable {res res' : Resolution} {I : Progress → Prop}

/-- Where `I` is steady, a resolution goes side by side with itself. -/
theorem Steady.parallel (h : res.Steady I) : res.Parallel res (Same I) where
  request c := (h.request c).alike
  warnArity c supplied := (h.warnArity c supplied).alike
  noteCycle c := (h.noteCycle c).alike
  agrees := by
    rintro p _ ⟨rfl, -⟩
    exact .refl _

/-- What a resolution beside itself keeps, requests and notes of circles keep. -/
theorem Parallel.calm (h : res.Parallel res (Same I)) : res.Calm I where
  request c p hp := (h.request c p p ⟨rfl, hp⟩).2.2
  noteCycle c p hp := (h.noteCycle c p p ⟨rfl, hp⟩).2.2

/-- A steady invariant that commits turn into another one holds to the end. -/
theorem Steady.abreast (h : res.Steady I) {I' : Progress → Prop} (hweaken : ∀ p, I p → I' p)
    (hcommits : ∀ f n p, Registry.Fills f → I p → I' ((commit f n).outcome p).2) :
    res.Abreast res (Same I) (Same I') where
  parallel := h.parallel
  resembles := by
    rintro p _ ⟨rfl, -⟩
    exact .refl _
  weaken p _ hpq := ⟨hpq.1, hweaken p hpq.2⟩
  warn supplied declared := (h.warn (.argumentNames supplied declared _) fun _ => nofun).alike
  commits f n hf := by
    rintro p _ ⟨rfl, hp⟩
    exact ⟨rfl, rfl, hcommits f n p hf hp⟩
  verifyErasure := rfl
  owner := rfl

/-- Two resolutions that find the same states, in which `I` holds, and differ only in
whom they ask. -/
structure Lockstep (res res' : Resolution) (I : Progress → Prop) : Prop where
  parallel : res.Parallel res' (Same I)
  warn : ∀ w : Warning, Keeps I (res.warn w)
  commits : KeptByCommits I
  options : res'.options = res.options
  owner : res'.owner = res.owner

/-- Two resolutions in lockstep are abreast, and in the same state to the end. -/
theorem Lockstep.abreast (h : res.Lockstep res' I) : res.Abreast res' (Same I) (Same I) where
  parallel := h.parallel
  resembles := by
    rintro p _ ⟨rfl, -⟩
    exact .refl _
  weaken _ _ := id
  warn supplied declared := by
    unfold Resolution.warn
    rw [h.owner]
    exact (h.warn (.argumentNames supplied declared res.owner)).alike
  commits f n hf := by
    rintro p _ ⟨rfl, hp⟩
    exact ⟨rfl, rfl, h.commits f n p hf hp⟩
  verifyErasure := by rw [h.options]
  owner := h.owner

end Resolution

end JavaGenerics
