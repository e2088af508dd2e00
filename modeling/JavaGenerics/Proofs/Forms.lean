import JavaGenerics.Proofs.Progress

/-!
# Forms of types

The grammar of signatures tells types apart by their form: a primitive type or a reference
type, a class type, a type argument. This file says which symbolic types have which form,
whatever names they hold – so that a type may also have been put together event by event,
from names that no text can contain.

Nothing checks the form of a whole type at once. The resolution of a type looks at one level
at a time, at the moment when it comes to it, and a name that is not found may end it before.
But what has been resolved has been looked at everywhere: a type comes to a result only if it
has the form that its position asks for (`JavaGenerics.Resolution.needs_reference` and its
companions). So to succeed is evidence of the form, no matter who answers the requests on the
way and what becomes of the registry.
-/

namespace JavaGenerics

/-! ### The forms of the grammar -/

mutual

/-- A primitive type or a reference type. -/
inductive TypeSig.ValueForm : TypeSig → Prop where
  | base (b : BaseType) : TypeSig.ValueForm (.base b)
  | reference {t : TypeSig} (h : TypeSig.ReferenceForm t) : TypeSig.ValueForm t

/-- A class type, a type variable or an array. -/
inductive TypeSig.ReferenceForm : TypeSig → Prop where
  | ofClass {t : TypeSig} (h : TypeSig.ClassForm t) : TypeSig.ReferenceForm t
  | var (name : String) : TypeSig.ReferenceForm (.var name)
  | array {elem : TypeSig} (h : TypeSig.ValueForm elem) : TypeSig.ReferenceForm (.array elem)

/-- A class type, in each step of which there are only type arguments. -/
inductive TypeSig.ClassForm : TypeSig → Prop where
  | mk {outer : Segment} {inner : List Segment}
      (h : ∀ s ∈ outer :: inner, ∀ a ∈ s.args, TypeArg.ArgumentForm a) :
      TypeSig.ClassForm (.ofClass outer inner)

/-- A wildcard, or a reference type with its variance. -/
inductive TypeArg.ArgumentForm : TypeArg → Prop where
  | unbounded : TypeArg.ArgumentForm .unbounded
  | bounded (v : Variance) {t : TypeSig} (h : TypeSig.ReferenceForm t) :
      TypeArg.ArgumentForm (.bounded v t)

end

/-- What a method may return: `void`, a primitive type or a reference type. -/
inductive TypeSig.ResultForm : TypeSig → Prop where
  | void : ResultForm .void
  | value {t : TypeSig} (h : t.ValueForm) : ResultForm t

/-- What may be thrown: a class type or a type variable. -/
inductive TypeSig.ThrownForm : TypeSig → Prop where
  | ofClass {t : TypeSig} (h : t.ClassForm) : ThrownForm t
  | var (name : String) : ThrownForm (.var name)

namespace TypeSig

variable {t : TypeSig}

theorem ResultForm.param (h : t.ResultForm) (hc : Position.param.complaint? t = none) :
    t.ValueForm := by
  cases h with
  | void => cases hc
  | value h => exact h

theorem ResultForm.reference (h : t.ResultForm) (hc : Position.reference.complaint? t = none) :
    t.ReferenceForm := by
  cases h with
  | void => cases hc
  | value h =>
    cases h with
    | base b => cases hc
    | reference h => exact h

theorem ResultForm.classType (h : t.ResultForm) (hc : Position.classType.complaint? t = none) :
    t.ClassForm := by
  cases t with
  | ofClass outer inner =>
    cases h.reference rfl with
    | ofClass h => exact h
  | _ => cases hc

theorem ResultForm.value_of_ne (h : t.ResultForm) (hvoid : t ≠ .void) : t.ValueForm := by
  cases h with
  | void => exact absurd rfl hvoid
  | value h => exact h

/-- A reference type that is no array may be thrown. -/
theorem ReferenceForm.thrown (h : t.ReferenceForm) (harray : ∀ elem, t ≠ .array elem) :
    t.ThrownForm := by
  cases h with
  | ofClass h => exact .ofClass h
  | var name => exact .var name
  | array h => exact absurd rfl (harray _)

end TypeSig

/-! ### What a result is evidence of -/

namespace Attempt

variable {α β : Type} {P Q : Prop}

/-- The attempt `x` comes to a result only if `P`, whatever state it is made in. -/
def Needs (P : Prop) (x : Attempt α) : Prop := ∀ p a q, x.outcome p = (.ok a, q) → P

theorem needs_of (h : P) (x : Attempt α) : Needs P x := fun _ _ _ _ => h

theorem needs_throw (e : ResolveError) : Needs P (throw e : Attempt α) := nofun

theorem Needs.imp {x : Attempt α} (hx : Needs P x) (h : P → Q) : Needs Q x :=
  fun p a q hout => h (hx p a q hout)

/-- What is done in two parts needs what either part needs. -/
theorem Needs.bind {x : Attempt α} {f : α → Attempt β} (hx : Needs P x)
    (hf : ∀ a, Needs Q (f a)) : Needs (P ∧ Q) (x >>= f) := by
  intro p b r h
  rw [outcome_bind] at h
  rcases hout : x.outcome p with ⟨_ | a, q⟩ <;> rw [hout] at h
  · cases h
  · exact ⟨hx p a q hout, hf a q b r h⟩

theorem Needs.andThen {x : Attempt α} (hx : Needs P x) (f : α → Attempt β) :
    Needs P (x >>= f) := (hx.bind fun a => needs_of trivial (f a)).imp And.left

theorem needs_after (x : Attempt α) {f : α → Attempt β} (hf : ∀ a, Needs P (f a)) :
    Needs P (x >>= f) := ((needs_of trivial x).bind hf).imp And.right

theorem Needs.mapM {f : α → Attempt β} {P : α → Prop} (hf : ∀ a, Needs (P a) (f a))
    (as : List α) : Needs (∀ a ∈ as, P a) (as.mapM f) := by
  induction as with
  | nil => exact needs_of nofun _
  | cons a as ih =>
    rw [List.mapM_cons]
    exact ((hf a).bind fun _ => ih.andThen _).imp fun h => List.forall_mem_cons.2 h

end Attempt

namespace Resolution

open Attempt

variable {res : Resolution} {scope : Scope}

mutual

/-- **What is resolved has the form of a type**, the arguments in it included. -/
theorem needs_type : ∀ t : TypeSig, Needs t.ResultForm (res.resolve scope t)
  | .base b => needs_of (.value (.base b)) _
  | .void => needs_of .void _
  | .var name => needs_of (.value (.reference (.var name))) _
  | .array elem => by
    by_cases he : elem = .void
    · subst he
      simp only [resolve]
      exact needs_throw _
    · rw [resolve.eq_5 res scope elem he]
      refine ((needs_type elem).andThen _).imp fun h => ?_
      exact .value (.reference (.array (h.value_of_ne he)))
  | .ofClass outer inner => by
    simp only [resolve]
    refine ((needs_step outer).bind fun _ => needs_steps inner).imp fun h => ?_
    exact .value (.reference (.ofClass (.mk (List.forall_mem_cons.2 h))))

theorem needs_step : ∀ (s : Segment) {name : String} {outer : Option ResolvedType},
    Needs (∀ a ∈ s.args, a.ArgumentForm) (res.resolveStep scope name outer s)
  | .mk segment args, name, outer => by
    simp only [resolveStep]
    exact needs_after _ fun _ => (needs_args args).andThen _

theorem needs_steps : ∀ (ss : List Segment) {name : String} {t : ResolvedType},
    Needs (∀ s ∈ ss, ∀ a ∈ s.args, a.ArgumentForm) (res.resolveInner scope name t ss)
  | [], name, t => needs_of nofun _
  | s :: ss, name, t => by
    simp only [resolveInner]
    exact ((needs_step s).bind fun _ => needs_steps ss).imp fun h => List.forall_mem_cons.2 h

theorem needs_args : ∀ as : List TypeArg,
    Needs (∀ a ∈ as, a.ArgumentForm) (res.resolveArgs scope as)
  | [] => needs_of nofun _
  | a :: as => by
    simp only [resolveArgs]
    exact ((needs_arg a).bind fun _ => (needs_args as).andThen _).imp fun h =>
      List.forall_mem_cons.2 h

theorem needs_arg : ∀ a : TypeArg, Needs a.ArgumentForm (res.resolveArg scope a)
  | .unbounded => needs_of .unbounded _
  | .bounded variance t => by
    simp only [resolveArg]
    cases hc : Position.reference.complaint? t with
    | some cause => exact needs_throw _
    | none => exact ((needs_type t).andThen _).imp fun h => .bounded variance (h.reference hc)

end

/-- A type is resolved at a position only if this does not complain of it. -/
theorem needs_typeAt (position : Position) (t : TypeSig) :
    Needs (t.ResultForm ∧ position.complaint? t = none) (res.resolveAt position scope t) := by
  unfold resolveAt
  cases hc : position.complaint? t with
  | some cause => exact needs_throw _
  | none => exact (needs_type t).imp fun h => ⟨h, rfl⟩

theorem needs_param (t : TypeSig) : Needs t.ValueForm (res.resolveAt .param scope t) :=
  (needs_typeAt .param t).imp fun h => h.1.param h.2

theorem needs_reference (t : TypeSig) : Needs t.ReferenceForm (res.resolveAt .reference scope t) :=
  (needs_typeAt .reference t).imp fun h => h.1.reference h.2

theorem needs_classType (t : TypeSig) : Needs t.ClassForm (res.resolveAt .classType scope t) :=
  (needs_typeAt .classType t).imp fun h => h.1.classType h.2

/-- The bounds of type parameters are reference types, if they are resolved. -/
theorem needs_bounds (owner : Declarer) (first : Nat) (ps : List TypeParamSig) :
    Needs (∀ p ∈ ps, ∀ t ∈ p.bounds, t.ReferenceForm) (res.resolveBounds scope owner first ps) := by
  induction ps generalizing first with
  | nil => exact needs_of nofun _
  | cons p ps ih =>
    refine ((Needs.mapM needs_reference p.bounds).bind fun _ => (ih (first + 1)).andThen _).imp ?_
    exact fun h => List.forall_mem_cons.2 h

end Resolution

end JavaGenerics
