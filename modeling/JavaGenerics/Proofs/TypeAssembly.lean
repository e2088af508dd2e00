import JavaGenerics.Assembly.Type
import JavaGenerics.Signature.Event

/-!
# Assembling a type from its own events

The events of a symbolic type are a walk over its tree, and an assembler that is fed this walk
puts the tree together again: no event but the last completes anything, and the last one
settles the type, whatever is unfinished around it
(`JavaGenerics.TypeAssembler.completes_events`).

The events of a class type come in three layers. Type arguments go to the segment that the
class type ends with so far, so the statement for them speaks of such a class type
(`JavaGenerics.Frame.endingWith`); the member classes add one such segment after the other;
and the closing event completes the type.
-/

namespace JavaGenerics

/-- The open class type of some segments, `last` at their end. -/
def Frame.endingWith (last : Segment) : List Segment → Frame
  | [] => .ofClass last []
  | outer :: inner => .ofClass outer (inner ++ [last])

namespace TypeAssembler

variable {a b c : TypeAssembler} {e : Event} {es es' : List Event} {o : Outcome}
  {frames : List Frame}

/-- From `a`, the events `es` lead to `b`, and none of them completes a type. -/
inductive Absorbs : TypeAssembler → List Event → TypeAssembler → Prop
  | nil (a : TypeAssembler) : Absorbs a [] a
  | cons {a b c : TypeAssembler} {e : Event} {es : List Event} (first : a.accept e = (.ok none, b))
      (rest : Absorbs b es c) : Absorbs a (e :: es) c

/-- From `a`, the last of the events `es` leads to `o`, and none of the others completes a
type. -/
inductive Completes (o : Outcome) : TypeAssembler → List Event → Prop
  | last {a : TypeAssembler} {e : Event} (h : a.accept e = o) : Completes o a [e]
  | cons {a b : TypeAssembler} {e : Event} {es : List Event} (first : a.accept e = (.ok none, b))
      (rest : Completes o b es) : Completes o a (e :: es)

theorem Absorbs.single (h : a.accept e = (.ok none, b)) : Absorbs a [e] b := .cons h (.nil b)

theorem Absorbs.trans (h : Absorbs a es b) (h' : Absorbs b es' c) :
    Absorbs a (es ++ es') c := by
  induction h with
  | nil => exact h'
  | cons first _ ih => exact .cons first (ih h')

theorem Absorbs.completes (h : Absorbs a es b) (h' : Completes o b es') :
    Completes o a (es ++ es') := by
  induction h with
  | nil => exact h'
  | cons first _ ih => exact .cons first (ih h')

/-- What leads to no type at the end is absorbed. -/
theorem Completes.absorbs (h : Completes (.ok none, b) a es) : Absorbs a es b := by
  induction h with
  | last h => exact .single h
  | cons first _ ih => exact .cons first ih

/-! ### Class types that are open -/

theorem accept_classType (name : String) :
    accept ⟨frames⟩ (.classType name) = (.ok none, ⟨.endingWith (.mk name []) [] :: frames⟩) := rfl

theorem accept_innerClassType (name : String) (outer : Segment) (inner : List Segment) :
    accept ⟨.ofClass outer inner :: frames⟩ (.innerClassType name) =
      (.ok none, ⟨.endingWith (.mk name []) (outer :: inner) :: frames⟩) := rfl

theorem accept_typeArgument (v : Variance) (last : Segment) (before : List Segment) :
    accept ⟨.endingWith last before :: frames⟩ (.typeArgument v) =
      (.ok none, ⟨.argument v :: .endingWith last before :: frames⟩) := by
  cases before <;> rfl

theorem ofClassWithArg_concat (outer last : Segment) (inner : List Segment) (arg : TypeArg) :
    Frame.ofClassWithArg outer (inner ++ [last]) arg =
      .endingWith (last.withArg arg) (outer :: inner) := by
  simp [Frame.ofClassWithArg, Frame.endingWith]

/-- An argument without a type goes to the last segment. -/
theorem accept_unboundedTypeArgument (last : Segment) (before : List Segment) :
    accept ⟨.endingWith last before :: frames⟩ .unboundedTypeArgument =
      (.ok none, ⟨.endingWith (last.withArg .unbounded) before :: frames⟩) := by
  cases before with
  | nil => rfl
  | cons outer inner =>
    rw [← ofClassWithArg_concat]
    rfl

/-- A type that has been announced as an argument goes to the last segment. -/
theorem settle_argument (t : TypeSig) (v : Variance) (last : Segment) (before : List Segment) :
    settle t (.argument v :: .endingWith last before :: frames) =
      (.ok none, ⟨.endingWith (last.withArg (.bounded v t)) before :: frames⟩) := by
  cases before with
  | nil => rfl
  | cons outer inner =>
    rw [← ofClassWithArg_concat]
    rfl

/-! ### The walk -/

mutual

/-- **The events of a type complete it**, and it settles in what is unfinished around it. -/
theorem completes_events : ∀ (t : TypeSig) (frames : List Frame),
    Completes (settle t frames) ⟨frames⟩ t.events
  | .base b, frames => .last rfl
  | .void, frames => .last rfl
  | .var name, frames => .last rfl
  | .array elem, frames => .cons rfl (completes_events elem (.array :: frames))
  | .ofClass (.mk name args) inner, frames => by
    have houter : Absorbs ⟨frames⟩ ((Segment.mk name args).eventsFrom .classType)
        ⟨.ofClass (.mk name args) [] :: frames⟩ :=
      .cons (accept_classType name) (absorbs_allEvents args name [] [] frames)
    have hinner := absorbs_innerEvents inner (.mk name args) [] frames
    exact (houter.trans hinner).completes (.last rfl)

/-- The events of type arguments add these to the last segment. -/
theorem absorbs_allEvents : ∀ (args : List TypeArg) (name : String) (done : List TypeArg)
    (before : List Segment) (frames : List Frame),
    Absorbs ⟨.endingWith (.mk name done) before :: frames⟩ (TypeArg.allEvents args)
      ⟨.endingWith (.mk name (done ++ args)) before :: frames⟩
  | [], name, done, before, frames => by
    rw [List.append_nil]
    exact .nil _
  | arg :: args, name, done, before, frames => by
    have hrest := absorbs_allEvents args name (done ++ [arg]) before frames
    rw [List.append_assoc, List.singleton_append] at hrest
    exact (absorbs_events arg (.mk name done) before frames).trans hrest

/-- The events of a type argument add it to the last segment. -/
theorem absorbs_events : ∀ (arg : TypeArg) (last : Segment) (before : List Segment)
    (frames : List Frame),
    Absorbs ⟨.endingWith last before :: frames⟩ arg.events
      ⟨.endingWith (last.withArg arg) before :: frames⟩
  | .unbounded, last, before, frames => .single (accept_unboundedTypeArgument last before)
  | .bounded v t, last, before, frames => by
    have htype := completes_events t (.argument v :: .endingWith last before :: frames)
    rw [settle_argument] at htype
    exact .cons (accept_typeArgument v last before) htype.absorbs

/-- The events of member classes add one segment after the other. -/
theorem absorbs_innerEvents : ∀ (ss : List Segment) (outer : Segment) (inner : List Segment)
    (frames : List Frame),
    Absorbs ⟨.ofClass outer inner :: frames⟩ (Segment.innerEvents ss)
      ⟨.ofClass outer (inner ++ ss) :: frames⟩
  | [], outer, inner, frames => by
    rw [List.append_nil]
    exact .nil _
  | .mk name args :: ss, outer, inner, frames => by
    have hfirst : Absorbs ⟨.ofClass outer inner :: frames⟩
        ((Segment.mk name args).eventsFrom .innerClassType)
        ⟨.ofClass outer (inner ++ [.mk name args]) :: frames⟩ :=
      .cons (accept_innerClassType name outer inner)
        (absorbs_allEvents args name [] (outer :: inner) frames)
    have hrest := absorbs_innerEvents ss outer (inner ++ [.mk name args]) frames
    rw [List.append_assoc, List.singleton_append] at hrest
    exact hfirst.trans hrest

end

end TypeAssembler

end JavaGenerics
