import JavaGenerics.Resolution.Failure

/-!
# Assembling types

A `JavaGenerics.TypeAssembler` takes the events of one type after the other and hands
the type over when its last event arrives. In between it is a stack of unfinished
parts, innermost first: arrays that wait for their element, class types that are
open, and type arguments that are announced.

An event may be refused. An event that has no place where it is fed leaves the stack
as it was. Where a finished type has no place – inside a class type, without an
argument announced for it – the unfinished arrays around it are dropped with it, and
so is the class type that a closing event has just finished.
-/

namespace JavaGenerics

/-- An unfinished part of a type. -/
inductive Frame where
  /-- An array without its element. -/
  | array
  /-- A class type that is not closed. -/
  | ofClass (outer : Segment) (inner : List Segment)
  /-- A type argument without its type. -/
  | argument (variance : Variance)

/-- A type that is being put together: its unfinished parts, innermost first. -/
structure TypeAssembler where
  frames : List Frame := []

/-- A segment with one more type argument. -/
def Segment.withArg (s : Segment) (arg : TypeArg) : Segment := .mk s.name (s.args ++ [arg])

/-- The open class type of some segments, the last of which has one more argument. -/
def Frame.ofClassWithArg (outer : Segment) (inner : List Segment) (arg : TypeArg) : Frame :=
  match inner.getLast? with
  | none => .ofClass (outer.withArg arg) []
  | some last => .ofClass outer (inner.dropLast ++ [last.withArg arg])

namespace TypeAssembler

/-- Whether nothing is unfinished. -/
def isEmpty (a : TypeAssembler) : Bool := a.frames.isEmpty

/-- What an event leads to: the finished type, if it was the last event of one, or a
refusal, and the unfinished parts afterwards. -/
abbrev Outcome := Except ResolveError (Option TypeSig) × TypeAssembler

/-- Puts a finished type into the part that waits for it. -/
def settle (t : TypeSig) : List Frame → Outcome
  | [] => (.ok (some t), ⟨[]⟩)
  | .array :: frames => settle (.array t) frames
  | .argument v :: .ofClass outer inner :: frames =>
    (.ok none, ⟨.ofClassWithArg outer inner (.bounded v t) :: frames⟩)
  | .argument _ :: frames => (.error (.malformed .strayArgument), ⟨frames⟩)
  | .ofClass outer inner :: frames =>
    (.error (.malformed .unmarkedArgument), ⟨.ofClass outer inner :: frames⟩)

/-- Takes the next event of a type. -/
def accept (a : TypeAssembler) (e : Event) : Outcome :=
  match e, a.frames with
  | .baseType b, frames => settle (.base b) frames
  | .voidType, frames => settle .void frames
  | .typeVariable name, frames => settle (.var name) frames
  | .arrayType, frames => (.ok none, ⟨.array :: frames⟩)
  | .classType name, frames => (.ok none, ⟨.ofClass (.mk name []) [] :: frames⟩)
  | .innerClassType name, .ofClass outer inner :: frames =>
    (.ok none, ⟨.ofClass outer (inner ++ [.mk name []]) :: frames⟩)
  | .typeArgument v, .ofClass outer inner :: frames =>
    (.ok none, ⟨.argument v :: .ofClass outer inner :: frames⟩)
  | .unboundedTypeArgument, .ofClass outer inner :: frames =>
    (.ok none, ⟨.ofClassWithArg outer inner .unbounded :: frames⟩)
  | .close, .ofClass outer inner :: frames => settle (.ofClass outer inner) frames
  | _, _ => (.error (.malformed (.unexpected e)), a)

end TypeAssembler

end JavaGenerics
