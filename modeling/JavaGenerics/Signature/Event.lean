import JavaGenerics.Signature

/-!
# Signatures as events

A signature can be handed over piece by piece instead of as a tree: each section
(a bound, the superclass, a parameter, …) is announced by a marker, and the type
in it follows as the events of a depth-first walk. An array marker precedes its
element, a class opens with its name and is closed by an event of its own, and an
argument marker precedes the argument.

`JavaGenerics.ClassSig.events`, `JavaGenerics.MethodSig.events` and
`JavaGenerics.TypeSig.events` are these walks; `JavaGenerics.Assembly` reads events
back.
-/

namespace JavaGenerics

/-- One step of the walk over a signature. -/
inductive Event where
  /-- Declares a type parameter; its bounds follow. -/
  | formalTypeParameter (name : String)
  | classBound
  | interfaceBound
  | superclass
  | interface
  | parameterType
  | returnType
  | exceptionType
  | baseType (b : BaseType)
  | voidType
  | typeVariable (name : String)
  | arrayType
  /-- Opens a class type with the internal name of its outermost class. -/
  | classType (name : String)
  /-- Goes on to a member class of the class type that is open. -/
  | innerClassType (name : String)
  | typeArgument (variance : Variance)
  | unboundedTypeArgument
  /-- Closes the innermost class type that is open. -/
  | close
deriving DecidableEq, Repr

/-- The words for an event in messages. -/
def Event.label : Event → String
  | formalTypeParameter _ => "formal type parameter"
  | classBound => "class bound"
  | interfaceBound => "interface bound"
  | superclass => "superclass"
  | interface => "interface"
  | parameterType => "parameter type"
  | returnType => "return type"
  | exceptionType => "exception type"
  | baseType _ => "base type"
  | voidType => "void"
  | typeVariable _ => "type variable"
  | arrayType => "array type"
  | classType _ => "class type"
  | innerClassType _ => "inner class type"
  | typeArgument _ => "type argument"
  | unboundedTypeArgument => "unbounded type argument"
  | close => "end of class type"

/-! ### The walk over a tree -/

mutual

/-- The events of a symbolic type. -/
def TypeSig.events : TypeSig → List Event
  | .base b => [.baseType b]
  | .void => [.voidType]
  | .var name => [.typeVariable name]
  | .array elem => .arrayType :: elem.events
  | .ofClass outer inner =>
    outer.eventsFrom .classType ++ Segment.innerEvents inner ++ [.close]

/-- The events of a segment whose name is announced by `opening`. -/
def Segment.eventsFrom (opening : String → Event) : Segment → List Event
  | .mk name args => opening name :: TypeArg.allEvents args

/-- The events of the member classes of a class type. -/
def Segment.innerEvents : List Segment → List Event
  | [] => []
  | s :: ss => s.eventsFrom .innerClassType ++ Segment.innerEvents ss

/-- The events of type arguments. -/
def TypeArg.allEvents : List TypeArg → List Event
  | [] => []
  | arg :: args => arg.events ++ TypeArg.allEvents args

/-- The events of a type argument. -/
def TypeArg.events : TypeArg → List Event
  | .unbounded => [.unboundedTypeArgument]
  | .bounded v t => .typeArgument v :: t.events

end

/-- The events of a type parameter. -/
def TypeParamSig.events (p : TypeParamSig) : List Event :=
  .formalTypeParameter p.name :: (p.classBound.elim [] fun t => .classBound :: t.events)
    ++ p.interfaceBounds.flatMap fun t => .interfaceBound :: t.events

/-- The events of a class signature. -/
def ClassSig.events (s : ClassSig) : List Event :=
  s.typeParams.flatMap TypeParamSig.events ++ .superclass :: s.superclass.events
    ++ s.interfaces.flatMap fun t => .interface :: t.events

/-- The events of a method signature. -/
def MethodSig.events (s : MethodSig) : List Event :=
  s.typeParams.flatMap TypeParamSig.events
    ++ s.params.flatMap (fun t => .parameterType :: t.events)
    ++ .returnType :: s.result.events
    ++ s.throws.flatMap fun t => .exceptionType :: t.events

end JavaGenerics
