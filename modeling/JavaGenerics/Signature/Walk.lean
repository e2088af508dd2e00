import JavaGenerics.Signature.Event
import JavaGenerics.Signature.Reading

/-!
# Signatures walked as they are read

There is no need to build a tree in order to hand a signature over piece by piece: the
events can be pushed one after the other while the text is read. Here are the readers that
do so, one for each reader of `JavaGenerics.Signature.Reading`; in place of a tree they return
nothing, and the events are in their state.

`JavaGenerics.Grammar.parseEvents_eq` says that what is pushed are the events of the tree that
is read otherwise.
-/

namespace JavaGenerics

/-- A reader that pushes events as it goes. -/
abbrev Walker (α : Type) := StateT (List Event) (Reader Stop) α

namespace Walker

variable {α : Type}

/-- Pushes an event. -/
def push (e : Event) : Walker Unit := fun es => pure ((), es ++ [e])

/-- Reads without pushing anything. -/
def quietly (x : Reader Stop α) : Walker α := fun es => (·, es) <$> x

@[inherit_doc Reader.peek]
abbrev peek : Walker (Option Char) := quietly Reader.peek

@[inherit_doc Reader.atEnd]
abbrev atEnd : Walker Bool := quietly Reader.atEnd

@[inherit_doc Reader.skip]
abbrev skip : Walker Unit := quietly Reader.skip

@[inherit_doc Reader.eat]
abbrev eat (c : Char) : Walker Bool := quietly (Reader.eat c)

@[inherit_doc Grammar.stop]
abbrev stop (fault : Fault) : Walker α := quietly (Grammar.stop fault)

@[inherit_doc Grammar.name]
abbrev name (ends forbidden : List Char) (fault : Fault) : Walker String :=
  quietly (Grammar.name ends forbidden fault)

/-- Repeats `step` for as long as it says so. A round that took no character is the last
one. -/
def loop (step : Walker Bool) (es : List Event) (cs : List Char) :
    Except Stop ((Unit × List Event) × List Char) :=
  match step es cs with
  | .error s => .error s
  | .ok ((false, es), rest) => .ok (((), es), rest)
  | .ok ((true, es), rest) =>
    if rest.length < cs.length then loop step es rest else .ok (((), es), rest)
termination_by cs.length

/-- `JavaGenerics.Walker.loop` as a walker. -/
def many (step : Walker Bool) : Walker Unit := loop step

/-- The events that `walker` pushes on its way through the whole of `text`. -/
def events (walker : Walker Unit) (text : String) : Except SyntaxError (List Event) :=
  Grammar.signature.read (Prod.snd <$> walker []) text

end Walker

open Walker

/-! ### Types -/

namespace TypeSig

/-- `JavaGenerics.TypeSig.readVar` as a walk. -/
def walkVar : Walker Unit := do
  skip
  let name ← Walker.name [';'] nameForbidden .typeVarName
  skip
  push (.typeVariable name)

/-- Announces a type argument and goes on with it. -/
def walkBounded (variance : Variance) (nested : Walker Unit) : Walker Bool := do
  push (.typeArgument variance)
  nested
  pure true

/-- `JavaGenerics.TypeSig.readArg?` as a walk. -/
def walkArg? (nested : Walker Unit) : Walker Bool := do
  let c? ← peek
  if c? = some '>' then
    skip
    pure false
  else if c? = some '*' then
    skip
    push .unboundedTypeArgument
    pure true
  else if c? = some '+' then
    skip
    walkBounded .upper nested
  else if c? = some '-' then
    skip
    walkBounded .lower nested
  else if c? = none then stop .openTypeArgs
  else walkBounded .exact nested

/-- `JavaGenerics.TypeSig.readArgs` as a walk. -/
def walkArgs (nested : Option (Walker Unit)) : Walker Unit := do
  if (← peek) = some '<' then
    match nested with
    | none => stop .tooDeep
    | some nested =>
      skip
      if (← peek) = some '>' then stop .noTypeArgs else Walker.many (walkArg? nested)
  else pure ()

/-- `JavaGenerics.TypeSig.readInner?` as a walk. -/
def walkInner? (nested : Option (Walker Unit)) : Walker Bool := do
  if ← eat '.' then
    let name ← Walker.name ['<', '.', ';'] nameForbidden .memberName
    push (.innerClassType name)
    walkArgs nested
    pure true
  else pure false

/-- `JavaGenerics.TypeSig.readClassWith` as a walk. -/
def walkClassWith (nested : Option (Walker Unit)) : Walker Unit := do
  if ← eat 'L' then
    let name ← Walker.name ['<', '.', ';'] ['[', '>', ':'] .className
    if componentsFilled true name.toList then
      push (.classType name)
      walkArgs nested
      Walker.many (walkInner? nested)
      if ← eat ';' then push .close else stop .openClassType
    else stop .className
  else stop .noClassType

/-- `JavaGenerics.TypeSig.readAnyWith` as a walk. -/
def walkAnyWith (reference : Walker Unit) : Walker Unit := do
  match (← peek).bind BaseType.ofLetter? with
  | some b =>
    skip
    push (.baseType b)
  | none => reference

/-- `JavaGenerics.TypeSig.readWith` as a walk. -/
def walkWith (nested : Option (Walker Unit)) : Walker Unit := do
  let c? ← peek
  if c? = some 'L' then walkClassWith nested
  else if c? = some 'T' then walkVar
  else if c? = some '[' then
    match nested with
    | none => stop .tooDeep
    | some nested =>
      skip
      push .arrayType
      walkAnyWith nested
  else stop .noReference

/-- `JavaGenerics.TypeSig.readWithin` as a walk. -/
def walkWithin : (room : Nat) → Walker Unit
  | 0 => walkWith none
  | room + 1 => walkWith (some (walkWithin room))

/-- `JavaGenerics.TypeSig.nestedWithin` as a walk. -/
def walkNestedWithin : (room : Nat) → Option (Walker Unit)
  | 0 => none
  | room + 1 => some (walkWithin room)

/-- Walks over a reference type. -/
def walker : Walker Unit := walkWithin maxNesting

/-- Walks over a class type. -/
def classWalker : Walker Unit := walkClassWith (walkNestedWithin maxNesting)

/-- Walks over a primitive or reference type. -/
def anyWalker : Walker Unit := walkAnyWith walker

/-- The events of the type that a field signature describes. -/
def parseEvents (text : String) : Except SyntaxError (List Event) := walker.events text

end TypeSig

/-! ### Type parameters -/

namespace TypeParamSig

/-- `JavaGenerics.TypeParamSig.readClassBound` as a walk. -/
def walkClassBound : Walker Unit := do
  let c? ← peek
  if c? = some 'L' ∨ c? = some 'T' ∨ c? = some '[' then
    push .classBound
    TypeSig.walker
  else pure ()

/-- `JavaGenerics.TypeParamSig.readInterfaceBound?` as a walk. -/
def walkInterfaceBound? : Walker Bool := do
  if ← eat ':' then
    push .interfaceBound
    TypeSig.walker
    pure true
  else pure false

/-- `JavaGenerics.TypeParamSig.read?` as a walk. -/
def walk? : Walker Bool := do
  if ← eat '>' then pure false
  else
    let name ← Walker.name [':'] TypeSig.nameForbidden .typeParamName
    push (.formalTypeParameter name)
    skip
    walkClassBound
    Walker.many walkInterfaceBound?
    pure true

/-- Walks over the type parameters that may open a signature. -/
def listWalker : Walker Unit := do
  if ← eat '<' then
    if (← peek) = some '>' then stop .noTypeParams else Walker.many walk?
  else pure ()

end TypeParamSig

/-! ### Classes -/

namespace ClassSig

/-- `JavaGenerics.ClassSig.readInterface?` as a walk. -/
def walkInterface? : Walker Bool := do
  if ← atEnd then pure false
  else
    push .interface
    TypeSig.classWalker
    pure true

/-- Walks over a class signature. -/
def walker : Walker Unit := do
  TypeParamSig.listWalker
  push .superclass
  TypeSig.classWalker
  Walker.many walkInterface?

/-- The events of the class signature that a text describes. -/
def parseEvents (text : String) : Except SyntaxError (List Event) := walker.events text

end ClassSig

/-! ### Methods -/

namespace MethodSig

/-- `JavaGenerics.MethodSig.readParam?` as a walk. -/
def walkParam? : Walker Bool := do
  if ← eat ')' then pure false
  else if ← atEnd then stop .openParams
  else
    push .parameterType
    TypeSig.anyWalker
    pure true

/-- `JavaGenerics.MethodSig.readResult` as a walk. -/
def walkResult : Walker Unit := do
  push .returnType
  if ← eat 'V' then push .voidType else TypeSig.anyWalker

/-- `JavaGenerics.MethodSig.readThrown?` as a walk. -/
def walkThrown? : Walker Bool := do
  if ← eat '^' then
    push .exceptionType
    let c? ← peek
    if c? = some 'L' then
      TypeSig.classWalker
      pure true
    else if c? = some 'T' then
      TypeSig.walkVar
      pure true
    else stop .noThrown
  else pure false

/-- Walks over a method signature. -/
def walker : Walker Unit := do
  TypeParamSig.listWalker
  if ← eat '(' then
    Walker.many walkParam?
    walkResult
    Walker.many walkThrown?
  else stop .noParams

/-- The events of the method signature that a text describes. -/
def parseEvents (text : String) : Except SyntaxError (List Event) := walker.events text

end MethodSig

end JavaGenerics
