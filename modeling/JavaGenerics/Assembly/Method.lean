import JavaGenerics.Assembly.Basic
import JavaGenerics.Resolution.Method

/-!
# Assembling methods

A `JavaGenerics.MethodAssembler` takes the events of a method signature in the order
of the grammar: type parameters with their bounds, parameters, the result,
exceptions. The method is written into the registry by
`JavaGenerics.MethodAssembler.finish` and not before.
-/

namespace JavaGenerics

/-- Which section of a method signature comes next. -/
inductive MethodPhase where
  | typeParams
  | params
  | result
  | throws
  /-- The signature is complete. -/
  | done
deriving DecidableEq, Repr

/-- What the type that is being put together is for. -/
inductive MethodSlot where
  | bound (kind : BoundKind)
  | param
  | result
  | throws
deriving DecidableEq, Repr

/-- What has been understood of a method signature. -/
structure MethodAssembler where
  target : MethodId
  typeParams : TypeParamSection
  phase : MethodPhase := .typeParams
  /-- What the unfinished type is for; absent between two types. -/
  slot : Option MethodSlot := none
  type : TypeAssembler := {}
  params : List ResolvedType := []
  result : Option ResolvedType := none
  throws : List ResolvedType := []

namespace MethodAssembler

/-- An assembler for a registered method, with `scope` in force around its
signature. -/
def start (r : Registry) (target : MethodId) (scope : Scope) :
    Except ResolveError MethodAssembler :=
  if (r.methodAt? target).isSome then .ok { target, typeParams := { scope } }
  else .error (.unknownDeclaration (.ofMethod target))

/-- Where the unfinished type is, and what it is for. -/
def typePart : TypePart MethodAssembler MethodSlot where
  slot := (·.slot)
  type := (·.type)
  replace a slot type := { a with slot, type }
  slot_replace _ _ _ := rfl
  type_replace _ _ _ := rfl
  replace_self _ := rfl
  replace_replace _ _ _ _ _ := rfl

/-- A step of the section of type parameters. -/
def onTypeParams {α : Type} : Assembly TypeParamSection α → Assembly MethodAssembler α :=
  Assembly.within (·.typeParams) fun a typeParams => { a with typeParams }

/-- Refuses `e` unless the signature is at one of the sections `phases`, between two
types. -/
def expectSection (e : Event) (phases : List MethodPhase) : Assembly MethodAssembler Unit := do
  let a ← get
  if a.phase ∉ phases ∨ a.slot.isSome then Assembly.unexpected e

/-- Opens a bound of the last type parameter. -/
def openBound (e : Event) (kind : BoundKind) : Assembly MethodAssembler Unit := do
  expectSection e [.typeParams]
  if (← get).typeParams.pending.isEmpty then Assembly.unexpected e
  modify fun a => { a with slot := some (.bound kind) }

/-- Opens a parameter or the result, behind the type parameters. -/
def openType (res : Resolution) (e : Event) (phase : MethodPhase) (slot : MethodSlot) :
    Assembly MethodAssembler Unit := do
  expectSection e [.typeParams, .params]
  let a ← get
  if a.phase = .typeParams then
    onTypeParams (TypeParamSection.introduce res (.ofMethod a.target))
  modify fun a => { a with phase, slot := some slot }

/-- Puts a finished type where it is for. -/
def fill (res : Resolution) (type : TypeSig) : MethodSlot → Assembly MethodAssembler Unit
  | .bound kind => onTypeParams (TypeParamSection.collectBound kind type)
  | .param => do
    let param ← Assembly.attempt (res.resolveAt .param (← get).typeParams.scope type)
    modify fun a => { a with params := a.params ++ [param] }
  | .result => do
    let result ← Assembly.attempt (res.resolve (← get).typeParams.scope type)
    modify fun a => { a with result := some result, phase := .throws }
  | .throws => do
    let thrown ← Assembly.attempt (res.resolveAt .reference (← get).typeParams.scope type)
    modify fun a => { a with throws := a.throws ++ [thrown] }

/-- Takes an event of the type that is being put together. -/
def acceptTypeEvent (res : Resolution) (e : Event) : Assembly MethodAssembler Unit :=
  Assembly.acceptTypeEvent typePart (fill res) e

/-- Takes the next event of the signature. -/
def accept (res : Resolution) (e : Event) : Assembly MethodAssembler Unit := do
  match e with
  | .formalTypeParameter name =>
    expectSection e [.typeParams]
    onTypeParams (TypeParamSection.collect name)
  | .classBound => openBound e .ofClass
  | .interfaceBound => openBound e .ofInterface
  | .parameterType => openType res e .params .param
  | .returnType => openType res e .result .result
  | .exceptionType =>
    expectSection e [.throws]
    modify fun a => { a with slot := some .throws }
  | .superclass | .interface => Assembly.unexpected e
  | _ => acceptTypeEvent res e

/-- Writes the method into the registry, if its signature is complete and agrees with
the descriptor. -/
def finish (res : Resolution) : Assembly MethodAssembler Unit := do
  let a ← get
  match a.phase, a.slot, a.result with
  | .done, _, _ => throw (.malformed .finished)
  | .throws, some _, _ => throw (.incomplete .exceptionEnd)
  | .throws, none, some result =>
    Assembly.attempt
      (res.commitMethod a.target ⟨a.typeParams.resolved, a.params, result, a.throws⟩)
    modify fun a => { a with phase := .done }
  | _, _, _ => throw (.incomplete .returnType)

/-- Takes an event, or finishes. -/
def move (res : Resolution) : Move → Assembly MethodAssembler Unit
  | .accept e => accept res e
  | .finish => finish res

end MethodAssembler

end JavaGenerics
