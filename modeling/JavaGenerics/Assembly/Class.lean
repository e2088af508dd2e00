import JavaGenerics.Assembly.Basic
import JavaGenerics.Resolution.Class

/-!
# Assembling classes

A `JavaGenerics.ClassAssembler` takes the events of a class signature in the order
of the grammar: type parameters with their bounds, the superclass, interfaces. The
class is written into the registry by `JavaGenerics.ClassAssembler.finish` and not
before.
-/

namespace JavaGenerics

/-- Which section of a class signature comes next. -/
inductive ClassPhase where
  | typeParams
  | superclass
  | interfaces
  /-- The signature is complete. -/
  | done
deriving DecidableEq, Repr

/-- What the type that is being put together is for. -/
inductive ClassSlot where
  | bound (kind : BoundKind)
  | superclass
  | interface
deriving DecidableEq, Repr

/-- What has been understood of a class signature. -/
structure ClassAssembler where
  target : ClassId
  params : TypeParamSection
  phase : ClassPhase := .typeParams
  /-- What the unfinished type is for; absent between two types. -/
  slot : Option ClassSlot := none
  type : TypeAssembler := {}
  superclass : Option ResolvedType := none
  interfaces : List ResolvedType := []

namespace ClassAssembler

/-- An assembler for a class, with `scope` in force around its signature. -/
def start (target : ClassId) (scope : Scope) : ClassAssembler where
  target := target
  params := { scope }

/-- Where the unfinished type is, and what it is for. -/
def typePart : TypePart ClassAssembler ClassSlot where
  slot := (·.slot)
  type := (·.type)
  replace a slot type := { a with slot, type }
  slot_replace _ _ _ := rfl
  type_replace _ _ _ := rfl
  replace_self _ := rfl
  replace_replace _ _ _ _ _ := rfl

/-- A step of the section of type parameters. -/
def onParams {α : Type} : Assembly TypeParamSection α → Assembly ClassAssembler α :=
  Assembly.within (·.params) fun a params => { a with params }

/-- Refuses `e` unless the signature is at the section `phase`, between two types. -/
def expectSection (e : Event) (phase : ClassPhase) : Assembly ClassAssembler Unit := do
  let a ← get
  if a.phase ≠ phase ∨ a.slot.isSome then Assembly.unexpected e

/-- Opens a bound of the last type parameter. -/
def openBound (e : Event) (kind : BoundKind) : Assembly ClassAssembler Unit := do
  expectSection e .typeParams
  if (← get).params.pending.isEmpty then Assembly.unexpected e
  modify fun a => { a with slot := some (.bound kind) }

/-- Puts a finished type where it is for. -/
def fill (res : Resolution) (type : TypeSig) : ClassSlot → Assembly ClassAssembler Unit
  | .bound kind => onParams (TypeParamSection.collectBound kind type)
  | .superclass => do
    let superclass ← Assembly.attempt (res.resolveAt .classType (← get).params.scope type)
    modify fun a => { a with superclass := some superclass, phase := .interfaces }
  | .interface => do
    let interface ← Assembly.attempt (res.resolveAt .classType (← get).params.scope type)
    modify fun a => { a with interfaces := a.interfaces ++ [interface] }

/-- Takes an event of the type that is being put together. -/
def acceptTypeEvent (res : Resolution) (e : Event) : Assembly ClassAssembler Unit :=
  Assembly.acceptTypeEvent typePart (fill res) e

/-- Takes the next event of the signature. -/
def accept (res : Resolution) (e : Event) : Assembly ClassAssembler Unit := do
  match e with
  | .formalTypeParameter name =>
    expectSection e .typeParams
    onParams (TypeParamSection.collect name)
  | .classBound => openBound e .ofClass
  | .interfaceBound => openBound e .ofInterface
  | .superclass =>
    expectSection e .typeParams
    onParams (TypeParamSection.introduce res (.ofClass (← get).target))
    modify fun a => { a with phase := .superclass, slot := some .superclass }
  | .interface =>
    expectSection e .interfaces
    modify fun a => { a with slot := some .interface }
  | .parameterType | .returnType | .exceptionType => Assembly.unexpected e
  | _ => acceptTypeEvent res e

/-- Writes the class into the registry, if its signature is complete and agrees with
the erased header. -/
def finish (res : Resolution) : Assembly ClassAssembler Unit := do
  let a ← get
  match a.phase, a.slot, a.superclass with
  | .done, _, _ => throw (.malformed .finished)
  | .interfaces, some _, _ => throw (.incomplete .interfaceEnd)
  | .interfaces, none, some superclass =>
    if ((← Attempt.getRegistry).classAt? a.target).isNone then
      -- There is nothing to write to, and what was understood is given up.
      set { a with
        superclass := none, interfaces := [], params := { a.params with resolved := [] } }
    Assembly.attempt (res.commitClass a.target ⟨a.params.resolved, superclass, a.interfaces⟩)
    modify fun a => { a with phase := .done }
  | _, _, _ => throw (.incomplete .superclass)

/-- Takes an event, or finishes. -/
def move (res : Resolution) : Move → Assembly ClassAssembler Unit
  | .accept e => accept res e
  | .finish => finish res

end ClassAssembler

end JavaGenerics
