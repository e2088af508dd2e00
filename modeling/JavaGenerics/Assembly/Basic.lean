import JavaGenerics.Assembly.Type
import JavaGenerics.Resolution.TypeParams

/-!
# Resolving event by event

A declaration can be resolved from the events of its signature, fed one at a time.
What has been understood so far is kept in an *assembler*, and an event that is
refused need not be the end: whoever feeds the events may go on. So that it is
plain what a refused event leaves behind, `JavaGenerics.Assembly` keeps the
assembler also with an error.

This file holds what the assemblers of classes and of methods have in common: the
type that is being put together, and the section of the type parameters, in which
names and bounds are collected before the first bound is resolved.
-/

namespace JavaGenerics

/-- A step of an assembler with the state `σ`. -/
abbrev Assembly (σ α : Type) := ExceptT ResolveError (StateT σ (StateM Progress)) α

/-- What can be done with an assembler. -/
inductive Move where
  | accept (e : Event)
  | finish

/-- Whether a bound is the class bound of its parameter or an interface bound. -/
inductive BoundKind where
  | ofClass
  | ofInterface
deriving DecidableEq, Repr

/-- Where an assembler has the type that is being put together, and what the type is
for, and how these are replaced by others. -/
structure TypePart (σ γ : Type) where
  /-- What the unfinished type is for; absent between two types. -/
  slot : σ → Option γ
  type : σ → TypeAssembler
  replace : σ → Option γ → TypeAssembler → σ
  slot_replace : ∀ a slot' type', slot (replace a slot' type') = slot'
  type_replace : ∀ a slot' type', type (replace a slot' type') = type'
  replace_self : ∀ a, replace a (slot a) (type a) = a
  replace_replace : ∀ a slot₁ type₁ slot₂ type₂,
    replace (replace a slot₁ type₁) slot₂ type₂ = replace a slot₂ type₂

namespace Assembly

variable {σ τ γ α : Type}

/-- A part of a resolution, as a step of an assembler. -/
def attempt (x : Attempt α) : Assembly σ α := fun state p =>
  let (result, p) := ExceptT.run x p
  ((result, state), p)

/-- Goes on with a result, or refuses. -/
def ofExcept : Except ResolveError α → Assembly σ α
  | .ok a => pure a
  | .error e => throw e

/-- A step of one part of an assembler. -/
def within (part : σ → τ) (replace : σ → τ → σ) (x : Assembly τ α) : Assembly σ α := fun state p =>
  let ((result, new), p) := x (part state) p
  ((result, replace state new), p)

/-- Refuses an event that has no place here. -/
def unexpected (e : Event) : Assembly σ α := throw (.malformed (.unexpected e))

/-- Takes an event of the type that is being put together. A finished type is put where
it is for by `fill`. -/
def acceptTypeEvent (part : TypePart σ γ) (fill : TypeSig → γ → Assembly σ Unit) (e : Event) :
    Assembly σ Unit := do
  let a ← get
  match part.slot a with
  | none => unexpected e
  | some slot =>
    let (result, unfinished) := (part.type a).accept e
    set (part.replace a (part.slot a) unfinished)
    match ← ofExcept result with
    | none => pure ()
    | some type =>
      modify fun a => part.replace a none (part.type a)
      fill type slot

/-- Makes all moves in order, whether they are refused or not, and lists what each of
them leads to. -/
def feed (step : Move → Assembly σ α) :
    List Move → σ → StateM Progress (List (Except ResolveError α × σ))
  | [], _ => pure []
  | m :: ms, state => do
    let outcome ← (step m).run state
    return outcome :: (← feed step ms outcome.2)

end Assembly

/-- The type parameters of a declaration that is being assembled. -/
structure TypeParamSection where
  /-- What is in force outside the type parameters, and they themselves once they are
  declared. -/
  scope : Scope
  /-- The type parameters collected so far. -/
  pending : List TypeParamSig := []
  /-- The type parameters once their bounds are resolved. -/
  resolved : List TypeParam := []

namespace TypeParamSection

/-- A type parameter with one more bound; a class bound must be the first. -/
def withBound (kind : BoundKind) (bound : TypeSig) (p : TypeParamSig) :
    Except ResolveError TypeParamSig :=
  match kind with
  | .ofInterface => .ok { p with interfaceBounds := p.interfaceBounds ++ [bound] }
  | .ofClass =>
    if p.bounds.isEmpty then .ok { p with classBound := some bound }
    else .error (.malformed (.lateClassBound p.name))

/-- Collects a type parameter. -/
def collect (name : String) : Assembly TypeParamSection Unit := do
  let params ← get
  if params.pending.any (·.name == name) then
    throw (.malformed (.duplicateTypeParam name))
  let p : TypeParamSig := ⟨name, none, []⟩
  set { params with pending := params.pending ++ [p] }

/-- Collects a bound of the last type parameter. -/
def collectBound (kind : BoundKind) (bound : TypeSig) : Assembly TypeParamSection Unit := do
  let params ← get
  match params.pending.getLast? with
  | none => throw (.malformed .boundWithoutParam)
  | some p =>
    let p ← Assembly.ofExcept (withBound kind bound p)
    set { params with pending := params.pending.dropLast ++ [p] }

/-- Introduces the type parameters collected so far as those of `owner`, and resolves
their bounds. If that fails, they are no longer collected, but may have come into
force. -/
def introduce (res : Resolution) (owner : Declarer) : Assembly TypeParamSection Unit := do
  let pending := (← get).pending
  modify fun params => { params with pending := [] }
  let r ← Attempt.getRegistry
  Assembly.ofExcept (checkDeclared (r.typeParams owner) pending)
  modify fun params => { params with scope := params.scope.pushDeclared owner pending }
  let resolved ← Assembly.attempt (res.resolveBounds (← get).scope owner 0 pending)
  modify fun params => { params with resolved }

end TypeParamSection

end JavaGenerics
