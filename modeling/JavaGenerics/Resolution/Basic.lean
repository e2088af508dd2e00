import JavaGenerics.Workspace

/-!
# What a resolution has to go on

To resolve a declaration is to look up every name in its signature. A
`JavaGenerics.Resolution` is what is given for that: the options, the name of the
declaration, and a *collaborator* that can be asked to resolve other classes.
Whenever a signature mentions a class that is still unresolved, the collaborator is
asked for it first, once, and the resolution goes on with whatever the registry
then knows; that a class could not be resolved is a warning and nothing more.

What a resolution has done by the time it fails stays done: a
`JavaGenerics.Attempt` keeps its state also with an error.
-/

namespace JavaGenerics

/-- Switches of a resolution. -/
structure Options where
  /-- Check the resolved types against the erased record. -/
  verifyErasure : Bool := true
  /-- Have unresolved classes resolved that a signature mentions. -/
  resolveReferenced : Bool := true
  /-- Warn of a class with a wrong number of type arguments. -/
  warnArity : Bool := true
deriving DecidableEq, Repr

/-- What is given for the resolution of one declaration. -/
structure Resolution where
  options : Options
  /-- The name of the declaration in reports. -/
  owner : String
  /-- Asks the collaborator to resolve a class; the answer says whether it could. -/
  ask : ClassId → Work Bool

/-- How far a resolution has come. -/
structure Progress where
  workspace : Workspace
  /-- The classes the collaborator has been asked for in this resolution. -/
  requested : List ClassId := []

/-- A resolution, or a part of one. -/
abbrev Attempt (α : Type) := ExceptT ResolveError (StateM Progress) α

namespace Attempt

/-- Work on the registry within a resolution. -/
def work {α : Type} (x : Work α) : StateM Progress α := fun p =>
  let (a, w) := x p.workspace
  (a, { p with workspace := w })

/-- The registry as it stands. -/
def getRegistry : StateM Progress Registry := work Workspace.getRegistry

/-- Goes on with a result, or fails with its error. -/
def ofExcept {α : Type} : Except ResolveError α → Attempt α
  | .ok a => pure a
  | .error e => throw e

/-- Changes the registry, and notes what that completes. -/
def commit (f : Registry → Registry) (n : Note) : Attempt Unit :=
  liftM (work do
    Workspace.modifyRegistry f
    Workspace.record (.noted n))

/-- Starts with no class asked for. -/
def start {α : Type} (x : StateM Progress α) : Work α := fun w =>
  let (a, p) := x ⟨w, []⟩
  (a, p.workspace)

/-- Runs a resolution from its beginning. -/
def run {α : Type} (x : Attempt α) : Work (Except ResolveError α) := start (ExceptT.run x)

end Attempt

/-- Whether a class is registered and unresolved. -/
def Registry.isUnresolved (r : Registry) (c : ClassId) : Bool :=
  (r.classAt? c).any (·.stage == .unresolved)

namespace Resolution

variable (res : Resolution)

/-- Reports a warning. -/
def warn (w : Warning) : StateM Progress Unit :=
  Attempt.work (Workspace.record (.reported (w.diagnostic res.owner)))

/-- Asks the collaborator for a class that is unresolved, unless it has already been
asked for it in this resolution. -/
def request (c : ClassId) : StateM Progress Unit := do
  let p ← get
  let r := p.workspace.registry
  if res.options.resolveReferenced && r.isUnresolved c && !p.requested.contains c then
    set { p with requested := c :: p.requested }
    Attempt.work (Workspace.record (.noted (.resolvingReferenced (r.className c))))
    if !(← Attempt.work (res.ask c)) then res.warn (.unresolvedClass (r.className c))

/-- The class with a binary name, which is resolved first if that can be done. -/
def find (name : String) : Attempt ClassId := do
  match (← Attempt.getRegistry).lookup name with
  | some c =>
    res.request c
    pure c
  | none => throw (.unknownClass name)

/-- Asks for the classes around `c`, outermost first. -/
def requestEnclosing (c : ClassId) : StateM Progress Unit := do
  (← Attempt.work (Workspace.enclosingChain c)).forM res.request

/-- What is in force around `c`, once the classes around it are asked for. -/
def scopeAround (c : ClassId) : StateM Progress Scope := do
  res.requestEnclosing c
  Attempt.work (Workspace.pushEnclosing {} c)

/-- What is in force in the body of `c`, once it and the classes around it are asked
for. -/
def scopeInside (c : ClassId) : StateM Progress Scope := do
  res.requestEnclosing c
  res.request c
  Attempt.work (Workspace.pushBody {} c)

end Resolution

end JavaGenerics
