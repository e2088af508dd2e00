import JavaGenerics.Resolution.Types

/-!
# Running a resolution

Every resolution runs the same way, whatever it resolves. The declaration must be
registered and unresolved; it is marked while the work goes on, so that a request
that comes back to it is refused; a failure takes the mark away and is reported
once, with the declaration and the signature it concerns.
-/

namespace JavaGenerics

namespace Registry

variable (r : Registry)

/-- How far a declaration is resolved, if it is registered. -/
def stage? : Target → Option Stage
  | .ofClass c => (r.classAt? c).map (·.stage)
  | .ofMethod m => (r.methodAt? m).map (·.stage)
  | .ofField f => (r.fieldAt? f).map (·.stage)

/-- Marks how far a declaration is resolved. -/
def setStage (stage : Stage) : Target → Registry
  | .ofClass c => r.modifyClass c fun e => { e with stage }
  | .ofMethod m => r.modifyMethod m fun e => { e with stage }
  | .ofField f => r.modifyField f fun e => { e with stage }

/-- The name of a declaration in reports. -/
def targetName : Target → String
  | .ofClass c => r.className c
  | .ofMethod m => r.methodName m
  | .ofField f => r.fieldName f

/-- Marks a declaration as being resolved; fails unless it is unresolved. -/
def mark (t : Target) : Except ResolveError Registry :=
  match r.stage? t with
  | none => .error (.unknownDeclaration t)
  | some .resolving => .error (.cyclic (r.targetName t))
  | some .resolved => .error (.alreadyResolved (r.targetName t))
  | some .unresolved => .ok (r.setStage .resolving t)

/-- Takes the mark of a resolution away that did not succeed. -/
def unmark (t : Target) : Registry :=
  if r.stage? t = some .resolving then r.setStage .unresolved t else r

/-- How many classes are unresolved. -/
def unresolvedCount : Nat := r.classes.toList.countP (·.stage == .unresolved)

end Registry

namespace Workspace

/-- Resolves a declaration by `body`, once the declaration is marked. -/
def resolveMarked (t : Target) (res : Resolution) (body : Resolution → Attempt Unit) :
    Work (Except ResolveError Unit) := do
  record (.began t)
  let result ← (body res).run
  if let .error _ := result then modifyRegistry fun r => r.unmark t
  record (.ended t)
  pure result

/-- Resolves the declaration `t` by `body`. The signature is for the report of a
failure. -/
def resolveBy (ask : ClassId → Work Bool) (options : Options) (t : Target)
    (signature : Option String) (body : Resolution → Attempt Unit) :
    Work (Except ResolveError Unit) := do
  let r ← getRegistry
  let owner := r.targetName t
  record (.called t)
  let result ← match r.mark t with
    | .error e => pure (.error e)
    | .ok marked => do
      modifyRegistry fun _ => marked
      resolveMarked t ⟨options, owner, ask⟩ body
  if let .error e := result then record (.reported (e.diagnostic owner signature))
  record (.returned t result.isOk)
  pure result

end Workspace

end JavaGenerics
