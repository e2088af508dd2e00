import JavaGenerics.Resolution.Class
import JavaGenerics.Resolution.Field
import JavaGenerics.Resolution.Method

/-!
# Collaborators

A resolution that meets an unresolved class asks its collaborator for it. There are
three kinds: one that leaves everything as it is, one that refuses, and a *pool* of
signatures that resolves the class there and then – which may meet further classes,
and so on.

A pool may answer for one class by resolving another, and it may be asked for a
class again after it failed, so nothing about a request gets smaller from one to the
next. What bounds the nesting is the marks: a resolution that has begun has marked a
class that was unresolved when the outermost call was made, and the marks of all
resolutions that have begun and not ended are on different classes. A nesting as
deep as there are unresolved classes is therefore never exceeded, and that depth is
what `JavaGenerics.Collaborator.ask` grants.
-/

namespace JavaGenerics

/-- A collection of signatures to resolve classes from. -/
structure Pool where
  options : Options
  /-- The signatures, by the binary name of the class. -/
  signatures : List (String × String) := []
  /-- Names for which another class is resolved instead. -/
  redirect : List (String × String) := []
  /-- Names that are refused. -/
  refused : List String := []

/-- Who answers requests to resolve a class. -/
inductive Collaborator where
  /-- Does nothing, and is content. -/
  | silent
  /-- Does nothing, and says so. -/
  | refusing
  | pool (p : Pool)

/-- The name of the class that is resolved when `name` is asked for. -/
def Pool.targetName (p : Pool) (name : String) : String := (p.redirect.lookup name).getD name

/-- Answers the request for the class `name`, where `resolve` resolves a class from
a signature or without one. -/
def Pool.answer (p : Pool) (resolve : ClassId → Option String → Work Bool) (name : String) :
    Work Bool := do
  if p.refused.contains name then pure false
  else
    let target := p.targetName name
    match (← Workspace.getRegistry).lookup target with
    | none => pure false
    | some c => resolve c (p.signatures.lookup target)

namespace Collaborator

/-- Answers a request; the request and the answer go into the journal. -/
def answer (k : Collaborator) (resolve : Options → ClassId → Option String → Work Bool)
    (c : ClassId) : Work Bool := do
  let name := (← Workspace.getRegistry).className c
  Workspace.record (.asked c name)
  let ok ← match k with
    | silent => pure true
    | refusing => pure false
    | pool p => p.answer (resolve p.options) name
  Workspace.record (.answered c ok)
  pure ok

/-- Answers a request with at most `depth` resolutions inside each other. -/
def askWithin (k : Collaborator) : (depth : Nat) → ClassId → Work Bool
  | 0 => k.answer fun _ _ _ => pure false
  | depth + 1 => k.answer fun options c signature => do
    return (← Workspace.resolveClassAsking (k.askWithin depth) options c signature).isOk

/-- Answers a request that comes up in a call made with the registry `r`. -/
def ask (k : Collaborator) (r : Registry) : ClassId → Work Bool := k.askWithin r.unresolvedCount

/-- What is given for a resolution of `t` with this collaborator. -/
def resolution (k : Collaborator) (options : Options) (r : Registry) (t : Target) : Resolution :=
  ⟨options, r.targetName t, k.ask r⟩

end Collaborator

namespace Workspace

/-- Resolves a class from its signature, or from its erased header if there is
none. -/
def resolveClass (k : Collaborator) (options : Options) (c : ClassId)
    (signature : Option String) : Work (Except ResolveError Unit) := do
  resolveClassAsking (k.ask (← getRegistry)) options c signature

/-- Resolves a method from its signature, or from its descriptor if there is none. -/
def resolveMethod (k : Collaborator) (options : Options) (m : MethodId)
    (signature : Option String) : Work (Except ResolveError Unit) := do
  resolveMethodAsking (k.ask (← getRegistry)) options m signature

/-- Resolves a field from its signature, or from its descriptor if there is none. -/
def resolveField (k : Collaborator) (options : Options) (f : FieldId)
    (signature : Option String) : Work (Except ResolveError Unit) := do
  resolveFieldAsking (k.ask (← getRegistry)) options f signature

end Workspace

end JavaGenerics
