import JavaGenerics.Resolution.Erasure
import JavaGenerics.Resolution.Run
import JavaGenerics.Resolution.TypeParams
import JavaGenerics.Signature.Reading

/-!
# Resolving classes

A class is resolved from its signature, or from its erased header when it has
none. Nothing is written into the registry before everything in the signature is
resolved and, if that is asked for, found to agree with the erased header.
-/

namespace JavaGenerics

/-- What the signature of a class resolves to. -/
structure ClassTypes where
  typeParams : List TypeParam
  superclass : ResolvedType
  interfaces : List ResolvedType

/-- The entry of a class that is resolved to these types. -/
def ClassTypes.fill (types : ClassTypes) (e : ClassEntry) : ClassEntry :=
  { e with
    typeParams := types.typeParams
    superclass := some types.superclass
    interfaces := types.interfaces
    stage := .resolved }

/-- The entry of a class that is resolved to the classes in its header; its type
parameters stay as they are. -/
def ClassEntry.fillErased (superclass : Option ClassId) (interfaces : List ClassId)
    (e : ClassEntry) : ClassEntry :=
  { e with
    superclass := superclass.map .raw
    interfaces := interfaces.map .raw
    stage := .resolved }

namespace Registry

/-- Fails unless the superclass and the interfaces of a class erase to those in its
header. A header without a superclass is taken to record nothing. -/
def checkHeader (r : Registry) (c : ClassId) (superclass : ResolvedType)
    (interfaces : List ResolvedType) : Except ResolveError Unit :=
  match r.classAt? c with
  | none => .ok ()
  | some entry =>
    match entry.erasedSuper with
    | none => .ok ()
    | some erased =>
      let names := interfaces.filterMap r.erasedName?
      if r.erasedName? superclass ≠ some erased then
        .error (.mismatch (.superclass (r.display superclass) erased))
      else if names ≠ entry.erasedInterfaces then
        .error (.mismatch (.interfaces names entry.erasedInterfaces))
      else .ok ()

end Registry

namespace Resolution

variable (res : Resolution)

/-- Writes what a class resolves to into the registry, after the check against its
header. -/
def commitClass (c : ClassId) (types : ClassTypes) : Attempt Unit := do
  let r ← Attempt.getRegistry
  if res.options.verifyErasure then
    Attempt.ofExcept (r.checkHeader c types.superclass types.interfaces)
  if (r.classAt? c).isNone then throw (.unknownDeclaration (.ofClass c))
  Attempt.commit (fun r => r.modifyClass c types.fill)
    (.classResolved res.owner types.typeParams.length)

/-- Resolves the names in the signature of a class, `scope` being in force around it. -/
def resolveClassTypes (c : ClassId) (scope : Scope) (sig : ClassSig) : Attempt ClassTypes := do
  Attempt.ofExcept (checkDistinct sig.typeParams)
  let (typeParams, scope) ← res.introduce scope (.ofClass c) sig.typeParams
  let superclass ← res.resolveAt .classType scope sig.superclass
  let interfaces ← sig.interfaces.mapM (res.resolveAt .classType scope)
  pure ⟨typeParams, superclass, interfaces⟩

/-- Resolves a class from its signature. -/
def resolveClassSig (c : ClassId) (sig : ClassSig) : Attempt Unit := do
  let scope ← res.scopeAround c
  let types ← res.resolveClassTypes c scope sig
  res.commitClass c types

/-- Resolves a class from the text of its signature. -/
def resolveClassText (c : ClassId) (text : String) : Attempt Unit := do
  match ClassSig.parse text with
  | .error e => throw (.malformed (.unreadable e))
  | .ok sig => res.resolveClassSig c sig

/-- Resolves a class from its erased header. -/
def resolveClassHeader (c : ClassId) : Attempt Unit := do
  match (← Attempt.getRegistry).classAt? c with
  | none => throw (.unknownDeclaration (.ofClass c))
  | some entry =>
    let superclass ← entry.erasedSuper.mapM res.find
    let interfaces ← entry.erasedInterfaces.mapM res.find
    Attempt.commit (fun r => r.modifyClass c (ClassEntry.fillErased superclass interfaces))
      (.classResolvedErased res.owner)

end Resolution

namespace Workspace

/-- Resolves a class from its signature, or from its erased header if there is
none. -/
def resolveClassAsking (ask : ClassId → Work Bool) (options : Options) (c : ClassId)
    (signature : Option String) : Work (Except ResolveError Unit) :=
  resolveBy ask options (.ofClass c) signature fun res =>
    match signature with
    | some text => res.resolveClassText c text
    | none => res.resolveClassHeader c

end Workspace

end JavaGenerics
