import JavaGenerics.Resolution.Erasure
import JavaGenerics.Resolution.Run
import JavaGenerics.Resolution.TypeParams
import JavaGenerics.Signature.Reading

/-!
# Resolving methods

A method is resolved from its signature, or from its descriptor when it has none.

The descriptor of a constructor may open with parameters that no source text
mentions and no signature lists: the instance around a member class, or the name
and the position of an enum constant. `JavaGenerics.Registry.syntheticCount` finds
out how many there are; any other surplus counts for none, and so fails the check
against the descriptor.
-/

namespace JavaGenerics

/-- What the signature of a method resolves to. -/
structure MethodTypes where
  typeParams : List TypeParam
  params : List ResolvedType
  result : ResolvedType
  throws : List ResolvedType

/-- The entry of a method that is resolved to these types, with these names for its
parameters. -/
def MethodTypes.fill (types : MethodTypes) (names : List String) (e : MethodEntry) : MethodEntry :=
  { e with
    typeParams := types.typeParams
    params := names.zip types.params
    result := if e.isConstructor then none else some types.result
    throws := types.throws
    stage := .resolved }

/-- The entry of a method that is resolved to the types in its descriptor; its type
parameters stay as they are. -/
def MethodEntry.fillErased (params : List (String × ResolvedType)) (result : Option ResolvedType)
    (e : MethodEntry) : MethodEntry :=
  { e with params, result, throws := [], stage := .resolved }

/-- The names of parameters for which the class file supplies none. -/
def numberedNames (count : Nat) : List String :=
  (List.range count).map fun i => "arg" ++ toString i

/-- The names of `declared` parameters, if the class file supplies names that go with
them. Where leading parameters of the descriptor are left out, so are their names. -/
def suppliedArgNames? (names : List String) (declared synthetic : Nat) : Option (List String) :=
  if names.length = declared then some names
  else if 0 < synthetic ∧ names.length = declared + synthetic then some (names.drop synthetic)
  else none

namespace Registry

variable (r : Registry)

/-- Whether the parameters `leading` are those that a constructor of `owner` has
beyond its signature. -/
def areSynthetic (owner : ClassEntry) (leading : List FieldType) : Bool :=
  if owner.erasedSuper = some "java.lang.Enum" then
    leading == [.object "java/lang/String", .base .int]
  else
    match owner.enclosing, leading with
    | some outer, [.object name] => internalToBinary name == r.className outer
    | _, _ => false

/-- How many leading parameters of the descriptor of a method are left out of a
signature with `declared` parameters. -/
def syntheticCount (m : MethodEntry) (declared : Nat) : Nat :=
  let surplus := m.descriptor.params.length - declared
  if m.isConstructor
      && (r.classAt? m.owner).any (r.areSynthetic · (m.descriptor.params.take surplus))
  then surplus else 0

/-- Fails at the first of `types` that does not erase to its fellow in `erased`. -/
def checkParams : (erased : List FieldType) → (types : List ResolvedType) →
    Except ResolveError Unit
  | e :: es, t :: ts => do
    r.checkErasure e t
    checkParams es ts
  | _, _ => .ok ()

/-- Fails unless the types in a signature agree with the descriptor of a method,
whose first `synthetic` parameters are left aside. -/
def checkDescriptor (m : MethodEntry) (synthetic : Nat) (params : List ResolvedType)
    (result : ResolvedType) : Except ResolveError Unit := do
  if m.descriptor.params.length ≠ params.length + synthetic then
    throw (.mismatch (.paramCount params.length m.descriptor))
  r.checkParams (m.descriptor.params.drop synthetic) params
  if !m.isConstructor then r.checkResultErasure m.descriptor.result result

end Registry

namespace Resolution

variable (res : Resolution)

/-- The names of `declared` parameters; a warning says if names are supplied and do
not go with them. -/
def nameParams (names : List String) (declared synthetic : Nat) :
    StateM Progress (List String) := do
  match suppliedArgNames? names declared synthetic with
  | some names => pure names
  | none =>
    if !names.isEmpty then res.warn (.argumentNames names.length declared res.owner)
    pure (numberedNames declared)

/-- Writes what a method resolves to into the registry, after the check against its
descriptor. -/
def commitMethod (m : MethodId) (types : MethodTypes) : Attempt Unit := do
  let r ← Attempt.getRegistry
  match r.methodAt? m with
  | none => throw (.unknownDeclaration (.ofMethod m))
  | some entry =>
    let declared := types.params.length
    let synthetic := r.syntheticCount entry declared
    if res.options.verifyErasure then
      Attempt.ofExcept (r.checkDescriptor entry synthetic types.params types.result)
    let names ← res.nameParams entry.argNames declared synthetic
    Attempt.commit (fun r => r.modifyMethod m (types.fill names)) (.methodResolved res.owner)

/-- Resolves the names in the signature of a method, `scope` being in force around it. -/
def resolveMethodTypes (m : MethodId) (scope : Scope) (sig : MethodSig) : Attempt MethodTypes := do
  Attempt.ofExcept (checkDistinct sig.typeParams)
  let (typeParams, scope) ← res.introduce scope (.ofMethod m) sig.typeParams
  let params ← sig.params.mapM (res.resolveAt .param scope)
  let result ← res.resolve scope sig.result
  let throws ← sig.throws.mapM (res.resolveAt .reference scope)
  pure ⟨typeParams, params, result, throws⟩

/-- Resolves a method of the class `owner` from its signature. -/
def resolveMethodSig (m : MethodId) (owner : ClassId) (sig : MethodSig) : Attempt Unit := do
  let scope ← res.scopeInside owner
  let types ← res.resolveMethodTypes m scope sig
  res.commitMethod m types

/-- Resolves a method from the text of its signature. -/
def resolveMethodText (m : MethodId) (text : String) : Attempt Unit := do
  match MethodSig.parse text with
  | .error e => throw (.malformed (.unreadable e))
  | .ok sig =>
    match (← Attempt.getRegistry).methodAt? m with
    | none => throw (.unknownDeclaration (.ofMethod m))
    | some entry => res.resolveMethodSig m entry.owner sig

/-- The result of a method in its descriptor; a constructor has none. -/
def resolveErasedResult (entry : MethodEntry) : Attempt (Option ResolvedType) := do
  if entry.isConstructor then pure none
  else
    match entry.descriptor.result with
    | none => pure (some .void)
    | some erased => return some (← res.resolveRaw erased)

/-- Resolves a method from its descriptor. -/
def resolveMethodDescriptor (m : MethodId) : Attempt Unit := do
  match (← Attempt.getRegistry).methodAt? m with
  | none => throw (.unknownDeclaration (.ofMethod m))
  | some entry =>
    let params ← entry.descriptor.params.mapM res.resolveRaw
    let result ← res.resolveErasedResult entry
    let names ← res.nameParams entry.argNames params.length 0
    Attempt.commit
      (fun r => r.modifyMethod m (MethodEntry.fillErased (names.zip params) result))
      (.methodResolvedErased res.owner)

end Resolution

namespace Workspace

/-- Resolves a method from its signature, or from its descriptor if there is none. -/
def resolveMethodAsking (ask : ClassId → Work Bool) (options : Options) (m : MethodId)
    (signature : Option String) : Work (Except ResolveError Unit) :=
  resolveBy ask options (.ofMethod m) signature fun res =>
    match signature with
    | some text => res.resolveMethodText m text
    | none => res.resolveMethodDescriptor m

end Workspace

end JavaGenerics
