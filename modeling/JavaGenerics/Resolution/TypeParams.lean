import JavaGenerics.Resolution.Types

/-!
# Introducing type parameters

The type parameters of a declaration are all in force before the first bound is
resolved, so a bound may mention its own parameter (`<T:Ljava/lang/Comparable<TT;>;>`)
or a later one. If the registry already knows type parameters of the declaration,
the signature must declare the same names in the same order.
-/

namespace JavaGenerics

/-- The first name in a list that occurs earlier in it, after the names `seen`. -/
def firstRepeated (seen : List String) : List String → Option String
  | [] => none
  | name :: names => if name ∈ seen then some name else firstRepeated (name :: seen) names

/-- Fails at the first type parameter whose name is already declared. -/
def checkDistinct (params : List TypeParamSig) : Except ResolveError Unit :=
  match firstRepeated [] (params.map (·.name)) with
  | some name => .error (.malformed (.duplicateTypeParam name))
  | none => .ok ()

/-- Fails if type parameters are already declared that differ in name. -/
def checkDeclared (declared : List TypeParam) (params : List TypeParamSig) :
    Except ResolveError Unit :=
  let names := params.map (·.name)
  let declared := declared.map (·.name)
  if declared.isEmpty || declared == names then .ok ()
  else .error (.mismatch (.typeParams names declared))

/-- Brings the type parameters of `owner` into force; none are no declaration. -/
def Scope.pushDeclared (scope : Scope) (owner : Declarer) (params : List TypeParamSig) : Scope :=
  if params.isEmpty then scope else scope.push owner (params.map (·.name))

namespace Resolution

/-- Resolves the bounds of type parameters in order, the first of which is at
position `first` of `owner`. -/
def resolveBounds (res : Resolution) (scope : Scope) (owner : Declarer) (first : Nat) :
    List TypeParamSig → Attempt (List TypeParam)
  | [] => pure []
  | p :: ps => do
    let bounds ← p.bounds.mapM (res.resolveAt .reference scope)
    let rest ← resolveBounds res scope owner (first + 1) ps
    pure (⟨p.name, ⟨owner, first⟩, bounds⟩ :: rest)

/-- Introduces the type parameters of `owner`: resolves their bounds and returns them
with the scope in which they are in force. -/
def introduce (res : Resolution) (scope : Scope) (owner : Declarer)
    (params : List TypeParamSig) : Attempt (List TypeParam × Scope) := do
  let r ← Attempt.getRegistry
  Attempt.ofExcept (checkDeclared (r.typeParams owner) params)
  let scope := scope.pushDeclared owner params
  let typeParams ← res.resolveBounds scope owner 0 params
  pure (typeParams, scope)

end Resolution

end JavaGenerics
