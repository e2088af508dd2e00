import JavaGenerics.BaseType

/-!
# Resolved types

Once the names in a signature are looked up, a type no longer holds words: classes
are numbers that a registry has handed out, and a type variable is identified by
the declaration that introduces it together with its position there. Two
declarations that use one name for a type parameter therefore never share a
variable.
-/

namespace JavaGenerics

/-- The number of a class in a registry. -/
structure ClassId where
  index : Nat
deriving DecidableEq, Repr

/-- The number of a method in a registry. -/
structure MethodId where
  index : Nat
deriving DecidableEq, Repr

/-- The number of a field in a registry. -/
structure FieldId where
  index : Nat
deriving DecidableEq, Repr

/-- A declaration that can introduce type parameters. -/
inductive Declarer where
  | ofClass (c : ClassId)
  | ofMethod (m : MethodId)
deriving DecidableEq, Repr

/-- The identity of a type parameter: who declares it, and at which position. -/
structure TypeVar where
  owner : Declarer
  index : Nat
deriving DecidableEq, Repr

/-- A type in which every name has been resolved. -/
inductive ResolvedType where
  | base (b : BaseType)
  | void
  /-- A class without type arguments: one that is not generic, or a raw use. -/
  | raw (c : ClassId)
  /-- A class with type arguments. -/
  | parameterized (c : ClassId) (args : List ResolvedType)
  /-- A member class, seen from a type of the class around it. -/
  | member (outer : ResolvedType) (c : ClassId) (args : List ResolvedType)
  | var (v : TypeVar)
  | array (elem : ResolvedType)
  /-- The wildcard `?`. -/
  | unbounded
  /-- The wildcard `? extends bound`. -/
  | upper (bound : ResolvedType)
  /-- The wildcard `? super bound`. -/
  | lower (bound : ResolvedType)
deriving Inhabited, Repr

namespace ResolvedType

/-- The class of a class type, its type arguments left aside. -/
def class? : ResolvedType → Option ClassId
  | raw c => some c
  | parameterized c _ => some c
  | member _ c _ => some c
  | _ => none

/-- Whether a type is `void`. -/
def isVoid : ResolvedType → Bool
  | void => true
  | _ => false

/-- Whether a member class of this type keeps it as its outer type: a class type
with type arguments, or one that is itself seen from such a type. -/
def carriesArgs : ResolvedType → Bool
  | parameterized _ _ => true
  | member _ _ _ => true
  | _ => false

end ResolvedType

end JavaGenerics
