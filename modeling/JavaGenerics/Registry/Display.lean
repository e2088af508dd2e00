import JavaGenerics.Registry

/-!
# Resolved types as text

`JavaGenerics.Registry.display` writes a resolved type the way source text would:
`java.util.Map<K, ? extends V>`, `com.example.Outer<T>.Inner`, `int[]`. Classes
appear under their binary names, a member class of a type with arguments under
its simple name, and numbers that are not registered under a stand-in.
-/

namespace JavaGenerics

namespace Registry

variable (r : Registry)

/-- The name of a member class behind the type of the class around it. -/
def memberName (c : ClassId) : String :=
  match r.classAt? c with
  | some entry => simpleName entry.name
  | none => r.className c

/-- The name of a type variable, or a stand-in for one that nothing declares. -/
def varName (v : TypeVar) : String :=
  match r.typeParam? v with
  | some p => p.name
  | none => "<type var #" ++ toString v.index ++ ">"

mutual

/-- A resolved type as text. -/
def display : ResolvedType → String
  | .base b => b.keyword
  | .void => "void"
  | .raw c => r.className c
  | .parameterized c args => r.className c ++ displayArgs args
  | .member outer c args => display outer ++ "." ++ r.memberName c ++ displayArgs args
  | .var v => r.varName v
  | .array elem => display elem ++ "[]"
  | .unbounded => "?"
  | .upper bound => "? extends " ++ display bound
  | .lower bound => "? super " ++ display bound

/-- Type arguments in angle brackets; nothing if there are none. -/
def displayArgs : List ResolvedType → String
  | [] => ""
  | arg :: args => "<" ++ display arg ++ displayMore args ++ ">"

/-- The type arguments after the first. -/
def displayMore : List ResolvedType → String
  | [] => ""
  | arg :: args => ", " ++ display arg ++ displayMore args

end

end Registry

end JavaGenerics
