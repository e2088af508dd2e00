/-!
# Primitive types

Descriptors and signatures write each of the eight primitive types as one capital
letter. `JavaGenerics.BaseType.letter` and `JavaGenerics.BaseType.ofLetter?` are
inverse to each other.
-/

namespace JavaGenerics

/-- The primitive types that a value can have. -/
inductive BaseType where
  | byte
  | char
  | double
  | float
  | int
  | long
  | short
  | boolean
deriving DecidableEq, Repr

namespace BaseType

/-- All primitive types. -/
def all : List BaseType := [byte, char, double, float, int, long, short, boolean]

/-- The letter that stands for a primitive type. -/
def letter : BaseType → Char
  | byte => 'B'
  | char => 'C'
  | double => 'D'
  | float => 'F'
  | int => 'I'
  | long => 'J'
  | short => 'S'
  | boolean => 'Z'

/-- The primitive type that a letter stands for. -/
def ofLetter? : Char → Option BaseType
  | 'B' => some byte
  | 'C' => some char
  | 'D' => some double
  | 'F' => some float
  | 'I' => some int
  | 'J' => some long
  | 'S' => some short
  | 'Z' => some boolean
  | _ => none

/-- The keyword for a primitive type in source text. -/
def keyword : BaseType → String
  | byte => "byte"
  | char => "char"
  | double => "double"
  | float => "float"
  | int => "int"
  | long => "long"
  | short => "short"
  | boolean => "boolean"

@[simp] theorem ofLetter?_letter (b : BaseType) : ofLetter? b.letter = some b := by
  cases b <;> rfl

/-- A letter is read as a primitive type exactly if it is the letter of that type. -/
theorem ofLetter?_eq_some_iff {c : Char} {b : BaseType} : ofLetter? c = some b ↔ b.letter = c := by
  refine ⟨fun h => ?_, fun h => h ▸ ofLetter?_letter b⟩
  unfold ofLetter? at h
  split at h <;> cases h <;> rfl

end BaseType

end JavaGenerics
