import JavaGenerics.BaseType

/-!
# Erased descriptors

A descriptor is what a class file records of the type of a field or a method once
generics are erased. Class names are kept in *internal* form, with slashes between
packages (`java/lang/String`).

`JavaGenerics.FieldType.spelling` and `JavaGenerics.MethodDescriptor.spelling`
write descriptors back; the readers are in `JavaGenerics.Descriptor.Reading`.
-/

namespace JavaGenerics

/-- The erased type of a field, a parameter or a result. -/
inductive FieldType where
  | base (b : BaseType)
  /-- A class, by its internal name. -/
  | object (name : String)
  | array (elem : FieldType)
deriving DecidableEq, Repr

namespace FieldType

/-- How many array dimensions a type has. -/
def dimensions : FieldType → Nat
  | base _ => 0
  | object _ => 0
  | array elem => elem.dimensions + 1

/-- The type left when all array dimensions are taken off. -/
def innermost : FieldType → FieldType
  | base b => base b
  | object name => object name
  | array elem => elem.innermost

/-- The characters of a field type. -/
def spelling : FieldType → List Char
  | base b => [b.letter]
  | object name => 'L' :: name.toList ++ [';']
  | array elem => '[' :: elem.spelling

/-- The text of a field type. -/
def text (t : FieldType) : String := String.ofList t.spelling

end FieldType

/-- The erased type of a method. -/
structure MethodDescriptor where
  params : List FieldType
  /-- The result, absent for `void`. -/
  result : Option FieldType
deriving DecidableEq, Repr

namespace MethodDescriptor

/-- The characters of a result type; `V` stands for `void`. -/
def resultSpelling : Option FieldType → List Char
  | none => ['V']
  | some t => t.spelling

/-- The characters of a method descriptor. -/
def spelling (d : MethodDescriptor) : List Char :=
  '(' :: d.params.flatMap FieldType.spelling ++ ')' :: resultSpelling d.result

/-- The text of a method descriptor. -/
def text (d : MethodDescriptor) : String := String.ofList d.spelling

end MethodDescriptor

end JavaGenerics
