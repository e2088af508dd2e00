import JavaGenerics.Descriptor
import JavaGenerics.Grammar

/-!
# Reading descriptors

`JavaGenerics.FieldType.parse` and `JavaGenerics.MethodDescriptor.parse` read
whole texts. A field type may have at most `JavaGenerics.FieldType.maxDimensions`
array dimensions; the reader counts down the dimensions it may still open, so its
recursion is on that count.
-/

namespace JavaGenerics

open Reader Grammar

namespace FieldType

/-- The greatest number of array dimensions of a field type. -/
def maxDimensions : Nat := 255

/-- Reads a field type that is no array. -/
def readInnermost : Reader Stop FieldType := do
  let c ← peek
  match c.bind BaseType.ofLetter? with
  | some b =>
    skip
    pure (base b)
  | none =>
    if c = some 'L' then
      skip
      let name ← Grammar.name [';'] ['.', '[', '<', '>'] .className
      skip
      pure (object name)
    else stop .noFieldType

/-- Reads a field type with at most `room` array dimensions. -/
def readWithin : (room : Nat) → Reader Stop FieldType
  | 0 => do if ← eat '[' then stop .tooManyDimensions else readInnermost
  | room + 1 => do if ← eat '[' then array <$> readWithin room else readInnermost

/-- Reads a field type. -/
def reader : Reader Stop FieldType := readWithin maxDimensions

/-- The field type that a text describes. -/
def parse (text : String) : Except SyntaxError FieldType := Grammar.descriptor.read reader text

end FieldType

namespace MethodDescriptor

/-- Reads the next parameter, or the parenthesis that closes the list. -/
def readParam? : Reader Stop (Option FieldType) := do
  if ← eat ')' then pure none
  else if ← atEnd then stop .openParams
  else some <$> FieldType.reader

/-- Reads a result type. -/
def readResult : Reader Stop (Option FieldType) := do
  if ← eat 'V' then pure none else some <$> FieldType.reader

/-- Reads a method descriptor. -/
def reader : Reader Stop MethodDescriptor := do
  if ← eat '(' then
    let params ← many readParam?
    let result ← readResult
    pure ⟨params, result⟩
  else stop .descriptorStart

/-- The method descriptor that a text describes. -/
def parse (text : String) : Except SyntaxError MethodDescriptor :=
  Grammar.descriptor.read reader text

end MethodDescriptor

end JavaGenerics
