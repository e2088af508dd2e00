import JavaGenerics.Grammar
import JavaGenerics.Signature

/-!
# Reading signatures

`JavaGenerics.ClassSig.parse`, `JavaGenerics.MethodSig.parse` and
`JavaGenerics.TypeSig.parse` read the signatures of classes, methods and fields.

Arrays and type argument lists nest, and a signature may nest them at most
`JavaGenerics.TypeSig.maxNesting` deep on any path. The grammar is therefore
written over a reader for what is *nested one level further in*, which is absent
where no further level may be opened; `JavaGenerics.TypeSig.readWithin` ties the
knot by recursion on the levels left.
-/

namespace JavaGenerics

open Reader Grammar

/-! ### Types -/

namespace TypeSig

/-- The deepest nesting of arrays and type argument lists. -/
def maxNesting : Nat := 255

/-- Characters that may not occur in an unqualified name. -/
def nameForbidden : List Char := ['.', ';', '[', '/', '<', '>', ':']

/-- Whether the slashes in a run of characters separate non-empty components;
`fresh` says that a component has just begun. -/
def componentsFilled (fresh : Bool) : List Char → Bool
  | [] => !fresh
  | c :: cs => if c = '/' then !fresh && componentsFilled true cs else componentsFilled false cs

/-- Reads a type variable, of which `T` is the next character. -/
def readVar : Reader Stop TypeSig := do
  skip
  let name ← Grammar.name [';'] nameForbidden .typeVarName
  skip
  pure (var name)

/-- Reads the next type argument, or the bracket that closes the list. -/
def readArg? (nested : Reader Stop TypeSig) : Reader Stop (Option TypeArg) := do
  match ← peek with
  | some '>' =>
    skip
    pure none
  | some '*' =>
    skip
    pure (some .unbounded)
  | some '+' =>
    skip
    return some (.bounded .upper (← nested))
  | some '-' =>
    skip
    return some (.bounded .lower (← nested))
  | some _ => return some (.bounded .exact (← nested))
  | none => stop .openTypeArgs

/-- Reads the type arguments that may follow the name of a segment. -/
def readArgs (nested : Option (Reader Stop TypeSig)) : Reader Stop (List TypeArg) := do
  if (← peek) = some '<' then
    match nested with
    | none => stop .tooDeep
    | some nested =>
      skip
      if (← peek) = some '>' then stop .noTypeArgs else many (readArg? nested)
  else pure []

/-- Reads the next member class of a class type, if one follows. -/
def readInner? (nested : Option (Reader Stop TypeSig)) : Reader Stop (Option Segment) := do
  if ← eat '.' then
    let name ← Grammar.name ['<', '.', ';'] nameForbidden .memberName
    let args ← readArgs nested
    pure (some (.mk name args))
  else pure none

/-- Reads a class type. -/
def readClassWith (nested : Option (Reader Stop TypeSig)) : Reader Stop TypeSig := do
  if ← eat 'L' then
    let name ← Grammar.name ['<', '.', ';'] ['[', '>', ':'] .className
    if componentsFilled true name.toList then
      let args ← readArgs nested
      let inner ← many (readInner? nested)
      if ← eat ';' then pure (ofClass (.mk name args) inner) else stop .openClassType
    else stop .className
  else stop .noClassType

/-- Reads a primitive type, or else what `reference` reads. -/
def readAnyWith (reference : Reader Stop TypeSig) : Reader Stop TypeSig := do
  match (← peek).bind BaseType.ofLetter? with
  | some b =>
    skip
    pure (base b)
  | none => reference

/-- Reads a reference type: a class, a type variable or an array. -/
def readWith (nested : Option (Reader Stop TypeSig)) : Reader Stop TypeSig := do
  match ← peek with
  | some 'L' => readClassWith nested
  | some 'T' => readVar
  | some '[' =>
    match nested with
    | none => stop .tooDeep
    | some nested =>
      skip
      array <$> readAnyWith nested
  | _ => stop .noReference

/-- Reads a reference type that nests at most `room` levels deep. -/
def readWithin : (room : Nat) → Reader Stop TypeSig
  | 0 => readWith none
  | room + 1 => readWith (some (readWithin room))

/-- What may be nested inside a type with `room` levels left. -/
def nestedWithin : (room : Nat) → Option (Reader Stop TypeSig)
  | 0 => none
  | room + 1 => some (readWithin room)

/-- Reads a reference type. -/
def reader : Reader Stop TypeSig := readWithin maxNesting

/-- Reads a class type. -/
def classReader : Reader Stop TypeSig := readClassWith (nestedWithin maxNesting)

/-- Reads a primitive or reference type. -/
def anyReader : Reader Stop TypeSig := readAnyWith reader

/-- The type that a field signature describes. -/
def parse (text : String) : Except SyntaxError TypeSig := Grammar.signature.read reader text

end TypeSig

/-! ### Type parameters -/

namespace TypeParamSig

/-- Reads a class bound, which begins with one of three characters if there is one. -/
def readClassBound : Reader Stop (Option TypeSig) := do
  match ← peek with
  | some 'L' | some 'T' | some '[' => some <$> TypeSig.reader
  | _ => pure none

/-- Reads the next interface bound, if one follows. -/
def readInterfaceBound? : Reader Stop (Option TypeSig) := do
  if ← eat ':' then some <$> TypeSig.reader else pure none

/-- Reads the next type parameter, or the bracket that closes the list. -/
def read? : Reader Stop (Option TypeParamSig) := do
  if ← eat '>' then pure none
  else
    let name ← Grammar.name [':'] TypeSig.nameForbidden .typeParamName
    skip
    let classBound ← readClassBound
    let interfaceBounds ← many readInterfaceBound?
    pure (some ⟨name, classBound, interfaceBounds⟩)

/-- Reads the type parameters that may open a signature. -/
def listReader : Reader Stop (List TypeParamSig) := do
  if ← eat '<' then
    if (← peek) = some '>' then stop .noTypeParams else many read?
  else pure []

end TypeParamSig

/-! ### Classes -/

namespace ClassSig

/-- Reads the next interface, if the text goes on. -/
def readInterface? : Reader Stop (Option TypeSig) := do
  if ← atEnd then pure none else some <$> TypeSig.classReader

/-- Reads a class signature. -/
def reader : Reader Stop ClassSig := do
  let typeParams ← TypeParamSig.listReader
  let superclass ← TypeSig.classReader
  let interfaces ← many readInterface?
  pure ⟨typeParams, superclass, interfaces⟩

/-- The class signature that a text describes. -/
def parse (text : String) : Except SyntaxError ClassSig := Grammar.signature.read reader text

end ClassSig

/-! ### Methods -/

namespace MethodSig

/-- Reads the next parameter, or the parenthesis that closes the list. -/
def readParam? : Reader Stop (Option TypeSig) := do
  if ← eat ')' then pure none
  else if ← atEnd then stop .openParams
  else some <$> TypeSig.anyReader

/-- Reads a result type. -/
def readResult : Reader Stop TypeSig := do
  if ← eat 'V' then pure .void else TypeSig.anyReader

/-- Reads the next exception, if one follows. -/
def readThrown? : Reader Stop (Option TypeSig) := do
  if ← eat '^' then
    match ← peek with
    | some 'L' => some <$> TypeSig.classReader
    | some 'T' => some <$> TypeSig.readVar
    | _ => stop .noThrown
  else pure none

/-- Reads a method signature. -/
def reader : Reader Stop MethodSig := do
  let typeParams ← TypeParamSig.listReader
  if ← eat '(' then
    let params ← many readParam?
    let result ← readResult
    let throws ← many readThrown?
    pure ⟨typeParams, params, result, throws⟩
  else stop .noParams

/-- The method signature that a text describes. -/
def parse (text : String) : Except SyntaxError MethodSig := Grammar.signature.read reader text

end MethodSig

end JavaGenerics
