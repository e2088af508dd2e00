import JavaGenerics.Toml.Quoted

/-!
# Reading TOML documents

`JavaGenerics.Toml.parse?` reads a document line by line and puts the lines
together by `JavaGenerics.Toml.ofLines`. Arrays and inline tables may be nested at
most `JavaGenerics.Toml.maxDepth` deep, and a dotted key has at most as many parts;
as for signatures, the grammar of values is written over a reader for what is
nested one level further in.
-/

namespace JavaGenerics

namespace Toml

open Reader

/-- The deepest nesting of values, and the longest dotted key. -/
def maxDepth : Nat := 79

/-- Takes the blanks that come next in a line. -/
def skipSpace : Reading Unit := do
  let _ ← takeRun isSpace

/-- Takes a comment, if one comes next. -/
def skipComment : Reading Unit := do
  if ← eat '#' then
    let _ ← takeRun isPlain

/-- Reads the end of a line. -/
def readLineEnd : Reading Unit := do
  skipSpace
  skipComment
  if !(← eatNewline) then require (← atEnd)

/-! ### Keys -/

/-- Whether a character may stand in a key without quotes. -/
def isBareKeyChar (c : Char) : Bool := c.isAlphanum || c == '_' || c == '-'

/-- Reads one part of a dotted key, with the blanks around it. -/
def readKeyPart : Reading String := do
  skipSpace
  let c ← peek
  let part ← if c == some '"' || c == some '\'' then readQuoted
    else do
      let run ← takeRun isBareKeyChar
      require !run.isEmpty
      pure (String.ofList run)
  skipSpace
  pure part

/-- Reads a dotted key: the parts before the last, and the last. -/
def readKey : Reading (List String × String) := do
  let first ← readKeyPart
  let more ← many (do
    if ← eat '.' then some <$> readKeyPart else pure none : Reading (Option String))
  require (more.length < maxDepth)
  match more.getLast? with
  | none => pure ([], first)
  | some last => pure (first :: more.dropLast, last)

/-! ### Values -/

/-- Whether a character may stand in a word. -/
def isWordChar (c : Char) : Bool :=
  c.isAlphanum || c == '_' || c == '-' || c == '+' || c == '.' || c == ':'

/-- Reads a boolean, a number or a time. Between a date and a time there may be a
blank. -/
def readWord : Reading Toml := do
  let word ← takeRun isWordChar
  let rest ← (fun cs => .ok (cs.take 2, cs) : Reading (List Char))
  let word ← match afterDate? word, rest with
    | some [], [' ', d] =>
      if d.isDigit then do
        skip
        let time ← takeRun isWordChar
        pure (word ++ ' ' :: time)
      else pure word
    | _, _ => pure word
  match ofWord? word with
  | some value => pure value
  | none => malformed

/-- Reads a key and a value, which `value` reads, with the blanks around them. -/
def readPair (value : Reading Toml) : Reading Pair := do
  let (path, key) ← readKey
  require (← eat '=')
  skipSpace
  let value ← value
  skipSpace
  pure ⟨path, key, value⟩

/-- Takes the blanks, comments and line breaks that come next in an array. -/
def skipFiller : Reading Unit := do
  let _ ← many (do
    skipSpace
    let comment ← eat '#'
    if comment then
      let _ ← takeRun isPlain
    if ← eatNewline then pure (some ())
    else
      require !comment
      pure none : Reading (Option Unit))

/-- Reads the next element of an array, or the bracket that closes it. -/
def readElement? (value : Reading Toml) : Reading (Option Toml) := do
  skipFiller
  if ← eat ']' then pure none
  else
    let value ← value
    skipFiller
    if !(← eat ',') then require ((← peek) == some ']')
    pure (some value)

/-- Reads the pairs of an inline table and the brace that closes it. -/
def readInline (value : Reading Toml) : Reading Toml := do
  skipSpace
  if ← eat '}' then pure (.table .inline [])
  else
    let first ← readPair value
    let more ← many (do
      if ← eat ',' then some <$> readPair value else pure none : Reading (Option Pair))
    require (← eat '}')
    match insertAll (first :: more) [] with
    | some entries => pure (.table .inline entries)
    | none => malformed

/-- Reads a value, in which `nested` reads the values one level further in. -/
def readValueWith (nested : Option (Reading Toml)) : Reading Toml := do
  match ← peek, nested with
  | some '"', _ => text <$> readText '"'
  | some '\'', _ => text <$> readText '\''
  | some '[', some nested =>
    skip
    array <$> many (readElement? nested)
  | some '{', some nested =>
    skip
    readInline nested
  | some _, _ => readWord
  | none, _ => malformed

/-- Reads a value that nests at most `room` levels deep. -/
def readValueWithin : (room : Nat) → Reading Toml
  | 0 => readValueWith none
  | room + 1 => readValueWith (some (readValueWithin room))

/-- Reads a value. -/
def readValue : Reading Toml := readValueWithin maxDepth

/-! ### Documents -/

/-- Reads the header of a table behind its first bracket. -/
def readHeader : Reading Line := do
  if ← eat '[' then
    let (path, key) ← readKey
    require ((← eat ']') && (← eat ']'))
    pure (.arrayHeader path key)
  else
    let (path, key) ← readKey
    require (← eat ']')
    pure (.header path key)

/-- Reads the next line, if the text goes on. -/
def readLine? : Reading (Option Line) := do
  skipSpace
  if ← atEnd then pure none
  else
    let c ← peek
    let line ←
      if c == some '#' || c == some '\n' || c == some '\r' then pure .blank
      else if ← eat '[' then readHeader
      else Line.pair <$> readPair readValue
    readLineEnd
    pure (some line)

/-- The entries of the document that a text contains; a mark of the byte order in
front of it is passed over. -/
def parse? (source : String) : Option Entries :=
  let cs := match source.toList with
    | '\ufeff' :: cs => cs
    | cs => cs
  match many readLine? cs with
  | .ok (lines, []) => ofLines lines
  | _ => none

end Toml

end JavaGenerics
