import JavaGenerics.Text.Reader
import JavaGenerics.Toml.Scalar

/-!
# Quoted text in a TOML document

There are four kinds of quotes: single quotes, between which every character stands
for itself, double quotes with escapes, and both of them three times, between which
lines may break. In the latter a line break is one character, however it is
written, and up to two quotes may stand next to the closing three.
-/

namespace JavaGenerics

namespace Toml

open Reader

/-- Reading a TOML document; a failure has nothing to say for itself. -/
abbrev Reading (α : Type) := Reader Unit α

/-- A document that is malformed. -/
def malformed {α : Type} : Reading α := fun _ => .error ()

/-- Fails unless something holds. -/
def require (b : Bool) : Reading Unit := if b then pure () else malformed

/-- The run of characters at the front that satisfy `p`, left in place. -/
def peekRun (p : Char → Bool) : Reading (List Char) := fun cs => .ok (cs.takeWhile p, cs)

/-- Takes `n` characters. -/
def skipMany (n : Nat) : Reading Unit := fun cs => .ok ((), cs.drop n)

/-- Whether a character may stand in a line: no control character but the tab. -/
def isPlain (c : Char) : Bool := c == '\t' || (' ' ≤ c && c != '\x7f')

/-- Takes a line break, if one comes next, and says whether it did. A carriage return
must be followed by a line feed. -/
def eatNewline : Reading Bool := do
  if ← eat '\r' then
    require (← eat '\n')
    pure true
  else eat '\n'

/-- The character with a code point, unless there is none. -/
def scalar? (n : Nat) : Option Char := if h : n.isValidChar then some (Char.ofNatAux n h) else none

/-- Reads the code point of a character in `n` digits. -/
def readCodePoint (n : Nat) : Reading Char := do
  let ds ← (fun cs => .ok (cs.take n, cs.drop n) : Reading (List Char))
  require (ds.length = n && ds.all isHexDigit)
  match scalar? (valueIn 16 ds) with
  | some c => pure c
  | none => malformed

/-- Reads an escape behind its backslash. -/
def readEscape : Reading Char := do
  let c ← peek
  skip
  match c with
  | some 'b' => pure '\x08'
  | some 't' => pure '\t'
  | some 'n' => pure '\n'
  | some 'f' => pure '\x0c'
  | some 'r' => pure '\r'
  | some '"' => pure '"'
  | some '\\' => pure '\\'
  | some 'u' => readCodePoint 4
  | some 'U' => readCodePoint 8
  | _ => malformed

/-- Reads a character that stands for itself. -/
def readPlain : Reading Char := do
  match ← peek with
  | some c =>
    require (isPlain c)
    skip
    pure c
  | none => malformed

/-! ### In one line -/

/-- Reads the next character of a text in double quotes, or the closing quote. -/
def readBasicChar? : Reading (Option Char) := do
  if ← eat '"' then pure none
  else if ← eat '\\' then some <$> readEscape
  else some <$> readPlain

/-- Reads the next character of a text in single quotes, or the closing quote. -/
def readLiteralChar? : Reading (Option Char) := do
  if ← eat '\'' then pure none else some <$> readPlain

/-- Reads a text in quotes that stays within its line. -/
def readQuoted : Reading String := do
  if ← eat '"' then String.ofList <$> many readBasicChar?
  else
    require (← eat '\'')
    String.ofList <$> many readLiteralChar?

/-! ### Over several lines -/

/-- The blanks within a line. -/
def isSpace (c : Char) : Bool := c == ' ' || c == '\t'

/-- Takes the blanks and line breaks that come next. -/
def skipSpaceAndNewlines : Reading Unit := do
  let _ ← many (do
    let run ← takeRun isSpace
    if ← eatNewline then pure (some ())
    else if run.isEmpty then pure none
    else pure (some ()) : Reading (Option Unit))

/-- Reads what follows a backslash in a text over several lines: an escape, or the
break of a line that the text passes over with all blanks and lines after it. -/
def readLongEscape : Reading (List Char) := do
  let run ← peekRun isSpace
  let rest ← (fun cs => .ok (cs.drop run.length, cs) : Reading (List Char))
  if rest.head? = some '\n' ∨ rest.head? = some '\r' then
    skipMany run.length
    require (← eatNewline)
    skipSpaceAndNewlines
    pure []
  else return [← readEscape]

/-- Reads the next piece of a text over several lines, up to the closing quotes. -/
def readLongPiece? (quote : Char) : Reading (Option (List Char)) := do
  let quotes ← peekRun (· == quote)
  if 3 ≤ quotes.length then pure none
  else if !quotes.isEmpty then
    skipMany quotes.length
    pure (some quotes)
  else if ← eatNewline then pure (some ['\n'])
  else if quote == '"' && (← peek) == some '\\' then
    skip
    some <$> readLongEscape
  else return some [← readPlain]

/-- Reads a text in three quotes, behind the opening ones. A line break next to them
is left out. -/
def readLong (quote : Char) : Reading String := do
  let _ ← eatNewline
  let pieces ← many (readLongPiece? quote)
  let closing ← takeRun (· == quote)
  require (3 ≤ closing.length && closing.length ≤ 5)
  pure (String.ofList (pieces.flatten ++ closing.drop 3))

/-- Reads a text in quotes, of which `quote` comes next. -/
def readText (quote : Char) : Reading String := do
  let quotes ← peekRun (· == quote)
  if 3 ≤ quotes.length then
    skipMany 3
    readLong quote
  else readQuoted

end Toml

end JavaGenerics
