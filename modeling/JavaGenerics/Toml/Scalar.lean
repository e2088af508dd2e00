import JavaGenerics.Toml

/-!
# Words of a TOML document

Booleans, numbers and times are written as one word each. This file says which
words are well formed. An integer must fit into 64 bits, and a float may not be too
large for double precision; dates must be in the calendar.
-/

namespace JavaGenerics

namespace Toml

/-! ### Digits -/

/-- The digits of a word in which single underscores may stand between digits. -/
def digits (isDigit : Char → Bool) : List Char → Option (List Char)
  | [] => none
  | [c] => if isDigit c then some [c] else none
  | c :: '_' :: cs => if isDigit c then (digits isDigit cs).map (c :: ·) else none
  | c :: d :: cs => if isDigit c then (digits isDigit (d :: cs)).map (c :: ·) else none

/-- The value of a digit in a base up to sixteen. -/
def digitValue (c : Char) : Nat :=
  if c.isDigit then c.toNat - '0'.toNat
  else if 'a' ≤ c then c.toNat - 'a'.toNat + 10
  else c.toNat - 'A'.toNat + 10

/-- The number that digits stand for. -/
def valueIn (base : Nat) (ds : List Char) : Nat :=
  ds.foldl (fun n c => n * base + digitValue c) 0

/-- Whether a character is a digit in base sixteen. -/
def isHexDigit (c : Char) : Bool := c.isDigit || ('a' ≤ c && c ≤ 'f') || ('A' ≤ c && c ≤ 'F')

/-- Splits the sign off a word; without one the word is positive. -/
def splitSign : List Char → Bool × List Char
  | '-' :: cs => (true, cs)
  | '+' :: cs => (false, cs)
  | cs => (false, cs)

/-- The digits of a decimal number without sign; only zero begins with a zero. -/
def decimalDigits (cs : List Char) : Option (List Char) :=
  (digits Char.isDigit cs).filter fun ds => ds.length = 1 || ds.head? != some '0'

/-! ### Integers -/

/-- Whether a word is an integer. -/
def isInteger : List Char → Bool
  | '0' :: 'x' :: cs => (digits isHexDigit cs).any fun ds => valueIn 16 ds < Nat.pow 2 63
  | '0' :: 'o' :: cs =>
    (digits (fun c => '0' ≤ c && c ≤ '7') cs).any fun ds => valueIn 8 ds < Nat.pow 2 63
  | '0' :: 'b' :: cs =>
    (digits (fun c => c == '0' || c == '1') cs).any fun ds => valueIn 2 ds < Nat.pow 2 63
  | cs =>
    let (negative, cs) := splitSign cs
    (decimalDigits cs).any fun ds => valueIn 10 ds < Nat.pow 2 63 + negative.toNat

/-! ### Floats -/

/-- The least number that double precision rounds to infinity. -/
def doubleBound : Nat := Nat.pow 2 1024 - Nat.pow 2 970

/-- Whether `m · 10 ^ e` is too large for double precision. -/
def overflows (m : Nat) (e : Int) : Bool :=
  let size : Int := (toString m).length + e
  if m = 0 || size < 300 then false
  else if 320 < size then true
  else if 0 ≤ e then doubleBound ≤ m * Nat.pow 10 e.toNat
  else doubleBound * Nat.pow 10 (-e).toNat ≤ m

/-- The digits of the fraction at the front of a word, and what follows it. -/
def splitFraction (cs : List Char) : Option (List Char × List Char) :=
  match cs with
  | '.' :: cs =>
    let isFraction (c : Char) : Bool := c.isDigit || c == '_'
    (digits Char.isDigit (cs.takeWhile isFraction)).map fun ds => (ds, cs.dropWhile isFraction)
  | cs => some ([], cs)

/-- The exponent that a word consists of, if it is not empty. -/
def exponent? : List Char → Option Int
  | [] => some 0
  | c :: cs =>
    if c == 'e' || c == 'E' then
      let (negative, cs) := splitSign cs
      (digits Char.isDigit cs).map fun ds =>
        let n : Int := valueIn 10 ds
        if negative then -n else n
    else none

/-- Whether a word is a float. A negative number may be too large. -/
def isFloat (cs : List Char) : Bool :=
  let (negative, cs) := splitSign cs
  let whole := cs.takeWhile fun c => c.isDigit || c == '_'
  let tail := cs.drop whole.length
  if cs == "inf".toList || cs == "nan".toList then true
  else if tail.isEmpty then false
  else
    match decimalDigits whole, splitFraction tail with
    | some ds, some (fraction, power) =>
      (exponent? power).any fun e =>
        negative || !overflows (valueIn 10 (ds ++ fraction)) (e - fraction.length)
    | _, _ => false

/-! ### Dates and times -/

/-- The number written with exactly `n` digits at the front of a word, and what
follows it. -/
def fixed? (n : Nat) (cs : List Char) : Option (Nat × List Char) :=
  let ds := cs.take n
  if ds.length = n && ds.all Char.isDigit then some (valueIn 10 ds, cs.drop n) else none

/-- What follows a character at the front of a word. -/
def after? (c : Char) : List Char → Option (List Char)
  | d :: cs => if d = c then some cs else none
  | [] => none

/-- The number of days in a month. -/
def daysIn (year month : Nat) : Nat :=
  if month = 2 then if year % 4 = 0 ∧ (year % 100 ≠ 0 ∨ year % 400 = 0) then 29 else 28
  else if month ∈ [4, 6, 9, 11] then 30
  else 31

/-- What follows a date at the front of a word. -/
def afterDate? (cs : List Char) : Option (List Char) := do
  let (year, cs) ← fixed? 4 cs
  let (month, cs) ← fixed? 2 (← after? '-' cs)
  let (day, cs) ← fixed? 2 (← after? '-' cs)
  if 1 ≤ month ∧ month ≤ 12 ∧ 1 ≤ day ∧ day ≤ daysIn year month then some cs else none

/-- What follows a time of the day at the front of a word. A second more than usual
may be inserted. -/
def afterTime? (cs : List Char) : Option (List Char) := do
  let (hour, cs) ← fixed? 2 cs
  let (minute, cs) ← fixed? 2 (← after? ':' cs)
  let (second, cs) ← fixed? 2 (← after? ':' cs)
  if hour ≤ 23 ∧ minute ≤ 59 ∧ second ≤ 60 then
    match cs with
    | '.' :: cs =>
      if (cs.head?.any Char.isDigit) then some (cs.dropWhile Char.isDigit) else none
    | cs => some cs
  else none

/-- Whether a word is an offset from universal time, or empty. -/
def isOffset : List Char → Bool
  | [] => true
  | ['Z'] => true
  | ['z'] => true
  | c :: cs =>
    (c == '+' || c == '-') && Option.isSome do
      let (hour, cs) ← fixed? 2 cs
      let (minute, cs) ← fixed? 2 (← after? ':' cs)
      if hour ≤ 23 ∧ minute ≤ 59 ∧ cs.isEmpty then some () else none

/-- Whether a word is a date, a time, or both. -/
def isMoment (cs : List Char) : Bool :=
  match afterDate? cs with
  | some [] => true
  | some (c :: cs) =>
    (c == 'T' || c == 't' || c == ' ') && ((afterTime? cs).any isOffset)
  | none => (afterTime? cs).any List.isEmpty

/-! ### Words -/

/-- The value that a word stands for. -/
def ofWord? (word : List Char) : Option Toml :=
  if word == "true".toList then some (.boolean true)
  else if word == "false".toList then some (.boolean false)
  else if isMoment word then some (.moment (String.ofList word))
  else if isInteger word || isFloat word then some (.number (String.ofList word))
  else none

end Toml

end JavaGenerics
