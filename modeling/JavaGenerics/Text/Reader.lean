/-!
# Reading a text from the left

The grammars of this library are all read the same way: characters are taken off
the front of a text, one decision looks at one character, and nothing that has
been taken is ever put back. A `JavaGenerics.Reader` is such a reading – a
function from the characters still to come to a value and the characters left
over, or to the reason why it stopped.

Repetition is `JavaGenerics.Reader.collect`. A repetition that took nothing off
the text would go on for ever; `collect` ends after such a round, so it is
defined for every reader, and its recursion is on the length of what is left.
-/

namespace JavaGenerics

/-- A reader of `α`: it takes characters off the front of a text and returns a
value with the characters left over, or stops with an `ε`. -/
abbrev Reader (ε α : Type) := StateT (List Char) (Except ε) α

namespace Reader

variable {ε α : Type}

/-! ### One character at a time -/

/-- The next character, left in place. -/
def peek : Reader ε (Option Char) := fun cs => .ok (cs.head?, cs)

/-- Whether the text is used up. -/
def atEnd : Reader ε Bool := fun cs => .ok (cs.isEmpty, cs)

/-- Takes the next character, if there is one. -/
def skip : Reader ε Unit := fun cs => .ok ((), cs.tail)

/-- Takes the next character if it is `c`, and says whether it was. -/
def eat (c : Char) : Reader ε Bool
  | [] => .ok (false, [])
  | d :: cs => if d = c then .ok (true, cs) else .ok (false, d :: cs)

/-- Takes the longest run of characters that satisfy `p`. -/
def takeRun (p : Char → Bool) : Reader ε (List Char) := fun cs =>
  .ok (cs.takeWhile p, cs.dropWhile p)

/-! ### Repetition -/

/-- Repeats `step` until it returns nothing, and lists what it returned. A round
that took no character is the last one. -/
def collect (step : Reader ε (Option α)) (cs : List Char) : Except ε (List α × List Char) :=
  match step cs with
  | .error e => .error e
  | .ok (none, rest) => .ok ([], rest)
  | .ok (some a, rest) =>
    if rest.length < cs.length then
      match collect step rest with
      | .error e => .error e
      | .ok (as, rest') => .ok (a :: as, rest')
    else .ok ([a], rest)
termination_by cs.length

/-- `JavaGenerics.Reader.collect` as a reader. -/
def many (step : Reader ε (Option α)) : Reader ε (List α) := collect step

end Reader

end JavaGenerics
