/-!
# Log records

What the library tells a log: a level, the part of the library that speaks, a
message, and named values that go with it.
-/

namespace JavaGenerics

/-- The levels of a log, from the most to the least talkative. -/
inductive LogLevel where
  | trace
  | debug
  | info
  | warn
  | error
deriving DecidableEq, Repr

/-- The word for a level. -/
def LogLevel.word : LogLevel → String
  | trace => "trace"
  | debug => "debug"
  | info => "info"
  | warn => "warn"
  | error => "error"

/-- A value that goes with a log record. -/
inductive LogValue where
  | text (s : String)
  | count (n : Nat)
deriving DecidableEq, Repr

/-- A record of a log. -/
structure LogRecord where
  level : LogLevel
  /-- The part of the library that speaks. -/
  target : String
  message : String
  fields : List (String × LogValue)
deriving DecidableEq, Repr

/-- The log target of the registry. -/
def typesTarget : String := "oracle.types"

/-- The log target of resolution. -/
def resolveTarget : String := "oracle.resolve"

end JavaGenerics
