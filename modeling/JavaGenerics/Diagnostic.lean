import JavaGenerics.Log

/-!
# Diagnostics

A diagnostic is what resolution has to say to the person who looks after the class
files: an error or a warning with a stable code, and which declaration and which
signature it is about.
-/

namespace JavaGenerics

/-- How grave a diagnostic is. -/
inductive Severity where
  | error
  | warning
deriving DecidableEq, Repr

/-- The word for a severity. -/
def Severity.word : Severity → String
  | error => "error"
  | warning => "warning"

/-- A report on one declaration. -/
structure Diagnostic where
  severity : Severity
  code : String
  message : String
  /-- The binary name of a class, or a member behind the name of its class. -/
  owner : Option String
  signature : Option String
deriving DecidableEq, Repr

namespace Diagnostic

/-- A diagnostic on one line. -/
def text (d : Diagnostic) : String :=
  d.severity.word ++ "[" ++ d.code ++ "]: " ++ d.message
    ++ d.owner.elim "" fun owner => " (in " ++ owner ++ ")"

/-- A diagnostic as a log record; an absent owner or signature is left blank. -/
def record (d : Diagnostic) : LogRecord where
  level := match d.severity with
    | .error => .error
    | .warning => .warn
  target := resolveTarget
  message := d.message
  fields := [("code", .text d.code), ("owner", .text (d.owner.getD "")),
    ("signature", .text (d.signature.getD ""))]

end Diagnostic

end JavaGenerics
