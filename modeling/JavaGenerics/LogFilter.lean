import JavaGenerics.Log
import JavaGenerics.Text.Alphanumeric
import JavaGenerics.Text.Blank

/-!
# Log filters

A log filter says which records get through: a list of *directives*, each of which
sets a threshold for one target or, without a target, for all others. A directive
may also be confined to spans, the stretches of work during which a record is
written. The level in the settings is either a directive list of its own or the name
of a level; a name sets the threshold of this library's resolution and leaves
everything else at warnings.

A filter comes from outside – from a file and from the environment – and may be
nonsense. `JavaGenerics.LogSettings.filter` then falls back on less and less of it.
-/

namespace JavaGenerics

/-- How the library is to log. -/
structure LogSettings where
  /-- The name of a level, or a list of directives. -/
  level : String := "info"
  /-- Whether log records are written as JSON. -/
  json : Bool := false
deriving DecidableEq, Repr

/-- A threshold: the least grave level that gets through, or nothing at all. -/
inductive Threshold where
  | off
  | from (level : LogLevel)
deriving DecidableEq, Repr

namespace Threshold

/-- All thresholds; the more gets through, the later. -/
def all : List Threshold :=
  [off, .from .error, .from .warn, .from .info, .from .debug, .from .trace]

/-- The word for a threshold. -/
def word : Threshold → String
  | off => "off"
  | .from level => level.word

/-- The number that a word of decimal digits stands for, perhaps behind a plus sign. -/
def number? (word : String) : Option Nat :=
  let ds := match word.toList with
    | '+' :: ds => ds
    | ds => ds
  if ds.isEmpty || !ds.all Char.isDigit then none
  else some (ds.foldl (fun n d => n * 10 + (d.toNat - '0'.toNat)) 0)

/-- The threshold with a name: its word, in upper or lower case, or the number of its
place among all thresholds. -/
def named? (name : String) : Option Threshold :=
  match number? name with
  | some place => all[place]?
  | none => all.find? (·.word == name.toLower)

end Threshold

/-- The spans that a directive is confined to. -/
structure SpanCondition where
  /-- The name of the spans, if one is required. -/
  name : Option String
  /-- A field that the spans must have, or a field with the value it must have. -/
  field : Option String
deriving DecidableEq, Repr

namespace SpanCondition

/-- A field condition: a name, or a name and a value with an equals sign between them.
What follows a second equals sign does not count. -/
def fieldText (written : String) : String :=
  String.ofList (['='].intercalate ((written.toList.splitOn '=').take 2))

/-- Reads a condition behind its opening bracket; what follows the closing bracket is
left over. -/
def read? (cs : List Char) : Option (SpanCondition × List Char) :=
  let name := cs.takeWhile fun c => c != ']' && c != '{'
  match cs.drop name.length with
  | ']' :: rest => some (⟨some (String.ofList name), none⟩, rest)
  | '{' :: cs =>
    let field := cs.takeWhile (· != '}')
    match cs.drop field.length with
    | '}' :: ']' :: rest =>
      if field.isEmpty then none
      else
        let name := if name.isEmpty then none else some (String.ofList name)
        some (⟨name, some (fieldText (String.ofList field))⟩, rest)
    | _ => none
  | _ => none

/-- A condition as text. -/
def text (s : SpanCondition) : String :=
  "[" ++ s.name.getD "" ++ s.field.elim "" (fun f => "\x7b" ++ f ++ "\x7d") ++ "]"

/-- Whether a condition asks for the presence of a field and for nothing else, which
can also be said of a record by itself. -/
def isPresence (s : SpanCondition) : Bool :=
  s.name.isNone && s.field.any fun f => !f.contains '='

end SpanCondition

/-- One rule of a filter. -/
structure Directive where
  /-- The target it is for, absent for all targets without a rule of their own. -/
  target : Option String
  threshold : Threshold
  span : Option SpanCondition := none
deriving DecidableEq, Repr

namespace Directive

/-- Whether a target may begin with a character. -/
def isTargetStart (c : Char) : Bool := isAlphanumeric c || c == '-' || c == ':' || c == '_'

/-- The threshold that is written behind an equals sign; if nothing is written there,
everything gets through. -/
def threshold? (written : List Char) : Option Threshold :=
  if written.isEmpty then some (.from .trace) else Threshold.named? (String.ofList written)

/-- Reads a directive with a condition on spans, behind the bracket that opens it. -/
def readConfined? (target : Option String) (cs : List Char) : Option Directive := do
  let (span, cs) ← SpanCondition.read? cs
  match cs with
  | '=' :: level => return ⟨target, ← threshold? level, some span⟩
  | cs => if cs.all isBlank then some ⟨target, .from .trace, some span⟩ else none

/-- The directive that a text stands for: a level, or a target, a condition on spans
and a level, each of which may be left out. Where no level is given, everything gets
through. Blanks count: a level with a blank beside it is none, so that such a word is
taken for a target, and behind a blank nothing but such a word can stand. -/
def parse? (text : String) : Option Directive :=
  let cs := text.toList
  let word := cs.takeWhile fun c => c != '=' && c != '['
  let tail := cs.drop word.length
  let start? := (cs.dropWhile isBlank).head?
  let starts := start?.any fun c => isTargetStart c || c == '['
  if !starts || !tail.isEmpty && cs.head? != start? then none
  else
    let target := if word.isEmpty then none else some (String.ofList word)
    match tail with
    | [] =>
      match Threshold.named? text with
      | some threshold => some ⟨none, threshold, none⟩
      | none => some ⟨target, .from .trace, none⟩
    | '[' :: cs => readConfined? target cs
    | _ :: level => (threshold? level).map fun threshold => ⟨target, threshold, none⟩

/-- A directive as text. -/
def text (d : Directive) : String :=
  let place := d.target.getD "" ++ d.span.elim "" SpanCondition.text
  (if place.isEmpty then "" else place ++ "=") ++ d.threshold.word

/-- What a filter says of a directive. A condition that can be said of spans and of
records alike is said of both. -/
def texts (d : Directive) : List String :=
  if d.span.any (·.isPresence) then [d.text, d.text] else [d.text]

end Directive

/-- A log filter: at most one directive for each target and condition on spans. -/
structure LogFilter where
  directives : List Directive := []
deriving DecidableEq, Repr

namespace LogFilter

/-- Adds a directive; an earlier one for the same target and the same spans gives way. -/
def add (f : LogFilter) (d : Directive) : LogFilter :=
  ⟨f.directives.filter (fun e => e.target != d.target || e.span != d.span) ++ [d]⟩

/-- The texts between the commas of a list of directives; nothing between two commas
is no directive. -/
def pieces (text : String) : List String :=
  ((text.toList.splitOn ',').filter (!·.isEmpty)).map String.ofList

/-- The filter that a list of directives stands for, separated by commas. -/
def parse? (text : String) : Option LogFilter :=
  ((pieces text).mapM Directive.parse?).map (·.foldl add {})

/-- The directives of a filter as text, in the order of their characters. -/
def texts (f : LogFilter) : List String :=
  (f.directives.flatMap Directive.texts).mergeSort fun a b => decide (a ≤ b)

/-- A filter as text. -/
def text (f : LogFilter) : String := ",".intercalate f.texts

end LogFilter

namespace LogSettings

/-- The directives for a level, which is a name or a list of directives itself. -/
def levelDirectives (level : String) : String :=
  let named (name : String) : String := "warn," ++ resolveTarget ++ "=" ++ name
  match (trim level).toLower with
  | "" => named "info"
  | "warning" => named "warn"
  | "trace" => named "trace"
  | "debug" => named "debug"
  | "info" => named "info"
  | "warn" => named "warn"
  | "error" => named "error"
  | _ => trim level

/-- The directives of the settings, followed by those of the environment. -/
def directives (s : LogSettings) (environment : Option String) : String :=
  match environment.map trim with
  | none => levelDirectives s.level
  | some extra =>
    if extra.isEmpty then levelDirectives s.level else levelDirectives s.level ++ "," ++ extra

/-- The filter in force. If the directives make no sense together, those of the
environment are left out; if the rest makes none either, warnings get through. -/
def filter (s : LogSettings) (environment : Option String) : LogFilter :=
  match LogFilter.parse? (s.directives environment) with
  | some f => f
  | none => (LogFilter.parse? (s.directives none)).getD ⟨[⟨none, .from .warn, none⟩]⟩

end LogSettings

end JavaGenerics
