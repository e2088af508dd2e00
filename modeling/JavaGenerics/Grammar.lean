import JavaGenerics.Text.Reader

/-!
# Texts that fail to parse

Descriptors and signatures are short texts found in class files. Both are read
by a `JavaGenerics.Reader` that stops at the first character it cannot use, and
a failure to read one is reported with that position: how many bytes of the text
come before it. Since a reader only ever takes whole characters, the position
always falls between two characters.

`JavaGenerics.Grammar.read` runs a reader on a whole text, requires it to use the
text up, and turns a stop into a `JavaGenerics.SyntaxError`.
-/

namespace JavaGenerics

/-- The two kinds of text that are read. -/
inductive Grammar where
  /-- An erased descriptor of a field or a method. -/
  | descriptor
  /-- A generic signature of a class, a method or a field. -/
  | signature
deriving DecidableEq, Repr

/-- The word for a kind of text in an error message. -/
def Grammar.noun : Grammar → String
  | .descriptor => "descriptor"
  | .signature => "signature"

/-- The reasons for which a reader stops. -/
inductive Fault where
  /-- A method descriptor does not open with a parenthesis. -/
  | descriptorStart
  /-- More array dimensions than a descriptor may have. -/
  | tooManyDimensions
  /-- No field type begins here. -/
  | noFieldType
  /-- A class name that is empty, unfinished or holds a forbidden character. -/
  | className
  /-- The text ends inside a parameter list. -/
  | openParams
  /-- Something follows a complete text. -/
  | trailing
  /-- A method signature has no parameter list where one must begin. -/
  | noParams
  /-- Neither a class nor a type variable follows `^`. -/
  | noThrown
  /-- A type parameter list that declares nothing. -/
  | noTypeParams
  /-- A type parameter name that is empty, unfinished or holds a forbidden character. -/
  | typeParamName
  /-- No reference type begins here. -/
  | noReference
  /-- A type variable name that is empty, unfinished or holds a forbidden character. -/
  | typeVarName
  /-- No class type begins here. -/
  | noClassType
  /-- A member class name that is empty, unfinished or holds a forbidden character. -/
  | memberName
  /-- A class type is not closed. -/
  | openClassType
  /-- A type argument list without arguments. -/
  | noTypeArgs
  /-- The text ends inside a type argument list. -/
  | openTypeArgs
  /-- Arrays and type argument lists are nested beyond the limit. -/
  | tooDeep
deriving DecidableEq, Repr

/-- The wording of a fault. -/
def Fault.reason : Fault → String
  | .descriptorStart => "method descriptor must start with `(`"
  | .tooManyDimensions => "too many array dimensions"
  | .noFieldType => "expected a field type"
  | .className => "malformed class name"
  | .openParams => "unterminated parameter list"
  | .trailing => "unexpected trailing characters"
  | .noParams => "expected `(` to open the parameter list"
  | .noThrown => "expected a class or type variable after `^`"
  | .noTypeParams => "empty type parameter list"
  | .typeParamName => "malformed type parameter name"
  | .noReference => "expected a reference type"
  | .typeVarName => "malformed type variable name"
  | .noClassType => "expected a class type"
  | .memberName => "malformed inner class name"
  | .openClassType => "expected `;` to close class type"
  | .noTypeArgs => "empty type argument list"
  | .openTypeArgs => "unterminated type argument list"
  | .tooDeep => "signature nests too deeply"

/-- Where and why a reader stopped. -/
structure Stop where
  fault : Fault
  /-- The characters that were not taken. -/
  left : List Char
deriving DecidableEq, Repr

/-- A text that could not be read. -/
structure SyntaxError where
  grammar : Grammar
  text : String
  /-- The number of bytes before the position at which reading stopped. -/
  offset : Nat
  fault : Fault
deriving DecidableEq, Repr

/-- The message of a syntax error, which quotes the whole text. -/
def SyntaxError.message (e : SyntaxError) : String :=
  "invalid " ++ e.grammar.noun ++ " `" ++ e.text ++ "` at offset " ++ toString e.offset ++ ": "
    ++ e.fault.reason

/-- The length of a run of characters in bytes. -/
def byteLength : List Char → Nat
  | [] => 0
  | c :: cs => c.utf8Size + byteLength cs

/-! ### Reading steps shared by both grammars -/

namespace Grammar

/-- Stops here for the reason `fault`. -/
def stop {α : Type} (fault : Fault) : Reader Stop α := fun cs => .error ⟨fault, cs⟩

/-- Reads a name: the run of characters before the first of `ends`. An empty run,
the end of the text and a character of `forbidden` before any of `ends` all stop
the reading for the reason `fault`, behind the run. -/
def name (ends forbidden : List Char) (fault : Fault) : Reader Stop String := do
  let run ← Reader.takeRun fun c => !(ends.contains c || forbidden.contains c)
  match ← Reader.peek with
  | some c => if ends.contains c && !run.isEmpty then pure (String.ofList run) else stop fault
  | none => stop fault

/-- Reads the whole of `text` with `reader`. -/
def read {α : Type} (grammar : Grammar) (reader : Reader Stop α) (text : String) :
    Except SyntaxError α :=
  let failure (s : Stop) : SyntaxError :=
    ⟨grammar, text, byteLength text.toList - byteLength s.left, s.fault⟩
  match reader text.toList with
  | .error s => .error (failure s)
  | .ok (a, []) => .ok a
  | .ok (_, c :: left) => .error (failure ⟨.trailing, c :: left⟩)

end Grammar

end JavaGenerics
