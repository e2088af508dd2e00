import JavaGenerics.Diagnostic
import JavaGenerics.Grammar
import JavaGenerics.Registry
import JavaGenerics.Signature.Event

/-!
# What can go wrong in a resolution

A `JavaGenerics.ResolveError` ends the resolution of a declaration; a
`JavaGenerics.Warning` is reported on the way and changes nothing. Both are kept as
causes, and turned into words in one place each.
-/

namespace JavaGenerics

/-- A declaration that can be resolved. -/
inductive Target where
  | ofClass (c : ClassId)
  | ofMethod (m : MethodId)
  | ofField (f : FieldId)
deriving DecidableEq, Repr

/-- A declaration by kind and number. -/
def Target.label : Target → String
  | ofClass c => "class #" ++ toString c.index
  | ofMethod m => "method #" ++ toString m.index
  | ofField f => "field #" ++ toString f.index

/-- The ways in which a signature is malformed. -/
inductive Malformed where
  /-- The text does not parse. -/
  | unreadable (e : SyntaxError)
  /-- An event has no place where it was fed. -/
  | unexpected (e : Event)
  | duplicateTypeParam (name : String)
  /-- A class bound behind another bound of the same parameter. -/
  | lateClassBound (name : String)
  /-- A bound while no type parameter is declared. -/
  | boundWithoutParam
  | arrayOfVoid
  /-- A primitive type or `void` where only a reference type may stand. -/
  | notReference
  /-- Something else where only a class type may stand. -/
  | notClassType
  | voidParam
  /-- A type inside a class type that no type argument announces. -/
  | unmarkedArgument
  /-- A type argument that no class type holds. -/
  | strayArgument
  /-- More is fed after the signature is complete. -/
  | finished
deriving DecidableEq, Repr

/-- The wording of a malformation. -/
def Malformed.reason : Malformed → String
  | unreadable e => e.message
  | unexpected e => "unexpected " ++ e.label ++ " event"
  | duplicateTypeParam name => "duplicate type parameter `" ++ name ++ "`"
  | lateClassBound name => "class bound of `" ++ name ++ "` after another bound"
  | boundWithoutParam => "bound before any type parameter"
  | arrayOfVoid => "array of void"
  | notReference => "primitive type where a reference type is required"
  | notClassType => "expected a class type"
  | voidParam => "void parameter type"
  | unmarkedArgument => "type inside a class type without a type-argument marker"
  | strayArgument => "type argument outside a class type"
  | finished => "signature already finished"

/-- The ways in which a signature disagrees with the erased record. Resolved types
are given the way a registry displays them. -/
inductive Mismatch where
  /-- Other type parameters than those already declared. -/
  | typeParams (signature declared : List String)
  | superclass (shown erased : String)
  | interfaces (signature erased : List String)
  | paramCount (signature : Nat) (descriptor : MethodDescriptor)
  | erasure (erased : FieldType) (shown : String)
  /-- A result where the descriptor has `void`. -/
  | result (shown : String)
deriving DecidableEq, Repr

/-- The wording of a disagreement. -/
def Mismatch.reason : Mismatch → String
  | typeParams signature declared =>
    "signature declares <" ++ ", ".intercalate signature ++ "> but the descriptor declares <"
      ++ ", ".intercalate declared ++ ">"
  | superclass shown erased =>
    "superclass `" ++ shown ++ "` does not erase to `" ++ erased ++ "`"
  | interfaces signature erased =>
    "interfaces [" ++ ", ".intercalate signature ++ "] do not erase to ["
      ++ ", ".intercalate erased ++ "]"
  | paramCount signature descriptor =>
    "signature declares " ++ toString signature ++ " parameter(s) but the descriptor `"
      ++ descriptor.text ++ "` has " ++ toString descriptor.params.length
  | erasure erased shown =>
    "erased type `" ++ erased.text ++ "` does not match `" ++ shown ++ "`"
  | result shown => "erased return type `V` does not match `" ++ shown ++ "`"

/-- What a signature fed event by event still lacks. -/
inductive Missing where
  | superclass
  | interfaceEnd
  | returnType
  | exceptionEnd
deriving DecidableEq, Repr

/-- The words for what is lacking. -/
def Missing.noun : Missing → String
  | superclass => "superclass"
  | interfaceEnd => "end of interface type"
  | returnType => "return type"
  | exceptionEnd => "end of exception type"

/-- A condition that ends the resolution of a declaration. -/
inductive ResolveError where
  | malformed (cause : Malformed)
  | unknownTypeVariable (name : String)
  | unknownClass (name : String)
  | mismatch (cause : Mismatch)
  | incomplete (missing : Missing)
  /-- The declaration is already being resolved. -/
  | cyclic (name : String)
  | alreadyResolved (name : String)
  | unknownDeclaration (target : Target)
deriving DecidableEq, Repr

namespace ResolveError

/-- The stable code of an error. -/
def code : ResolveError → String
  | malformed _ => "malformed-signature"
  | unknownTypeVariable _ => "unknown-type-variable"
  | unknownClass _ => "unknown-class"
  | mismatch _ => "descriptor-shape-mismatch"
  | incomplete _ => "incomplete-signature"
  | cyclic _ => "cyclic-resolution"
  | alreadyResolved _ => "already-resolved"
  | unknownDeclaration _ => "unknown-declaration"

/-- The message of an error. -/
def message : ResolveError → String
  | malformed cause => "malformed signature: " ++ cause.reason
  | unknownTypeVariable name => "unknown type variable `" ++ name ++ "`"
  | unknownClass name => "unknown class `" ++ name ++ "`"
  | mismatch cause => "signature does not match the erased descriptor: " ++ cause.reason
  | incomplete missing => "incomplete signature: missing " ++ missing.noun
  | cyclic name => "`" ++ name ++ "` is already being resolved"
  | alreadyResolved name => "`" ++ name ++ "` is already resolved"
  | unknownDeclaration target => "unknown declaration: " ++ target.label

/-- The report of an error that ended the resolution of `owner`. -/
def diagnostic (e : ResolveError) (owner : String) (signature : Option String) : Diagnostic :=
  ⟨.error, e.code, e.message, some owner, signature⟩

end ResolveError

/-- Something odd that does not end a resolution. -/
inductive Warning where
  /-- A class the signature mentions could not be resolved. -/
  | unresolvedClass (name : String)
  /-- A class has another number of type parameters than it was given arguments. -/
  | typeArgumentArity (name : String) (declared supplied : Nat)
  /-- The argument names do not go with the parameters of `owner`. -/
  | argumentNames (supplied declared : Nat) (owner : String)
deriving DecidableEq, Repr

namespace Warning

/-- The stable code of a warning. -/
def code : Warning → String
  | unresolvedClass _ => "unresolved-class"
  | typeArgumentArity .. => "type-argument-arity"
  | argumentNames .. => "argument-names"

/-- The message of a warning. -/
def message : Warning → String
  | unresolvedClass name => "could not resolve referenced class `" ++ name ++ "`"
  | typeArgumentArity name declared supplied =>
    "`" ++ name ++ "` declares " ++ toString declared ++ " type parameter(s) but "
      ++ toString supplied ++ " type argument(s) were supplied"
  | argumentNames supplied declared owner =>
    toString supplied ++ " argument name(s) supplied for " ++ toString declared
      ++ " parameter(s) of `" ++ owner ++ "`; using defaults"

/-- The report of a warning met while resolving `owner`. -/
def diagnostic (w : Warning) (owner : String) : Diagnostic :=
  ⟨.warning, w.code, w.message, some owner, none⟩

end Warning

end JavaGenerics
