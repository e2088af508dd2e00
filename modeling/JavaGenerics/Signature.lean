import JavaGenerics.BaseType

/-!
# Signatures as trees

A generic signature is a text in a class file that records what erasure has taken
away from a class, a method or a field: type parameters with their bounds, type
arguments, type variables, and the nesting of member classes
(`Lcom/example/Outer<TT;>.Inner<TU;>;`).

This file holds the trees behind such texts. `JavaGenerics.TypeSig` is one type of
signature, still *symbolic*: class names and type variables are words, and nothing
says yet which class or which declaration they stand for. The type allows more
than a signature text can say – an array of `void`, say – because a type can also
be put together event by event (`JavaGenerics.TypeAssembler`), in any order
a caller likes.

`spelling` writes each tree back in signature syntax.
-/

namespace JavaGenerics

/-- How a type argument stands to the type it names. -/
inductive Variance where
  /-- The type itself. -/
  | exact
  /-- A wildcard bounded from above: `+T`, for `? extends T`. -/
  | upper
  /-- A wildcard bounded from below: `-T`, for `? super T`. -/
  | lower
deriving DecidableEq, Repr

mutual

/-- A symbolic type. -/
inductive TypeSig where
  | base (b : BaseType)
  | void
  /-- A type variable, by its name. -/
  | var (name : String)
  | array (elem : TypeSig)
  /-- A class, and the member classes that lead inwards from it. -/
  | ofClass (outer : Segment) (inner : List Segment)

/-- One step of a class type: a name – the internal name of a class for the first
step, the simple name of a member class for the others – with type arguments. -/
inductive Segment where
  | mk (name : String) (args : List TypeArg)

/-- A type argument. -/
inductive TypeArg where
  /-- The wildcard `*`. -/
  | unbounded
  | bounded (variance : Variance) (type : TypeSig)

end

/-- The name of a segment. -/
def Segment.name : Segment → String
  | mk name _ => name

/-- The type arguments of a segment. -/
def Segment.args : Segment → List TypeArg
  | mk _ args => args

/-- A type parameter with its bounds, as a signature declares it. -/
structure TypeParamSig where
  name : String
  classBound : Option TypeSig
  interfaceBounds : List TypeSig

/-- All bounds of a type parameter; the class bound comes first. -/
def TypeParamSig.bounds (p : TypeParamSig) : List TypeSig :=
  p.classBound.toList ++ p.interfaceBounds

/-- The signature of a class. -/
structure ClassSig where
  typeParams : List TypeParamSig
  superclass : TypeSig
  interfaces : List TypeSig

/-- The signature of a method. -/
structure MethodSig where
  typeParams : List TypeParamSig
  params : List TypeSig
  result : TypeSig
  throws : List TypeSig

/-! ### Writing signatures -/

/-- What a variance writes in front of a type. -/
def Variance.spelling : Variance → List Char
  | exact => []
  | upper => ['+']
  | lower => ['-']

mutual

/-- The characters of a symbolic type. -/
def TypeSig.spelling : TypeSig → List Char
  | .base b => [b.letter]
  | .void => ['V']
  | .var name => 'T' :: name.toList ++ [';']
  | .array elem => '[' :: elem.spelling
  | .ofClass outer inner => 'L' :: outer.spelling ++ Segment.spellInner inner ++ [';']

/-- The characters of a segment. -/
def Segment.spelling : Segment → List Char
  | .mk name [] => name.toList
  | .mk name (arg :: args) => name.toList ++ '<' :: arg.spelling ++ TypeArg.spellAll args ++ ['>']

/-- The characters of the member classes of a class type. -/
def Segment.spellInner : List Segment → List Char
  | [] => []
  | s :: ss => '.' :: s.spelling ++ Segment.spellInner ss

/-- The characters of type arguments. -/
def TypeArg.spellAll : List TypeArg → List Char
  | [] => []
  | arg :: args => arg.spelling ++ TypeArg.spellAll args

/-- The characters of a type argument. -/
def TypeArg.spelling : TypeArg → List Char
  | .unbounded => ['*']
  | .bounded v t => v.spelling ++ t.spelling

end

/-- The characters of a type parameter with its bounds. -/
def TypeParamSig.spelling (p : TypeParamSig) : List Char :=
  p.name.toList ++ ':' :: (p.classBound.elim [] TypeSig.spelling)
    ++ p.interfaceBounds.flatMap fun t => ':' :: t.spelling

/-- The characters of a type parameter list, which is left out when it is empty. -/
def TypeParamSig.spellAll (ps : List TypeParamSig) : List Char :=
  if ps.isEmpty then [] else '<' :: ps.flatMap TypeParamSig.spelling ++ ['>']

/-- The characters of a class signature. -/
def ClassSig.spelling (s : ClassSig) : List Char :=
  TypeParamSig.spellAll s.typeParams ++ s.superclass.spelling
    ++ s.interfaces.flatMap TypeSig.spelling

/-- The characters of a method signature. -/
def MethodSig.spelling (s : MethodSig) : List Char :=
  TypeParamSig.spellAll s.typeParams ++ '(' :: s.params.flatMap TypeSig.spelling
    ++ ')' :: s.result.spelling ++ s.throws.flatMap fun t => '^' :: t.spelling

end JavaGenerics
