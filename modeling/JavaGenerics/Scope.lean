import JavaGenerics.Registry.Enclosing

/-!
# Scopes of type parameters

Which type variable a name stands for depends on where it is written: a method's
parameters hide those of its class, and these hide the ones of the classes around
it. A `JavaGenerics.Scope` is the stack of the declarations in force, and
`JavaGenerics.Scope.resolve` asks them innermost first.
-/

namespace JavaGenerics

/-- The type parameters that one declaration brings into force. -/
structure ScopeFrame where
  owner : Declarer
  /-- The names with their positions; of two equal names the first counts. -/
  names : List (String × Nat)
deriving Repr

/-- The declarations in force, innermost first. -/
structure Scope where
  frames : List ScopeFrame := []
deriving Repr

namespace Scope

/-- The type variable that a name stands for in one declaration. -/
def resolveIn (name : String) (frame : ScopeFrame) : Option TypeVar :=
  (frame.names.lookup name).map fun i => ⟨frame.owner, i⟩

/-- The type variable that a name stands for. -/
def resolve (s : Scope) (name : String) : Option TypeVar :=
  s.frames.findSome? (resolveIn name)

/-- The number of declarations in force. -/
def depth (s : Scope) : Nat := s.frames.length

/-- Brings a declaration into force that declares `names`, in this order. -/
def push (s : Scope) (owner : Declarer) (names : List String) : Scope :=
  ⟨⟨owner, names.zipIdx⟩ :: s.frames⟩

/-- Brings the declaration of some type parameters into force; no type parameters
are no declaration. -/
def pushTypeParams (s : Scope) : List TypeParam → Scope
  | [] => s
  | p :: ps => ⟨⟨p.var.owner, (p :: ps).map fun q => (q.name, q.var.index)⟩ :: s.frames⟩

/-- Takes the innermost declaration out of force. -/
def pop (s : Scope) : Scope := ⟨s.frames.tail⟩

/-- Brings the type parameters of a class into force, if it has any. -/
def pushClass (s : Scope) (r : Registry) (c : ClassId) : Scope :=
  s.pushTypeParams (r.typeParams (.ofClass c))

/-- Brings the type parameters of the classes around `c` into force. -/
def pushEnclosing (s : Scope) (r : Registry) (c : ClassId) : Scope :=
  (r.enclosingChain c).foldl (fun s c => s.pushClass r c) s

/-- Brings into force what is in force in the body of `c`: the type parameters of
the classes around it and its own. -/
def pushBody (s : Scope) (r : Registry) (c : ClassId) : Scope :=
  (s.pushEnclosing r c).pushClass r c

end Scope

end JavaGenerics
