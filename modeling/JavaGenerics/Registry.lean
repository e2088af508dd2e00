import JavaGenerics.Descriptor
import JavaGenerics.Names
import JavaGenerics.ResolvedType

/-!
# The registry of declarations

A `JavaGenerics.Registry` holds every class, method and field that is known, each
under the number it was given when it was registered. Declarations are only ever
added: a class whose name is taken keeps its first registration, so that a number
that was handed out stays valid.

What a signature says about a declaration is filled in later, by resolution; until
then an entry holds what the class file records besides – the erased header of a
class, the descriptor of a member – and perhaps the names of type parameters.
-/

namespace JavaGenerics

/-- How far the resolution of a declaration has come. -/
inductive Stage where
  | unresolved
  | resolving
  | resolved
deriving DecidableEq, Repr

/-- A declared type parameter. -/
structure TypeParam where
  name : String
  var : TypeVar
  /-- The bounds in the order of declaration; a resolved declaration without
  bounds stands for the bound `java.lang.Object`. -/
  bounds : List ResolvedType
deriving Repr

/-- The type parameters that `owner` declares under `names`, bounds yet unknown. -/
def TypeParam.declare (owner : Declarer) (names : List String) : List TypeParam :=
  names.mapIdx fun i name => ⟨name, ⟨owner, i⟩, []⟩

/-- What is known of a class when it is registered. Names may be in internal or
binary form. -/
structure ClassHeader where
  name : String
  isInterface : Bool := false
  enclosing : Option ClassId := none
  superclass : Option String := none
  interfaces : List String := []
  typeParams : List String := []

/-- A registered class. -/
structure ClassEntry where
  /-- The binary name. -/
  name : String
  isInterface : Bool
  /-- The class in whose body this one is declared. -/
  enclosing : Option ClassId
  /-- The binary name of the superclass in the erased header. -/
  erasedSuper : Option String
  /-- The binary names of the interfaces in the erased header. -/
  erasedInterfaces : List String
  typeParams : List TypeParam
  superclass : Option ResolvedType
  interfaces : List ResolvedType
  methods : List MethodId
  fields : List FieldId
  stage : Stage
deriving Repr

/-- A registered method. -/
structure MethodEntry where
  owner : ClassId
  name : String
  descriptor : MethodDescriptor
  /-- The argument names that the class file supplies. -/
  argNames : List String
  typeParams : List TypeParam
  /-- The parameters, by name and type, once they are resolved. -/
  params : List (String × ResolvedType)
  /-- The result, once it is resolved; a constructor has none. -/
  result : Option ResolvedType
  throws : List ResolvedType
  stage : Stage
deriving Repr

/-- Whether a method is a constructor. -/
def MethodEntry.isConstructor (m : MethodEntry) : Bool := m.name == "<init>"

/-- A registered field. -/
structure FieldEntry where
  owner : ClassId
  name : String
  descriptor : FieldType
  type : Option ResolvedType
  stage : Stage
deriving Repr

/-- The class a header announces, registered as `c`. -/
def ClassHeader.entry (h : ClassHeader) (c : ClassId) : ClassEntry where
  name := internalToBinary h.name
  isInterface := h.isInterface
  enclosing := h.enclosing
  erasedSuper := h.superclass.map internalToBinary
  erasedInterfaces := h.interfaces.map internalToBinary
  typeParams := TypeParam.declare (.ofClass c) h.typeParams
  superclass := none
  interfaces := []
  methods := []
  fields := []
  stage := .unresolved

/-- Every declaration that is known. -/
structure Registry where
  classes : Array ClassEntry := #[]
  methods : Array MethodEntry := #[]
  fields : Array FieldEntry := #[]
deriving Repr

namespace Registry

variable (r : Registry)

/-! ### Looking declarations up -/

/-- The class with a number. -/
def classAt? (c : ClassId) : Option ClassEntry := r.classes[c.index]?

/-- The method with a number. -/
def methodAt? (m : MethodId) : Option MethodEntry := r.methods[m.index]?

/-- The field with a number. -/
def fieldAt? (f : FieldId) : Option FieldEntry := r.fields[f.index]?

/-- The class with a binary name. -/
def lookup (name : String) : Option ClassId := (r.classes.findIdx? (·.name == name)).map .mk

/-- The number of the first method of `owner` with a name. -/
def methodNamed? (owner : ClassId) (name : String) : Option MethodId :=
  (r.classAt? owner).bind fun entry =>
    entry.methods.find? fun m => (r.methodAt? m).any (·.name == name)

/-- The type parameters of a declaration; one that is not registered has none. -/
def typeParams : Declarer → List TypeParam
  | .ofClass c => ((r.classAt? c).map (·.typeParams)).getD []
  | .ofMethod m => ((r.methodAt? m).map (·.typeParams)).getD []

/-- The type parameter that a type variable stands for. -/
def typeParam? (v : TypeVar) : Option TypeParam := (r.typeParams v.owner)[v.index]?

/-! ### Names for messages -/

/-- The binary name of a class, or a stand-in for a number that is not registered. -/
def className (c : ClassId) : String :=
  match r.classAt? c with
  | some entry => entry.name
  | none => "<unknown class #" ++ toString c.index ++ ">"

/-- A method by its owner and name, or a stand-in. -/
def methodName (m : MethodId) : String :=
  match r.methodAt? m with
  | some entry => r.className entry.owner ++ "." ++ entry.name
  | none => "<unknown method #" ++ toString m.index ++ ">"

/-- A field by its owner and name, or a stand-in. -/
def fieldName (f : FieldId) : String :=
  match r.fieldAt? f with
  | some entry => r.className entry.owner ++ "." ++ entry.name
  | none => "<unknown field #" ++ toString f.index ++ ">"

/-! ### Changing declarations -/

/-- Changes a class, if it is registered. -/
def modifyClass (c : ClassId) (f : ClassEntry → ClassEntry) : Registry :=
  { r with classes := r.classes.modify c.index f }

/-- Changes a method, if it is registered. -/
def modifyMethod (m : MethodId) (f : MethodEntry → MethodEntry) : Registry :=
  { r with methods := r.methods.modify m.index f }

/-- Changes a field, if it is registered. -/
def modifyField (x : FieldId) (f : FieldEntry → FieldEntry) : Registry :=
  { r with fields := r.fields.modify x.index f }

/-- Registers a class and returns its number. A class whose name is taken is not
registered again: the number is the one that the name already has. -/
def addClass (h : ClassHeader) : ClassId × Registry :=
  match r.lookup (internalToBinary h.name) with
  | some c => (c, r)
  | none =>
    let c : ClassId := ⟨r.classes.size⟩
    (c, { r with classes := r.classes.push (h.entry c) })

/-- Registers a method of `owner` and returns its number. -/
def addMethod (owner : ClassId) (name : String) (descriptor : MethodDescriptor)
    (argNames typeParams : List String) : MethodId × Registry :=
  let m : MethodId := ⟨r.methods.size⟩
  let entry : MethodEntry :=
    { owner, name, descriptor, argNames
      typeParams := TypeParam.declare (.ofMethod m) typeParams
      params := [], result := none, throws := [], stage := .unresolved }
  (m, { r with methods := r.methods.push entry }.modifyClass owner fun c =>
    { c with methods := c.methods ++ [m] })

/-- Registers a field of `owner` and returns its number. -/
def addField (owner : ClassId) (name : String) (descriptor : FieldType) : FieldId × Registry :=
  let f : FieldId := ⟨r.fields.size⟩
  let entry : FieldEntry := { owner, name, descriptor, type := none, stage := .unresolved }
  (f, { r with fields := r.fields.push entry }.modifyClass owner fun c =>
    { c with fields := c.fields ++ [f] })

end Registry

end JavaGenerics
