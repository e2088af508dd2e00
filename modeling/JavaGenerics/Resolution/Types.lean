import JavaGenerics.Resolution.Basic

/-!
# Resolving types

`JavaGenerics.Resolution.resolve` turns a symbolic type into a resolved one. It looks
names up from left to right, so the order in which classes are asked for is the
order in which they are written. A class type is resolved step by step: each step
inwards names a class by joining its name to that of the class before, and all
these classes must be registered.

Not every type may stand everywhere. `JavaGenerics.Position` lists the kinds of
places, and `JavaGenerics.Resolution.resolveAt` looks at the place before it
resolves.
-/

namespace JavaGenerics

/-- A kind of place at which a type may stand. -/
inductive Position where
  /-- Any type, even `void`. -/
  | anything
  /-- The type of a parameter. -/
  | param
  /-- A reference type. -/
  | reference
  /-- A class type. -/
  | classType
deriving DecidableEq, Repr

/-- What is wrong with a type at a position. -/
def Position.complaint? : Position → TypeSig → Option Malformed
  | anything, _ => none
  | param, .void => some .voidParam
  | param, _ => none
  | reference, .base _ => some .notReference
  | reference, .void => some .notReference
  | reference, _ => none
  | classType, .ofClass _ _ => none
  | classType, _ => some .notClassType

/-- What is to be said of the use of class `c` with a number of type arguments, if it
is not that of its type parameters. A use without arguments is raw and always right,
and the type parameters of a class that has none yet and is not resolved are not
known. -/
def Registry.arityWarning? (r : Registry) (c : ClassId) (supplied : Nat) : Option Warning :=
  match r.classAt? c with
  | none => none
  | some entry =>
    let declared := entry.typeParams.length
    let known := declared != 0 || entry.stage == .resolved
    if supplied != 0 && known && declared != supplied then
      some (.typeArgumentArity entry.name declared supplied)
    else none

/-- The class type that a step leads to: `c` with `args`, reached from the type
`outer`. An outer type is kept only if it carries type arguments. -/
def ResolvedType.step (outer : Option ResolvedType) (c : ClassId) (args : List ResolvedType) :
    ResolvedType :=
  match outer.filter carriesArgs with
  | some outer => .member outer c args
  | none => if args.isEmpty then .raw c else .parameterized c args

/-- The type argument that stands to `type` as `variance` says. -/
def ResolvedType.argument (variance : Variance) (type : ResolvedType) : ResolvedType :=
  match variance with
  | .exact => type
  | .upper => .upper type
  | .lower => .lower type

namespace Resolution

variable (res : Resolution)

/-- Warns if a class is used with a wrong number of type arguments. -/
def warnArity (c : ClassId) (supplied : Nat) : StateM Progress Unit := do
  if res.options.warnArity then
    match (← Attempt.getRegistry).arityWarning? c supplied with
    | some w => res.warn w
    | none => pure ()

mutual

/-- Resolves the names in a type. -/
def resolve (scope : Scope) : TypeSig → Attempt ResolvedType
  | .base b => pure (.base b)
  | .void => pure .void
  | .var name =>
    match scope.resolve name with
    | some v => pure (.var v)
    | none => throw (.unknownTypeVariable name)
  | .array .void => throw (.malformed .arrayOfVoid)
  | .array elem => do return .array (← resolve scope elem)
  | .ofClass outer inner => do
    let (name, type) ← resolveStep scope "" none outer
    resolveInner scope name type inner

/-- Resolves one step of a class type, reached from the class named `outer` with the
type `type`: the name and the type it leads to. -/
def resolveStep (scope : Scope) (outer : String) (type : Option ResolvedType) :
    Segment → Attempt (String × ResolvedType)
  | .mk segment args => do
    let name := joinName outer segment
    let c ← res.find name
    let args ← resolveArgs scope args
    res.warnArity c args.length
    pure (name, .step type c args)

/-- Resolves the steps inwards from the class named `outer` with the type `type`. -/
def resolveInner (scope : Scope) (outer : String) (type : ResolvedType) :
    List Segment → Attempt ResolvedType
  | [] => pure type
  | segment :: segments => do
    let (name, type) ← resolveStep scope outer (some type) segment
    resolveInner scope name type segments

/-- Resolves type arguments in order. -/
def resolveArgs (scope : Scope) : List TypeArg → Attempt (List ResolvedType)
  | [] => pure []
  | arg :: args => do
    let arg ← resolveArg scope arg
    let args ← resolveArgs scope args
    pure (arg :: args)

/-- Resolves a type argument. -/
def resolveArg (scope : Scope) : TypeArg → Attempt ResolvedType
  | .unbounded => pure .unbounded
  | .bounded variance type =>
    match Position.reference.complaint? type with
    | some cause => throw (.malformed cause)
    | none => do return .argument variance (← resolve scope type)

end

/-- Resolves the names in a type that stands at a position. -/
def resolveAt (position : Position) (scope : Scope) (type : TypeSig) : Attempt ResolvedType :=
  match position.complaint? type with
  | some cause => throw (.malformed cause)
  | none => res.resolve scope type

end Resolution

end JavaGenerics
