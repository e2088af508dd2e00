import JavaGenerics.Registry.Display
import JavaGenerics.Resolution.Types

/-!
# Erased types

A class file records the erased type of every member. It serves twice: a member
without a signature is resolved from it (`JavaGenerics.Resolution.resolveRaw`),
and a member with one is checked against it (`JavaGenerics.Registry.checkErasure`).

A type variable erases to a class that depends on its bounds, which may not be
resolved yet; the check takes it to agree with any class.
-/

namespace JavaGenerics

/-- Resolves an erased type. -/
def Resolution.resolveRaw (res : Resolution) : FieldType → Attempt ResolvedType
  | .base b => pure (.base b)
  | .object name => do return .raw (← res.find (internalToBinary name))
  | .array elem => do return .array (← resolveRaw res elem)

namespace Registry

variable (r : Registry)

/-- The name that a class type erases to. -/
def erasedName? (t : ResolvedType) : Option String := t.class?.map r.className

/-- Fails unless a resolved type erases to `erased`. The complaint names the parts
that differ, behind all array dimensions the two have in common. -/
def checkErasure : (erased : FieldType) → ResolvedType → Except ResolveError Unit
  | .array erased, .array t => checkErasure erased t
  | erased, t =>
    let agree : Bool :=
      match erased, t with
      | .base b, .base b' => b == b'
      | .object _, .var _ => true
      | .object name, t =>
        (t.class?.bind r.classAt?).any (·.name == internalToBinary name)
      | _, _ => false
    if agree then .ok () else .error (.mismatch (.erasure erased (r.display t)))

/-- Fails unless a resolved result erases to `erased`. -/
def checkResultErasure (erased : Option FieldType) (t : ResolvedType) : Except ResolveError Unit :=
  match erased with
  | some erased => r.checkErasure erased t
  | none => if t.isVoid then .ok () else .error (.mismatch (.result (r.display t)))

end Registry

end JavaGenerics
