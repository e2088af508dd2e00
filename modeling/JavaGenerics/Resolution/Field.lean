import JavaGenerics.Resolution.Erasure
import JavaGenerics.Resolution.Run
import JavaGenerics.Signature.Reading

/-!
# Resolving fields

A field is resolved from its signature, or from its descriptor when it has none.
The classes around the field are seen to before its signature is read, so a
signature that does not parse has them resolved all the same.
-/

namespace JavaGenerics

/-- The entry of a field that is resolved to a type. -/
def FieldEntry.fill (type : ResolvedType) (e : FieldEntry) : FieldEntry :=
  { e with type := some type, stage := .resolved }

namespace Resolution

variable (res : Resolution)

/-- The type of a field from the text of its signature, in the body of `owner`. -/
def resolveFieldText (owner : ClassId) (descriptor : FieldType) (text : String) :
    Attempt ResolvedType := do
  let scope ← res.scopeInside owner
  match TypeSig.parse text with
  | .error e => throw (.malformed (.unreadable e))
  | .ok sig =>
    let type ← res.resolveAt .reference scope sig
    if res.options.verifyErasure then
      Attempt.ofExcept ((← Attempt.getRegistry).checkErasure descriptor type)
    pure type

/-- Resolves a field. -/
def resolveFieldEntry (f : FieldId) (signature : Option String) : Attempt Unit := do
  match (← Attempt.getRegistry).fieldAt? f with
  | none => throw (.unknownDeclaration (.ofField f))
  | some entry =>
    let type ← match signature with
      | some text => res.resolveFieldText entry.owner entry.descriptor text
      | none => res.resolveRaw entry.descriptor
    Attempt.commit (fun r => r.modifyField f (FieldEntry.fill type)) (.fieldResolved res.owner)

end Resolution

namespace Workspace

/-- Resolves a field from its signature, or from its descriptor if there is none. -/
def resolveFieldAsking (ask : ClassId → Work Bool) (options : Options) (f : FieldId)
    (signature : Option String) : Work (Except ResolveError Unit) :=
  resolveBy ask options (.ofField f) signature fun res => res.resolveFieldEntry f signature

end Workspace

end JavaGenerics
