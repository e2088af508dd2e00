import JavaGenerics.Registry.Enclosing
import JavaGenerics.Resolution.Failure
import JavaGenerics.Scope

/-!
# The registry at work

A `JavaGenerics.Workspace` is a registry together with a journal of what has been
done with it. The journal is one list in order of time: which resolutions were
called, began and returned, which classes a collaborator was asked for, what was
reported and what was told to the log. The list of reports, the list of requests
and the log are views of it (`JavaGenerics.JournalEntry.diagnostic?`,
`JavaGenerics.JournalEntry.request?`, `JavaGenerics.JournalEntry.record?`).
-/

namespace JavaGenerics

/-- What the library tells the log, apart from diagnostics. -/
inductive Note where
  /-- A class was registered again; the first registration stays. -/
  | classKept (name : String)
  /-- The links outwards from a class lead in a circle. -/
  | enclosingCycle (name : String)
  /-- A class that a signature mentions is about to be resolved. -/
  | resolvingReferenced (name : String)
  | classResolved (name : String) (typeParams : Nat)
  | classResolvedErased (name : String)
  | methodResolved (name : String)
  | methodResolvedErased (name : String)
  | fieldResolved (name : String)
deriving DecidableEq, Repr

/-- A note as a log record. -/
def Note.record : Note → LogRecord
  | classKept name => ⟨.debug, typesTarget,
      "class already registered; keeping existing descriptor", [("class", .text name)]⟩
  | enclosingCycle name => ⟨.warn, typesTarget, "cyclic enclosing class chain",
      [("class", .text name)]⟩
  | resolvingReferenced name => ⟨.trace, resolveTarget, "resolving referenced class",
      [("class", .text name)]⟩
  | classResolved name n => ⟨.debug, resolveTarget, "resolved class signature",
      [("class", .text name), ("type_params", .count n)]⟩
  | classResolvedErased name => ⟨.debug, resolveTarget, "resolved class from erased header",
      [("class", .text name)]⟩
  | methodResolved name => ⟨.debug, resolveTarget, "resolved method signature",
      [("method", .text name)]⟩
  | methodResolvedErased name => ⟨.debug, resolveTarget,
      "resolved method from erased descriptor", [("method", .text name)]⟩
  | fieldResolved name => ⟨.debug, resolveTarget, "resolved field type",
      [("field", .text name)]⟩

/-- One thing that happened. -/
inductive JournalEntry where
  /-- A resolution was called. -/
  | called (t : Target)
  /-- A called resolution found its declaration unresolved, and set to work. -/
  | began (t : Target)
  /-- A resolution that had set to work is through with it. -/
  | ended (t : Target)
  /-- A called resolution returned. -/
  | returned (t : Target) (ok : Bool)
  /-- The collaborator was asked to resolve a class. -/
  | asked (c : ClassId) (name : String)
  /-- The collaborator answered. -/
  | answered (c : ClassId) (ok : Bool)
  | reported (d : Diagnostic)
  | noted (n : Note)
deriving DecidableEq, Repr

namespace JournalEntry

/-- The report that an entry is, if any. -/
def diagnostic? : JournalEntry → Option Diagnostic
  | reported d => some d
  | _ => none

/-- The name of the class that a collaborator was asked for, if the entry is such a
request. -/
def request? : JournalEntry → Option String
  | asked _ name => some name
  | _ => none

/-- The log record that an entry gives rise to, if any. Diagnostics go to the log
only where nobody else collects them. -/
def record? (diagnosticsToLog : Bool) : JournalEntry → Option LogRecord
  | noted n => some n.record
  | reported d => if diagnosticsToLog then some d.record else none
  | _ => none

end JournalEntry

/-- A registry and the journal of what was done with it. -/
structure Workspace where
  registry : Registry
  journal : Array JournalEntry := #[]

/-- Work on a registry. -/
abbrev Work (α : Type) := StateM Workspace α

namespace Workspace

/-- Adds an entry to the journal. -/
def record (e : JournalEntry) : Work Unit := modify fun w => { w with journal := w.journal.push e }

/-- The registry as it stands. -/
def getRegistry : Work Registry := do return (← get).registry

/-- Changes the registry. -/
def modifyRegistry (f : Registry → Registry) : Work Unit :=
  modify fun w => { w with registry := f w.registry }

/-- Registers a class; a name that is taken is noted. -/
def addClass (h : ClassHeader) : Work ClassId := do
  let r ← getRegistry
  let name := internalToBinary h.name
  if (r.lookup name).isSome then record (.noted (.classKept name))
  let (c, r) := r.addClass h
  modifyRegistry fun _ => r
  pure c

/-- Notes it if the links outwards from a class lead in a circle. -/
def noteCycle (c : ClassId) : Work Unit := do
  let r ← getRegistry
  if r.enclosingIsCyclic c then record (.noted (.enclosingCycle (r.className c)))

/-- The classes around a class, outermost first; a circle is noted. -/
def enclosingChain (c : ClassId) : Work (List ClassId) := do
  noteCycle c
  return (← getRegistry).enclosingChain c

/-- Brings the type parameters of the classes around `c` into force; a circle is
noted. -/
def pushEnclosing (s : Scope) (c : ClassId) : Work Scope := do
  noteCycle c
  return s.pushEnclosing (← getRegistry) c

/-- Brings the type parameters in force in the body of `c` into force; a circle is
noted. -/
def pushBody (s : Scope) (c : ClassId) : Work Scope := do
  noteCycle c
  return s.pushBody (← getRegistry) c

end Workspace

end JavaGenerics
