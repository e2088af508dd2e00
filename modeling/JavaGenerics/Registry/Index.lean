import JavaGenerics.Registry.Platform
import JavaGenerics.Workspace

/-!
# The index of names

A registry that is used much does not search its classes for a name. It keeps an *index*, the
numbers of the classes by their names, beside them (`JavaGenerics.IndexedRegistry`). The index
says whether a name is taken, and is written where a class is registered
(`JavaGenerics.IndexedRegistry.addClass`), and nowhere else: all other work changes the
declarations and passes the index by (`JavaGenerics.IndexedWorkspace.run`).
-/

namespace JavaGenerics

/-- A registry with an index. -/
structure IndexedRegistry extends Registry where
  /-- The numbers of the classes by their binary names; what was entered last counts. -/
  byName : List (String × ClassId) := []

namespace IndexedRegistry

/-- The number that the index has for a name. -/
def lookup (r : IndexedRegistry) (name : String) : Option ClassId := r.byName.lookup name

/-- Registers a class and returns its number. A class whose name is in the index is not
registered again: the number is the one that the index has. -/
def addClass (r : IndexedRegistry) (h : ClassHeader) : ClassId × IndexedRegistry :=
  match r.lookup (internalToBinary h.name) with
  | some c => (c, r)
  | none =>
    let c : ClassId := ⟨r.classes.size⟩
    (c, { r with
      classes := r.classes.push (h.entry c)
      byName := (internalToBinary h.name, c) :: r.byName })

/-- The registry of the classes that are announced, one after the other. -/
def ofHeaders (headers : List ClassHeader) : IndexedRegistry :=
  headers.foldl (fun r h => (r.addClass h).2) {}

/-- The registry of the platform classes. -/
def platform : IndexedRegistry := ofHeaders Registry.platformHeaders

end IndexedRegistry

/-- An indexed registry and the journal of what was done with it. -/
structure IndexedWorkspace where
  registry : IndexedRegistry
  journal : Array JournalEntry := #[]

namespace IndexedWorkspace

/-- What is there besides the index. -/
def plain (w : IndexedWorkspace) : Workspace := ⟨w.registry.toRegistry, w.journal⟩

/-- Registers a class; a name that is in the index is noted. -/
def addClass (h : ClassHeader) : StateM IndexedWorkspace ClassId := fun w =>
  let name := internalToBinary h.name
  let journal := if (w.registry.lookup name).isSome then
    w.journal.push (.noted (.classKept name)) else w.journal
  let (c, registry) := w.registry.addClass h
  (c, { registry, journal })

/-- Does some work on the declarations. -/
def run {α : Type} (x : Work α) : StateM IndexedWorkspace α := fun w =>
  let (a, w') := x w.plain
  (a, { registry := { w.registry with toRegistry := w'.registry }, journal := w'.journal })

end IndexedWorkspace

end JavaGenerics
