/-!
# Names of classes

A class has an *internal* name, in which slashes separate packages
(`java/util/Map$JournalEntry`), and a *binary* name, in which dots do
(`java.util.Map$JournalEntry`). Both join a member class to the class around it by a
dollar sign.
-/

namespace JavaGenerics

/-- The binary name for an internal name. -/
def internalToBinary (name : String) : String := name.map fun c => if c = '/' then '.' else c

/-- The part of a binary name after the last dot or dollar sign. -/
def simpleName (name : String) : String :=
  String.ofList (name.toList.reverse.takeWhile fun c => c != '.' && c != '$').reverse

/-- The binary name reached from the class named `outer` by the next segment of a
class type. From no class at all, the segment is an internal name; a member class
is joined by a dollar sign. -/
def joinName (outer segment : String) : String :=
  if outer.isEmpty then internalToBinary segment else outer ++ "$" ++ segment

end JavaGenerics
