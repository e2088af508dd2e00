import JavaGenerics.Registry

/-!
# The classes most signatures mention

`JavaGenerics.Registry.platform` is a registry with a handful of classes of
`java.lang` and `java.io`: their erased headers and the names of their type
parameters. Like all registered classes they are unresolved.
-/

namespace JavaGenerics

namespace Registry

/-- The registry of the classes that are announced, one after the other. -/
def ofHeaders (headers : List ClassHeader) : Registry :=
  headers.foldl (fun r h => (r.addClass h).2) {}

/-- The headers of the platform classes; every superclass and interface named in
one is the name of another. -/
def platformHeaders : List ClassHeader :=
  let object := "java.lang.Object"
  let serializable := "java.io.Serializable"
  let comparable := "java.lang.Comparable"
  let charSequence := "java.lang.CharSequence"
  let throwable := "java.lang.Throwable"
  let exception := "java.lang.Exception"
  [{ name := object },
    { name := serializable, isInterface := true, superclass := object },
    { name := "java.lang.Cloneable", isInterface := true, superclass := object },
    { name := comparable, isInterface := true, superclass := object, typeParams := ["T"] },
    { name := "java.lang.Iterable", isInterface := true, superclass := object,
      typeParams := ["T"] },
    { name := charSequence, isInterface := true, superclass := object },
    { name := "java.lang.String", superclass := object,
      interfaces := [serializable, comparable, charSequence] },
    { name := "java.lang.Enum", superclass := object,
      interfaces := [comparable, serializable], typeParams := ["E"] },
    { name := throwable, superclass := object, interfaces := [serializable] },
    { name := exception, superclass := throwable },
    { name := "java.lang.RuntimeException", superclass := exception }]

/-- The registry of the platform classes. -/
def platform : Registry := ofHeaders platformHeaders

end Registry

end JavaGenerics
