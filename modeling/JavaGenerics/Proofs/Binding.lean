import JavaGenerics.Proofs.Admission
import JavaGenerics.Proofs.Scoping

/-!
# What a name is bound to

A class signature may use the type parameters of the classes around it. Which of these the
registry has depends on how far these classes are resolved: a class whose type parameters
were not announced when it was registered shows none before it is resolved. A name that it
declares then stands for a type parameter further out, or for nothing.

So what a name stands for is relative to the classes that are resolved. It is the type
parameter of the innermost class around that shows the name
(`JavaGenerics.Pool.binding?`), and once all classes around are resolved, that of the innermost
class that declares it, in the registry or in the signature that a pool has for it
(`JavaGenerics.Pool.declaredNames`).
-/

namespace JavaGenerics

/-- Functions that agree on a list find the same in it. -/
theorem findSome?_congr {α β : Type} {f g : α → Option β} {as : List α}
    (h : ∀ a ∈ as, f a = g a) : as.findSome? f = as.findSome? g := by
  induction as with
  | nil => rfl
  | cons a as ih =>
    obtain ⟨ha, has⟩ := List.forall_mem_cons.1 h
    rw [List.findSome?_cons, List.findSome?_cons, ha, ih has]

/-! ### Declared names -/

/-- The classes around `c`, innermost first. -/
def Registry.around (r : Registry) (c : ClassId) : List ClassId := (r.enclosingChain c).reverse

namespace Pool

variable (p : Pool) (r : Registry)

/-- The text of the signature that the pool has for a class. -/
def signature? (c : ClassId) : Option String :=
  (r.classAt? c).bind fun e => p.signatures.lookup e.name

/-- The signature that the pool has for a class, if it can be read. -/
def classSig? (c : ClassId) : Option ClassSig :=
  (p.signature? r c).bind fun text => (ClassSig.parse text).toOption

/-- The names of the type parameters of a class: those that are known beforehand, or
else those in its signature. -/
def declaredNames (c : ClassId) : List String :=
  if (r.typeParams (.ofClass c)).isEmpty then
    ((p.classSig? r c).map fun sig => sig.typeParams.map (·.name)).getD []
  else r.paramNames c

/-- The names that the signature of a class takes from around the class. -/
def borrowedNames (c : ClassId) : List String :=
  ((p.classSig? r c).map (·.borrowedNames)).getD []

/-- The names of type parameters that a class shows when the classes in `resolved` are
resolved: those that it declares if it is one of them, and else those known beforehand. -/
def shownNames (resolved : List ClassId) (c : ClassId) : List String :=
  if c ∈ resolved then p.declaredNames r c else r.paramNames c

/-- **What a name stands for at `c`** when the classes in `resolved` are resolved: the type
parameter of the innermost class around that shows it. -/
def binding? (resolved : List ClassId) (c : ClassId) (name : String) : Option TypeVar :=
  (r.around c).findSome? fun a =>
    ((p.shownNames r resolved a).idxOf? name).map (TypeVar.mk (.ofClass a))

/-- **The innermost class around `c` that declares a name.** -/
def declarer? (c : ClassId) (name : String) : Option ClassId :=
  (r.around c).find? fun a => name ∈ p.declaredNames r a

/-- What the names in the signature of `c` stand for when the classes in `resolved` are
resolved. -/
def lexicon (resolved : List ClassId) (c : ClassId) : Lexicon where
  class? := r.lookup
  var? := p.binding? r resolved c

variable {p r} {resolved resolved' : List ClassId} {c : ClassId}

/-- The names that are known beforehand are declared, unless there are none. -/
theorem declaredNames_of_ne_nil (h : r.paramNames c ≠ []) :
    p.declaredNames r c = r.paramNames c := by
  have hne : (r.typeParams (.ofClass c)).isEmpty = false := by
    cases hps : r.typeParams (.ofClass c) with
    | nil => exact absurd (by rw [Registry.paramNames, hps]; rfl) h
    | cons => rfl
  rw [declaredNames, hne]
  rfl

/-- A class shows what is known beforehand, or what it declares and nothing was known. -/
theorem shownNames_cases (p : Pool) (r : Registry) (resolved : List ClassId) (c : ClassId) :
    p.shownNames r resolved c = p.declaredNames r c ∨
      p.shownNames r resolved c = [] ∧ r.paramNames c = [] := by
  unfold shownNames
  split
  · exact .inl rfl
  · by_cases hnil : r.paramNames c = []
    · exact .inr ⟨hnil, hnil⟩
    · exact .inl (declaredNames_of_ne_nil hnil).symm

/-- A class shows nothing but what it declares. -/
theorem mem_declaredNames_of_shown {name : String} (h : name ∈ p.shownNames r resolved c) :
    name ∈ p.declaredNames r c := by
  rcases p.shownNames_cases r resolved c with hdeclared | ⟨hnone, -⟩
  · exact hdeclared ▸ h
  · rw [hnone] at h
    cases h

/-- **The class that a name belongs to** shows it. -/
theorem exists_of_binding? {name : String} {v : TypeVar}
    (h : p.binding? r resolved c name = some v) :
    ∃ a ∈ r.around c, v.owner = .ofClass a ∧ name ∈ p.shownNames r resolved a := by
  obtain ⟨a, ha, hfound⟩ := List.exists_of_findSome?_eq_some h
  obtain ⟨i, hi, rfl⟩ := Option.map_eq_some_iff.1 hfound
  refine ⟨a, ha, rfl, ?_⟩
  by_contra hno
  exact nomatch (List.idxOf?_eq_none_iff.2 hno).symm.trans hi

theorem exists_idxOf? {names : List String} {name : String} (h : name ∈ names) :
    ∃ i, names.idxOf? name = some i := by
  rwa [← Option.ne_none_iff_exists', ne_eq, List.idxOf?_eq_none_iff, not_not]

theorem declares_of_declarer? {name : String} {a : ClassId} (h : p.declarer? r c name = some a) :
    a ∈ r.around c ∧ name ∈ p.declaredNames r a :=
  ⟨List.mem_of_find?_eq_some h,
    of_decide_eq_true (List.find?_some (p := fun a => decide (name ∈ p.declaredNames r a)) h)⟩

theorem exists_declarer? {name : String} {a : ClassId} (ha : a ∈ r.around c)
    (hname : name ∈ p.declaredNames r a) : ∃ d, p.declarer? r c name = some d :=
  Option.isSome_iff_exists.1 (List.find?_isSome.2 ⟨a, ha, decide_eq_true hname⟩)

/-- **Where the innermost class that declares a name shows it**, the name belongs to that
class. -/
theorem binding?_of_shown {name : String} {a : ClassId}
    (ha : p.declarer? r c name = some a)
    (hshown : p.shownNames r resolved a = p.declaredNames r a) :
    p.binding? r resolved c name =
      ((p.declaredNames r a).idxOf? name).map (TypeVar.mk (.ofClass a)) := by
  obtain ⟨-, hname⟩ := declares_of_declarer? ha
  obtain ⟨-, inner, outer, hchain, hinner⟩ := List.find?_eq_some_iff_append.1 ha
  have hskipped : inner.findSome? (fun a =>
      ((p.shownNames r resolved a).idxOf? name).map (TypeVar.mk (.ofClass a))) = none := by
    refine List.findSome?_eq_none_iff.2 fun b hb => ?_
    rw [Option.map_eq_none_iff, List.idxOf?_eq_none_iff]
    exact fun hname => by simpa [mem_declaredNames_of_shown hname] using hinner b hb
  obtain ⟨i, hi⟩ := exists_idxOf? hname
  unfold binding?
  rw [hchain, List.findSome?_append, hskipped, Option.none_or, List.findSome?_cons, hshown, hi]
  rfl

end Pool

/-! ### What a scope knows -/

/-- **What a name stands for around a class**: the type parameter of the innermost
class around that has one of this name. -/
theorem Scope.resolve_pushEnclosing {r : Registry}
    (h : ∀ c, TypeParam.Numbered (.ofClass c) (r.typeParams (.ofClass c))) (c : ClassId)
    (name : String) :
    (({} : Scope).pushEnclosing r c).resolve name = (r.around c).findSome? fun a =>
      (((r.typeParams (.ofClass a)).map (·.name)).idxOf? name).map (TypeVar.mk (.ofClass a)) := by
  -- the chain is pushed outermost first, so it is searched from its end
  have hchain : ∀ (chain : List ClassId) (s : Scope),
      (chain.foldl (fun s c => s.pushClass r c) s).resolve name
        = (chain.reverse.findSome? fun a => (((r.typeParams (.ofClass a)).map (·.name)).idxOf?
            name).map (TypeVar.mk (.ofClass a))).or (s.resolve name) := by
    intro chain
    induction chain with
    | nil => exact fun s => rfl
    | cons a chain ih =>
      intro s
      rw [List.foldl_cons, ih, Scope.pushClass, resolve_pushTypeParams (h a), List.reverse_cons,
        List.findSome?_append, List.findSome?_singleton, Option.or_assoc]
  unfold Scope.pushEnclosing Registry.around
  rw [hchain]
  exact Option.or_none

/-- **A registry gives the names around a class** the meaning that they have by what the
classes around show in it. -/
theorem Pool.lexiconAround_eq {p : Pool} {r r' : Registry} {resolved : List ClassId} {c : ClassId}
    (hnumbered : ∀ c, TypeParam.Numbered (.ofClass c) (r'.typeParams (.ofClass c)))
    (hlookup : ∀ name, r'.lookup name = r.lookup name)
    (henclosing : ∀ c, r'.enclosing? c = r.enclosing? c)
    (hshown : ∀ a ∈ r.around c, r'.paramNames a = p.shownNames r resolved a) :
    r'.lexiconAround c = p.lexicon r resolved c := by
  have haround : r'.around c = r.around c := by
    unfold Registry.around
    rw [Registry.enclosingChain_congr henclosing]
  have hvar : (({} : Scope).pushEnclosing r' c).resolve = p.binding? r resolved c := by
    funext name
    rw [Scope.resolve_pushEnclosing hnumbered, haround]
    exact findSome?_congr fun a ha => by rw [← hshown a ha]; rfl
  unfold Registry.lexiconAround Pool.lexicon
  rw [hvar, funext hlookup]

end JavaGenerics
