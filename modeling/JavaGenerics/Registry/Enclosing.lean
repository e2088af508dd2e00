import JavaGenerics.Registry

/-!
# The classes around a class

A class may be declared in the body of another, and so on outwards. The links are
whatever was registered: they may lead to a number that is not registered, or back
to a class that was already passed. `JavaGenerics.Registry.outward` follows them
until they end or repeat. A walk that goes on has found a class it had not seen,
and only a registered class has a link, so it ends.
-/

namespace JavaGenerics

namespace Registry

variable (r : Registry)

/-- The class in whose body a class is declared. -/
def enclosing? (c : ClassId) : Option ClassId := (r.classAt? c).bind (·.enclosing)

/-- How many registered classes are not in `seen`. -/
def unseenCount (seen : List ClassId) : Nat :=
  ((List.range r.classes.size).filter fun i => ⟨i⟩ ∉ seen).length

theorem unseenCount_cons_le (seen : List ClassId) (c : ClassId) :
    r.unseenCount (c :: seen) ≤ r.unseenCount seen := by
  unfold unseenCount
  rw [← List.countP_eq_length_filter, ← List.countP_eq_length_filter]
  refine List.countP_mono_left fun i _ h => ?_
  simp_all

theorem unseenCount_cons_lt {seen : List ClassId} {c : ClassId} (hc : c.index < r.classes.size)
    (hs : c ∉ seen) : r.unseenCount (c :: seen) < r.unseenCount seen := by
  unfold unseenCount
  have hsub : ((List.range r.classes.size).filter fun i => (⟨i⟩ : ClassId) ∉ c :: seen)
      = ((List.range r.classes.size).filter fun i => (⟨i⟩ : ClassId) ∉ seen).filter
          (· ≠ c.index) := by
    rw [List.filter_filter]
    refine List.filter_congr fun i _ => ?_
    by_cases h : i = c.index
    · subst h; simp
    · have : (⟨i⟩ : ClassId) ≠ c := fun e => h (by rw [← e])
      simp [h, this]
  rw [hsub]
  refine List.length_filter_lt_length_iff_exists.2 ⟨c.index, ?_, by simp⟩
  simp [hc, hs]

theorem index_lt_of_enclosing? {c outer : ClassId} (h : r.enclosing? c = some outer) :
    c.index < r.classes.size := by
  unfold enclosing? classAt? at h
  rcases Nat.lt_or_ge c.index r.classes.size with hlt | hge
  · exact hlt
  · rw [Array.getElem?_eq_none hge] at h
    cases h

/-- The classes around `c`, innermost first, as far as they are not in `seen`, and
whether the walk met a class of `seen`. -/
def outward (seen : List ClassId) (c : ClassId) : List ClassId × Bool :=
  match _h : r.enclosing? c with
  | none => ([], false)
  | some outer =>
    if outer ∈ seen then ([], true)
    else
      let rest := outward (outer :: seen) outer
      (outer :: rest.1, rest.2)
termination_by 2 * r.unseenCount seen + if c.index < r.classes.size then 1 else 0
decreasing_by
  rename_i hs
  have hc := index_lt_of_enclosing? r _h
  have hle := unseenCount_cons_le r seen outer
  by_cases ho : outer.index < r.classes.size
  · have hlt := unseenCount_cons_lt r ho hs
    rw [if_pos ho, if_pos hc]
    omega
  · rw [if_neg ho, if_pos hc]
    omega

/-- The classes around `c`, outermost first and without `c` itself. Links that lead
back to a class already passed end the walk. -/
def enclosingChain (c : ClassId) : List ClassId := (r.outward [c] c).1.reverse

/-- Whether the links outwards from `c` lead back to a class already passed. -/
def enclosingIsCyclic (c : ClassId) : Bool := (r.outward [c] c).2

end Registry

end JavaGenerics
