import Mathlib.Data.List.Chain
import Mathlib.Data.List.Nodup
import Mathlib.Data.List.Perm.Subperm
import JavaGenerics.Proofs.Evolution
import JavaGenerics.Registry.Platform

/-!
# The walk outwards from a class

The links from a class to the one around it are whatever was registered. They may form
trees, but a class may also be registered as lying in itself, the links may run into a
circle that does not pass through the class they start from, and they may lead to a number
that stands for no class. This file says what `JavaGenerics.Registry.enclosingChain` makes
of all of that: it follows the links as long as they lead to a class that was not passed
before. The list it returns is the only one that does so
(`JavaGenerics.Registry.isEnclosingChain_iff`), and a warning is logged exactly when the
last link leads back (`JavaGenerics.Workspace.enclosingChain_follows_links`).

A walk is described for any classes passed beforehand (`JavaGenerics.Registry.Walks`),
since that is what the recursion changes.
-/

namespace JavaGenerics

namespace Registry

variable {r : Registry} {seen : List ClassId} {c : ClassId} {found : List ClassId}

/-! ### One walk -/

/-- What a walk outwards from `c` finds, innermost first, when the classes of `seen` were
passed before, and whether its last link leads back to a class that was passed. -/
structure Walks (r : Registry) (seen : List ClassId) (c : ClassId) (found : List ClassId)
    (back : Bool) : Prop where
  nodup : found.Nodup
  fresh : ∀ x ∈ found, x ∉ seen
  linked : (c :: found).IsChain fun inner outer => r.enclosing? inner = some outer
  ended : match r.enclosing? ((c :: found).getLast (List.cons_ne_nil c found)) with
    | none => back = false
    | some y => back = true ∧ (y ∈ seen ∨ y ∈ found)

namespace Walks

variable {back : Bool}

/-- Without a link there is nothing to find. -/
theorem of_enclosing?_eq_none (h : r.enclosing? c = none) : r.Walks seen c [] false where
  nodup := .nil
  fresh := by simp
  linked := .singleton c
  ended := by simp [h]

/-- A link back ends the walk. -/
theorem of_mem_seen {outer : ClassId} (h : r.enclosing? c = some outer) (hseen : outer ∈ seen) :
    r.Walks seen c [] true where
  nodup := .nil
  fresh := by simp
  linked := .singleton c
  ended := by simp [h, hseen]

/-- A link to a class not passed before is followed, and this class has been passed then. -/
theorem cons_iff {outer : ClassId} (h : r.enclosing? c = some outer) (hseen : outer ∉ seen) :
    r.Walks seen c (outer :: found) back ↔ r.Walks (outer :: seen) outer found back := by
  constructor
  · rintro ⟨hnodup, hfresh, hlinked, hended⟩
    obtain ⟨hnew, hnodup⟩ := List.nodup_cons.1 hnodup
    refine ⟨hnodup, ?_, (List.isChain_cons_cons.1 hlinked).2, ?_⟩
    · intro x hx hseen
      rcases List.mem_cons.1 hseen with rfl | hseen
      · exact hnew hx
      · exact hfresh x (List.mem_cons_of_mem _ hx) hseen
    · rw [List.getLast_cons (List.cons_ne_nil outer found)] at hended
      split at hended <;> grind
  · rintro ⟨hnodup, hfresh, hlinked, hended⟩
    refine ⟨List.nodup_cons.2 ⟨fun hx => hfresh outer hx List.mem_cons_self, hnodup⟩, ?_,
      List.isChain_cons_cons.2 ⟨h, hlinked⟩, ?_⟩
    · rintro x (_ | ⟨_, hx⟩)
      · exact hseen
      · exact fun hseen => hfresh x hx (List.mem_cons_of_mem _ hseen)
    · rw [List.getLast_cons (List.cons_ne_nil outer found)]
      split at hended <;> grind

/-- Where there is no link, nothing is found. -/
theorem eq_of_enclosing?_eq_none (hw : r.Walks seen c found back) (h : r.enclosing? c = none) :
    (found, back) = ([], false) := by
  cases found with
  | nil => simpa [h] using hw.ended
  | cons x rest => simpa [h] using (List.isChain_cons_cons.1 hw.linked).1

/-- Where the link leads back, nothing is found. -/
theorem eq_of_mem_seen {outer : ClassId} (hw : r.Walks seen c found back)
    (h : r.enclosing? c = some outer) (hseen : outer ∈ seen) : (found, back) = ([], true) := by
  cases found with
  | nil => simpa [h, hseen] using hw.ended
  | cons x rest =>
    cases h.symm.trans (List.isChain_cons_cons.1 hw.linked).1
    exact absurd hseen (hw.fresh outer List.mem_cons_self)

/-- Where the link leads on, its end is found first. -/
theorem exists_eq_cons {outer : ClassId} (hw : r.Walks seen c found back)
    (h : r.enclosing? c = some outer) (hseen : outer ∉ seen) : ∃ rest, found = outer :: rest := by
  cases found with
  | nil => simpa [h, hseen] using hw.ended
  | cons x rest =>
    cases h.symm.trans (List.isChain_cons_cons.1 hw.linked).1
    exact ⟨rest, rfl⟩

end Walks

/-- **The walk is determined by the links**: what it finds follows the links as far as they
lead to classes that were not passed before, and nothing else does. -/
theorem outward_eq_iff {back : Bool} :
    r.outward seen c = (found, back) ↔ r.Walks seen c found back := by
  induction seen, c using outward.induct r generalizing found with
  | case1 seen c hnone =>
    rw [outward_eq, hnone]
    refine ⟨?_, fun hw => (hw.eq_of_enclosing?_eq_none hnone).symm⟩
    rintro ⟨⟩
    exact .of_enclosing?_eq_none hnone
  | case2 seen c outer hsome hseen =>
    rw [outward_eq, hsome]
    dsimp only
    rw [if_pos hseen]
    refine ⟨?_, fun hw => (hw.eq_of_mem_seen hsome hseen).symm⟩
    rintro ⟨⟩
    exact .of_mem_seen hsome hseen
  | case3 seen c outer hsome hseen ih =>
    rw [outward_eq, hsome]
    dsimp only
    rw [if_neg hseen]
    constructor
    · rintro ⟨⟩
      exact (Walks.cons_iff hsome hseen).2 (ih.1 rfl)
    · intro hw
      obtain ⟨rest, rfl⟩ := hw.exists_eq_cons hsome hseen
      rw [ih.2 ((Walks.cons_iff hsome hseen).1 hw)]

/-! ### The classes around a class -/

/-- The class from which a walk along `chain`, outermost first, would go on: the outermost
one, or the class it started from. -/
def outermost (c : ClassId) (chain : List ClassId) : ClassId := chain.head?.getD c

/-- **Whether the links lead back** from the outermost class of `chain` to a class that was
passed: to `c` or to one of `chain`. -/
def LeadsBack (r : Registry) (c : ClassId) (chain : List ClassId) : Prop :=
  ∃ y, r.enclosing? (outermost c chain) = some y ∧ y ∈ c :: chain

/-- **What the classes around `c` are**, outermost first: the classes to which the links
lead, each once and `c` not among them, as far as the links go without leading back. -/
structure IsEnclosingChain (r : Registry) (c : ClassId) (chain : List ClassId) : Prop where
  nodup : chain.Nodup
  not_mem : c ∉ chain
  /-- The innermost class is the one around `c`, and every class is the one around the
  class after it. -/
  linked : (chain ++ [c]).IsChain fun outer inner => r.enclosing? inner = some outer
  /-- The outermost class lies in no class, or the links lead back from it. -/
  ended : r.enclosing? (outermost c chain) = none ∨ r.LeadsBack c chain

theorem getLast_cons_reverse (c : ClassId) (chain : List ClassId) :
    (c :: chain.reverse).getLast (List.cons_ne_nil _ _) = outermost c chain := by
  cases chain <;> simp [outermost]

/-- The classes around a class are what a walk finds that has passed only the class. -/
theorem walks_reverse_iff {chain : List ClassId} {back : Bool} :
    r.Walks [c] c chain.reverse back ↔
      r.IsEnclosingChain c chain ∧ (back = true ↔ r.LeadsBack c chain) := by
  have hlinked : ((c :: chain.reverse).IsChain fun inner outer => r.enclosing? inner = some outer) ↔
      (chain ++ [c]).IsChain fun outer inner => r.enclosing? inner = some outer := by
    rw [← List.isChain_reverse, List.reverse_cons, List.reverse_reverse]
  constructor
  · rintro ⟨hnodup, hfresh, hlink, hended⟩
    rw [getLast_cons_reverse] at hended
    refine ⟨⟨List.nodup_reverse.1 hnodup, ?_, hlinked.1 hlink, ?_⟩, ?_⟩
    · exact fun h => hfresh c (List.mem_reverse.2 h) List.mem_cons_self
    all_goals
      unfold LeadsBack
      split at hended <;> simp_all
  · rintro ⟨⟨hnodup, hnot, hlink, hended⟩, hback⟩
    refine ⟨List.nodup_reverse.2 hnodup, ?_, hlinked.2 hlink, ?_⟩
    · intro x hx hc
      rw [List.mem_singleton.1 hc] at hx
      exact hnot (List.mem_reverse.1 hx)
    · rw [getLast_cons_reverse]
      unfold LeadsBack at hended hback
      split <;> simp_all

/-- **The classes around a class are determined by the links.** -/
theorem isEnclosingChain_iff {chain : List ClassId} :
    r.IsEnclosingChain c chain ↔ chain = r.enclosingChain c := by
  have hwalk : ∀ back, r.Walks [c] c chain.reverse back ↔ r.outward [c] c = (chain.reverse, back) :=
    fun back => outward_eq_iff.symm
  constructor
  · intro h
    classical
    have hw := walks_reverse_iff.2 ⟨h, decide_eq_true_iff (p := r.LeadsBack c chain)⟩
    rw [enclosingChain, (hwalk _).1 hw, List.reverse_reverse]
  · intro h
    refine (walks_reverse_iff.1 ((hwalk (r.enclosingIsCyclic c)).2 ?_)).1
    rw [h, enclosingChain, List.reverse_reverse, enclosingIsCyclic]

variable (r c)

theorem walks_enclosingChain :
    r.Walks [c] c (r.enclosingChain c).reverse (r.enclosingIsCyclic c) := by
  rw [← outward_eq_iff, enclosingChain, List.reverse_reverse, enclosingIsCyclic]

theorem isEnclosingChain_enclosingChain : r.IsEnclosingChain c (r.enclosingChain c) :=
  (walks_reverse_iff.1 (r.walks_enclosingChain c)).1

/-- The walk meets a class already passed exactly when the links lead back. -/
theorem enclosingIsCyclic_iff :
    r.enclosingIsCyclic c = true ↔ r.LeadsBack c (r.enclosingChain c) :=
  (walks_reverse_iff.1 (r.walks_enclosingChain c)).2

variable {r c}

/-- There are no classes around a class that is not registered, that lies in no class or
that lies in itself, and around every other class there is one. -/
theorem enclosingChain_eq_nil_iff :
    r.enclosingChain c = [] ↔
      r.classAt? c = none ∨ r.enclosing? c = none ∨ r.enclosing? c = some c := by
  have hunregistered : r.classAt? c = none → r.enclosing? c = none := fun h => by
    rw [enclosing?, h, Option.bind_none]
  rw [eq_comm, ← isEnclosingChain_iff]
  constructor
  · intro h
    rcases h.ended with hnone | ⟨y, hy, hc⟩
    · exact .inr (.inl hnone)
    · rw [List.mem_singleton.1 hc] at hy
      exact .inr (.inr hy)
  · intro h
    refine ⟨.nil, by simp, .singleton c, ?_⟩
    rcases h with h | h | h
    · exact .inl (hunregistered h)
    · exact .inl h
    · exact .inr ⟨c, h, List.mem_cons_self⟩

namespace IsEnclosingChain

variable {chain : List ClassId}

/-- Only registered classes have a class around them. -/
theorem index_lt (h : r.IsEnclosingChain c chain) :
    ∀ x ∈ (chain ++ [c]).tail, x.index < r.classes.size := by
  intro x hx
  obtain ⟨i, hi, rfl⟩ := List.getElem_of_mem hx
  rw [List.length_tail] at hi
  have hlink := List.isChain_iff_getElem.1 h.linked i (by omega)
  rw [List.getElem_tail]
  exact r.index_lt_of_enclosing? hlink

/-- A walk is not longer than there are registered classes. -/
theorem length_le (h : r.IsEnclosingChain c chain) : chain.length ≤ r.classes.size := by
  have hnodup : (chain ++ [c]).Nodup :=
    List.nodup_append.2 ⟨h.nodup, List.nodup_singleton c, by
      rintro x hx _ hc rfl
      exact h.not_mem (List.mem_singleton.1 hc ▸ hx)⟩
  have hindices : ((chain ++ [c]).tail.map (·.index)).Nodup :=
    (hnodup.sublist (List.tail_sublist _)).map fun x y h => by cases x; cases y; simpa using h
  have hsub : (chain ++ [c]).tail.map (·.index) ⊆ List.range r.classes.size := by
    intro i hi
    obtain ⟨x, hx, rfl⟩ := List.mem_map.1 hi
    exact List.mem_range.2 (h.index_lt x hx)
  simpa using (hindices.subperm hsub).length_le

end IsEnclosingChain

end Registry

/-! ### Where a circle is noted -/

namespace Workspace

/-- **The walk outwards follows the links, whatever they are.** It returns the classes
around `c`, and no other list is one of these; it changes nothing in the registry, and it
logs a warning exactly when the links lead back to a class that was passed. -/
theorem enclosingChain_follows_links (c : ClassId) (w : Workspace) :
    let chain := (enclosingChain c w).1
    let w' := (enclosingChain c w).2
    w.registry.IsEnclosingChain c chain ∧
      (∀ other, w.registry.IsEnclosingChain c other → other = chain) ∧
      chain.length ≤ w.registry.classes.size ∧
      (chain = [] ↔ w.registry.classAt? c = none ∨ w.registry.enclosing? c = none ∨
        w.registry.enclosing? c = some c) ∧
      w'.registry = w.registry ∧
      ∃ e : JournalEntry, (∀ toLog, e.record? toLog = some ⟨.warn, typesTarget,
          "cyclic enclosing class chain", [("class", .text (w.registry.className c))]⟩) ∧
        (w.registry.LeadsBack c chain → w'.journal = w.journal.push e) ∧
        (¬w.registry.LeadsBack c chain → w'.journal = w.journal) := by
  have hregistry : (noteCycle c w).2.registry = w.registry := by
    rw [noteCycle_apply]
    split <;> rfl
  have hchain : (enclosingChain c w).1 = w.registry.enclosingChain c :=
    congrArg (Registry.enclosingChain · c) hregistry
  have hw' : (enclosingChain c w).2 = (noteCycle c w).2 := rfl
  dsimp only
  rw [hchain, hw']
  have hc := w.registry.isEnclosingChain_enclosingChain c
  refine ⟨hc, fun other h => Registry.isEnclosingChain_iff.1 h, hc.length_le,
    Registry.enclosingChain_eq_nil_iff, hregistry,
    .noted (.enclosingCycle (w.registry.className c)), fun _ => rfl, fun h => ?_, fun h => ?_⟩
  · rw [noteCycle_apply, if_pos ((w.registry.enclosingIsCyclic_iff c).2 h)]
    rfl
  · rw [noteCycle_apply, if_neg (mt (w.registry.enclosingIsCyclic_iff c).1 h)]

/-- A circle that does not pass through the class from which it is reached. -/
example :
    let r : Registry := .ofHeaders [{ name := "A", enclosing := some ⟨1⟩ },
      { name := "B", enclosing := some ⟨2⟩ }, { name := "C", enclosing := some ⟨1⟩ }]
    r.enclosingChain ⟨0⟩ = [⟨2⟩, ⟨1⟩] ∧ r.enclosingIsCyclic ⟨0⟩ = true := by
  decide +kernel

end Workspace

end JavaGenerics
