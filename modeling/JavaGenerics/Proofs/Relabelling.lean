import JavaGenerics.Proofs.EventScoping
import JavaGenerics.Proofs.Feeding
import JavaGenerics.Proofs.Renaming
import Mathlib.Logic.Equiv.Basic

/-!
# Names and positions of type parameters

A class signature declares its type parameters by name, in some order, and its types refer to
them by name. In the class that is resolved, only the positions are left. So the names are a
matter of spelling, and the order shows nowhere but in the numbers of the type variables: if
the type parameters of a signature are reordered, each with its bounds, and are given other
names throughout the signature, then the class is resolved to the same types, with the numbers
reordered (`JavaGenerics.ClassAssembler.feed_relabel`).

Nothing of this is clear from the way the type parameters are read. Their bounds are resolved
in the order of declaration, and a bound may refer to a type parameter that comes later. It is
the lexicon inside the class that is indifferent to the order: every name is looked up in a
list of all type parameters, and the same list reordered gives the reordered position
(`JavaGenerics.Lexicon.renames_declare`).
-/

namespace JavaGenerics

open Assembly

/-! ### Reordered lists -/

section Reorder

variable {α β : Type} {π : Equiv.Perm ℕ} {xs : List α}

/-- The list in which what is at position `i` of `xs` comes at position `π i`. -/
def reorder (π : Equiv.Perm ℕ) (xs : List α) : List α :=
  (List.range xs.length).filterMap fun i => xs[π.symm i]?

theorem map_reorder (f : α → β) (xs : List α) :
    (reorder π xs).map f = reorder π (xs.map f) := by
  simp [reorder, List.map_filterMap]

/-- A permutation that leaves everything behind a list where it is permutes the positions of
the list. -/
theorem symm_lt (hπ : ∀ i, xs.length ≤ i → π i = i) {i : ℕ} (hi : i < xs.length) :
    π.symm i < xs.length := by
  by_contra hle
  have hfix := hπ _ (Nat.le_of_not_lt hle)
  rw [Equiv.apply_symm_apply] at hfix
  exact hle (hfix ▸ hi)

theorem map_some_reorder (hπ : ∀ i, xs.length ≤ i → π i = i) :
    (reorder π xs).map some = (List.range xs.length).map fun i => xs[π.symm i]? := by
  rw [reorder, List.map_filterMap, ← List.filterMap_eq_map]
  refine List.filterMap_congr fun i hi => ?_
  change xs[π.symm i]?.map some = some xs[π.symm i]?
  rw [List.getElem?_eq_getElem (symm_lt hπ (List.mem_range.1 hi))]
  rfl

/-- **What is at position `i` comes at position `π i`.** -/
theorem getElem?_reorder (hπ : ∀ i, xs.length ≤ i → π i = i) (i : ℕ) :
    (reorder π xs)[π i]? = xs[i]? := by
  have h := congrArg (·[π i]?) (map_some_reorder hπ)
  simp only [List.getElem?_map] at h
  by_cases hi : π i < xs.length
  · rw [List.getElem?_range hi, Option.map_some, Equiv.symm_apply_apply] at h
    obtain ⟨x, hx, hi⟩ := Option.map_eq_some_iff.1 h
    rw [hx, hi]
  · have hle : xs.length ≤ i := by
      have hfix := hπ (π i) (Nat.le_of_not_lt hi)
      rw [π.injective hfix] at hi
      exact Nat.le_of_not_lt hi
    have hnone : (List.range xs.length)[π i]? = none := List.getElem?_eq_none (by simpa using hi)
    rw [hnone, Option.map_none, Option.map_eq_none_iff] at h
    rw [h, List.getElem?_eq_none hle]

example : reorder (Equiv.swap 0 2) ["A", "B", "C"] = ["C", "B", "A"] := by decide

theorem mem_reorder (hπ : ∀ i, xs.length ≤ i → π i = i) {x : α} : x ∈ reorder π xs ↔ x ∈ xs := by
  rw [List.mem_iff_getElem?, List.mem_iff_getElem?]
  constructor
  · rintro ⟨j, hj⟩
    obtain ⟨i, rfl⟩ := π.surjective j
    exact ⟨i, (getElem?_reorder hπ i).symm.trans hj⟩
  · rintro ⟨i, hi⟩
    exact ⟨π i, (getElem?_reorder hπ i).trans hi⟩

theorem nodup_reorder (hπ : ∀ i, xs.length ≤ i → π i = i) (h : xs.Nodup) :
    (reorder π xs).Nodup := by
  rw [List.nodup_iff_getElem?_ne_getElem?]
  intro i j hij hj heq
  obtain ⟨i, rfl⟩ := π.surjective i
  obtain ⟨j, rfl⟩ := π.surjective j
  rw [getElem?_reorder hπ, getElem?_reorder hπ] at heq
  have hlt : j < xs.length := by
    have hsome := getElem?_reorder hπ j
    rw [List.getElem?_eq_getElem hj] at hsome
    exact (List.getElem?_eq_some_iff.1 hsome.symm).1
  exact hij.ne (congrArg π ((List.getElem?_inj hlt h).1 heq.symm).symm)

end Reorder

/-- Where names are distinct, a name is found at its position. -/
theorem idxOf?_of_nodup {names : List String} (h : names.Nodup) {name : String} {i : ℕ}
    (hi : names[i]? = some name) : names.idxOf? name = some i := by
  obtain ⟨hlt, hname⟩ := List.getElem?_eq_some_iff.1 hi
  refine List.idxOf?_eq_some_iff.2 ⟨hlt, hname, fun j hj heq => hj.ne ?_⟩
  exact (List.Nodup.getElem_inj_iff h).1 (heq.trans hname.symm)

/-! ### Relabelled declarations -/

/-- A type parameter with the type variables renamed, its own one included. -/
def TypeParamSig.renameVars (g : String → String) (p : TypeParamSig) : TypeParamSig where
  name := g p.name
  classBound := p.classBound.map (·.renameVars g)
  interfaceBounds := p.interfaceBounds.map (·.renameVars g)

theorem TypeParamSig.bounds_renameVars (g : String → String) (p : TypeParamSig) :
    (p.renameVars g).bounds = p.bounds.map (·.renameVars g) := by
  cases h : p.classBound <;> simp [bounds, renameVars, h]

namespace ClassSig

/-- The names of the type parameters. -/
def declaredNames (sig : ClassSig) : List String := sig.typeParams.map (·.name)

/-- All names of type variables in a signature, declared there or not. -/
def varNames (sig : ClassSig) : List String :=
  (sig.typeParams.flatMap fun p => p.bounds.flatMap TypeSig.varNames)
    ++ sig.superclass.varNames ++ sig.interfaces.flatMap TypeSig.varNames

theorem mem_borrowedNames {sig : ClassSig} {name : String} :
    name ∈ sig.borrowedNames ↔ name ∈ sig.varNames ∧ name ∉ sig.declaredNames := by
  rw [borrowedNames, List.mem_filter, decide_eq_true_iff]
  exact Iff.rfl

/-- What becomes of a name if the type parameters are renamed by `f`; others stay. -/
def newName (sig : ClassSig) (f : String → String) (name : String) : String :=
  if name ∈ sig.declaredNames then f name else name

/-- **The signature with its type parameters reordered by `π` and renamed by `f`**, each with
its bounds, and renamed wherever they are used. -/
def relabel (π : Equiv.Perm ℕ) (f : String → String) (sig : ClassSig) : ClassSig where
  typeParams := reorder π (sig.typeParams.map (·.renameVars (sig.newName f)))
  superclass := sig.superclass.renameVars (sig.newName f)
  interfaces := sig.interfaces.map (·.renameVars (sig.newName f))

/-- **When type parameters may be relabelled**: their names are distinct, the reordering is one
of their positions, and the new names are distinct and not used for anything else. -/
structure MayRelabel (sig : ClassSig) (π : Equiv.Perm ℕ) (f : String → String) : Prop where
  distinct : sig.declaredNames.Nodup
  positions : ∀ i, sig.typeParams.length ≤ i → π i = i
  injective : ∀ a ∈ sig.declaredNames, ∀ b ∈ sig.declaredNames, f a = f b → a = b
  fresh : ∀ a ∈ sig.declaredNames, f a ∉ sig.borrowedNames

variable {sig : ClassSig} {π : Equiv.Perm ℕ} {f : String → String}

theorem declaredNames_relabel (π : Equiv.Perm ℕ) (f : String → String) (sig : ClassSig) :
    (sig.relabel π f).declaredNames = reorder π (sig.declaredNames.map f) := by
  rw [declaredNames, relabel, map_reorder, declaredNames, List.map_map, List.map_map]
  refine congrArg (reorder π) (List.map_congr_left fun p hp => ?_)
  exact if_pos (List.mem_map_of_mem hp)

namespace MayRelabel

theorem positions_map (h : sig.MayRelabel π f) (i : ℕ)
    (hi : (sig.declaredNames.map f).length ≤ i) : π i = i :=
  h.positions i (by simpa [declaredNames] using hi)

/-- The new names are distinct as well. -/
theorem nodup_relabel (h : sig.MayRelabel π f) : (sig.relabel π f).declaredNames.Nodup := by
  rw [declaredNames_relabel]
  exact nodup_reorder h.positions_map (h.distinct.map_on h.injective)

/-- The type parameter at position `i` is found by its new name at position `π i`. -/
theorem idxOf?_relabel (h : sig.MayRelabel π f) {name : String} {i : ℕ}
    (hi : sig.declaredNames[i]? = some name) :
    (sig.relabel π f).declaredNames.idxOf? (f name) = some (π i) := by
  refine idxOf?_of_nodup h.nodup_relabel ?_
  rw [declaredNames_relabel, getElem?_reorder h.positions_map, List.getElem?_map, hi]
  rfl

/-- A name that is borrowed is not one of the new names. -/
theorem not_mem_relabel (h : sig.MayRelabel π f) {name : String}
    (hname : name ∈ sig.borrowedNames) : name ∉ (sig.relabel π f).declaredNames := by
  rw [declaredNames_relabel, mem_reorder h.positions_map]
  intro hmem
  obtain ⟨a, ha, rfl⟩ := List.mem_map.1 hmem
  exact h.fresh a ha hname

end MayRelabel

end ClassSig

/-! ### Relabelled results -/

/-- What becomes of a type variable if the type parameters of `c` are reordered. -/
def TypeVar.relabel (c : ClassId) (π : Equiv.Perm ℕ) (v : TypeVar) : TypeVar :=
  if v.owner = .ofClass c then ⟨v.owner, π v.index⟩ else v

theorem TypeVar.relabel_own (c : ClassId) (π : Equiv.Perm ℕ) (i : ℕ) :
    relabel c π ⟨.ofClass c, i⟩ = ⟨.ofClass c, π i⟩ := if_pos rfl

/-- What becomes of a type parameter of `c`. -/
def TypeParam.relabel (c : ClassId) (π : Equiv.Perm ℕ) (f : String → String) (p : TypeParam) :
    TypeParam where
  name := f p.name
  var := p.var.relabel c π
  bounds := p.bounds.map (·.mapVars (·.relabel c π))

/-- What becomes of the types of `c`. -/
def ClassTypes.relabel (c : ClassId) (π : Equiv.Perm ℕ) (f : String → String)
    (types : ClassTypes) : ClassTypes where
  typeParams := reorder π (types.typeParams.map (·.relabel c π f))
  superclass := types.superclass.mapVars (·.relabel c π)
  interfaces := types.interfaces.map (·.mapVars (·.relabel c π))

/-- **The entry of `c` with its type parameters reordered by `π` and renamed by `f`**, and with
its type variables renumbered wherever they occur. -/
def ClassEntry.relabel (c : ClassId) (π : Equiv.Perm ℕ) (f : String → String) (e : ClassEntry) :
    ClassEntry :=
  { e with
    typeParams := reorder π (e.typeParams.map (·.relabel c π f))
    superclass := e.superclass.map (·.mapVars (·.relabel c π))
    interfaces := e.interfaces.map (·.mapVars (·.relabel c π)) }

/-! ### The meaning of a relabelled signature -/

theorem map_eq_ok {α β : Type} {x : Except ResolveError α} {k : α → β} {b : β} :
    x.map k = .ok b ↔ ∃ a, x = .ok a ∧ k a = b := by
  cases x <;> simp [Except.map]

namespace Lexicon

variable {l : Lexicon} {c : ClassId} {sig : ClassSig} {π : Equiv.Perm ℕ} {f : String → String}

/-- **Type parameters are found whatever their names and their order are.** Inside the class,
what a name stood for is found by the new name, at the new position. -/
theorem renames_declare (h : sig.MayRelabel π f)
    (hforeign : ∀ name v, l.var? name = some v → v.owner ≠ .ofClass c) :
    (l.declare (.ofClass c) sig.typeParams).Renames
      (l.declare (.ofClass c) (sig.relabel π f).typeParams) (sig.newName f) (·.relabel c π)
      sig.varNames := by
  have hvar : ∀ (s : ClassSig) (name : String), (l.declare (.ofClass c) s.typeParams).var? name =
      ((s.declaredNames.idxOf? name).map (TypeVar.mk (.ofClass c))).or (l.var? name) :=
    fun _ _ => rfl
  have hdeclared : ∀ name ∈ sig.declaredNames, ∃ i, sig.declaredNames[i]? = some name :=
    fun name hname => List.mem_iff_getElem?.1 hname
  refine ⟨rfl, fun name hname => ?_, fun name _ hnone => ?_⟩
  · rw [hvar, hvar, ClassSig.newName]
    split
    case isTrue hown =>
      obtain ⟨i, hi⟩ := hdeclared name hown
      rw [h.idxOf?_relabel hi, idxOf?_of_nodup h.distinct hi]
      simp [TypeVar.relabel_own]
    case isFalse hown =>
      have hnew := h.not_mem_relabel (ClassSig.mem_borrowedNames.2 ⟨hname, hown⟩)
      rw [List.idxOf?_eq_none_iff.2 hnew, List.idxOf?_eq_none_iff.2 hown]
      cases hv : l.var? name with
      | none => rfl
      | some v => simp [TypeVar.relabel, hforeign name v hv]
  · -- a name that stands for nothing is not declared, so it stays
    refine if_neg fun hown => ?_
    obtain ⟨i, hi⟩ := hdeclared name hown
    rw [hvar, idxOf?_of_nodup h.distinct hi] at hnone
    cases hnone

/-- What type parameters come to, position by position. -/
theorem params_eq_ok {owner : Declarer} {first : ℕ} {ps : List TypeParamSig}
    {tps : List TypeParam} :
    l.params owner first ps = .ok tps ↔ ∀ i : ℕ, Option.Rel (fun p tp : _ =>
      p.bounds.mapM (l.typeAt .reference) = .ok tp.bounds ∧ tp.name = p.name ∧
        tp.var = ⟨owner, first + i⟩) ps[i]? tps[i]? := by
  induction ps generalizing first tps with
  | nil =>
    constructor
    · intro h
      cases h
      exact fun _ => .none
    · intro h
      cases tps with
      | nil => rfl
      | cons tp tps => cases h 0
  | cons p ps ih =>
    rw [params_cons_eq_ok]
    constructor
    · rintro ⟨bounds, rest, hbounds, hrest, rfl⟩
      rintro (_ | i)
      · exact .some ⟨hbounds, rfl, rfl⟩
      · have hi := ih.1 hrest i
        rwa [Nat.add_right_comm] at hi
    · intro h
      cases tps with
      | nil => cases h 0
      | cons tp rest =>
        obtain ⟨name, var, bounds⟩ := tp
        have hrest : l.params owner (first + 1) ps = .ok rest := ih.2 fun i => by
          have hi := h (i + 1)
          rwa [← Nat.add_assoc, Nat.add_right_comm] at hi
        rcases h 0 with ⟨hbounds, rfl, rfl⟩
        exact ⟨bounds, rest, hbounds, hrest, rfl⟩

/-- Type parameters come to something if their bounds do. -/
theorem exists_params_iff {owner : Declarer} (first : ℕ) {ps : List TypeParamSig} :
    (∃ tps, l.params owner first ps = .ok tps) ↔
      ∀ p ∈ ps, ∃ bounds, p.bounds.mapM (l.typeAt .reference) = .ok bounds := by
  induction ps generalizing first with
  | nil => exact ⟨fun _ _ hp => (List.not_mem_nil hp).elim, fun _ => ⟨[], rfl⟩⟩
  | cons p ps ih =>
    have htail := ih (first + 1)
    rw [List.forall_mem_cons, ← htail]
    constructor
    · rintro ⟨tps, h⟩
      obtain ⟨bounds, rest, hbounds, hrest, -⟩ := params_cons_eq_ok.1 h
      exact ⟨⟨bounds, hbounds⟩, rest, hrest⟩
    · rintro ⟨⟨bounds, hbounds⟩, rest, hrest⟩
      exact ⟨_, params_cons_eq_ok.2 ⟨bounds, rest, hbounds, hrest, rfl⟩⟩

section Renamed

variable {l' : Lexicon} {ps : List TypeParamSig} {g : String → String}

/-- The bounds of a renamed type parameter. -/
theorem mapM_bounds_renameVars (hr : l.Renames l' g (·.relabel c π)
    (ps.flatMap fun p => p.bounds.flatMap TypeSig.varNames)) {p : TypeParamSig} (hp : p ∈ ps) :
    (p.renameVars g).bounds.mapM (l'.typeAt .reference) =
      (p.bounds.mapM (l.typeAt .reference)).map (List.map (·.mapVars (·.relabel c π))) := by
  rw [TypeParamSig.bounds_renameVars]
  exact mapM_typeAt_renameVars .reference (hr.mono fun _ hm => List.mem_flatMap.2 ⟨p, hp, hm⟩)

/-- **Type parameters that are reordered and renamed** come to the same, reordered and
renamed. -/
theorem params_relabel (hr : l.Renames l' g (·.relabel c π)
      (ps.flatMap fun p => p.bounds.flatMap TypeSig.varNames))
    (hπ : ∀ i, ps.length ≤ i → π i = i) (hg : ∀ p ∈ ps, g p.name = f p.name)
    {tps : List TypeParam} (h : l.params (.ofClass c) 0 ps = .ok tps) :
    l'.params (.ofClass c) 0 (reorder π (ps.map (·.renameVars g))) =
      .ok (reorder π (tps.map (·.relabel c π f))) := by
  have hlength : tps.length = ps.length := by
    simpa using congrArg List.length (params_names h)
  rw [params_eq_ok] at h ⊢
  intro j
  obtain ⟨i, rfl⟩ := π.surjective j
  rw [getElem?_reorder (by simpa using hπ), getElem?_reorder (by simpa [hlength] using hπ),
    List.getElem?_map, List.getElem?_map]
  have hi := h i
  cases hp : ps[i]? with
  | none =>
    rw [hp] at hi
    generalize tps[i]? = o at hi
    cases hi
    exact .none
  | some p =>
    have hmem : p ∈ ps := List.mem_of_getElem? hp
    rw [hp] at hi
    generalize tps[i]? = o at hi
    rcases hi with ⟨hbounds, hname, hvar⟩
    refine .some ⟨?_, ?_, ?_⟩
    · rw [mapM_bounds_renameVars hr hmem, hbounds]
      rfl
    · exact (congrArg f hname).trans (hg p hmem).symm
    · rw [Nat.zero_add] at hvar ⊢
      exact (congrArg (·.relabel c π) hvar).trans (TypeVar.relabel_own c π i)

/-- Type parameters that come to something once they are reordered and renamed come to
something before. -/
theorem exists_params_of_relabel (hr : l.Renames l' g (·.relabel c π)
      (ps.flatMap fun p => p.bounds.flatMap TypeSig.varNames))
    (hπ : ∀ i, ps.length ≤ i → π i = i) {owner : Declarer}
    (h : ∃ tps, l'.params owner 0 (reorder π (ps.map (·.renameVars g))) = .ok tps) :
    ∃ tps, l.params owner 0 ps = .ok tps := by
  rw [exists_params_iff] at h ⊢
  intro p hp
  obtain ⟨bounds, hbounds⟩ := h (p.renameVars g)
    ((mem_reorder (by simpa using hπ)).2 (List.mem_map_of_mem hp))
  rw [mapM_bounds_renameVars hr hp] at hbounds
  obtain ⟨bounds, hbounds, -⟩ := map_eq_ok.1 hbounds
  exact ⟨bounds, hbounds⟩

end Renamed

theorem checkDistinct_of_nodup {ps : List TypeParamSig} (h : (ps.map (·.name)).Nodup) :
    checkDistinct ps = .ok () := by
  unfold checkDistinct
  cases hfirst : firstRepeated [] (ps.map (·.name)) with
  | none => rfl
  | some name =>
    have htwice := (firstRepeated_eq_some hfirst).resolve_right (by simp)
    exact absurd h htwice.not_nodup

/-- **A signature that is relabelled comes to the same types**, relabelled; and if it comes to
anything, so does the original. -/
theorem classTypes_relabel (h : sig.MayRelabel π f)
    (hforeign : ∀ name v, l.var? name = some v → v.owner ≠ .ofClass c) {types' : ClassTypes} :
    l.classTypes [] c (sig.relabel π f) = .ok types' ↔
      ∃ types, l.classTypes [] c sig = .ok types ∧ types.relabel c π f = types' := by
  have hr := renames_declare h hforeign
  have hbounds := hr.mono fun name (hm : name ∈ sig.typeParams.flatMap fun p =>
    p.bounds.flatMap TypeSig.varNames) => List.mem_append_left _ (List.mem_append_left _ hm)
  have hsuper := typeAt_renameVars .classType (hr.mono fun name (hm : name ∈
    sig.superclass.varNames) => List.mem_append_left _ (List.mem_append_right _ hm))
  have hinterfaces := mapM_typeAt_renameVars .classType (hr.mono fun name (hm : name ∈
    sig.interfaces.flatMap TypeSig.varNames) => List.mem_append_right _ hm)
  have hdistinct := checkDistinct_of_nodup h.distinct
  have hdistinct' := checkDistinct_of_nodup h.nodup_relabel
  have hundeclared : ∀ ps, checkDeclared [] ps = .ok () := fun _ => checkDeclared_eq_ok.2 (.inl rfl)
  -- forwards, all parts of the types are known
  have hforward : ∀ types, l.classTypes [] c sig = .ok types →
      l.classTypes [] c (sig.relabel π f) = .ok (types.relabel c π f) := by
    intro types htypes
    obtain ⟨htps, hs, hi⟩ := classTypes_eq_ok.1 htypes
    obtain ⟨-, -, hp⟩ := introduce_eq_ok.1 htps
    refine classTypes_eq_ok.2 ⟨introduce_eq_ok.2 ⟨hdistinct', hundeclared _, ?_⟩, ?_, ?_⟩
    · refine params_relabel hbounds h.positions (fun p hp => ?_) hp
      exact if_pos (List.mem_map_of_mem hp)
    · exact hsuper.trans (map_eq_ok.2 ⟨_, hs, rfl⟩)
    · exact hinterfaces.trans (map_eq_ok.2 ⟨_, hi, rfl⟩)
  constructor
  · -- backwards, the types of the original are known once there are any
    intro htypes'
    obtain ⟨htps, hs, hi⟩ := classTypes_eq_ok.1 htypes'
    obtain ⟨-, -, hp⟩ := introduce_eq_ok.1 htps
    obtain ⟨tps, hp⟩ := exists_params_of_relabel hbounds h.positions ⟨_, hp⟩
    obtain ⟨superclass, hs, -⟩ := map_eq_ok.1 (hsuper.symm.trans hs)
    obtain ⟨interfaces, hi, -⟩ := map_eq_ok.1 (hinterfaces.symm.trans hi)
    have htypes : l.classTypes [] c sig = .ok ⟨tps, superclass, interfaces⟩ :=
      classTypes_eq_ok.2 ⟨introduce_eq_ok.2 ⟨hdistinct, hundeclared _, hp⟩, hs, hi⟩
    refine ⟨_, htypes, ?_⟩
    exact Except.ok.inj ((hforward _ htypes).symm.trans htypes')
  · rintro ⟨types, htypes, rfl⟩
    exact hforward types htypes

end Lexicon

/-! ### Relabelled classes -/

namespace Registry

variable {r : Registry}

theorem erasedName?_mapVars (σ : TypeVar → TypeVar) (t : ResolvedType) :
    r.erasedName? (t.mapVars σ) = r.erasedName? t := by
  rw [erasedName?, erasedName?, ResolvedType.class?_mapVars]

/-- Type variables do not matter for what is left after erasure. -/
theorem checkHeader_relabel (c : ClassId) (π : Equiv.Perm ℕ) (f : String → String)
    (types : ClassTypes) {d : ClassId} (hd : r.classAt? d ≠ none) :
    r.checkHeader d (types.relabel c π f).superclass (types.relabel c π f).interfaces = .ok () ↔
      r.checkHeader d types.superclass types.interfaces = .ok () := by
  obtain ⟨e, he⟩ := Option.ne_none_iff_exists'.1 hd
  have hnames : (types.relabel c π f).interfaces.filterMap r.erasedName? =
      types.interfaces.filterMap r.erasedName? := by
    rw [ClassTypes.relabel, List.filterMap_map]
    exact List.filterMap_congr fun t _ => erasedName?_mapVars _ t
  rw [checkHeader_eq_ok he, checkHeader_eq_ok he, hnames, ClassTypes.relabel,
    erasedName?_mapVars]

end Registry

namespace ClassAssembler

/-- **Type parameters are identified by their positions only.** Let the class `c` have no type
parameters yet, and let no name in `scope` stand for one of its own: nothing may be in force, or
what is in force around `c` (`JavaGenerics.Scope.foreign_of_pushEnclosing`). Then a signature
of `c` whose type parameters are reordered by `π`, each with its bounds, and renamed by `f`
throughout is accepted event by event if and only if the signature itself is; and then it leads
to the same registry, but for the type parameters of `c`, which are reordered and renamed, and
the type variables of `c` in its bounds, its superclass and its interfaces, which are renumbered
by `π`. -/
theorem feed_relabel (options : Options) (c : ClassId) (scope : Scope) (p : Progress)
    (hundeclared : p.workspace.registry.typeParams (.ofClass c) = [])
    (hscope : ∀ name v, scope.resolve name = some v → v.owner ≠ .ofClass c)
    (sig : ClassSig) (π : Equiv.Perm ℕ) (f : String → String) (h : sig.MayRelabel π f) :
    let res := Collaborator.silent.resolution options p.workspace.registry (.ofClass c)
    let out := feed (move res) (sig.events.map .accept ++ [.finish]) (start c scope) p
    let out' := feed (move res) ((sig.relabel π f).events.map .accept ++ [.finish])
      (start c scope) p
    ((∀ o ∈ out'.1, o.1 = .ok ()) ↔ ∀ o ∈ out.1, o.1 = .ok ()) ∧
      ((∀ o ∈ out.1, o.1 = .ok ()) → out'.2.workspace.registry =
        out.2.workspace.registry.modifyClass c (ClassEntry.relabel c π f)) := by
  intro res out out'
  have hres : res.IsQuiet := Resolution.isQuiet_silent options p.workspace.registry (.ofClass c)
  have hmeaning : ∀ types', Lexicon.classTypes ⟨p.workspace.registry.lookup, scope.resolve⟩ [] c
      (sig.relabel π f) = .ok types' ↔ ∃ types, Lexicon.classTypes
        ⟨p.workspace.registry.lookup, scope.resolve⟩ [] c sig = .ok types ∧
          types.relabel c π f = types' := fun _ => Lexicon.classTypes_relabel h hscope
  -- whatever holds of the registry behind one of the feeds holds of it behind the other,
  -- up to the relabelling
  have hboth : ∀ R : Registry → Prop,
      ((∀ o ∈ out'.1, o.1 = .ok ()) ∧ R out'.2.workspace.registry) ↔
        (∀ o ∈ out.1, o.1 = .ok ()) ∧
          R (out.2.workspace.registry.modifyClass c (ClassEntry.relabel c π f)) := by
    intro R
    rw [feed_accepted_iff hres rfl (sig.relabel π f), feed_accepted_iff hres rfl sig
      (R := fun r => R (r.modifyClass c (ClassEntry.relabel c π f))), hundeclared]
    simp only [hmeaning, Registry.modifyClass_modifyClass]
    constructor
    · rintro ⟨_, ⟨types, htypes, rfl⟩, hheader, hc, hR⟩
      exact ⟨types, htypes, fun hv => (Registry.checkHeader_relabel c π f types hc).1 (hheader hv),
        hc, hR⟩
    · rintro ⟨types, htypes, hheader, hc, hR⟩
      exact ⟨_, ⟨types, htypes, rfl⟩,
        fun hv => (Registry.checkHeader_relabel c π f types hc).2 (hheader hv), hc, hR⟩
  refine ⟨?_, fun hok => ?_⟩
  · simpa using hboth fun _ => True
  · exact ((hboth (· = out.2.workspace.registry.modifyClass c (ClassEntry.relabel c π f))).2
      ⟨hok, rfl⟩).2

/-- Two type parameters of a member class change places and names, one of them taking over the
name of the other; the first has the second one as its bound, and the superclass refers to the
type parameter of the class around. -/
theorem feed_relabel_of_swap :
    let p : Progress := { workspace := { registry := .ofHeaders [
      { name := "Outer", typeParams := ["U"] }, { name := "Box", typeParams := ["E"] },
      { name := "Outer$A", enclosing := some ⟨0⟩ }] } }
    let scope := ({} : Scope).pushEnclosing p.workspace.registry ⟨2⟩
    let box := fun name => TypeSig.ofClass (.mk "Box" [.bounded .exact (.var name)]) []
    let sig : ClassSig := ⟨[⟨"S", some (.var "T"), []⟩, ⟨"T", none, [box "S"]⟩], box "U", [box "T"]⟩
    let π : Equiv.Perm ℕ := Equiv.swap 0 1
    let f : String → String := fun name => if name = "S" then "X" else "S"
    let res := Collaborator.silent.resolution {} p.workspace.registry (.ofClass ⟨2⟩)
    let out := feed (move res) (sig.events.map .accept ++ [.finish]) (start ⟨2⟩ scope) p
    let out' := feed (move res) ((sig.relabel π f).events.map .accept ++ [.finish])
      (start ⟨2⟩ scope) p
    sig.MayRelabel π f ∧ sig.relabel π f =
        ⟨[⟨"S", none, [box "X"]⟩, ⟨"X", some (.var "S"), []⟩], box "U", [box "S"]⟩ ∧
      (∀ o ∈ out.1, o.1 = .ok ()) ∧ (∀ o ∈ out'.1, o.1 = .ok ()) ∧ out'.2.workspace.registry =
        out.2.workspace.registry.modifyClass ⟨2⟩ (ClassEntry.relabel ⟨2⟩ π f) := by
  intro p scope box sig π f
  have hmay : sig.MayRelabel π f := by
    refine ⟨by decide, fun i hi => ?_, by decide, by decide⟩
    have hi : 2 ≤ i := hi
    exact Equiv.swap_apply_of_ne_of_ne (by omega) (by omega)
  have hscope : ∀ name v, scope.resolve name = some v → v.owner ≠ .ofClass ⟨2⟩ := fun _ _ hv =>
    (Scope.foreign_of_pushEnclosing
      (fun _ => (Registry.wellScoped_ofHeaders _).numbered _) hv).1
  have hundeclared : p.workspace.registry.typeParams (.ofClass ⟨2⟩) = [] :=
    List.isEmpty_iff.1 (by decide +kernel)
  have h := feed_relabel {} ⟨2⟩ scope p hundeclared hscope sig π f hmay
  have hok := show ∀ o ∈ (feed (move (Collaborator.silent.resolution {} p.workspace.registry
    (.ofClass ⟨2⟩))) (sig.events.map .accept ++ [.finish]) (start ⟨2⟩ scope) p).1,
    o.1 = .ok () by decide +kernel
  exact ⟨hmay, rfl, hok, h.1.2 hok, h.2 hok⟩

end ClassAssembler

end JavaGenerics
