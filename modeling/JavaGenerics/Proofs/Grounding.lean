import JavaGenerics.Proofs.OnDemand

/-!
# When names are read lexically

A class signature is read in a scope that shows some of the type parameters around the class.
What it comes to is what it means lexically, just if the innermost class that declares a
borrowed name shows it there. This file says when that is so: if that class can be obtained
where the resolution begins (`JavaGenerics.Pool.IsClear`).

One direction is that what can be obtained is obtained. The other needs an invariant:
whatever is resolved on the way could have been obtained with only those classes that are
resolved (`JavaGenerics.Pool.Grounded`), so a name that is shown where it is read could have been
obtained without the class that is being resolved, and without those around it that are.
-/

namespace JavaGenerics

open Attempt Workspace

/-! ### Classes that are resolved -/

/-- The classes that are not resolved. -/
def Registry.pending (r : Registry) : Set ClassId := {c | r.stage? (.ofClass c) ≠ some .resolved}

theorem Registry.beingResolved_subset_pending {r : Registry} : r.beingResolved ⊆ r.pending :=
  fun _ hs hresolved => nomatch hs.symm.trans hresolved

theorem Registry.pending_setStage {r : Registry} {c : ClassId} {s : Stage}
    (hs : r.stage? (.ofClass c) ≠ some .resolved) (hs' : s ≠ .resolved) :
    (r.setStage s (.ofClass c)).pending = r.pending := by
  ext d
  change ¬_ ↔ ¬_
  by_cases hd : d = c
  · subst hd
    rw [stage?_setStage]
    refine iff_of_true (fun h => ?_) hs
    obtain ⟨_, -, hresolved⟩ := Option.map_eq_some_iff.1 h
    exact hs' hresolved
  · rw [stage?_setStage_of_ne (by simpa using Ne.symm hd)]

/-- When a class is resolved, it is not pending any more, and no other class is pending that was
not before. -/
theorem Registry.pending_modifyClass {r : Registry} {c : ClassId} {f : ClassEntry → ClassEntry}
    (hc : (r.classAt? c).isSome) (hf : ∀ e, (f e).stage = .resolved) :
    (r.modifyClass c f).pending = r.pending \ {c} := by
  ext d
  change ¬_ ↔ ¬_ ∧ ¬_
  by_cases hd : d = c
  · subst hd
    obtain ⟨e, he⟩ := Option.isSome_iff_exists.1 hc
    simp [stage?, he, hf]
  · rw [stage?, stage?, classAt?_modifyClass_of_ne _ hd]
    exact (and_iff_left hd).symm

theorem Registry.Advances.pending_subset {r r' : Registry} (h : r.Advances r') :
    r'.pending ⊆ r.pending := by
  intro c hc hs
  obtain ⟨e, he, hresolved⟩ := Option.map_eq_some_iff.1 hs
  exact hc (by rw [stage?, h.classAt?_eq_some he (by simp [hresolved]), Option.map_some, hresolved])

namespace Registry

variable {J K : Registry → Prop} {r₀ r₁ r₂ : Registry} {t : Target} {signature : Option String}

/-- What is committed where `J` is kept is committed where less is kept. -/
theorem Commits.mono (h : r₀.Commits J r₁ t signature r₂) (hJ : J r₀) (hJK : ∀ r, J r → K r) :
    r₀.Commits K r₁ t signature r₂ := by
  have hbefore : ∀ {r}, r₀.Evolves J r → r₀.Evolves K r := fun h =>
    ⟨h.1, fun _ => hJK _ (h.2 hJ)⟩
  have hafter : ∀ {r}, r₀.Evolves J r → r.Evolves J r₁ → r.Evolves K r₁ := fun h h' =>
    ⟨h'.1, fun _ => hJK _ (h'.2 (h.2 hJ))⟩
  cases h with
  | classSignature r parse before after meaning =>
    exact .classSignature r parse (hbefore before) (hafter before after) meaning
  | classHeader found superclass_eq interfaces_eq =>
    exact .classHeader found superclass_eq interfaces_eq
  | methodSignature r names parse found before after meaning =>
    exact .methodSignature r names parse found (hbefore before) (hafter before after) meaning
  | methodDescriptor names found params_eq result_eq =>
    exact .methodDescriptor names found params_eq result_eq
  | fieldSignature r parse found before after meaning =>
    exact .fieldSignature r parse found (hbefore before) (hafter before after) meaning
  | fieldDescriptor found meaning => exact .fieldDescriptor found meaning

/-- What is committed for a class resolves it, and changes no other. -/
theorem Commits.exists_modifyClass {c : ClassId}
    (h : r₀.Commits J r₁ (.ofClass c) signature r₂) :
    ∃ f : ClassEntry → ClassEntry, r₂ = r₁.modifyClass c f ∧ ∀ e, (f e).stage = .resolved := by
  cases h with
  | classSignature => exact ⟨_, rfl, fun _ => rfl⟩
  | classHeader => exact ⟨_, rfl, fun _ => rfl⟩

end Registry

namespace Pool

variable {p : Pool} {r r' : Registry} {c : ClassId}

/-- **Where classes are resolved on the way**, each of them could have been obtained from those
alone that are resolved. -/
structure Grounded (p : Pool) (r r' : Registry) : Prop where
  way : p.Partway r r'
  resolved : ∀ c ∉ r'.pending, p.Obtainable r r'.pending c

/-- What is shown on the way is declared, by a class that could have been obtained. -/
theorem Grounded.obtainable_of_shown (h : p.Grounded r r') {name : String}
    (hname : name ∈ r'.paramNames c) :
    name ∈ p.declaredNames r c ∧ p.Obtainable r r'.pending c := by
  by_cases hs : r'.stage? (.ofClass c) = some .resolved
  · exact ⟨h.way.shows_of_resolved hs ▸ hname, h.resolved c (not_not_intro hs)⟩
  · have hsame : r'.paramNames c = r.paramNames c := by
      rw [h.way.paramNames_eq Registry.mem_resolvedClasses, shownNames,
        if_neg fun hc => hs (Registry.mem_resolvedClasses.1 hc)]
    rw [hsame] at hname
    have hknown : p.Shows r r c := (declaredNames_of_ne_nil (List.ne_nil_of_mem hname)).symm
    exact ⟨hknown ▸ hname, .known hknown⟩

/-- A name that means something on the way is declared by a class around that could have been
obtained. -/
theorem Grounded.exists_declarer (h : p.Grounded r r')
    (hn : ∀ c, TypeParam.Numbered (.ofClass c) (r.typeParams (.ofClass c))) {name : String}
    {v : TypeVar} (hv : (r'.lexiconAround c).var? name = some v) :
    ∃ a ∈ r.around c, name ∈ p.declaredNames r a ∧ p.Obtainable r r'.pending a := by
  change (({} : Scope).pushEnclosing r' c).resolve name = some v at hv
  rw [Scope.resolve_pushEnclosing (h.way.numbered hn)] at hv
  obtain ⟨a, ha, hshown⟩ := List.exists_of_findSome?_eq_some hv
  obtain ⟨i, hi, -⟩ := Option.map_eq_some_iff.1 hshown
  have hname : name ∈ r'.paramNames a := by
    by_contra hno
    exact nomatch (List.idxOf?_eq_none_iff.2 hno).symm.trans hi
  exact ⟨a, h.way.around_eq c ▸ ha, h.obtainable_of_shown hname⟩

/-- What is committed for a class borrows its names from classes that could have been
obtained. -/
theorem Grounded.declarers_of_commits
    (hn : ∀ c, TypeParam.Numbered (.ofClass c) (r.typeParams (.ofClass c))) {r₀ r₁ r₂ : Registry}
    (h₀ : p.Grounded r r₀) (hc : r₀.Commits (p.Grounded r) r₁ (.ofClass c) (p.signature? r c) r₂) :
    p.Shows r r c ∨ ∀ name ∈ p.borrowedNames r c,
      ∃ a ∈ r.around c, name ∈ p.declaredNames r a ∧ p.Obtainable r r₁.pending a := by
  generalize hsignature : p.signature? r c = signature at hc
  cases hc with
  | classSignature rm parse before after meaning =>
    refine .inr fun name hname => ?_
    rw [borrowedNames, classSig?_eq_some hsignature parse] at hname
    obtain ⟨v, hv⟩ := Lexicon.exists_var?_of_classTypes meaning hname
    obtain ⟨a, ha, hdeclared, hobtainable⟩ := (before.2 h₀).exists_declarer hn hv
    exact ⟨a, ha, hdeclared, hobtainable.mono after.1.pending_subset⟩
  | classHeader => exact .inl (shows_of_unsigned hsignature)

/-- **That is stable under resolutions of classes**, each from what the pool has for it. -/
theorem stable_grounded (hn : ∀ c, TypeParam.Numbered (.ofClass c) (r.typeParams (.ofClass c))) :
    Registry.Stable (p.Grounded r) fun c signature => signature = p.signature? r c where
  mark {r' c} h hs := by
    refine ⟨(stable_partway hn).mark h.way hs, ?_⟩
    rw [Registry.pending_setStage (by simp [hs]) (by simp)]
    exact h.resolved
  unmark {r' c} h hs := by
    refine ⟨(stable_partway hn).unmark h.way hs, ?_⟩
    rw [Registry.pending_setStage (by simp [hs]) (by simp)]
    exact h.resolved
  commit := by
    rintro r₀ r₁ r₂ c _ rfl h₀ h₁ hadv hs hc
    have hway := h₀.way.commit hn h₁.way hadv hs (hc.mono h₀ fun _ => Grounded.way)
    obtain ⟨e, he, hmarked⟩ := Option.map_eq_some_iff.1 hs
    have hfound := hadv.classAt?_eq_some he (by simp [hmarked])
    obtain ⟨f, rfl, hf⟩ := hc.exists_modifyClass
    have hpending := Registry.pending_modifyClass (f := f) (Option.isSome_of_eq_some hfound) hf
    have hsub : (r₁.modifyClass c f).pending ⊆ r₁.pending := fun d hd => (hpending ▸ hd).1
    refine ⟨hway, fun d hd => ?_⟩
    by_cases hdc : d = c
    · subst hdc
      rcases h₀.declarers_of_commits hn hc with hknown | hdeclarers
      · exact .known hknown
      · refine obtainable_of_exists hd fun name hname => ?_
        obtain ⟨a, ha, hdeclared, hobtainable⟩ := hdeclarers name hname
        exact ⟨a, ha, hdeclared, hobtainable.mono hsub⟩
    · exact (h₁.resolved d fun hd' => hd (hpending ▸ ⟨hd', hdc⟩)).mono hsub

/-! ### What a class comes to -/

section Lexically

variable (p : Pool) (r : Registry)

/-- **What the class `c` comes to if names are read lexically**, its entry being `e` to begin
with: every class around it shows what it declares. -/
def Lexically (c : ClassId) (e e' : ClassEntry) : Prop := p.Outcome r (r.around c) c e e'

/-- **Nothing is in the way of the class `c`** that is read while the classes in `busy` are
being resolved: whenever its signature borrows a name, the innermost class around that declares
the name can be obtained. -/
def IsClear (busy : Set ClassId) (c : ClassId) : Prop :=
  ∀ name ∈ p.borrowedNames r c, ∀ a, p.declarer? r c name = some a → p.Obtainable r busy a

/-- What is known of a class that was begun while the classes in `busy` were being resolved, and
that is resolved to the entry `e'`. -/
structure Settled (busy : Set ClassId) (c : ClassId) (e' : ClassEntry) : Prop where
  fits : p.Fits r c
  lexically_iff : (∀ d, p.Fits r d) → ∀ e, r.classAt? c = some e →
    (p.Lexically r c e e' ↔ p.IsClear r busy c)

end Lexically

variable {res : Resolution} {q : Progress} {entry : ClassEntry}

/-- A class that is resolved from its header borrows no names. -/
theorem settled_of_unsigned (busy : Set ClassId) {r₀ : Registry} {superclass : Option ClassId}
    {interfaces : List ClassId} (h : p.Partway r r₀) (found : p.signature? r c = none)
    (hc : r₀.classAt? c = some entry) (hmarked : entry.stage = .resolving)
    (hsuper : entry.erasedSuper.mapM (r₀.lexiconAround c).classNamed = .ok superclass)
    (hinterfaces :
      entry.erasedInterfaces.mapM (r₀.lexiconAround c).classNamed = .ok interfaces) :
    p.Settled r busy c (entry.fillErased superclass interfaces) where
  fits text htext := nomatch found.symm.trans htext
  lexically_iff _ e he := by
    obtain rfl := h.marked he hc hmarked
    refine iff_of_true (h.outcome_fillErased (r.around c) found hsuper hinterfaces) ?_
    intro name hname
    rw [borrowedNames, classSig?_eq_none found] at hname
    cases hname

/-- **When names are read lexically**: if nothing is in the way where the class is begun. -/
theorem settled_of_signature {types : ClassTypes} {text : String} {sig : ClassSig}
    (hn : ∀ c, TypeParam.Numbered (.ofClass c) (r.typeParams (.ofClass c)))
    (hobtained : (∀ d, p.Fits r d) → ∀ a ∈ r.around c,
      p.Obtainable r q.workspace.registry.beingResolved a → p.Shows r (res.reading c q) a)
    (hbegun : p.Grounded r q.workspace.registry)
    (hreading : q.workspace.registry.Evolves (p.Grounded r) (res.reading c q))
    (hc : q.workspace.registry.classAt? c = some entry) (hmarked : entry.stage = .resolving)
    (hsignature : p.signature? r c = some text) (hparse : ClassSig.parse text = .ok sig)
    (hform : r.AdmitsForm p.options.verifyErasure c sig)
    (htypes : ((res.reading c q).lexiconAround c).classTypes entry.typeParams c sig = .ok types) :
    p.Settled r q.workspace.registry.beingResolved c (types.fill entry) where
  fits text' htext' := by
    cases hsignature.symm.trans htext'
    exact ⟨sig, hparse, hform⟩
  lexically_iff hfits e he := by
    have hread := hreading.2 hbegun
    have hsig : p.borrowedNames r c = sig.borrowedNames := by
      rw [borrowedNames, classSig?_eq_some hsignature hparse]
      rfl
    obtain rfl := hbegun.way.marked he hc hmarked
    have hknown : ∀ a, (res.reading c q).paramNames a =
        p.shownNames r (res.reading c q).resolvedClasses a := fun a =>
      hread.way.paramNames_eq Registry.mem_resolvedClasses
    have hout : p.Outcome r (res.reading c q).resolvedClasses c e
        (types.fill { e with stage := .resolving }) :=
      hread.way.outcome_fill (e := e) hn (fun a _ => hknown a) hsignature hparse htypes
    have haround : ∀ a ∈ r.around c, p.shownNames r (r.around c) a = p.declaredNames r a :=
      fun a ha => if_pos ha
    constructor
    · -- a name that is read lexically is shown where it is read, so it could be obtained
      intro hlexical name hname a ha
      have hbinding := hout.binding?_eq hlexical hname
      obtain ⟨hmem, hdeclared⟩ := declares_of_declarer? ha
      rw [binding?_of_shown ha (haround a hmem)] at hbinding
      obtain ⟨i, hi⟩ := exists_idxOf? hdeclared
      rw [hi, Option.map_some] at hbinding
      obtain ⟨a', -, howner, hshown⟩ := exists_of_binding? hbinding
      cases howner
      rw [← hknown] at hshown
      refine (hread.obtainable_of_shown hshown).2.mono fun d hd => ?_
      exact Registry.beingResolved_subset_pending (hreading.1.beingResolved_eq.symm ▸ hd)
    · intro hclear
      refine hout.congr fun name hname => ?_
      obtain ⟨v, hv⟩ := Lexicon.exists_var?_of_classTypes htypes (hsig ▸ hname)
      obtain ⟨d, hd, hdeclared, -⟩ := hread.exists_declarer hn hv
      obtain ⟨a, ha⟩ := exists_declarer? hd hdeclared
      have hmem := (declares_of_declarer? ha).1
      have hshows := hobtained hfits a hmem (hclear name hname a ha)
      rw [binding?_of_shown ha ((hknown a).symm.trans hshows),
        binding?_of_shown ha (haround a hmem)]

end Pool

end JavaGenerics
