import JavaGenerics.Proofs.Binding
import JavaGenerics.Proofs.Resemblance
import JavaGenerics.Proofs.VariableNames
import JavaGenerics.Resolution.Collaborator

/-!
# Partway through a pool

A pool has signatures for a number of classes, and these are resolved one after the other,
each with all that it asks for on the way. At any time a class is as it was to begin with,
but for a mark, or it is resolved; and then it is what its signature means by what the
classes around it showed at some time, or the classes in its header if it has no signature
(`JavaGenerics.Pool.Outcome`).

That is an invariant of everything that a pool does, nests of resolutions included
(`JavaGenerics.Pool.stable_partway`). It says nothing yet of *when* the signature was read,
that is, which classes were resolved by then; but whichever they were, names of classes,
links outwards and the names of type parameters come out the same.
-/

namespace JavaGenerics

namespace Pool

variable {p : Pool} {r r' : Registry} {resolved resolved' : List ClassId} {c : ClassId}
  {e e' e₁ e₂ : ClassEntry}

/-! ### Outcomes -/

/-- **What the class `c` is resolved to**, its entry being `e` to begin with, when the
classes in `resolved` are resolved: the meaning of its signature; or the classes in its
erased header, if it has no signature. -/
inductive Outcome (p : Pool) (r : Registry) (resolved : List ClassId) (c : ClassId)
    (e : ClassEntry) : ClassEntry → Prop where
  | signature {text : String} {sig : ClassSig} {types : ClassTypes}
      (found : p.signature? r c = some text) (parse : ClassSig.parse text = .ok sig)
      (meaning : (p.lexicon r resolved c).classTypes e.typeParams c sig = .ok types) :
      Outcome p r resolved c e (types.fill e)
  | header {superclass : Option ClassId} {interfaces : List ClassId}
      (found : p.signature? r c = none)
      (superclass_eq : e.erasedSuper.mapM (p.lexicon r resolved c).classNamed = .ok superclass)
      (interfaces_eq :
        e.erasedInterfaces.mapM (p.lexicon r resolved c).classNamed = .ok interfaces) :
      Outcome p r resolved c e (e.fillErased superclass interfaces)

/-- A class has at most one outcome. -/
theorem Outcome.unique (h₁ : p.Outcome r resolved c e e₁) (h₂ : p.Outcome r resolved c e e₂) :
    e₁ = e₂ := by
  cases h₁ with
  | signature found parse meaning =>
    cases h₂ with
    | signature found' parse' meaning' =>
      cases found.symm.trans found'
      cases parse.symm.trans parse'
      cases meaning.symm.trans meaning'
      rfl
    | header found' _ _ => cases found.symm.trans found'
  | header found superclass_eq interfaces_eq =>
    cases h₂ with
    | signature found' _ _ => cases found.symm.trans found'
    | header _ superclass_eq' interfaces_eq' =>
      cases superclass_eq.symm.trans superclass_eq'
      cases interfaces_eq.symm.trans interfaces_eq'
      rfl

/-- What is filled in can be read off. -/
theorem fill_inj {types types' : ClassTypes} (h : types.fill e = types'.fill e) :
    types = types' := by
  cases types
  cases types'
  simp only [ClassTypes.fill, ClassEntry.mk.injEq, Option.some.injEq] at h
  obtain ⟨-, -, -, -, -, rfl, rfl, rfl, -⟩ := h
  rfl

theorem classSig?_eq_some {text : String} {sig : ClassSig} (found : p.signature? r c = some text)
    (parse : ClassSig.parse text = .ok sig) : p.classSig? r c = some sig := by
  unfold classSig?
  rw [found, Option.bind_some, parse]
  rfl

theorem classSig?_eq_none (found : p.signature? r c = none) : p.classSig? r c = none := by
  unfold classSig?
  rw [found]
  rfl

namespace Outcome

/-- **The outcome depends on what the borrowed names stand for**, and on nothing else that
is resolved. -/
theorem congr (h : p.Outcome r resolved c e e')
    (hborrowed : ∀ name ∈ p.borrowedNames r c,
      p.binding? r resolved c name = p.binding? r resolved' c name) :
    p.Outcome r resolved' c e e' := by
  cases h with
  | @signature text sig types found parse meaning =>
    rw [borrowedNames, classSig?_eq_some found parse] at hborrowed
    have hrefines : (p.lexicon r resolved c).Refines (p.lexicon r resolved' c) sig.borrowedNames :=
      ⟨rfl, fun name hname v hv => (hborrowed name hname).symm.trans hv⟩
    exact .signature found parse (Lexicon.classTypes_mono hrefines meaning)
  | header found superclass_eq interfaces_eq => exact .header found superclass_eq interfaces_eq

/-- **The outcome tells what the borrowed names stand for.** -/
theorem binding?_eq (h : p.Outcome r resolved c e e') (h' : p.Outcome r resolved' c e e')
    {name : String} (hname : name ∈ p.borrowedNames r c) :
    p.binding? r resolved c name = p.binding? r resolved' c name := by
  cases h with
  | @signature text sig types found parse meaning =>
    rw [borrowedNames, classSig?_eq_some found parse] at hname
    generalize hfill : types.fill e = e' at h'
    cases h' with
    | @signature text' sig' types' found' parse' meaning' =>
      cases found.symm.trans found'
      cases parse.symm.trans parse'
      cases fill_inj hfill
      exact Lexicon.var?_eq_of_classTypes meaning meaning' hname
    | header found' _ _ => cases found.symm.trans found'
  | header found _ _ =>
    rw [borrowedNames, classSig?_eq_none found] at hname
    cases hname

variable (h : p.Outcome r resolved c e e')

include h

theorem name_eq : e'.name = e.name := by cases h <;> rfl

theorem enclosing_eq : e'.enclosing = e.enclosing := by cases h <;> rfl

theorem stage_eq : e'.stage = .resolved := by cases h <;> rfl

theorem renewed : TypeParam.Renewed (.ofClass c) e.typeParams e'.typeParams := by
  cases h with
  | signature _ _ meaning =>
    exact Lexicon.introduce_renewed (Lexicon.classTypes_eq_ok.1 meaning).1
  | header => exact .refl _ _

/-- A class that is resolved has the type parameters it declares. -/
theorem names_eq (he : r.classAt? c = some e) :
    e'.typeParams.map (·.name) = p.declaredNames r c := by
  unfold declaredNames Registry.paramNames
  rw [Registry.typeParams_ofClass he]
  cases h with
  | @signature text sig types found parse meaning =>
    obtain ⟨-, hdeclared, hparams⟩ :=
      Lexicon.introduce_eq_ok.1 (Lexicon.classTypes_eq_ok.1 meaning).1
    change types.typeParams.map (·.name) = _
    rw [Lexicon.params_names hparams, classSig?_eq_some found parse]
    split
    · rfl
    · rename_i hne
      rcases Lexicon.checkDeclared_eq_ok.1 hdeclared with hnil | hnames
      · exact absurd (by rw [hnil]; rfl) hne
      · exact hnames
  | header found _ _ =>
    change e.typeParams.map (·.name) = _
    rw [classSig?_eq_none found]
    split
    · rename_i hnil
      rw [List.isEmpty_iff.1 hnil]
      rfl
    · rfl

end Outcome

/-! ### Registries on the way -/

/-- An entry of `c` that may be met on the way: the one to begin with, but for its
mark, or an outcome. -/
def EntryPartway (p : Pool) (r : Registry) (c : ClassId) (e e' : ClassEntry) : Prop :=
  (e' = { e with stage := e'.stage } ∧ e'.stage ≠ .resolved) ∨ ∃ known, p.Outcome r known c e e'

/-- **A registry that may be met on the way** from `r`. -/
structure Partway (p : Pool) (r r' : Registry) : Prop where
  size_eq : r'.classes.size = r.classes.size
  entries : ∀ c e e', r.classAt? c = some e → r'.classAt? c = some e' → p.EntryPartway r c e e'

theorem EntryPartway.initial (h : p.EntryPartway r c e e') (hs : e'.stage ≠ .resolved) :
    e' = { e with stage := e'.stage } := by
  rcases h with ⟨heq, -⟩ | ⟨known, houtcome⟩
  · exact heq
  · exact absurd houtcome.stage_eq hs

/-- A mark may be set and taken away. -/
theorem EntryPartway.setStage (h : p.EntryPartway r c e e') (hs : e'.stage ≠ .resolved)
    {s : Stage} (hs' : s ≠ .resolved) : p.EntryPartway r c e { e' with stage := s } := by
  refine Or.inl ⟨?_, hs'⟩
  rw [h.initial hs]

namespace Partway

/-- A registry in which nothing is resolved is on the way from itself. -/
theorem refl (hu : ∀ c e, r.classAt? c = some e → e.stage ≠ .resolved) : p.Partway r r := by
  refine ⟨rfl, fun c e e' he he' => ?_⟩
  cases he.symm.trans he'
  exact Or.inl ⟨rfl, hu c e he⟩

theorem exists_classAt? (h : p.Partway r r') (he : r.classAt? c = some e) :
    ∃ e', r'.classAt? c = some e' ∧ p.EntryPartway r c e e' := by
  rcases he' : r'.classAt? c with _ | e'
  · rw [Registry.classAt?_eq_none_iff, h.size_eq, ← Registry.classAt?_eq_none_iff, he] at he'
    cases he'
  · exact ⟨e', rfl, h.entries c e e' he he'⟩

theorem classAt?_eq_none (h : p.Partway r r') (hc : r.classAt? c = none) :
    r'.classAt? c = none := by
  rw [Registry.classAt?_eq_none_iff] at hc ⊢
  rw [h.size_eq]
  exact hc

theorem modifyClass (h : p.Partway r r') {f : ClassEntry → ClassEntry}
    (hf : ∀ e e', r.classAt? c = some e → r'.classAt? c = some e' →
      p.EntryPartway r c e (f e')) : p.Partway r (r'.modifyClass c f) := by
  refine ⟨(r'.size_modifyClass c f).trans h.size_eq, fun d e e' he he' => ?_⟩
  by_cases hd : d = c
  · subst hd
    rw [Registry.classAt?_modifyClass_self] at he'
    obtain ⟨e₁, he₁, rfl⟩ := Option.map_eq_some_iff.1 he'
    exact hf e e₁ he he₁
  · rw [Registry.classAt?_modifyClass_of_ne _ hd] at he'
    exact h.entries d e e' he he'

/-- What neither marks nor outcomes change is as it was to begin with. -/
theorem map_classAt? {α : Type} (h : p.Partway r r') (f : ClassEntry → α)
    (hstage : ∀ (e : ClassEntry) s, f { e with stage := s } = f e)
    (houtcome : ∀ known c e e', p.Outcome r known c e e' → f e' = f e) (c : ClassId) :
    (r'.classAt? c).map f = (r.classAt? c).map f := by
  rcases he : r.classAt? c with _ | e
  · rw [h.classAt?_eq_none he]
  · obtain ⟨e', he', hinitial | ⟨known, hout⟩⟩ := h.exists_classAt? he
    · rw [he', Option.map_some, Option.map_some, hinitial.1, hstage]
    · rw [he', Option.map_some, Option.map_some, houtcome known c e e' hout]

theorem sameNames (h : p.Partway r r') : r.SameNames r' :=
  h.map_classAt? (·.name) (fun _ _ => rfl) fun _ _ _ _ => Outcome.name_eq

theorem enclosing?_eq (h : p.Partway r r') (c : ClassId) : r'.enclosing? c = r.enclosing? c := by
  have henclosing := h.map_classAt? (·.enclosing) (fun _ _ => rfl)
    (fun _ _ _ _ => Outcome.enclosing_eq) c
  have hjoin := congrArg (·.bind id) henclosing
  simpa [Registry.enclosing?, Option.bind_map, Function.comp_def] using hjoin

theorem around_eq (h : p.Partway r r') (c : ClassId) : r'.around c = r.around c := by
  unfold Registry.around
  rw [Registry.enclosingChain_congr h.enclosing?_eq]

theorem signature?_eq (h : p.Partway r r') (c : ClassId) :
    p.signature? r' c = p.signature? r c := by
  have hjoin := congrArg (·.bind fun name => p.signatures.lookup name) (h.sameNames c)
  simpa [signature?, Option.bind_map, Function.comp_def] using hjoin

theorem numbered (h : p.Partway r r')
    (hn : ∀ c, TypeParam.Numbered (.ofClass c) (r.typeParams (.ofClass c))) (c : ClassId) :
    TypeParam.Numbered (.ofClass c) (r'.typeParams (.ofClass c)) := by
  rcases he : r.classAt? c with _ | e
  · simp [Registry.typeParams, h.classAt?_eq_none he, TypeParam.numbered_nil]
  · have hnum := hn c
    rw [Registry.typeParams_ofClass he] at hnum
    obtain ⟨e', he', hinitial | ⟨known, hout⟩⟩ := h.exists_classAt? he
    · rw [Registry.typeParams_ofClass he', hinitial.1]
      exact hnum
    · rw [Registry.typeParams_ofClass he']
      exact hout.renewed.numbered hnum

end Partway

end Pool

/-- The classes that are resolved. -/
def Registry.resolvedClasses (r : Registry) : List ClassId :=
  ((List.range r.classes.size).map ClassId.mk).filter fun c =>
    r.stage? (.ofClass c) = some .resolved

theorem Registry.mem_resolvedClasses {r : Registry} {c : ClassId} :
    c ∈ r.resolvedClasses ↔ r.stage? (.ofClass c) = some .resolved := by
  simp only [resolvedClasses, List.mem_filter, List.mem_map, List.mem_range, decide_eq_true_eq,
    and_iff_right_iff_imp]
  intro hs
  obtain ⟨e, he, -⟩ := Option.map_eq_some_iff.1 hs
  exact ⟨c.index, (Array.getElem?_eq_some_iff.1 he).1, rfl⟩

namespace Pool

variable {p : Pool} {r r' : Registry} {known : List ClassId} {c : ClassId} {e e' : ClassEntry}

/-- **Every class shows what it declares once it is resolved**, and before that what was
known of it beforehand. -/
theorem Partway.paramNames_eq (h : p.Partway r r')
    (hknown : c ∈ known ↔ r'.stage? (.ofClass c) = some .resolved) :
    r'.paramNames c = p.shownNames r known c := by
  unfold shownNames
  rcases he : r.classAt? c with _ | e
  · have hnone := h.classAt?_eq_none he
    have hc : c ∉ known := fun hc => by simpa [Registry.stage?, hnone] using hknown.1 hc
    rw [if_neg hc, Registry.paramNames, Registry.paramNames]
    simp [Registry.typeParams, he, hnone]
  · obtain ⟨e', he', hinitial | ⟨known', hout⟩⟩ := h.exists_classAt? he
    · have hc : c ∉ known := fun hc => hinitial.2 (by
        simpa [Registry.stage?, he'] using hknown.1 hc)
      rw [if_neg hc, Registry.paramNames, Registry.paramNames, Registry.typeParams_ofClass he',
        Registry.typeParams_ofClass he, hinitial.1]
    · have hc : c ∈ known := hknown.2 (by simp [Registry.stage?, he', hout.stage_eq])
      rw [if_pos hc, Registry.paramNames, Registry.typeParams_ofClass he', hout.names_eq he]

/-- The names around a class mean what they should, when the resolved classes are `known`. -/
theorem Partway.lexiconAround_eq (h : p.Partway r r')
    (hn : ∀ c, TypeParam.Numbered (.ofClass c) (r.typeParams (.ofClass c)))
    (hknown : ∀ a ∈ r.around c, r'.paramNames a = p.shownNames r known a) :
    r'.lexiconAround c = p.lexicon r known c :=
  Pool.lexiconAround_eq (h.numbered hn) h.sameNames.lookup_eq h.enclosing?_eq hknown

/-! ### Resolutions on the way -/

/-- A class that is marked has kept the entry it had to begin with. -/
theorem Partway.marked (h : p.Partway r r') (he : r.classAt? c = some e)
    (he' : r'.classAt? c = some e') (hs : e'.stage = .resolving) :
    e' = { e with stage := .resolving } := by
  rw [← hs]
  exact (h.entries c e e' he he').initial (by simp [hs])

/-- **What a signature comes to on the way is an outcome**: that by the classes whose type
parameters were shown where it was read. -/
theorem Partway.outcome_fill (h : p.Partway r r')
    (hn : ∀ c, TypeParam.Numbered (.ofClass c) (r.typeParams (.ofClass c)))
    (hknown : ∀ a ∈ r.around c, r'.paramNames a = p.shownNames r known a) {text : String}
    {sig : ClassSig} {types : ClassTypes} (found : p.signature? r c = some text)
    (parse : ClassSig.parse text = .ok sig)
    (meaning : (r'.lexiconAround c).classTypes e.typeParams c sig = .ok types) :
    p.Outcome r known c e (types.fill e) := by
  rw [h.lexiconAround_eq hn hknown] at meaning
  exact .signature found parse meaning

/-- So is what a header comes to, whatever is resolved. -/
theorem Partway.outcome_fillErased (h : p.Partway r r') (known : List ClassId)
    {superclass : Option ClassId} {interfaces : List ClassId} (found : p.signature? r c = none)
    (superclass_eq : e.erasedSuper.mapM (r'.lexiconAround c).classNamed = .ok superclass)
    (interfaces_eq : e.erasedInterfaces.mapM (r'.lexiconAround c).classNamed = .ok interfaces) :
    p.Outcome r known c e (e.fillErased superclass interfaces) := by
  have hnamed : (r'.lexiconAround c).classNamed = (p.lexicon r known c).classNamed :=
    Lexicon.classNamed_congr (funext h.sameNames.lookup_eq)
  rw [hnamed] at superclass_eq interfaces_eq
  exact .header found superclass_eq interfaces_eq

/-- What is committed on the way leads to a registry on the way. -/
theorem Partway.commit (hn : ∀ c, TypeParam.Numbered (.ofClass c) (r.typeParams (.ofClass c)))
    {r₀ r₁ r₂ : Registry} (h₀ : p.Partway r r₀) (h₁ : p.Partway r r₁) (hadv : r₀.Advances r₁)
    (hs : r₀.stage? (.ofClass c) = some .resolving)
    (hc : r₀.Commits (p.Partway r) r₁ (.ofClass c) (p.signature? r c) r₂) :
    p.Partway r r₂ := by
  obtain ⟨e₁, he₀, hmarked⟩ := Option.map_eq_some_iff.1 hs
  have he₁ : r₁.classAt? c = some e₁ := hadv.classAt?_eq_some he₀ (by simp [hmarked])
  generalize hsignature : p.signature? r c = signature at hc
  cases hc with
  | classSignature rm parse before after meaning =>
    refine h₁.modifyClass fun e e' he he' => ?_
    cases he₁.symm.trans he'
    obtain rfl := h₁.marked he he₁ hmarked
    rw [Registry.typeParams_ofClass he₀] at meaning
    -- the scope was found in `rm`, which is itself on the way
    have hm := before.2 h₀
    exact Or.inr ⟨rm.resolvedClasses, hm.outcome_fill hn
      (fun a _ => hm.paramNames_eq Registry.mem_resolvedClasses) hsignature parse meaning⟩
  | classHeader found superclass_eq interfaces_eq =>
    refine h₁.modifyClass fun e e' he he' => ?_
    cases he₁.symm.trans he'
    cases he₀.symm.trans found
    obtain rfl := h₁.marked he he₁ hmarked
    exact Or.inr ⟨[], h₀.outcome_fillErased [] hsignature superclass_eq interfaces_eq⟩

/-- **Being on the way is stable under resolutions of classes**, each from what the pool
has for it. -/
theorem stable_partway
    (hn : ∀ c, TypeParam.Numbered (.ofClass c) (r.typeParams (.ofClass c))) :
    Registry.Stable (p.Partway r) fun c signature => signature = p.signature? r c where
  mark {r' c} h hs := by
    refine h.modifyClass fun e e' he he' => (h.entries c e e' he he').setStage ?_ (by simp)
    have hstage : e'.stage = .unresolved := by simpa [Registry.stage?, he'] using hs
    simp [hstage]
  unmark {r' c} h hs := by
    refine h.modifyClass fun e e' he he' => (h.entries c e e' he he').setStage ?_ (by simp)
    have hstage : e'.stage = .resolving := by simpa [Registry.stage?, he'] using hs
    simp [hstage]
  commit := by
    rintro r₀ r₁ r₂ c _ rfl h₀ h₁ hadv hs hc
    exact h₀.commit hn h₁ hadv hs hc

/-- The pool serves what it has. -/
theorem serves_signature? (p : Pool) (r : Registry) :
    (Collaborator.pool p).Serves (p.Partway r) fun c signature => signature = p.signature? r c := by
  intro r' name c h hlookup
  obtain ⟨e, he, hname⟩ := Registry.name_of_lookup hlookup
  rw [← h.signature?_eq c]
  unfold signature?
  rw [he, Option.bind_some, hname]

end Pool

end JavaGenerics
