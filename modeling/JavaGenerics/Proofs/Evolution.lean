import JavaGenerics.Proofs.Progress

/-!
# How a registry may change under a resolution

While one declaration is resolved, others may be resolved on demand. This file says
what can happen to a registry in the meantime (`JavaGenerics.Registry.Advances`):
members stay as they are, and a class stays as it is or goes in one move from
unresolved to resolved, keeping everything the class file records of it and the names
of its type parameters.

The relation is a preorder, so any number of such changes in any order is again one.
What matters to a resolution under way is what it fixes: the names of classes, the
links outwards, and every class that is already being resolved.
-/

namespace JavaGenerics

/-! ### Type parameters -/

/-- Type parameters that are numbered from zero as those of `owner`. -/
def TypeParam.Numbered (owner : Declarer) (ps : List TypeParam) : Prop :=
  ps.map (·.var) = (List.range ps.length).map (TypeVar.mk owner)

/-- What may become of the type parameters `ps` of `owner`: they stay, or they are
given anew – under the same names, if there were any. -/
def TypeParam.Renewed (owner : Declarer) (ps ps' : List TypeParam) : Prop :=
  ps' = ps ∨ (ps = [] ∨ ps'.map (·.name) = ps.map (·.name)) ∧ Numbered owner ps'

namespace TypeParam

variable {owner : Declarer} {ps ps' ps'' : List TypeParam}

theorem numbered_nil : Numbered owner [] := rfl

theorem Numbered.var_eq (h : Numbered owner ps) {i : Nat} {p : TypeParam}
    (hp : ps[i]? = some p) : p.var = ⟨owner, i⟩ := by
  have hlt : i < ps.length := (List.getElem?_eq_some_iff.1 hp).1
  have hi := congrArg (·[i]?) h
  simp only [List.getElem?_map, hp, Option.map_some, List.getElem?_range hlt] at hi
  exact Option.some.inj hi

theorem Renewed.refl (owner : Declarer) (ps : List TypeParam) : Renewed owner ps ps := Or.inl rfl

theorem Renewed.trans (h : Renewed owner ps ps') (h' : Renewed owner ps' ps'') :
    Renewed owner ps ps'' := by
  rcases h with rfl | ⟨hn, hnum⟩
  · exact h'
  · rcases h' with rfl | ⟨hn', hnum'⟩
    · exact Or.inr ⟨hn, hnum⟩
    · refine Or.inr ⟨?_, hnum'⟩
      -- names given once are kept from then on
      rcases hn with hn | hn
      · exact Or.inl hn
      · rcases hn' with rfl | hn'
        · left
          simpa using hn.symm
        · exact Or.inr (hn'.trans hn)

theorem Renewed.numbered (h : Renewed owner ps ps') (hps : Numbered owner ps) :
    Numbered owner ps' := by
  rcases h with rfl | ⟨-, h⟩
  · exact hps
  · exact h

/-- A type parameter that is there stays there, under its name. -/
theorem Renewed.getElem? (h : Renewed owner ps ps') {i : Nat} {p : TypeParam}
    (hp : ps[i]? = some p) :
    ∃ p', ps'[i]? = some p' ∧ p'.name = p.name ∧ (p.var = ⟨owner, i⟩ → p'.var = p.var) := by
  rcases h with rfl | ⟨rfl | hn, hnum⟩
  · exact ⟨p, hp, rfl, fun _ => rfl⟩
  · simp at hp
  · have hi := congrArg (·[i]?) hn
    simp only [List.getElem?_map, hp, Option.map_some] at hi
    obtain ⟨p', hp', hname⟩ := Option.map_eq_some_iff.1 hi
    exact ⟨p', hp', hname, fun hv => (hnum.var_eq hp').trans hv.symm⟩

end TypeParam

namespace Lexicon

variable {l : Lexicon} {declared : List TypeParam} {owner : Declarer} {ps : List TypeParamSig}
  {tps : List TypeParam}

/-- Type parameters whose bounds are resolved are numbered, and as many as are written. -/
theorem params_numbered (h : l.params owner 0 ps = .ok tps) :
    TypeParam.Numbered owner tps ∧ tps.length = ps.length := by
  have hlength : tps.length = ps.length := by
    simpa using congrArg List.length (params_names h)
  refine ⟨?_, hlength⟩
  unfold TypeParam.Numbered
  rw [params_vars h, hlength, List.range_eq_range']

/-- What is introduced is numbered, and as many as are written. -/
theorem introduce_numbered (h : l.introduce declared owner ps = .ok tps) :
    TypeParam.Numbered owner tps ∧ tps.length = ps.length :=
  params_numbered (introduce_eq_ok.1 h).2.2

/-- Type parameters that a declaration introduces may take the place of those that it
has already. -/
theorem introduce_renewed (h : l.introduce declared owner ps = .ok tps) :
    TypeParam.Renewed owner declared tps := by
  obtain ⟨-, hdeclared, hparams⟩ := introduce_eq_ok.1 h
  refine Or.inr ⟨?_, (introduce_numbered h).1⟩
  rw [params_names hparams]
  exact checkDeclared_eq_ok.1 hdeclared

end Lexicon

/-! ### Changing one entry -/

namespace Registry

variable {r r' r'' : Registry}

theorem classAt?_modifyClass (r : Registry) (c d : ClassId) (f : ClassEntry → ClassEntry) :
    (r.modifyClass c f).classAt? d = if d = c then (r.classAt? c).map f else r.classAt? d := by
  unfold classAt? modifyClass
  rw [Array.getElem?_modify]
  by_cases h : d = c
  · rw [if_pos (by rw [h]), if_pos h, h]
  · have hi : c.index ≠ d.index := fun hi => h (by cases c; cases d; cases hi; rfl)
    rw [if_neg hi, if_neg h]

@[simp] theorem classAt?_modifyClass_self (r : Registry) (c : ClassId)
    (f : ClassEntry → ClassEntry) :
    (r.modifyClass c f).classAt? c = (r.classAt? c).map f := by
  rw [classAt?_modifyClass, if_pos rfl]

theorem classAt?_modifyClass_of_ne (r : Registry) {c d : ClassId} (h : d ≠ c)
    (f : ClassEntry → ClassEntry) : (r.modifyClass c f).classAt? d = r.classAt? d := by
  rw [classAt?_modifyClass, if_neg h]

@[simp] theorem size_modifyClass (r : Registry) (c : ClassId) (f : ClassEntry → ClassEntry) :
    (r.modifyClass c f).classes.size = r.classes.size := Array.size_modify

theorem typeParams_ofClass {c : ClassId} {e : ClassEntry} (h : r.classAt? c = some e) :
    r.typeParams (.ofClass c) = e.typeParams := by
  simp [typeParams, h]

theorem classAt?_eq_none_iff {c : ClassId} : r.classAt? c = none ↔ r.classes.size ≤ c.index :=
  Array.getElem?_eq_none_iff

theorem methodAt?_modifyMethod (r : Registry) (m n : MethodId) (f : MethodEntry → MethodEntry) :
    (r.modifyMethod m f).methodAt? n = if n = m then (r.methodAt? m).map f else r.methodAt? n := by
  unfold methodAt? modifyMethod
  rw [Array.getElem?_modify]
  by_cases h : n = m
  · rw [if_pos (by rw [h]), if_pos h, h]
  · have hi : m.index ≠ n.index := fun hi => h (by cases m; cases n; cases hi; rfl)
    rw [if_neg hi, if_neg h]

theorem fieldAt?_modifyField (r : Registry) (x y : FieldId) (f : FieldEntry → FieldEntry) :
    (r.modifyField x f).fieldAt? y = if y = x then (r.fieldAt? x).map f else r.fieldAt? y := by
  unfold fieldAt? modifyField
  rw [Array.getElem?_modify]
  by_cases h : y = x
  · rw [if_pos (by rw [h]), if_pos h, h]
  · have hi : x.index ≠ y.index := fun hi => h (by cases x; cases y; cases hi; rfl)
    rw [if_neg hi, if_neg h]

end Registry

/-! ### What depends on names and links -/

/-- Registries that agree on the names of classes look names up alike. -/
theorem Registry.lookup_congr {r r' : Registry}
    (h : ∀ c, (r'.classAt? c).map (·.name) = (r.classAt? c).map (·.name)) (name : String) :
    r'.lookup name = r.lookup name := by
  have hnames : r'.classes.map (·.name) = r.classes.map (·.name) := by
    refine Array.ext_getElem? fun i => ?_
    simpa [classAt?] using h ⟨i⟩
  have hfind := congrArg (Array.findIdx? (· == name)) hnames
  rw [Array.findIdx?_map, Array.findIdx?_map] at hfind
  unfold lookup
  exact congrArg (Option.map ClassId.mk) hfind

/-- The class that a name is looked up to has this name. -/
theorem Registry.name_of_lookup {r : Registry} {name : String} {c : ClassId}
    (h : r.lookup name = some c) : ∃ e, r.classAt? c = some e ∧ e.name = name := by
  obtain ⟨i, hi, rfl⟩ := Option.map_eq_some_iff.1 h
  obtain ⟨hlt, hname, -⟩ := Array.findIdx?_eq_some_iff_getElem.1 hi
  exact ⟨r.classes[i], Array.getElem?_eq_getElem hlt, by simpa using hname⟩

theorem Registry.outward_eq (r : Registry) (seen : List ClassId) (c : ClassId) :
    r.outward seen c = match r.enclosing? c with
      | none => ([], false)
      | some outer =>
        if outer ∈ seen then ([], true)
        else
          (outer :: (r.outward (outer :: seen) outer).1, (r.outward (outer :: seen) outer).2) := by
  rw [outward]
  split <;> rename_i h <;> rw [h]

/-- Registries that agree on the links outwards agree on every walk along them. -/
theorem Registry.outward_congr {r r' : Registry} (h : ∀ c, r'.enclosing? c = r.enclosing? c)
    (seen : List ClassId) (c : ClassId) : r'.outward seen c = r.outward seen c := by
  induction seen, c using outward.induct r with
  | case1 seen c hnone => rw [outward_eq r', outward_eq r, h, hnone]
  | case2 seen c outer hsome hseen =>
    rw [outward_eq r', outward_eq r, h, hsome]
    dsimp only
    rw [if_pos hseen, if_pos hseen]
  | case3 seen c outer hsome hseen ih =>
    rw [outward_eq r', outward_eq r, h, hsome]
    dsimp only
    rw [if_neg hseen, if_neg hseen, ih]

theorem Registry.enclosingChain_congr {r r' : Registry}
    (h : ∀ c, r'.enclosing? c = r.enclosing? c) (c : ClassId) :
    r'.enclosingChain c = r.enclosingChain c := by
  unfold enclosingChain
  rw [outward_congr h]

/-! ### The relation -/

/-- What may become of the entry `e` of the class `c` while something else is
resolved. -/
inductive ClassEntry.Advances (c : ClassId) (e : ClassEntry) : ClassEntry → Prop where
  /-- It stays as it is. -/
  | same : Advances c e e
  /-- It was unresolved, and is resolved. -/
  | resolved {typeParams : List TypeParam} (superclass : Option ResolvedType)
      (interfaces : List ResolvedType) (unresolved : e.stage = .unresolved)
      (renewed : TypeParam.Renewed (.ofClass c) e.typeParams typeParams) :
      Advances c e { e with typeParams, superclass, interfaces, stage := .resolved }

namespace ClassEntry.Advances

variable {c : ClassId} {e e' e'' : ClassEntry}

theorem trans (h : e.Advances c e') (h' : e'.Advances c e'') : e.Advances c e'' := by
  cases h with
  | same => exact h'
  | resolved superclass interfaces hu hp =>
    cases h' with
    | same => exact .resolved superclass interfaces hu hp
    | resolved _ _ hu' _ => cases hu'

/-- Only an unresolved class changes. -/
theorem eq_of_stage (h : e.Advances c e') (hs : e.stage ≠ .unresolved) : e' = e := by
  cases h with
  | same => rfl
  | resolved _ _ hu _ => exact absurd hu hs

theorem name_eq (h : e.Advances c e') : e'.name = e.name := by cases h <;> rfl

theorem renewed (h : e.Advances c e') :
    TypeParam.Renewed (.ofClass c) e.typeParams e'.typeParams := by
  cases h with
  | same => exact .refl _ _
  | resolved _ _ _ hp => exact hp

end ClassEntry.Advances

namespace Registry

variable {r r' r'' : Registry}

/-- **What may become of a registry while something else is resolved.** -/
structure Advances (r r' : Registry) : Prop where
  methods_eq : r'.methods = r.methods
  fields_eq : r'.fields = r.fields
  size_eq : r'.classes.size = r.classes.size
  classes : ∀ c e e', r.classAt? c = some e → r'.classAt? c = some e' → e.Advances c e'

namespace Advances

theorem refl (r : Registry) : r.Advances r := by
  refine ⟨rfl, rfl, rfl, fun c e e' h h' => ?_⟩
  cases h.symm.trans h'
  exact .same

theorem exists_classAt? (h : r.Advances r') {c : ClassId} {e : ClassEntry}
    (he : r.classAt? c = some e) : ∃ e', r'.classAt? c = some e' ∧ e.Advances c e' := by
  rcases h' : r'.classAt? c with _ | e'
  · rw [classAt?_eq_none_iff, h.size_eq, ← classAt?_eq_none_iff, he] at h'
    cases h'
  · exact ⟨e', rfl, h.classes c e e' he h'⟩

theorem trans (h : r.Advances r') (h' : r'.Advances r'') : r.Advances r'' := by
  refine ⟨h'.methods_eq.trans h.methods_eq, h'.fields_eq.trans h.fields_eq,
    h'.size_eq.trans h.size_eq, fun c e e'' he he'' => ?_⟩
  obtain ⟨e', he', hadv⟩ := h.exists_classAt? he
  exact hadv.trans (h'.classes c e' e'' he' he'')

theorem classAt?_eq_none (h : r.Advances r') {c : ClassId} (hc : r.classAt? c = none) :
    r'.classAt? c = none := by
  rw [classAt?_eq_none_iff] at hc ⊢
  rw [h.size_eq]
  exact hc

/-- A class that is not unresolved stays as it is. -/
theorem classAt?_eq_some (h : r.Advances r') {c : ClassId} {e : ClassEntry}
    (he : r.classAt? c = some e) (hs : e.stage ≠ .unresolved) : r'.classAt? c = some e := by
  obtain ⟨e', he', hadv⟩ := h.exists_classAt? he
  rw [he', hadv.eq_of_stage hs]

/-- What holds of an entry and depends only on what does not change holds of the
entry that comes of it. -/
theorem map_classAt? {α : Type} (h : r.Advances r') (f : ClassEntry → α)
    (hf : ∀ c e e', e.Advances c e' → f e' = f e) (c : ClassId) :
    (r'.classAt? c).map f = (r.classAt? c).map f := by
  rcases he : r.classAt? c with _ | e
  · rw [h.classAt?_eq_none he]
  · obtain ⟨e', he', hadv⟩ := h.exists_classAt? he
    rw [he', Option.map_some, Option.map_some, hf c e e' hadv]

/-! Members stay as they are. -/

theorem methodAt?_eq (h : r.Advances r') (m : MethodId) : r'.methodAt? m = r.methodAt? m :=
  congrArg (·[m.index]?) h.methods_eq

theorem fieldAt?_eq (h : r.Advances r') (f : FieldId) : r'.fieldAt? f = r.fieldAt? f :=
  congrArg (·[f.index]?) h.fields_eq

theorem typeParams_ofMethod_eq (h : r.Advances r') (m : MethodId) :
    r'.typeParams (.ofMethod m) = r.typeParams (.ofMethod m) := by
  rw [typeParams, typeParams, h.methodAt?_eq]

theorem lookup_eq (h : r.Advances r') (name : String) : r'.lookup name = r.lookup name :=
  lookup_congr (h.map_classAt? (·.name) fun _ _ _ => ClassEntry.Advances.name_eq) name

/-- The type parameters of any declaration stay, or are given anew. -/
theorem renewed (h : r.Advances r') (owner : Declarer) :
    TypeParam.Renewed owner (r.typeParams owner) (r'.typeParams owner) := by
  cases owner with
  | ofClass c =>
    rcases he : r.classAt? c with _ | e
    · simp [typeParams, he, h.classAt?_eq_none he, TypeParam.Renewed.refl]
    · obtain ⟨e', he', hadv⟩ := h.exists_classAt? he
      rw [typeParams_ofClass he, typeParams_ofClass he']
      exact hadv.renewed
  | ofMethod m =>
    rw [h.typeParams_ofMethod_eq]
    exact TypeParam.Renewed.refl _ _

/-- While the class `c` is marked, the rest of the registry may change; when the mark
is taken off, the class has changed at most as any other. -/
theorem close {c : ClassId} {e : ClassEntry} {f : ClassEntry → ClassEntry}
    (he : r.classAt? c = some e) (h : (r.setStage .resolving (.ofClass c)).Advances r')
    (hf : e.Advances c (f { e with stage := .resolving })) :
    r.Advances (r'.modifyClass c f) := by
  -- a marked class is not unresolved, so nothing has touched it in the meantime
  have hc : r'.classAt? c = some { e with stage := .resolving } :=
    h.classAt?_eq_some (by simp [setStage, he]) (by simp)
  refine ⟨h.methods_eq, h.fields_eq, by simpa [setStage] using h.size_eq, ?_⟩
  intro d ed ed' hd hd'
  by_cases hdc : d = c
  · subst hdc
    rw [classAt?_modifyClass_self, hc] at hd'
    cases he.symm.trans hd
    cases hd'
    exact hf
  · rw [classAt?_modifyClass_of_ne _ hdc] at hd'
    exact h.classes d ed ed' (by rwa [setStage, classAt?_modifyClass_of_ne _ hdc]) hd'

end Advances

end Registry

end JavaGenerics
