import JavaGenerics.Proofs.Nesting

/-!
# Type variables and their declarations

A resolved type refers to a type parameter by its declaration and its position there.
In a *well-scoped* registry (`JavaGenerics.Registry.WellScoped`) every such reference
leads to a type parameter, the one that has this declaration and position.

A resolution makes its references from a scope, which is a snapshot: by the time the
types are committed, other classes may have been given type parameters anew. What
carries the references over is that type parameters are only ever *renewed*
(`JavaGenerics.TypeParam.Renewed`): a position that exists keeps its name and stays.
-/

namespace JavaGenerics

/-! ### The types in a registry -/

/-- The types that a class is committed to. -/
def ClassEntry.types (e : ClassEntry) : List ResolvedType :=
  e.typeParams.flatMap (·.bounds) ++ e.superclass.toList ++ e.interfaces

/-- The types that a method is committed to. -/
def MethodEntry.types (e : MethodEntry) : List ResolvedType :=
  e.typeParams.flatMap (·.bounds) ++ e.params.map (·.2) ++ e.result.toList ++ e.throws

/-- The type that a field is committed to, if any. -/
def FieldEntry.types (e : FieldEntry) : List ResolvedType := e.type.toList

namespace Registry

/-- A declaration is committed to the type `t`. -/
inductive Mentions (r : Registry) (t : ResolvedType) : Prop where
  | ofClass {c : ClassId} {e : ClassEntry} (he : r.classAt? c = some e) (ht : t ∈ e.types)
  | ofMethod {m : MethodId} {e : MethodEntry} (he : r.methodAt? m = some e) (ht : t ∈ e.types)
  | ofField {f : FieldId} {e : FieldEntry} (he : r.fieldAt? f = some e) (ht : t ∈ e.types)

/-- The type variable `v` leads to a type parameter, which is its own. -/
def Binds (r : Registry) (v : TypeVar) : Prop := ∃ p, r.typeParam? v = some p ∧ p.var = v

/-- **A well-scoped registry**: type parameters are numbered as those of their
declaration, and no type refers to one that is not there. -/
structure WellScoped (r : Registry) : Prop where
  numbered : ∀ owner, TypeParam.Numbered owner (r.typeParams owner)
  binds : ∀ t, r.Mentions t → ∀ v ∈ t.vars, r.Binds v

/-- From `r` to `r'` type parameters are at most renewed. -/
def Renews (r r' : Registry) : Prop :=
  ∀ owner, TypeParam.Renewed owner (r.typeParams owner) (r'.typeParams owner)

variable {r r₁ r₂ r' r'' : Registry}

theorem Renews.refl (r : Registry) : r.Renews r := fun owner => .refl owner _

theorem Renews.trans (h : r.Renews r') (h' : r'.Renews r'') : r.Renews r'' :=
  fun owner => (h owner).trans (h' owner)

/-- A type parameter that is there stays there, under its name. -/
theorem Renews.typeParam? (h : r.Renews r') {v : TypeVar} {p : TypeParam}
    (hp : r.typeParam? v = some p) :
    ∃ p', r'.typeParam? v = some p' ∧ p'.name = p.name ∧ (p.var = v → p'.var = v) := by
  obtain ⟨p', hp', hname, hvar⟩ := (h v.owner).getElem? hp
  exact ⟨p', hp', hname, fun hv => (hvar hv).trans hv⟩

theorem Renews.binds (h : r.Renews r') {v : TypeVar} (hv : r.Binds v) : r'.Binds v := by
  obtain ⟨p, hp, hvar⟩ := hv
  obtain ⟨p', hp', -, hvar'⟩ := h.typeParam? hp
  exact ⟨p', hp', hvar' hvar⟩

theorem Advances.renews (h : r.Advances r') : r.Renews r' := h.renewed

/-- A registry stays well-scoped if type parameters are at most renewed and the types
that come in refer to what is there. -/
theorem WellScoped.renew (h : r.WellScoped) (hr : r.Renews r')
    (ht : ∀ t, r'.Mentions t → r.Mentions t ∨ ∀ v ∈ t.vars, r'.Binds v) : r'.WellScoped := by
  refine ⟨fun owner => (hr owner).numbered (h.numbered owner), fun t hmem v hv => ?_⟩
  rcases ht t hmem with hold | hnew
  · exact hr.binds (h.binds t hold v hv)
  · exact hnew v hv

/-- Numbered type parameters are where they say. -/
theorem binds_of_numbered {owner : Declarer} (h : TypeParam.Numbered owner (r.typeParams owner))
    {i : Nat} (hi : i < (r.typeParams owner).length) : r.Binds ⟨owner, i⟩ := by
  have hp := List.getElem?_eq_getElem hi
  exact ⟨_, hp, h.var_eq hp⟩

/-! ### Changing one entry -/

theorem mentions_modifyClass {c : ClassId} {f : ClassEntry → ClassEntry} {t : ResolvedType}
    (h : (r.modifyClass c f).Mentions t) :
    r.Mentions t ∨ ∃ e, r.classAt? c = some e ∧ t ∈ (f e).types := by
  cases h with
  | ofClass he ht =>
    rename_i d e
    by_cases hd : d = c
    · subst hd
      rw [classAt?_modifyClass_self] at he
      obtain ⟨e₀, he₀, rfl⟩ := Option.map_eq_some_iff.1 he
      exact Or.inr ⟨e₀, he₀, ht⟩
    · rw [classAt?_modifyClass_of_ne _ hd] at he
      exact Or.inl (.ofClass he ht)
  | ofMethod he ht => exact Or.inl (.ofMethod he ht)
  | ofField he ht => exact Or.inl (.ofField he ht)

theorem mentions_modifyMethod {m : MethodId} {f : MethodEntry → MethodEntry} {t : ResolvedType}
    (h : (r.modifyMethod m f).Mentions t) :
    r.Mentions t ∨ ∃ e, r.methodAt? m = some e ∧ t ∈ (f e).types := by
  cases h with
  | ofClass he ht => exact Or.inl (.ofClass he ht)
  | ofMethod he ht =>
    rename_i n e
    rw [methodAt?_modifyMethod] at he
    split at he
    · obtain ⟨e₀, he₀, rfl⟩ := Option.map_eq_some_iff.1 he
      exact Or.inr ⟨e₀, he₀, ht⟩
    · exact Or.inl (.ofMethod he ht)
  | ofField he ht => exact Or.inl (.ofField he ht)

theorem mentions_modifyField {x : FieldId} {f : FieldEntry → FieldEntry} {t : ResolvedType}
    (h : (r.modifyField x f).Mentions t) :
    r.Mentions t ∨ ∃ e, r.fieldAt? x = some e ∧ t ∈ (f e).types := by
  cases h with
  | ofClass he ht => exact Or.inl (.ofClass he ht)
  | ofMethod he ht => exact Or.inl (.ofMethod he ht)
  | ofField he ht =>
    rw [fieldAt?_modifyField] at he
    split at he
    · obtain ⟨e₀, he₀, rfl⟩ := Option.map_eq_some_iff.1 he
      exact Or.inr ⟨e₀, he₀, ht⟩
    · exact Or.inl (.ofField he ht)

theorem renews_modifyClass {c : ClassId} {f : ClassEntry → ClassEntry}
    (hf : ∀ e, r.classAt? c = some e →
      TypeParam.Renewed (.ofClass c) e.typeParams (f e).typeParams) :
    r.Renews (r.modifyClass c f) := by
  intro owner
  cases owner with
  | ofMethod m => exact .refl _ _
  | ofClass d =>
    by_cases hd : d = c
    · subst hd
      rcases he : r.classAt? d with _ | e
      · simp [typeParams, he, TypeParam.Renewed.refl]
      · have he' : (r.modifyClass d f).classAt? d = some (f e) := by simp [he]
        rw [typeParams_ofClass he, typeParams_ofClass he']
        exact hf e he
    · simp only [typeParams, classAt?_modifyClass_of_ne _ hd]
      exact .refl _ _

theorem renews_modifyMethod {m : MethodId} {f : MethodEntry → MethodEntry}
    (hf : ∀ e, r.methodAt? m = some e →
      TypeParam.Renewed (.ofMethod m) e.typeParams (f e).typeParams) :
    r.Renews (r.modifyMethod m f) := by
  intro owner
  cases owner with
  | ofClass c => exact .refl _ _
  | ofMethod n =>
    simp only [typeParams, methodAt?_modifyMethod]
    split
    · rename_i hn
      subst hn
      rcases he : r.methodAt? n with _ | e
      · exact .refl _ _
      · exact hf e he
    · exact .refl _ _

end Registry

/-! ### Scopes -/

/-- Every type variable in a scope is bound in `r`. -/
def Scope.BoundIn (s : Scope) (r : Registry) : Prop := ∀ name v, s.resolve name = some v → r.Binds v

namespace Scope

variable {s : Scope} {r : Registry}

theorem boundIn_empty (r : Registry) : ({} : Scope).BoundIn r := by
  intro name v hv
  cases hv

/-- Numbered type parameters enter a scope under their positions. -/
theorem names_eq_zipIdx {owner : Declarer} {ps : List TypeParam} (h : TypeParam.Numbered owner ps) :
    (ps.map fun q => (q.name, q.var.index)) = (ps.map (·.name)).zipIdx := by
  refine List.ext_getElem? fun i => ?_
  rcases hp : ps[i]? with _ | p
  · simp [hp]
  · simp [hp, h.var_eq hp]

/-- **What a name stands for where numbered type parameters are in force**: the first
of them with this name, or what it stands for without them. -/
theorem resolve_pushTypeParams {owner : Declarer} {ps : List TypeParam}
    (h : TypeParam.Numbered owner ps) (s : Scope) (name : String) :
    (s.pushTypeParams ps).resolve name
      = (((ps.map (·.name)).idxOf? name).map (TypeVar.mk owner)).or (s.resolve name) := by
  cases ps with
  | nil => rfl
  | cons p ps =>
    have howner : p.var.owner = owner := by rw [h.var_eq (i := 0) rfl]
    simp only [pushTypeParams, resolve, List.findSome?_cons, resolveIn, names_eq_zipIdx h, howner,
      Resolution.lookup_zipIdx, Nat.add_zero, Option.map_id']
    cases ((p :: ps).map (·.name)).idxOf? name <;> rfl

theorem BoundIn.pushClass (h : s.BoundIn r) (hr : r.WellScoped) (c : ClassId) :
    (s.pushClass r c).BoundIn r := by
  intro name v hv
  rw [Scope.pushClass, resolve_pushTypeParams (hr.numbered (.ofClass c))] at hv
  rcases Option.or_eq_some_iff.1 hv with hv | ⟨-, hv⟩
  · obtain ⟨i, hi, rfl⟩ := Option.map_eq_some_iff.1 hv
    obtain ⟨hlt, -⟩ := List.findIdx?_eq_some_iff_getElem.1 hi
    exact Registry.binds_of_numbered (hr.numbered _) (by simpa using hlt)
  · exact h name v hv

theorem BoundIn.pushEnclosing (h : s.BoundIn r) (hr : r.WellScoped) (c : ClassId) :
    (s.pushEnclosing r c).BoundIn r := by
  unfold Scope.pushEnclosing
  induction r.enclosingChain c generalizing s with
  | nil => exact h
  | cons outer chain ih => exact ih (h.pushClass hr outer)

theorem BoundIn.pushBody (h : s.BoundIn r) (hr : r.WellScoped) (c : ClassId) :
    (s.pushBody r c).BoundIn r :=
  (h.pushEnclosing hr c).pushClass hr c

end Scope

/-! ### Commits -/

namespace Lexicon

variable {l : Lexicon} {K : TypeVar → Prop} {declared : List TypeParam}

theorem known_classTypes (hl : l.Known K) {c : ClassId} {sig : ClassSig} {types : ClassTypes}
    (hp : ∀ i < sig.typeParams.length, K ⟨.ofClass c, i⟩)
    (h : l.classTypes declared c sig = .ok types) (e : ClassEntry) :
    ∀ t ∈ (types.fill e).types, ∀ v ∈ t.vars, K v := by
  obtain ⟨htps, hsuper, hints⟩ := classTypes_eq_ok.1 h
  have hinside := known_declare hl hp
  intro t ht
  simp only [ClassEntry.types, ClassTypes.fill, List.mem_append, List.mem_flatMap,
    Option.mem_toList, Option.some.injEq] at ht
  rcases ht with (⟨p, hp, ht⟩ | rfl) | ht
  · exact known_params hinside (introduce_eq_ok.1 htps).2.2 p hp t ht
  · exact known_typeAt hinside hsuper
  · exact forall_of_mapM_eq_ok (fun _ _ _ => known_typeAt hinside) hints t ht

theorem known_methodTypes (hl : l.Known K) {m : MethodId} {sig : MethodSig} {types : MethodTypes}
    (hp : ∀ i < sig.typeParams.length, K ⟨.ofMethod m, i⟩)
    (h : l.methodTypes declared m sig = .ok types) (names : List String) (e : MethodEntry) :
    ∀ t ∈ (types.fill names e).types, ∀ v ∈ t.vars, K v := by
  obtain ⟨htps, hparams, hresult, hthrows⟩ := methodTypes_eq_ok.1 h
  have hinside := known_declare hl hp
  intro t ht
  simp only [MethodEntry.types, MethodTypes.fill, List.mem_append, List.mem_flatMap,
    Option.mem_toList, List.mem_map] at ht
  rcases ht with ((⟨p, hp, ht⟩ | ⟨q, hq, rfl⟩) | ht) | ht
  · exact known_params hinside (introduce_eq_ok.1 htps).2.2 p hp t ht
  · exact forall_of_mapM_eq_ok (fun _ _ _ => known_typeAt hinside) hparams _ (List.of_mem_zip hq).2
  · split at ht
    · cases ht
    · cases ht
      exact known_type hinside hresult
  · exact forall_of_mapM_eq_ok (fun _ _ _ => known_typeAt hinside) hthrows t ht

/-- An erased type has no type variables. -/
theorem vars_raw {t : FieldType} {u : ResolvedType} (h : l.raw t = .ok u) : u.vars = [] := by
  induction t generalizing u with
  | base b =>
    cases h
    simp [ResolvedType.vars]
  | object name =>
    obtain ⟨c, -, h⟩ := bind_eq_ok.1 h
    cases h
    simp [ResolvedType.vars]
  | array elem ih =>
    obtain ⟨e, he, h⟩ := bind_eq_ok.1 h
    cases h
    simpa [ResolvedType.vars] using ih he

theorem vars_erasedResult {m : MethodEntry} {result : Option ResolvedType}
    (h : l.erasedResult m = .ok result) : ∀ t, result = some t → t.vars = [] := by
  rintro t rfl
  unfold erasedResult at h
  split at h
  · cases h
  · cases hd : m.descriptor.result with
    | none =>
      rw [hd] at h
      cases h
      simp [ResolvedType.vars]
    | some erased =>
      rw [hd] at h
      obtain ⟨u, hu, h⟩ := bind_eq_ok.1 h
      cases h
      exact vars_raw hu

end Lexicon

namespace Registry

variable {r₀ r r₁ r₂ : Registry} {t : Target} {signature : Option String}

theorem lexiconAround_known (h : r.WellScoped) (c : ClassId) :
    (r.lexiconAround c).Known r.Binds := (Scope.boundIn_empty r).pushEnclosing h c

theorem lexiconInside_known (h : r.WellScoped) (c : ClassId) :
    (r.lexiconInside c).Known r.Binds := (Scope.boundIn_empty r).pushBody h c

/-- A well-scoped registry stays well-scoped if a class is given a renewal of its type
parameters, and types that refer to what there is then. -/
theorem WellScoped.modifyClass (h : r.WellScoped) {c : ClassId} {f : ClassEntry → ClassEntry}
    (hf : ∀ e, r.classAt? c = some e →
      TypeParam.Renewed (.ofClass c) e.typeParams (f e).typeParams)
    (ht : ∀ e, r.classAt? c = some e → ∀ t ∈ (f e).types,
      t ∈ e.types ∨ ∀ v ∈ t.vars, (r.modifyClass c f).Binds v) :
    (r.modifyClass c f).WellScoped := by
  refine h.renew (renews_modifyClass hf) fun t hmem => ?_
  rcases mentions_modifyClass hmem with hold | ⟨e, he, hte⟩
  · exact Or.inl hold
  · exact (ht e he t hte).imp (.ofClass he) id

theorem WellScoped.modifyMethod (h : r.WellScoped) {m : MethodId} {f : MethodEntry → MethodEntry}
    (hf : ∀ e, r.methodAt? m = some e →
      TypeParam.Renewed (.ofMethod m) e.typeParams (f e).typeParams)
    (ht : ∀ e, r.methodAt? m = some e → ∀ t ∈ (f e).types,
      t ∈ e.types ∨ ∀ v ∈ t.vars, (r.modifyMethod m f).Binds v) :
    (r.modifyMethod m f).WellScoped := by
  refine h.renew (renews_modifyMethod hf) fun t hmem => ?_
  rcases mentions_modifyMethod hmem with hold | ⟨e, he, hte⟩
  · exact Or.inl hold
  · exact (ht e he t hte).imp (.ofMethod he) id

theorem WellScoped.modifyField (h : r.WellScoped) {x : FieldId} {f : FieldEntry → FieldEntry}
    (ht : ∀ e, r.fieldAt? x = some e → ∀ t ∈ (f e).types, t ∈ e.types ∨ ∀ v ∈ t.vars, r.Binds v) :
    (r.modifyField x f).WellScoped := by
  refine h.renew (fun owner => .refl owner _) fun t hmem => ?_
  rcases mentions_modifyField hmem with hold | ⟨e, he, hte⟩
  · exact Or.inl hold
  · exact (ht e he t hte).imp (.ofField he) id

theorem WellScoped.setStage (h : r.WellScoped) (s : Stage) (t : Target) :
    (r.setStage s t).WellScoped := by
  cases t with
  | ofClass c => exact h.modifyClass (fun e _ => .refl _ _) fun e _ t ht => Or.inl ht
  | ofMethod m => exact h.modifyMethod (fun e _ => .refl _ _) fun e _ t ht => Or.inl ht
  | ofField f => exact h.modifyField fun e _ t ht => Or.inl ht

/-- Type parameters that a declaration has introduced, and has by now, are bound. -/
theorem binds_introduced {l : Lexicon} {declared tps : List TypeParam} {owner : Declarer}
    {ps : List TypeParamSig} (h : l.introduce declared owner ps = .ok tps)
    (hown : r.typeParams owner = tps) : ∀ i < ps.length, r.Binds ⟨owner, i⟩ := by
  obtain ⟨hnumbered, hlength⟩ := Lexicon.introduce_numbered h
  intro i hi
  rw [← hown] at hnumbered
  refine binds_of_numbered hnumbered ?_
  rw [hown, hlength]
  exact hi

/-- **The meaning of a class signature may be filled in**, if the names around the class
stand for type parameters that are there. -/
theorem WellScoped.fill_class (h : r.WellScoped) {c : ClassId} {e : ClassEntry}
    (he : r.classAt? c = some e) {l : Lexicon} (hl : l.Known r.Binds) {sig : ClassSig}
    {types : ClassTypes} (htypes : l.classTypes e.typeParams c sig = .ok types) :
    (r.modifyClass c types.fill).WellScoped ∧ r.Renews (r.modifyClass c types.fill) := by
  have htps := (Lexicon.classTypes_eq_ok.1 htypes).1
  have hrenewed : ∀ e', r.classAt? c = some e' →
      TypeParam.Renewed (.ofClass c) e'.typeParams types.typeParams := by
    intro e' he'
    cases he.symm.trans he'
    exact Lexicon.introduce_renewed htps
  have hrenews : r.Renews (r.modifyClass c types.fill) := renews_modifyClass hrenewed
  have hown : (r.modifyClass c types.fill).typeParams (.ofClass c) = types.typeParams := by
    rw [typeParams_ofClass (e := types.fill e) (by simp [he])]
    rfl
  -- the variables around are bound before and stay so, its own are bound from now on
  refine ⟨h.modifyClass hrenewed fun e' _ t ht => Or.inr ?_, hrenews⟩
  exact Lexicon.known_classTypes (fun name v hv => hrenews.binds (hl name v hv))
    (binds_introduced htps hown) htypes e' t ht

/-- **The meaning of a method signature may be filled in**, likewise. -/
theorem WellScoped.fill_method (h : r.WellScoped) {m : MethodId} {e : MethodEntry}
    (he : r.methodAt? m = some e) {l : Lexicon} (hl : l.Known r.Binds) {sig : MethodSig}
    {types : MethodTypes} (htypes : l.methodTypes e.typeParams m sig = .ok types)
    (names : List String) :
    (r.modifyMethod m (types.fill names)).WellScoped ∧
      r.Renews (r.modifyMethod m (types.fill names)) := by
  have htps := (Lexicon.methodTypes_eq_ok.1 htypes).1
  have hrenewed : ∀ e', r.methodAt? m = some e' →
      TypeParam.Renewed (.ofMethod m) e'.typeParams types.typeParams := by
    intro e' he'
    cases he.symm.trans he'
    exact Lexicon.introduce_renewed htps
  have hrenews : r.Renews (r.modifyMethod m (types.fill names)) := renews_modifyMethod hrenewed
  have hown : (r.modifyMethod m (types.fill names)).typeParams (.ofMethod m)
      = types.typeParams := by
    simp [typeParams, methodAt?_modifyMethod, he, MethodTypes.fill]
  refine ⟨h.modifyMethod hrenewed fun e' _ t ht => Or.inr ?_, hrenews⟩
  exact Lexicon.known_methodTypes (fun name v hv => hrenews.binds (hl name v hv))
    (binds_introduced htps hown) htypes names e' t ht

/-- The classes in a header may be filled in: raw classes have no type variables. -/
theorem WellScoped.fillErased_class (h : r.WellScoped) (c : ClassId)
    (superclass : Option ClassId) (interfaces : List ClassId) :
    (r.modifyClass c (ClassEntry.fillErased superclass interfaces)).WellScoped ∧
      r.Renews (r.modifyClass c (ClassEntry.fillErased superclass interfaces)) := by
  refine ⟨h.modifyClass (fun e _ => .refl _ _) fun e _ t ht => ?_,
    renews_modifyClass fun e _ => .refl _ _⟩
  simp only [ClassEntry.types, ClassEntry.fillErased, List.mem_append, Option.mem_toList,
    Option.map_eq_some_iff, List.mem_map] at ht
  rcases ht with (hbound | ⟨d, -, rfl⟩) | ⟨d, -, rfl⟩
  · exact Or.inl (List.mem_append_left _ (List.mem_append_left _ hbound))
  · exact Or.inr (by simp [ResolvedType.vars])
  · exact Or.inr (by simp [ResolvedType.vars])

/-- Erased types may be filled in, whatever the names of the parameters. -/
theorem WellScoped.fillErased_method (h : r.WellScoped) (m : MethodId) (names : List String)
    {params : List ResolvedType} {result : Option ResolvedType}
    (hparams : ∀ t ∈ params, t.vars = []) (hresult : ∀ t, result = some t → t.vars = []) :
    (r.modifyMethod m (MethodEntry.fillErased (names.zip params) result)).WellScoped ∧
      r.Renews (r.modifyMethod m (MethodEntry.fillErased (names.zip params) result)) := by
  refine ⟨h.modifyMethod (fun e _ => .refl _ _) fun e _ t ht => ?_,
    renews_modifyMethod fun e _ => .refl _ _⟩
  simp only [MethodEntry.types, MethodEntry.fillErased, List.mem_append, Option.mem_toList,
    List.mem_map, List.not_mem_nil, or_false] at ht
  rcases ht with (hbound | ⟨q, hq, rfl⟩) | ht
  · exact Or.inl (List.mem_append_left _ (List.mem_append_left _ (List.mem_append_left _ hbound)))
  · exact Or.inr (by simp [hparams _ (List.of_mem_zip hq).2])
  · exact Or.inr (by simp [hresult t ht])

/-- **What is committed for a class refers to what is there then.** -/
theorem Commits.wellScoped_class {c : ClassId}
    (hc : r₀.Commits WellScoped r₁ (.ofClass c) signature r₂) (h₀ : r₀.WellScoped)
    (h₁ : r₁.WellScoped) (hadv : r₀.Advances r₁) (hs : r₀.stage? (.ofClass c) = some .resolving) :
    r₂.WellScoped ∧ r₁.Renews r₂ := by
  obtain ⟨e, he, hmarked⟩ := Option.map_eq_some_iff.1 hs
  have he₁ : r₁.classAt? c = some e := hadv.classAt?_eq_some he (by simp [hmarked])
  cases hc with
  | classSignature r _ before after meaning =>
    have hknown := lexiconAround_known (before.2 h₀) c
    rw [typeParams_ofClass he] at meaning
    exact h₁.fill_class he₁ (fun name v hv => after.1.renews.binds (hknown name v hv)) meaning
  | classHeader found _ _ => exact h₁.fillErased_class c _ _

theorem Commits.wellScoped_method {m : MethodId}
    (hc : r₀.Commits WellScoped r₁ (.ofMethod m) signature r₂) (h₀ : r₀.WellScoped)
    (h₁ : r₁.WellScoped) (hadv : r₀.Advances r₁) : r₂.WellScoped ∧ r₁.Renews r₂ := by
  have hm : r₁.methodAt? m = r₀.methodAt? m := hadv.methodAt?_eq m
  cases hc with
  | @methodSignature _ _ _ entry _ r names _ found before after meaning =>
    have hknown := lexiconInside_known (before.2 h₀) entry.owner
    have hdeclared : r₀.typeParams (.ofMethod m) = entry.typeParams := by simp [typeParams, found]
    rw [hdeclared] at meaning
    rw [found] at hm
    exact h₁.fill_method hm (fun name v hv => after.1.renews.binds (hknown name v hv)) meaning names
  | methodDescriptor names found hparams hresult =>
    exact h₁.fillErased_method m names
      (forall_of_mapM_eq_ok (fun _ _ _ => Lexicon.vars_raw) hparams)
      (Lexicon.vars_erasedResult hresult)

theorem Commits.wellScoped_field {f : FieldId}
    (hc : r₀.Commits WellScoped r₁ (.ofField f) signature r₂) (h₀ : r₀.WellScoped)
    (h₁ : r₁.WellScoped) : r₂.WellScoped ∧ r₁.Renews r₂ := by
  have hfill : ∀ type : ResolvedType, (∀ v ∈ type.vars, r₁.Binds v) →
      (r₁.modifyField f (FieldEntry.fill type)).WellScoped := by
    intro type htype
    refine h₁.modifyField fun e _ t ht => Or.inr ?_
    obtain rfl : t = type := by simpa [FieldEntry.types, FieldEntry.fill] using ht
    exact htype
  cases hc with
  | @fieldSignature _ _ _ entry type r _ found before after meaning =>
    refine ⟨hfill type fun v hv => ?_, fun owner => .refl owner _⟩
    have hknown := lexiconInside_known (before.2 h₀) entry.owner
    exact after.1.renews.binds (Lexicon.known_typeAt hknown meaning v hv)
  | @fieldDescriptor _ _ type found meaning =>
    refine ⟨hfill type fun v hv => ?_, fun owner => .refl owner _⟩
    rw [Lexicon.vars_raw meaning] at hv
    cases hv

/-- **Well-scopedness is stable under resolutions of classes.** -/
theorem stable_wellScoped : Stable WellScoped fun _ _ => True where
  mark h _ := h.setStage .resolving _
  unmark h _ := h.setStage .unresolved _
  commit _ h h₁ hadv hs hc := (hc.wellScoped_class h h₁ hadv hs).1

theorem WellScoped.unmark (h : r.WellScoped) (t : Target) : (r.unmark t).WellScoped := by
  unfold Registry.unmark
  split
  · exact h.setStage _ t
  · exact h

theorem renews_setStage (r : Registry) (s : Stage) (t : Target) : r.Renews (r.setStage s t) := by
  cases t with
  | ofClass c => exact renews_modifyClass fun e _ => .refl _ _
  | ofMethod m => exact renews_modifyMethod fun e _ => .refl _ _
  | ofField f => exact fun owner => .refl owner _

/-- A resolution, whatever its course, leaves a well-scoped registry, in which type
parameters are at most renewed. -/
theorem Course.wellScoped {ok : Bool} (h : r.Course WellScoped t signature ok r₂)
    (hr : r.WellScoped) : r₂.WellScoped ∧ r.Renews r₂ := by
  cases h with
  | refused => exact ⟨hr, .refl r⟩
  | @failed r₁ stage during =>
    exact ⟨(during.2 (hr.setStage .resolving t)).unmark t, (during.1.unmark stage).1.renews⟩
  | @committed r₁ _ stage during commits =>
    -- the mark, what happened meanwhile and the commit, one after the other
    have h₀ := hr.setStage .resolving t
    have h₁ := during.2 h₀
    have hrenews : r.Renews r₁ := (renews_setStage r .resolving t).trans during.1.renews
    have hcommit : r₂.WellScoped ∧ r₁.Renews r₂ := by
      cases t with
      | ofClass c =>
        exact commits.wellScoped_class h₀ h₁ during.1 (by rw [stage?_setStage, stage]; rfl)
      | ofMethod m => exact commits.wellScoped_method h₀ h₁ during.1
      | ofField f => exact commits.wellScoped_field h₀ h₁
    exact ⟨hcommit.1, hrenews.trans hcommit.2⟩

end Registry

end JavaGenerics
