import JavaGenerics.Proofs.Retention
import JavaGenerics.Proofs.Session

/-!
# A registry agrees with itself

A registry says several things twice. A member tells its owner, and the owner lists its
members. A type parameter has its number from its place in a list, and carries it along. A
class has its name, and no other class has it, so that the name alone tells which class is
meant. That all this agrees (`JavaGenerics.Registry.Consistent`) is what every look-up relies
on; what an index of the names adds to it is in `JavaGenerics.Proofs.NameIndex`.

Only where declarations are registered is there anything to see to: a name that is taken is
not registered again, and a new member has a greater number than all that are listed already.
Everything else that happens in a session leaves declarations what they are
(`JavaGenerics.Registry.Retains`), and consistency speaks of nothing else. So a registry is
consistent at any point of a session (`JavaGenerics.Session.consistent_perform`), and what is
registered stays, whatever the session does next (`JavaGenerics.Session.perform_extends`).

A member whose owner is not registered would be listed nowhere, also if a class gets the
number of the owner later; so owners are taken to be registered first.
-/

namespace JavaGenerics

namespace Registry

/-! ### Consistency -/

/-- The list `xs` has everything with `P`, each once, in the order of the numbers. -/
structure Lists {α : Type} (number : α → Nat) (P : α → Prop) (xs : List α) : Prop where
  sorted : xs.Pairwise fun a b => number a < number b
  mem_iff : ∀ a, a ∈ xs ↔ P a

/-- The class `c` has the binary name `name`. -/
def IsNamed (r : Registry) (c : ClassId) (name : String) : Prop :=
  (r.classAt? c).map (·.name) = some name

/-- The method `m` is registered as one of the class `c`. -/
def OwnsMethod (r : Registry) (c : ClassId) (m : MethodId) : Prop :=
  (r.methodAt? m).map (·.owner) = some c

/-- The field `f` is registered as one of the class `c`. -/
def OwnsField (r : Registry) (c : ClassId) (f : FieldId) : Prop :=
  (r.fieldAt? f).map (·.owner) = some c

/-- No two classes have one name. -/
def HasDistinctNames (r : Registry) : Prop :=
  ∀ c d name, r.IsNamed c name → r.IsNamed d name → c = d

/-- **A registry that agrees with itself.** -/
structure Consistent (r : Registry) : Prop where
  names : r.HasDistinctNames
  /-- A class lists its methods, which are those registered with it as their owner. -/
  methods : ∀ c e, r.classAt? c = some e → Lists (·.index) (r.OwnsMethod c) e.methods
  fields : ∀ c e, r.classAt? c = some e → Lists (·.index) (r.OwnsField c) e.fields
  methodOwners : ∀ c m, r.OwnsMethod c m → r.classAt? c ≠ none
  fieldOwners : ∀ c f, r.OwnsField c f → r.classAt? c ≠ none
  numbered : r.IsNumbered

variable {r r' r'' : Registry} {α : Type} {number : α → Nat} {P Q : α → Prop} {xs : List α}

theorem Lists.congr (h : Lists number P xs) (hPQ : ∀ a, P a ↔ Q a) : Lists number Q xs :=
  ⟨h.sorted, fun a => (h.mem_iff a).trans (hPQ a)⟩

/-- A list of nothing is empty. -/
theorem lists_nil (h : ∀ a, ¬P a) : Lists number P [] :=
  ⟨.nil, fun a => iff_of_false List.not_mem_nil (h a)⟩

/-- What comes in with a greater number is listed last. -/
theorem Lists.concat (h : Lists number P xs) {b : α} (hlt : ∀ a, P a → number a < number b) :
    Lists number (fun a => P a ∨ a = b) (xs ++ [b]) where
  sorted := List.pairwise_append.2 ⟨h.sorted, List.pairwise_singleton _ _, fun a ha c hc => by
    rw [List.mem_singleton.1 hc]
    exact hlt a ((h.mem_iff a).1 ha)⟩
  mem_iff a := by rw [List.mem_append, List.mem_singleton, h.mem_iff]

/-- **Where names are distinct, a name is looked up to the class that has it.** -/
theorem HasDistinctNames.lookup_eq_some_iff (h : r.HasDistinctNames) {name : String}
    {c : ClassId} : r.lookup name = some c ↔ r.IsNamed c name := by
  constructor
  · intro hlookup
    obtain ⟨e, he, hname⟩ := name_of_lookup hlookup
    exact Option.map_eq_some_iff.2 ⟨e, he, hname⟩
  · intro hc
    obtain ⟨e, he, hname⟩ := Option.map_eq_some_iff.1 hc
    -- some class with the name is found, and there is no other
    rcases hlookup : r.lookup name with _ | d
    · have hfind := Array.findIdx?_eq_none_iff.1 (Option.map_eq_none_iff.1 hlookup)
      exact absurd (hfind e (Array.mem_of_getElem? he)) (by simp [hname])
    · obtain ⟨e', he', hname'⟩ := name_of_lookup hlookup
      rw [h c d name hc (Option.map_eq_some_iff.2 ⟨e', he', hname'⟩)]

/-! ### Filling in declarations -/

theorem Retains.exists_classAt? (h : r.Retains r') {c : ClassId} {e' : ClassEntry}
    (he' : r'.classAt? c = some e') :
    ∃ e, r.classAt? c = some e ∧ e.registration = e'.registration := by
  have hmap := h.classes c
  rw [he', Option.map_some] at hmap
  exact Option.map_eq_some_iff.1 hmap.symm

theorem Retains.isNamed_iff (h : r.Retains r') {c : ClassId} {name : String} :
    r'.IsNamed c name ↔ r.IsNamed c name := by
  have hmap := congrArg (Option.map (·.1)) (h.classes c)
  rw [Option.map_map, Option.map_map] at hmap
  exact Eq.congr_left hmap

theorem Retains.ownsMethod_iff (h : r.Retains r') {c : ClassId} {m : MethodId} :
    r'.OwnsMethod c m ↔ r.OwnsMethod c m := by
  have hmap := congrArg (Option.map (·.1)) (h.methods m)
  rw [Option.map_map, Option.map_map] at hmap
  exact Eq.congr_left hmap

theorem Retains.ownsField_iff (h : r.Retains r') {c : ClassId} {f : FieldId} :
    r'.OwnsField c f ↔ r.OwnsField c f := by
  have hmap := congrArg (Option.map (·.1)) (h.fields f)
  rw [Option.map_map, Option.map_map] at hmap
  exact Eq.congr_left hmap

theorem Retains.classAt?_ne_none (h : r.Retains r') {c : ClassId} (hc : r.classAt? c ≠ none) :
    r'.classAt? c ≠ none := by
  intro hnone
  have hmap := h.classes c
  rw [hnone] at hmap
  exact hc (Option.map_eq_none_iff.1 hmap.symm)

/-- Consistency speaks only of what is retained. -/
theorem Consistent.retains (h : r.Consistent) (hr : r.Retains r') : r'.Consistent where
  names c d name hc hd := h.names c d name (hr.isNamed_iff.1 hc) (hr.isNamed_iff.1 hd)
  methods c e' he' := by
    obtain ⟨e, he, hsame⟩ := hr.exists_classAt? he'
    have hmethods : e.methods = e'.methods := congrArg (·.2.2.1) hsame
    rw [← hmethods]
    exact (h.methods c e he).congr fun m => hr.ownsMethod_iff.symm
  fields c e' he' := by
    obtain ⟨e, he, hsame⟩ := hr.exists_classAt? he'
    have hfields : e.fields = e'.fields := congrArg (·.2.2.2) hsame
    rw [← hfields]
    exact (h.fields c e he).congr fun f => hr.ownsField_iff.symm
  methodOwners c m hm := hr.classAt?_ne_none (h.methodOwners c m (hr.ownsMethod_iff.1 hm))
  fieldOwners c f hf := hr.classAt?_ne_none (h.fieldOwners c f (hr.ownsField_iff.1 hf))
  numbered := hr.numbered h.numbered

theorem Renews.isNumbered (h : r.Renews r') (hr : r.IsNumbered) : r'.IsNumbered :=
  fun owner => (h owner).numbered (hr owner)

/-! ### Registering declarations -/

/-- **A class is registered** under a name that no other class has, and has no members yet. -/
theorem Consistent.addClass (h : r.Consistent) (header : ClassHeader) :
    (r.addClass header).2.Consistent := by
  have hnumbered := (r.renews_addClass header).isNumbered h.numbered
  unfold Registry.addClass at hnumbered ⊢
  cases hl : r.lookup (internalToBinary header.name) with
  | some c => exact h
  | none =>
    have hfresh : ∀ c : ClassId, c.index = r.classes.size → r.classAt? c = none := fun c hc =>
      classAt?_eq_none_iff.2 (Nat.le_of_eq hc.symm)
    have hunnamed : ∀ c, ¬r.IsNamed c (internalToBinary header.name) := fun c hc => by
      rw [h.names.lookup_eq_some_iff.2 hc] at hl
      cases hl
    refine ⟨fun c d name hc hd => ?_, fun c e he => ?_, fun c e he => ?_, fun c m hm => ?_,
      fun c f hf => ?_, by rwa [hl] at hnumbered⟩
    · simp only [IsNamed, classAt?_push] at hc hd
      split at hc <;> split at hd
      · rename_i hci hdi
        cases c
        cases d
        cases hci.trans hdi.symm
        rfl
      · cases hc
        exact absurd hd (hunnamed d)
      · cases hd
        exact absurd hc (hunnamed c)
      · exact h.names c d name hc hd
    · rw [classAt?_push] at he
      split at he
      · rename_i hci
        cases he
        exact lists_nil fun m hm => h.methodOwners c m hm (hfresh c hci)
      · exact h.methods c e he
    · rw [classAt?_push] at he
      split at he
      · rename_i hci
        cases he
        exact lists_nil fun f hf => h.fieldOwners c f hf (hfresh c hci)
      · exact h.fields c e he
    · rw [classAt?_push]
      split
      · exact nofun
      · exact h.methodOwners c m hm
    · rw [classAt?_push]
      split
      · exact nofun
      · exact h.fieldOwners c f hf

theorem classAt?_modifyClass_ne_none {c d : ClassId} {f : ClassEntry → ClassEntry}
    (hd : r.classAt? d ≠ none) : (r.modifyClass c f).classAt? d ≠ none := by
  rwa [Ne, classAt?_eq_none_iff, size_modifyClass, ← classAt?_eq_none_iff]

theorem OwnsMethod.index_lt {c : ClassId} {m : MethodId} (h : r.OwnsMethod c m) :
    m.index < r.methods.size := by
  obtain ⟨e, he, -⟩ := Option.map_eq_some_iff.1 h
  exact (Array.getElem?_eq_some_iff.1 he).1

theorem OwnsField.index_lt {c : ClassId} {f : FieldId} (h : r.OwnsField c f) :
    f.index < r.fields.size := by
  obtain ⟨e, he, -⟩ := Option.map_eq_some_iff.1 h
  exact (Array.getElem?_eq_some_iff.1 he).1

section Members

variable (r : Registry) (owner : ClassId) (name : String)

theorem classAt?_addMethod (descriptor : MethodDescriptor) (argNames names : List String)
    (c : ClassId) : (r.addMethod owner name descriptor argNames names).2.classAt? c =
      if c = owner then
        (r.classAt? owner).map fun e => { e with methods := e.methods ++ [⟨r.methods.size⟩] }
      else r.classAt? c := classAt?_modifyClass _ owner c _

theorem classAt?_addField (descriptor : FieldType) (c : ClassId) :
    (r.addField owner name descriptor).2.classAt? c =
      if c = owner then
        (r.classAt? owner).map fun e => { e with fields := e.fields ++ [⟨r.fields.size⟩] }
      else r.classAt? c := classAt?_modifyClass _ owner c _

theorem isNamed_addMethod {descriptor : MethodDescriptor} {argNames names : List String}
    {c : ClassId} {n : String} :
    (r.addMethod owner name descriptor argNames names).2.IsNamed c n ↔ r.IsNamed c n := by
  unfold IsNamed
  rw [classAt?_addMethod]
  split
  · rename_i hc
    rw [hc, Option.map_map]
    exact Iff.rfl
  · exact Iff.rfl

theorem isNamed_addField {descriptor : FieldType} {c : ClassId} {n : String} :
    (r.addField owner name descriptor).2.IsNamed c n ↔ r.IsNamed c n := by
  unfold IsNamed
  rw [classAt?_addField]
  split
  · rename_i hc
    rw [hc, Option.map_map]
    exact Iff.rfl
  · exact Iff.rfl

theorem ownsMethod_addMethod (descriptor : MethodDescriptor) (argNames names : List String)
    (c : ClassId) (m : MethodId) :
    (r.addMethod owner name descriptor argNames names).2.OwnsMethod c m ↔
      r.OwnsMethod c m ∨ c = owner ∧ m = ⟨r.methods.size⟩ := by
  unfold OwnsMethod
  rw [show (r.addMethod owner name descriptor argNames names).2.methodAt? m = _ from
    methodAt?_push r _ m]
  split
  · rename_i hm
    obtain rfl : m = ⟨r.methods.size⟩ := by cases m; cases hm; rfl
    have hnone : r.methodAt? ⟨r.methods.size⟩ = none := Array.getElem?_eq_none (Nat.le_refl _)
    simp [hnone, eq_comm]
  · rename_i hm
    have hne : m ≠ ⟨r.methods.size⟩ := fun h => hm (by rw [h])
    simp [hne]

theorem ownsField_addField (descriptor : FieldType) (c : ClassId) (f : FieldId) :
    (r.addField owner name descriptor).2.OwnsField c f ↔
      r.OwnsField c f ∨ c = owner ∧ f = ⟨r.fields.size⟩ := by
  unfold OwnsField
  rw [show (r.addField owner name descriptor).2.fieldAt? f = _ from fieldAt?_push r _ f]
  split
  · rename_i hf
    obtain rfl : f = ⟨r.fields.size⟩ := by cases f; cases hf; rfl
    have hnone : r.fieldAt? ⟨r.fields.size⟩ = none := Array.getElem?_eq_none (Nat.le_refl _)
    simp [hnone, eq_comm]
  · rename_i hf
    have hne : f ≠ ⟨r.fields.size⟩ := fun h => hf (by rw [h])
    simp [hne]

end Members

/-- **A method is registered**, and its owner lists it last. -/
theorem Consistent.addMethod (h : r.Consistent) {owner : ClassId}
    (howner : r.classAt? owner ≠ none) (name : String) (descriptor : MethodDescriptor)
    (argNames names : List String) :
    (r.addMethod owner name descriptor argNames names).2.Consistent where
  names c d n hc hd := h.names c d n ((r.isNamed_addMethod owner name).1 hc)
    ((r.isNamed_addMethod owner name).1 hd)
  methods c e he := by
    have howns := r.ownsMethod_addMethod owner name descriptor argNames names
    rw [classAt?_addMethod] at he
    split at he
    · rename_i hc
      subst hc
      obtain ⟨e, hentry, rfl⟩ := Option.map_eq_some_iff.1 he
      exact ((h.methods c e hentry).concat fun m hm => hm.index_lt).congr fun m => by
        simp [howns]
    · rename_i hc
      exact (h.methods c e he).congr fun m => by simp [howns, hc]
  fields c e he := by
    rw [classAt?_addMethod] at he
    split at he
    · rename_i hc
      subst hc
      obtain ⟨e, hentry, rfl⟩ := Option.map_eq_some_iff.1 he
      exact h.fields c e hentry
    · exact h.fields c e he
  methodOwners c m hm := by
    refine classAt?_modifyClass_ne_none ?_
    rcases (r.ownsMethod_addMethod owner name descriptor argNames names c m).1 hm with
      hm | ⟨rfl, -⟩
    · exact h.methodOwners c m hm
    · exact howner
  fieldOwners c f hf := classAt?_modifyClass_ne_none (h.fieldOwners c f hf)
  numbered := (r.renews_addMethod owner name descriptor argNames names).isNumbered h.numbered

/-- **A field is registered**, and its owner lists it last. -/
theorem Consistent.addField (h : r.Consistent) {owner : ClassId}
    (howner : r.classAt? owner ≠ none) (name : String) (descriptor : FieldType) :
    (r.addField owner name descriptor).2.Consistent where
  names c d n hc hd := h.names c d n ((r.isNamed_addField owner name).1 hc)
    ((r.isNamed_addField owner name).1 hd)
  methods c e he := by
    rw [classAt?_addField] at he
    split at he
    · rename_i hc
      subst hc
      obtain ⟨e, hentry, rfl⟩ := Option.map_eq_some_iff.1 he
      exact h.methods c e hentry
    · exact h.methods c e he
  fields c e he := by
    have howns := r.ownsField_addField owner name descriptor
    rw [classAt?_addField] at he
    split at he
    · rename_i hc
      subst hc
      obtain ⟨e, hentry, rfl⟩ := Option.map_eq_some_iff.1 he
      exact ((h.fields c e hentry).concat fun f hf => hf.index_lt).congr fun f => by
        simp [howns]
    · rename_i hc
      exact (h.fields c e he).congr fun f => by simp [howns, hc]
  methodOwners c m hm := classAt?_modifyClass_ne_none (h.methodOwners c m hm)
  fieldOwners c f hf := by
    refine classAt?_modifyClass_ne_none ?_
    rcases (r.ownsField_addField owner name descriptor c f).1 hf with hf | ⟨rfl, -⟩
    · exact h.fieldOwners c f hf
    · exact howner
  numbered := (r.renews_addField owner name descriptor).isNumbered h.numbered

theorem consistent_empty : ({} : Registry).Consistent where
  names _ _ _ hc := by cases hc
  methods _ _ he := by cases he
  fields _ _ he := by cases he
  methodOwners _ _ hm := by cases hm
  fieldOwners _ _ hf := by cases hf
  numbered owner := by cases owner <;> exact TypeParam.numbered_nil

theorem consistent_ofHeaders (headers : List ClassHeader) : (ofHeaders headers).Consistent := by
  have hfold : ∀ (headers : List ClassHeader) (r : Registry), r.Consistent →
      (headers.foldl (fun r h => (r.addClass h).2) r).Consistent := by
    intro headers
    induction headers with
    | nil => exact fun _ hr => hr
    | cons header headers ih => exact fun r hr => ih _ (hr.addClass header)
  exact hfold headers {} consistent_empty

end Registry

/-! ### What stays registered -/

/-- From `e` to `e'`, a class has kept its name, its kind and its members, and may have got
further members. -/
structure ClassEntry.Extends (e e' : ClassEntry) : Prop where
  name_eq : e'.name = e.name
  isInterface_eq : e'.isInterface = e.isInterface
  methods : e.methods <+: e'.methods
  fields : e.fields <+: e'.fields

namespace ClassEntry.Extends

theorem refl (e : ClassEntry) : e.Extends e := ⟨rfl, rfl, List.prefix_rfl, List.prefix_rfl⟩

theorem trans {e e' e'' : ClassEntry} (h : e.Extends e') (h' : e'.Extends e'') : e.Extends e'' :=
  ⟨h'.name_eq.trans h.name_eq, h'.isInterface_eq.trans h.isInterface_eq,
    h.methods.trans h'.methods, h.fields.trans h'.fields⟩

theorem of_registration {e e' : ClassEntry} (h : e'.registration = e.registration) :
    e.Extends e' := by
  obtain ⟨hname, hkind, hmethods, hfields⟩ := by simpa [ClassEntry.registration] using h
  exact ⟨hname, hkind, hmethods ▸ List.prefix_rfl, hfields ▸ List.prefix_rfl⟩

end ClassEntry.Extends

namespace Registry

/-- **From `r` to `r'`, everything that is registered has stayed**, under its number. -/
structure Extends (r r' : Registry) : Prop where
  classes : ∀ c e, r.classAt? c = some e → ∃ e', r'.classAt? c = some e' ∧ e.Extends e'
  methods : ∀ m e, r.methodAt? m = some e →
    ∃ e', r'.methodAt? m = some e' ∧ e'.registration = e.registration
  fields : ∀ f e, r.fieldAt? f = some e →
    ∃ e', r'.fieldAt? f = some e' ∧ e'.registration = e.registration

variable {r r' r'' : Registry}

theorem Extends.refl (r : Registry) : r.Extends r :=
  ⟨fun _ e he => ⟨e, he, .refl e⟩, fun _ e he => ⟨e, he, rfl⟩, fun _ e he => ⟨e, he, rfl⟩⟩

theorem Extends.trans (h : r.Extends r') (h' : r'.Extends r'') : r.Extends r'' where
  classes c e he := by
    obtain ⟨e', he', hext⟩ := h.classes c e he
    obtain ⟨e'', he'', hext'⟩ := h'.classes c e' he'
    exact ⟨e'', he'', hext.trans hext'⟩
  methods m e he := by
    obtain ⟨e', he', hsame⟩ := h.methods m e he
    obtain ⟨e'', he'', hsame'⟩ := h'.methods m e' he'
    exact ⟨e'', he'', hsame'.trans hsame⟩
  fields f e he := by
    obtain ⟨e', he', hsame⟩ := h.fields f e he
    obtain ⟨e'', he'', hsame'⟩ := h'.fields f e' he'
    exact ⟨e'', he'', hsame'.trans hsame⟩

theorem Retains.extends (h : r.Retains r') : r.Extends r' where
  classes c e he := by
    have hmap := h.classes c
    rw [he] at hmap
    obtain ⟨e', he', hsame⟩ := Option.map_eq_some_iff.1 hmap
    exact ⟨e', he', .of_registration hsame⟩
  methods m e he := by
    have hmap := h.methods m
    rw [he] at hmap
    exact Option.map_eq_some_iff.1 hmap
  fields f e he := by
    have hmap := h.fields f
    rw [he] at hmap
    exact Option.map_eq_some_iff.1 hmap

/-- An element that is there stays where something is put behind the last. -/
theorem getElem?_push_of_some {α : Type} {xs : Array α} {a b : α} {i : Nat}
    (h : xs[i]? = some a) : (xs.push b)[i]? = some a := by
  rw [Array.getElem?_push_lt (Array.getElem?_eq_some_iff.1 h).1]
  exact congrArg some (Array.getElem?_eq_some_iff.1 h).2

theorem extends_addClass (r : Registry) (header : ClassHeader) :
    r.Extends (r.addClass header).2 := by
  unfold addClass
  cases r.lookup (internalToBinary header.name) with
  | some c => exact .refl r
  | none => exact ⟨fun _ e he => ⟨e, getElem?_push_of_some he, .refl e⟩,
      fun _ e he => ⟨e, he, rfl⟩, fun _ e he => ⟨e, he, rfl⟩⟩

theorem extends_addMethod (r : Registry) (owner : ClassId) (name : String)
    (descriptor : MethodDescriptor) (argNames names : List String) :
    r.Extends (r.addMethod owner name descriptor argNames names).2 where
  classes c e he := by
    rw [classAt?_addMethod]
    split
    · rename_i hc
      subst hc
      rw [he]
      exact ⟨_, rfl, rfl, rfl, List.prefix_append _ _, List.prefix_rfl⟩
    · exact ⟨e, he, .refl e⟩
  methods _ e he := ⟨e, getElem?_push_of_some he, rfl⟩
  fields _ e he := ⟨e, he, rfl⟩

theorem extends_addField (r : Registry) (owner : ClassId) (name : String)
    (descriptor : FieldType) : r.Extends (r.addField owner name descriptor).2 where
  classes c e he := by
    rw [classAt?_addField]
    split
    · rename_i hc
      subst hc
      rw [he]
      exact ⟨_, rfl, rfl, rfl, List.prefix_rfl, List.prefix_append _ _⟩
    · exact ⟨e, he, .refl e⟩
  methods _ e he := ⟨e, he, rfl⟩
  fields _ e he := ⟨e, getElem?_push_of_some he, rfl⟩

end Registry

/-! ### Sessions with assemblers -/

namespace Workspace

/-- Has the class `c` assembled from events, with `scope` in force around its signature. -/
def assembleClass (k : Collaborator) (options : Options) (c : ClassId) (scope : Scope)
    (ms : List Move) : Work Unit := do
  let res := k.resolution options (← getRegistry) (.ofClass c)
  let _ ← Attempt.start (Assembly.feed (ClassAssembler.move res) ms (ClassAssembler.start c scope))

/-- Has the method `m` assembled from events, if it is registered. -/
def assembleMethod (k : Collaborator) (options : Options) (m : MethodId) (scope : Scope)
    (ms : List Move) : Work Unit := do
  let r ← getRegistry
  match MethodAssembler.start r m scope with
  | .error _ => pure ()
  | .ok a =>
    let res := k.resolution options r (.ofMethod m)
    let _ ← Attempt.start (Assembly.feed (MethodAssembler.move res) ms a)

theorem assembleClass_retains (k : Collaborator) (options : Options) (c : ClassId) (scope : Scope)
    (ms : List Move) (w : Workspace) :
    w.registry.Retains (assembleClass k options c scope ms w).2.registry :=
  ClassAssembler.feed_retains k options c scope ms ⟨w, []⟩

theorem assembleMethod_retains (k : Collaborator) (options : Options) (m : MethodId)
    (scope : Scope) (ms : List Move) (w : Workspace) :
    w.registry.Retains (assembleMethod k options m scope ms w).2.registry := by
  unfold assembleMethod MethodAssembler.start
  rw [bind_apply, getRegistry_apply]
  by_cases hm : (w.registry.methodAt? m).isSome = true
  · simp only [hm, if_true]
    exact MethodAssembler.feed_retains k options m scope ms ⟨w, []⟩
  · simp only [hm]
    exact .refl _

end Workspace

namespace Session

/-- What can be done in a session: a step, or a declaration is assembled from events. -/
inductive Action where
  | step (s : Step)
  | assembleClass (k : Collaborator) (options : Options) (c : ClassId) (scope : Scope)
    (ms : List Move)
  | assembleMethod (k : Collaborator) (options : Options) (m : MethodId) (scope : Scope)
    (ms : List Move)

namespace Action

/-- Does it; what it answers is left aside. -/
def run : Action → Work Unit
  | step s => s.run
  | assembleClass k options c scope ms => Workspace.assembleClass k options c scope ms
  | assembleMethod k options m scope ms => Workspace.assembleMethod k options m scope ms

/-- Whether a declaration is registered. -/
def IsRegistration : Action → Prop
  | step (.addClass _) | step (.addMethod ..) | step (.addField ..) => True
  | _ => False

/-- What registers nothing leaves all declarations what they are. -/
theorem run_retains {a : Action} (ha : ¬a.IsRegistration) (w : Workspace) :
    w.registry.Retains (a.run w).2.registry := by
  cases a with
  | assembleClass k options c scope ms =>
    exact Workspace.assembleClass_retains k options c scope ms w
  | assembleMethod k options m scope ms =>
    exact Workspace.assembleMethod_retains k options m scope ms w
  | step s =>
    cases s with
    | addClass | addMethod | addField => exact absurd trivial ha
    | setEnclosing | setHeader => exact Registry.retains_modifyClass (fun _ => rfl) fun _ => id
    | setStage t stage => exact Registry.retains_setStage _ stage t
    | resolve k options t signature => exact Workspace.resolve_retains k options t signature w

/-- A member is registered only with an owner that is registered. -/
def HasOwner (r : Registry) : Action → Prop
  | step (.addMethod owner ..) => r.classAt? owner ≠ none
  | step (.addField owner ..) => r.classAt? owner ≠ none
  | _ => True

/-- **What an action is for the declarations that are there**: it registers one more, or it
leaves all of them what they are. -/
theorem run_consistent (a : Action) (w : Workspace) :
    w.registry.Extends (a.run w).2.registry ∧
      (w.registry.Consistent → a.HasOwner w.registry → (a.run w).2.registry.Consistent) := by
  have hretained : ¬a.IsRegistration → w.registry.Extends (a.run w).2.registry ∧
      (w.registry.Consistent → a.HasOwner w.registry → (a.run w).2.registry.Consistent) :=
    fun ha => ⟨(run_retains ha w).extends, fun hw _ => hw.retains (run_retains ha w)⟩
  cases a with
  | assembleClass | assembleMethod => exact hretained id
  | step s =>
    cases s with
    | addClass header =>
      change w.registry.Extends (Workspace.addClass header w).2.registry ∧
        (w.registry.Consistent → _ → (Workspace.addClass header w).2.registry.Consistent)
      rw [Workspace.addClass_registry]
      exact ⟨w.registry.extends_addClass header, fun hw _ => hw.addClass header⟩
    | addMethod owner name descriptor argNames names =>
      exact ⟨w.registry.extends_addMethod owner name descriptor argNames names, fun hw howner =>
        hw.addMethod howner name descriptor argNames names⟩
    | addField owner name descriptor =>
      exact ⟨w.registry.extends_addField owner name descriptor, fun hw howner =>
        hw.addField howner name descriptor⟩
    | setEnclosing | setHeader | setStage | resolve => exact hretained id

end Action

/-- Does some actions in order. -/
def perform (actions : List Action) : Work Unit := actions.forM Action.run

/-- Along some actions, every owner is registered before its members. -/
def HaveOwners : List Action → Workspace → Prop
  | [], _ => True
  | a :: actions, w => a.HasOwner w.registry ∧ HaveOwners actions (a.run w).2

theorem perform_append (before after : List Action) (w : Workspace) :
    (perform (before ++ after) w).2 = (perform after (perform before w).2).2 := by
  induction before generalizing w with
  | nil => rfl
  | cons a before ih => exact ih (a.run w).2

theorem perform_extends (actions : List Action) (w : Workspace) :
    w.registry.Extends (perform actions w).2.registry := by
  induction actions generalizing w with
  | nil => exact .refl _
  | cons a actions ih => exact (a.run_consistent w).1.trans (ih (a.run w).2)

theorem consistent_perform {w : Workspace} (hw : w.registry.Consistent) {actions : List Action}
    (h : HaveOwners actions w) : (perform actions w).2.registry.Consistent := by
  induction actions generalizing w with
  | nil => exact hw
  | cons a actions ih => exact ih ((a.run_consistent w).2 hw h.1) h.2

theorem start_consistent (withPlatform : Bool) : (start withPlatform).registry.Consistent := by
  cases withPlatform
  · exact Registry.consistent_empty
  · exact Registry.consistent_ofHeaders _

end Session

end JavaGenerics
