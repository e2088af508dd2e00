import JavaGenerics.Proofs.Scoping
import JavaGenerics.Registry.Platform

/-!
# Registering declarations

A declaration that is registered comes in under a new number. It is committed to no
type yet, and the type parameters it is announced with are numbered; so a well-scoped
registry stays so, and what was there keeps its type parameters.
-/

namespace JavaGenerics

/-! ### What is declared -/

namespace TypeParam

theorem numbered_declare (owner : Declarer) (names : List String) :
    Numbered owner (declare owner names) := by
  refine List.ext_getElem? fun i => ?_
  rcases hn : names[i]? with _ | name
  · have hi : names.length ≤ i := List.getElem?_eq_none_iff.1 hn
    simp [declare, hi]
  · have hi : i < names.length := (List.getElem?_eq_some_iff.1 hn).1
    simp [declare, hi]

theorem bounds_declare (owner : Declarer) (names : List String) :
    (declare owner names).flatMap (·.bounds) = [] := by
  rw [List.flatMap_eq_nil_iff]
  intro p hp
  obtain ⟨i, hi, rfl⟩ := List.mem_mapIdx.1 hp
  rfl

end TypeParam

namespace Registry

variable {r : Registry}

theorem classAt?_push (r : Registry) (e : ClassEntry) (c : ClassId) :
    { r with classes := r.classes.push e }.classAt? c
      = if c.index = r.classes.size then some e else r.classAt? c :=
  Array.getElem?_push

theorem methodAt?_push (r : Registry) (e : MethodEntry) (m : MethodId) :
    { r with methods := r.methods.push e }.methodAt? m
      = if m.index = r.methods.size then some e else r.methodAt? m :=
  Array.getElem?_push

theorem fieldAt?_push (r : Registry) (e : FieldEntry) (f : FieldId) :
    { r with fields := r.fields.push e }.fieldAt? f
      = if f.index = r.fields.size then some e else r.fieldAt? f :=
  Array.getElem?_push

/-- A class that comes in new has numbered type parameters, and the others keep theirs. -/
theorem renews_addClass (r : Registry) (header : ClassHeader) :
    r.Renews (r.addClass header).2 := by
  unfold addClass
  cases r.lookup (internalToBinary header.name) with
  | some c => exact .refl r
  | none =>
    intro owner
    cases owner with
    | ofMethod m => exact .refl _ _
    | ofClass c =>
      simp only [typeParams, classAt?_push]
      split
      · rename_i hc
        obtain rfl : c = ⟨r.classes.size⟩ := by cases c; cases hc; rfl
        have hnone : r.classAt? ⟨r.classes.size⟩ = none := classAt?_eq_none_iff.2 (Nat.le_refl _)
        rw [hnone]
        exact Or.inr ⟨Or.inl rfl, TypeParam.numbered_declare _ _⟩
      · exact .refl _ _

/-- A declaration that comes in new is committed to nothing, and its type parameters
are numbered. -/
theorem WellScoped.addClass (h : r.WellScoped) (header : ClassHeader) :
    (r.addClass header).2.WellScoped ∧ r.Renews (r.addClass header).2 := by
  have hrenews := r.renews_addClass header
  refine ⟨?_, hrenews⟩
  unfold Registry.addClass at hrenews ⊢
  cases hl : r.lookup (internalToBinary header.name) with
  | some c => exact h
  | none =>
    rw [hl] at hrenews
    refine h.renew hrenews fun t ht => Or.inl ?_
    cases ht with
    | @ofClass c _ he ht =>
      rw [classAt?_push] at he
      split at he
      · cases he
        simp [ClassEntry.types, ClassHeader.entry, TypeParam.bounds_declare] at ht
      · exact .ofClass he ht
    | ofMethod he ht => exact .ofMethod he ht
    | ofField he ht => exact .ofField he ht

/-- A method that comes in new has numbered type parameters, and the others keep theirs. -/
theorem renews_pushMethod (r : Registry) {entry : MethodEntry} {names : List String}
    (hentry : entry.typeParams = TypeParam.declare (.ofMethod ⟨r.methods.size⟩) names) :
    r.Renews { r with methods := r.methods.push entry } := by
  intro owner
  cases owner with
  | ofClass c => exact .refl _ _
  | ofMethod n =>
    simp only [typeParams, methodAt?_push]
    split
    · rename_i hn
      obtain rfl : n = ⟨r.methods.size⟩ := by cases n; cases hn; rfl
      rw [methodAt?, Array.getElem?_eq_none (Nat.le_refl r.methods.size), Option.map_some, hentry]
      exact Or.inr ⟨Or.inl rfl, TypeParam.numbered_declare _ _⟩
    · exact .refl _ _

theorem renews_addMethod (r : Registry) (owner : ClassId) (name : String)
    (descriptor : MethodDescriptor) (argNames names : List String) :
    r.Renews (r.addMethod owner name descriptor argNames names).2 :=
  (r.renews_pushMethod rfl).trans (renews_modifyClass fun _ _ => .refl _ _)

theorem renews_addField (r : Registry) (owner : ClassId) (name : String)
    (descriptor : FieldType) : r.Renews (r.addField owner name descriptor).2 :=
  renews_modifyClass fun _ _ => .refl _ _

theorem WellScoped.addMethod (h : r.WellScoped) (owner : ClassId) (name : String)
    (descriptor : MethodDescriptor) (argNames names : List String) :
    (r.addMethod owner name descriptor argNames names).2.WellScoped ∧
      r.Renews (r.addMethod owner name descriptor argNames names).2 := by
  let m : MethodId := ⟨r.methods.size⟩
  let entry : MethodEntry :=
    { owner, name, descriptor, argNames
      typeParams := TypeParam.declare (.ofMethod m) names
      params := [], result := none, throws := [], stage := .unresolved }
  have hpushed : { r with methods := r.methods.push entry }.WellScoped := by
    refine h.renew (r.renews_pushMethod rfl) fun t ht => Or.inl ?_
    cases ht with
    | ofClass he ht => exact .ofClass he ht
    | ofMethod he ht =>
      rw [methodAt?_push] at he
      split at he
      · cases he
        simp [entry, MethodEntry.types, TypeParam.bounds_declare] at ht
      · exact .ofMethod he ht
    | ofField he ht => exact .ofField he ht
  exact ⟨hpushed.modifyClass (fun _ _ => .refl _ _) fun _ _ _ ht => Or.inl ht,
    r.renews_addMethod owner name descriptor argNames names⟩

theorem WellScoped.addField (h : r.WellScoped) (owner : ClassId) (name : String)
    (descriptor : FieldType) :
    (r.addField owner name descriptor).2.WellScoped ∧
      r.Renews (r.addField owner name descriptor).2 := by
  let entry : FieldEntry := { owner, name, descriptor, type := none, stage := .unresolved }
  have hpushed : { r with fields := r.fields.push entry }.WellScoped := by
    refine h.renew (fun owner => .refl owner _) fun t ht => Or.inl ?_
    cases ht with
    | ofClass he ht => exact .ofClass he ht
    | ofMethod he ht => exact .ofMethod he ht
    | ofField he ht =>
      rw [fieldAt?_push] at he
      split at he
      · cases he
        simp [entry, FieldEntry.types] at ht
      · exact .ofField he ht
  exact ⟨hpushed.modifyClass (fun _ _ => .refl _ _) fun _ _ _ ht => Or.inl ht,
    r.renews_addField owner name descriptor⟩

theorem wellScoped_empty : ({} : Registry).WellScoped := by
  refine ⟨fun owner => ?_, fun t ht => ?_⟩
  · cases owner <;> exact TypeParam.numbered_nil
  · cases ht with
    | ofClass he _ => cases he
    | ofMethod he _ => cases he
    | ofField he _ => cases he

theorem wellScoped_ofHeaders (headers : List ClassHeader) : (ofHeaders headers).WellScoped := by
  have hfold : ∀ (headers : List ClassHeader) (r : Registry), r.WellScoped →
      (headers.foldl (fun r h => (r.addClass h).2) r).WellScoped := by
    intro headers
    induction headers with
    | nil => exact fun _ hr => hr
    | cons header headers ih => exact fun r hr => ih _ (hr.addClass header).1
  exact hfold headers {} wellScoped_empty

end Registry

end JavaGenerics
