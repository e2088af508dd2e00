import JavaGenerics.Proofs.Nesting
import JavaGenerics.Registry.Platform

/-!
# What a call may change

A call for one declaration may resolve any number of classes on the way, and its
collaborator may be of any kind. Still its effect is bounded, and this file says how.

* When the call fails, its declaration is what it was
  (`JavaGenerics.Registry.Course.declaration?_eq`): also when it was already being
  resolved, and also when a request led back to it.
* However it ends, the classes being resolved are the same before and after; a class
  that has changed was unresolved and is resolved, and differs in what a resolution
  fills in; and of methods and fields none has changed but the one that was called for
  (`JavaGenerics.Registry.Course.frame`).

For both, the course of the call (`JavaGenerics.Workspace.resolve_course`) needs to carry
no invariant.
-/

namespace JavaGenerics

/-! ### Courses without an invariant -/

theorem Registry.stable_trivial :
    Registry.Stable (fun _ => True) (fun _ _ => True) :=
  ⟨fun _ _ => trivial, fun _ _ => trivial, fun _ _ _ _ _ _ => trivial⟩

theorem Workspace.resolve_course_trivial (k : Collaborator) (options : Options) (t : Target)
    (signature : Option String) (w : Workspace) :
    w.registry.Course (fun _ => True) t signature (resolve k options t signature w).1.isOk
      (resolve k options t signature w).2.registry :=
  resolve_course Registry.stable_trivial (k.serves_trivial _) options t signature w

/-! ### Failures -/

namespace Registry

variable {J : Registry → Prop} {r r₁ r' : Registry} {t : Target} {signature : Option String}

/-- A course that ends in a failure leads back to the declaration as it was. -/
theorem Course.declaration?_eq (h : r.Course J t signature false r') :
    r'.declaration? t = r.declaration? t := by
  cases h with
  | refused => rfl
  | failed stage during => exact (during.1.unmark stage).2

end Registry

/-- **A call that fails leaves its declaration exactly as it was.** -/
theorem Workspace.declaration?_resolve_of_failed (k : Collaborator) (options : Options)
    (t : Target) (signature : Option String) (w : Workspace)
    (h : (resolve k options t signature w).1.isOk = false) :
    (resolve k options t signature w).2.registry.declaration? t = w.registry.declaration? t := by
  have hcourse := resolve_course_trivial k options t signature w
  rw [h] at hcourse
  exact hcourse.declaration?_eq

/-- A class whose superclass is asked for, where the pool tries the class itself
instead; it fails in the end because an interface is missing. -/
theorem Workspace.declaration?_resolve_of_redirected :
    let p : Pool := { options := {}, redirect := [("B", "A")] }
    let w : Workspace := { registry := .ofHeaders [{ name := "A" }, { name := "B" }] }
    (resolve (.pool p) {} (.ofClass ⟨0⟩) (some "LB;LMissing;") w).1.isOk = false ∧
      (resolve (.pool p) {} (.ofClass ⟨0⟩) (some "LB;LMissing;") w).2.registry.declaration?
        (.ofClass ⟨0⟩) = w.registry.declaration? (.ofClass ⟨0⟩) := by
  intro p w
  -- the pool is asked for `B` and tries `A`, which is refused, being marked
  have hfailed : (resolve (.pool p) {} (.ofClass ⟨0⟩) (some "LB;LMissing;") w).1.isOk = false := by
    decide +kernel
  exact ⟨hfailed, declaration?_resolve_of_failed (.pool p) {} (.ofClass ⟨0⟩)
    (some "LB;LMissing;") w hfailed⟩

/-! ### Everything else -/

namespace Registry

variable {J : Registry → Prop} {r r₁ r₂ r' : Registry} {t : Target} {signature : Option String}

/-- From `r` to `r'` everything has stayed but classes that have advanced, and the
member `t`. -/
structure Frame (t : Target) (r r' : Registry) : Prop where
  advanced : ∀ c e, r.classAt? c = some e → ∃ e', r'.classAt? c = some e' ∧ e.Advances c e'
  absent : ∀ c, r.classAt? c = none → r'.classAt? c = none
  methods : ∀ m, t ≠ .ofMethod m → r'.methodAt? m = r.methodAt? m
  fields : ∀ f, t ≠ .ofField f → r'.fieldAt? f = r.fieldAt? f

theorem Advances.frame (h : r.Advances r') (t : Target) : r.Frame t r' where
  advanced _ _ he := h.exists_classAt? he
  absent _ hc := h.classAt?_eq_none hc
  methods m _ := h.methodAt?_eq m
  fields f _ := h.fieldAt?_eq f

/-- What is committed for a member changes nothing but the member. -/
theorem Commits.frame (hs : r.stage? t = some .unresolved)
    (h : (r.setStage .resolving t).Advances r₁)
    (hc : (r.setStage .resolving t).Commits J r₁ t signature r₂) : r.Frame t r₂ := by
  cases t with
  | ofClass c =>
    obtain ⟨e, he, hu⟩ := Option.map_eq_some_iff.1 hs
    obtain ⟨f, rfl, hf⟩ := hc.advances he hu
    exact (h.close he hf).frame _
  | ofMethod m =>
    have hframe : ∀ f, r.Frame (.ofMethod m) (r₁.modifyMethod m f) := by
      intro f
      refine ⟨fun c e he => h.exists_classAt? he, fun c hc => h.classAt?_eq_none hc,
        fun n hn => ?_, fun x _ => (h.frame (.ofMethod m)).fields x (by simp)⟩
      have hne : n ≠ m := fun heq => hn (by rw [heq])
      rw [methodAt?_modifyMethod, if_neg hne, h.methodAt?_eq]
      exact (methodAt?_modifyMethod r m n _).trans (if_neg hne)
    cases hc <;> exact hframe _
  | ofField f =>
    have hframe : ∀ g, r.Frame (.ofField f) (r₁.modifyField f g) := by
      intro g
      refine ⟨fun c e he => h.exists_classAt? he, fun c hc => h.classAt?_eq_none hc,
        fun n _ => (h.frame (.ofField f)).methods n (by simp), fun x hx => ?_⟩
      have hne : x ≠ f := fun heq => hx (by rw [heq])
      rw [fieldAt?_modifyField, if_neg hne, h.fieldAt?_eq]
      exact (fieldAt?_modifyField r f x _).trans (if_neg hne)
    cases hc <;> exact hframe _

/-- **The frame of a resolution**, whatever its course. -/
theorem Course.frame {ok : Bool} (h : r.Course J t signature ok r') : r.Frame t r' := by
  cases h with
  | refused => exact (Advances.refl r).frame t
  | failed stage during => exact (during.1.unmark stage).1.frame t
  | committed stage during commits => exact commits.frame stage during.1

namespace Frame

/-- The marks on classes stay as they are. -/
theorem resolving_iff (h : r.Frame t r') (c : ClassId) :
    r'.stage? (.ofClass c) = some .resolving ↔ r.stage? (.ofClass c) = some .resolving := by
  rcases he : r.classAt? c with _ | e
  · simp [stage?, he, h.absent c he]
  · obtain ⟨e', he', hadv⟩ := h.advanced c e he
    cases hadv with
    | same => simp [stage?, he, he']
    | resolved _ _ hu _ => simp [stage?, he, he', hu]

theorem classAt?_eq_some (h : r.Frame t r') {c : ClassId} {e : ClassEntry}
    (he : r.classAt? c = some e) (hs : e.stage ≠ .unresolved) : r'.classAt? c = some e := by
  obtain ⟨e', he', hadv⟩ := h.advanced c e he
  rw [he', hadv.eq_of_stage hs]

/-- A class that is not what it was has been resolved. -/
theorem resolved_of_ne (h : r.Frame t r') {c : ClassId} (hne : r'.classAt? c ≠ r.classAt? c) :
    ∃ e e', r.classAt? c = some e ∧ r'.classAt? c = some e' ∧
      e.stage = .unresolved ∧ e'.stage = .resolved ∧
      e' = { e with
        stage := e'.stage
        typeParams := e'.typeParams
        superclass := e'.superclass
        interfaces := e'.interfaces } := by
  rcases he : r.classAt? c with _ | e
  · exact absurd ((h.absent c he).trans he.symm) hne
  · obtain ⟨e', he', hadv⟩ := h.advanced c e he
    refine ⟨e, e', rfl, he', ?_⟩
    cases hadv with
    | same => exact absurd (he'.trans he.symm) hne
    | resolved _ _ hu _ => exact ⟨hu, rfl, rfl⟩

end Frame

end Registry

/-- **The effect of a call**, whether it succeeds or fails: the classes being resolved
are the same as before; what was resolved is unchanged; a class that differs went from
unresolved to resolved and differs in its stage, type parameters, superclass and
interfaces at most; and no other member than the one that was called for has changed. -/
theorem Workspace.resolve_frame (k : Collaborator) (options : Options) (t : Target)
    (signature : Option String) (w : Workspace) :
    let r := w.registry
    let r' := (resolve k options t signature w).2.registry
    (∀ c, r'.stage? (.ofClass c) = some .resolving ↔ r.stage? (.ofClass c) = some .resolving) ∧
      (∀ c e, r.classAt? c = some e → e.stage = .resolved → r'.classAt? c = some e) ∧
      (∀ c, r'.classAt? c ≠ r.classAt? c →
        ∃ e e', r.classAt? c = some e ∧ r'.classAt? c = some e' ∧
          e.stage = .unresolved ∧ e'.stage = .resolved ∧
          e' = { e with
            stage := e'.stage
            typeParams := e'.typeParams
            superclass := e'.superclass
            interfaces := e'.interfaces }) ∧
      (∀ m, t ≠ .ofMethod m → r'.methodAt? m = r.methodAt? m) ∧
      (∀ f, t ≠ .ofField f → r'.fieldAt? f = r.fieldAt? f) := by
  intro r r'
  have hframe : r.Frame t r' := (resolve_course_trivial k options t signature w).frame
  refine ⟨hframe.resolving_iff, fun c e he hs => ?_, fun c hne => hframe.resolved_of_ne hne,
    hframe.methods, hframe.fields⟩
  exact hframe.classAt?_eq_some he (by simp [hs])

end JavaGenerics
