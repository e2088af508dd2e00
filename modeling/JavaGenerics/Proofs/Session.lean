import JavaGenerics.Proofs.Registering

/-!
# Whole sessions

A session works on one registry: it adds declarations, sets what the class file
records of them and how far they are resolved, and has them resolved, in any order and
any number of times. Between two resolutions a class may be set back to unresolved and
be resolved again, from another signature and with another collaborator.

All of these steps leave a well-scoped registry (`JavaGenerics.Session.run_wellScoped`), so
at no point does a resolved type refer to a type parameter that is not there.
-/

namespace JavaGenerics

namespace Session

/-- One step of a session. -/
inductive Step where
  | addClass (h : ClassHeader)
  | addMethod (owner : ClassId) (name : String) (descriptor : MethodDescriptor)
    (argNames typeParams : List String)
  | addField (owner : ClassId) (name : String) (descriptor : FieldType)
  /-- Sets the class in whose body a class is declared. -/
  | setEnclosing (c : ClassId) (enclosing : Option ClassId)
  /-- Sets the erased header of a class. -/
  | setHeader (c : ClassId) (superclass : Option String) (interfaces : List String)
  /-- Sets how far a declaration is resolved. -/
  | setStage (t : Target) (stage : Stage)
  /-- Has a declaration resolved, with the collaborator and the options of this call. -/
  | resolve (k : Collaborator) (options : Options) (t : Target) (signature : Option String)

/-- Does a step; what it answers is left aside. -/
def Step.run : Step → Work Unit
  | addClass h => do
    let _ ← Workspace.addClass h
  | addMethod owner name descriptor argNames typeParams =>
    Workspace.modifyRegistry fun r => (r.addMethod owner name descriptor argNames typeParams).2
  | addField owner name descriptor =>
    Workspace.modifyRegistry fun r => (r.addField owner name descriptor).2
  | setEnclosing c enclosing =>
    Workspace.modifyRegistry fun r => r.modifyClass c fun e => { e with enclosing }
  | setHeader c superclass interfaces =>
    Workspace.modifyRegistry fun r => r.modifyClass c fun e =>
      { e with erasedSuper := superclass, erasedInterfaces := interfaces }
  | setStage t stage => Workspace.modifyRegistry fun r => r.setStage stage t
  | resolve k options t signature => do
    let _ ← Workspace.resolve k options t signature

/-- Does some steps in order. -/
def run (steps : List Step) : Work Unit := steps.forM Step.run

/-- Where a session begins: with the platform classes or without any. -/
def start (withPlatform : Bool) : Workspace where
  registry := if withPlatform then .platform else {}

end Session

/-! ### Steps and sessions -/

theorem Workspace.addClass_registry (h : ClassHeader) (w : Workspace) :
    (addClass h w).2.registry = (w.registry.addClass h).2 := by
  unfold addClass
  rw [bind_apply, getRegistry_apply]
  by_cases hl : (w.registry.lookup (internalToBinary h.name)).isSome = true
  · simp only [hl, if_true]
    rfl
  · simp only [hl]
    rfl

namespace Session

variable {w : Workspace}

/-- **What one step of a session preserves.** -/
theorem Step.run_wellScoped (h : w.registry.WellScoped) (s : Step) :
    (s.run w).2.registry.WellScoped ∧ w.registry.Renews (s.run w).2.registry := by
  cases s with
  | addClass header =>
    change (Workspace.addClass header w).2.registry.WellScoped ∧
      w.registry.Renews (Workspace.addClass header w).2.registry
    rw [Workspace.addClass_registry]
    exact h.addClass header
  | addMethod owner name descriptor argNames names =>
    exact h.addMethod owner name descriptor argNames names
  | addField owner name descriptor => exact h.addField owner name descriptor
  | setEnclosing c enclosing =>
    exact ⟨h.modifyClass (fun _ _ => .refl _ _) fun _ _ _ ht => Or.inl ht,
      Registry.renews_modifyClass fun _ _ => .refl _ _⟩
  | setHeader c superclass interfaces =>
    exact ⟨h.modifyClass (fun _ _ => .refl _ _) fun _ _ _ ht => Or.inl ht,
      Registry.renews_modifyClass fun _ _ => .refl _ _⟩
  | setStage t stage => exact ⟨h.setStage stage t, Registry.renews_setStage _ stage t⟩
  | resolve k options t signature =>
    have hcourse := Workspace.resolve_course Registry.stable_wellScoped (k.serves_trivial _) options
      t signature w
    exact hcourse.wellScoped h

/-- **What a session preserves**, by induction on its steps. -/
theorem run_wellScoped (h : w.registry.WellScoped) (steps : List Step) :
    (run steps w).2.registry.WellScoped ∧ w.registry.Renews (run steps w).2.registry := by
  induction steps generalizing w with
  | nil => exact ⟨h, .refl _⟩
  | cons s steps ih =>
    obtain ⟨hs, hrenews⟩ := s.run_wellScoped h
    obtain ⟨hrest, hrenews'⟩ := ih hs
    exact ⟨hrest, hrenews.trans hrenews'⟩

theorem run_append (before after : List Step) (w : Workspace) :
    (run (before ++ after) w).2 = (run after (run before w).2).2 := by
  induction before generalizing w with
  | nil => rfl
  | cons s before ih => exact ih (s.run w).2

theorem start_wellScoped (withPlatform : Bool) : (start withPlatform).registry.WellScoped := by
  cases withPlatform
  · exact Registry.wellScoped_empty
  · exact Registry.wellScoped_ofHeaders _

/-- **No session leaves a type variable dangling.** After any number of steps, every
type variable in a committed type leads to a type parameter, which is its own; and a
type parameter that is there keeps its name, whatever steps follow. -/
theorem run_binds (withPlatform : Bool) (before after : List Step) :
    let r := (run before (start withPlatform)).2.registry
    let r' := (run (before ++ after) (start withPlatform)).2.registry
    (∀ t, r.Mentions t → ∀ v ∈ t.vars, ∃ p, r.typeParam? v = some p ∧ p.var = v) ∧
      ∀ v p, r.typeParam? v = some p → ∃ p', r'.typeParam? v = some p' ∧ p'.name = p.name := by
  intro r r'
  -- the steps `after` start from a registry that is itself well-scoped
  obtain ⟨hr, -⟩ := run_wellScoped (start_wellScoped withPlatform) before
  have hrenews : r.Renews r' := by
    change r.Renews (run (before ++ after) _).2.registry
    rw [run_append]
    exact (run_wellScoped hr after).2
  refine ⟨hr.binds, fun v p hp => ?_⟩
  obtain ⟨p', hp', hname, -⟩ := hrenews.typeParam? hp
  exact ⟨p', hp', hname⟩

end Session

end JavaGenerics
