import JavaGenerics.Proofs.Evolution
import JavaGenerics.Resolution.Field

/-!
# What a resolution commits

A resolution of a declaration that has been marked fails, or it commits once, at its
very end. `JavaGenerics.Registry.Commits` says what: the meaning of the signature in a
registry that it found on the way, or of the erased record, written into the entry of
the declaration and nowhere else.

All of this rests on one assumption about the collaborator: that its answers only
make the registry evolve (`JavaGenerics.Registry.Evolves`), that is, advance and keep
some invariant `J`. Under it the state of a resolution stays a successor of the one it
began with, and names stand for the same classes throughout.
-/

namespace JavaGenerics

open Attempt

/-! ### Registries on the way -/

/-- From `r` to `r'` the registry has advanced, and the invariant `J` has been kept. -/
def Registry.Evolves (J : Registry → Prop) (r r' : Registry) : Prop :=
  r.Advances r' ∧ (J r → J r')

namespace Registry.Evolves

variable {J : Registry → Prop} {r r' r'' : Registry}

theorem refl (J : Registry → Prop) (r : Registry) : r.Evolves J r := ⟨.refl r, id⟩

theorem trans (h : r.Evolves J r') (h' : r'.Evolves J r'') : r.Evolves J r'' :=
  ⟨h.1.trans h'.1, h'.2 ∘ h.2⟩

end Registry.Evolves

/-- Work that makes the registry evolve. -/
def Work.Evolves {α : Type} (J : Registry → Prop) (x : Work α) : Prop :=
  ∀ w : Workspace, w.registry.Evolves J (x w).2.registry

/-- The resolutions under way that began with the registry `r`. -/
def Progress.Since (J : Registry → Prop) (r : Registry) (p : Progress) : Prop :=
  r.Evolves J p.workspace.registry

theorem Workspace.noteCycle_registry (c : ClassId) (w : Workspace) :
    (noteCycle c w).2.registry = w.registry := by
  rw [noteCycle_apply]
  split <;> rfl

/-! ### Under way -/

namespace Resolution

variable {res : Resolution} {J : Registry → Prop}

/-- **An invariant that questions keep is steady.** -/
theorem steady_of_evolves (hask : ∀ c, Work.Evolves J (res.ask c)) (r : Registry) :
    res.Steady (Progress.Since J r) := by
  -- only the answer to a request touches the registry
  refine ⟨fun c p hp => ?_, fun w _ p hp => hp, fun c p hp => ?_⟩
  · have ha : Progress.Since J r (res.answered c p) := hp.trans (hask c (asking c p).workspace)
    rw [request_apply]
    split
    · split
      · exact ha
      · exact ha
    · exact hp
  · change r.Evolves J (Workspace.noteCycle c p.workspace).2.registry
    rw [Workspace.noteCycle_registry]
    exact hp

/-- The names of classes stand for what they stood for when the resolution began. -/
theorem settled_of_evolves (hask : ∀ c, Work.Evolves J (res.ask c)) {r : Registry}
    {l : Lexicon} (hl : ∀ name, r.lookup name = l.class? name) :
    res.Settled (Progress.Since J r) l :=
  ⟨steady_of_evolves hask r, fun _ hp name => (hp.1.lookup_eq name).trans (hl name)⟩

end Resolution

/-! ### The body of a resolution -/

/-- How the body of a resolution ends: it fails and has kept `I`, or it commits in a
state with `I`, which leads to a registry as `C` says. -/
def Attempt.Ends (I : Progress → Prop) (C : Registry → Registry → Prop) (x : Attempt Unit) :
    Prop :=
  ∀ p, I p → match x.outcome p with
    | (.error _, q) => I q
    | (.ok _, q) => ∃ p', I p' ∧ C p'.workspace.registry q.workspace.registry

namespace Attempt

variable {α : Type} {I I' : Progress → Prop} {C C' : Registry → Registry → Prop}

theorem ends_throw (e : ResolveError) : Ends I C (throw e) := fun _ hp => hp

theorem Computes.ends {x : Attempt α} {v : Except ResolveError α} {f : α → Attempt Unit}
    (hx : Computes I x v) (hf : ∀ a, v = .ok a → Ends I C (f a)) : Ends I C (x >>= f) := by
  intro p hp
  obtain ⟨hv, hq⟩ := hx p hp
  rw [outcome_bind]
  rcases h : x.outcome p with ⟨_ | a, q⟩
  · rw [h] at hq
    exact hq
  · rw [h] at hv hq
    exact hf a hv.symm q hq

/-- A part that does not fail may be run first; the invariant of the rest may then
speak of the state it leaves. -/
theorem ends_lift {x : StateM Progress α} {f : α → Attempt Unit}
    (hx : ∀ p, I p → ∃ I', (∀ q, I' q → I q) ∧ I' (x p).2 ∧ Ends I' C (f (x p).1)) :
    Ends I C (liftM x >>= f) := by
  intro p hp
  obtain ⟨I', hII', hq, hf⟩ := hx p hp
  change match (f (x p).1).outcome (x p).2 with
    | (.error _, q) => I q
    | (.ok _, q) => ∃ p', I p' ∧ C p'.workspace.registry q.workspace.registry
  have h := hf _ hq
  rcases hout : (f (x p).1).outcome (x p).2 with ⟨_ | _, q⟩ <;> rw [hout] at h
  · exact hII' q h
  · obtain ⟨p', hp', hc⟩ := h
    exact ⟨p', hII' p' hp', hc⟩

theorem Ends.ofRegistry {f : Registry → Attempt Unit} (hf : ∀ r, Ends I C (f r)) :
    Ends I C (liftM getRegistry >>= f) := fun p hp => hf _ p hp

theorem Ends.mono {x : Attempt Unit} (h : Ends I C x)
    (hC : ∀ p r', I p → C p.workspace.registry r' → C' p.workspace.registry r') :
    Ends I C' x := by
  intro p hp
  have hx := h p hp
  rcases hout : x.outcome p with ⟨_ | _, q⟩ <;> rw [hout] at hx
  · exact hx
  · obtain ⟨p', hp', hc⟩ := hx
    exact ⟨p', hp', hC _ _ hp' hc⟩

theorem ends_commit (f : Registry → Registry) (n : Note) :
    Ends I (fun r r' => r' = f r) (commit f n) := fun p hp => ⟨p, hp, rfl⟩

end Attempt

/-! ### What is committed -/

/-- What is in force around the class `c`, as the registry stands. -/
def Registry.lexiconAround (r : Registry) (c : ClassId) : Lexicon where
  class? := r.lookup
  var? := (({} : Scope).pushEnclosing r c).resolve

/-- What is in force in the body of the class `c`, as the registry stands. -/
def Registry.lexiconInside (r : Registry) (c : ClassId) : Lexicon where
  class? := r.lookup
  var? := (({} : Scope).pushBody r c).resolve

/-- **What a resolution commits**: it began with the registry `r₀`, its declaration
being marked, and what it comes to takes the registry it then finds, `r`, to the last
argument. A signature is read in a registry between the two. -/
inductive Registry.Commits (J : Registry → Prop) (r₀ r : Registry) :
    Target → Option String → Registry → Prop where
  | classSignature {c : ClassId} {text : String} {sig : ClassSig} {types : ClassTypes}
      (r₁ : Registry) (parse : ClassSig.parse text = .ok sig)
      (before : r₀.Evolves J r₁) (after : r₁.Evolves J r)
      (meaning : (r₁.lexiconAround c).classTypes (r₀.typeParams (.ofClass c)) c sig = .ok types) :
      Commits J r₀ r (.ofClass c) (some text) (r.modifyClass c types.fill)
  | classHeader {c : ClassId} {entry : ClassEntry} {superclass : Option ClassId}
      {interfaces : List ClassId} (found : r₀.classAt? c = some entry)
      (superclass_eq : entry.erasedSuper.mapM (r₀.lexiconAround c).classNamed = .ok superclass)
      (interfaces_eq :
        entry.erasedInterfaces.mapM (r₀.lexiconAround c).classNamed = .ok interfaces) :
      Commits J r₀ r (.ofClass c) none
        (r.modifyClass c (ClassEntry.fillErased superclass interfaces))
  | methodSignature {m : MethodId} {text : String} {sig : MethodSig} {entry : MethodEntry}
      {types : MethodTypes} (r₁ : Registry) (names : List String)
      (parse : MethodSig.parse text = .ok sig) (found : r₀.methodAt? m = some entry)
      (before : r₀.Evolves J r₁) (after : r₁.Evolves J r)
      (meaning : (r₁.lexiconInside entry.owner).methodTypes (r₀.typeParams (.ofMethod m)) m sig
        = .ok types) :
      Commits J r₀ r (.ofMethod m) (some text) (r.modifyMethod m (types.fill names))
  | methodDescriptor {m : MethodId} {entry : MethodEntry} {params : List ResolvedType}
      {result : Option ResolvedType} (names : List String)
      (found : r₀.methodAt? m = some entry)
      (params_eq : entry.descriptor.params.mapM (r₀.lexiconInside entry.owner).raw = .ok params)
      (result_eq : (r₀.lexiconInside entry.owner).erasedResult entry = .ok result) :
      Commits J r₀ r (.ofMethod m) none
        (r.modifyMethod m (MethodEntry.fillErased (names.zip params) result))
  | fieldSignature {f : FieldId} {text : String} {sig : TypeSig} {entry : FieldEntry}
      {type : ResolvedType} (r₁ : Registry) (parse : TypeSig.parse text = .ok sig)
      (found : r₀.fieldAt? f = some entry)
      (before : r₀.Evolves J r₁) (after : r₁.Evolves J r)
      (meaning : (r₁.lexiconInside entry.owner).typeAt .reference sig = .ok type) :
      Commits J r₀ r (.ofField f) (some text) (r.modifyField f (FieldEntry.fill type))
  | fieldDescriptor {f : FieldId} {entry : FieldEntry} {type : ResolvedType}
      (found : r₀.fieldAt? f = some entry)
      (meaning : (r₀.lexiconInside entry.owner).raw entry.descriptor = .ok type) :
      Commits J r₀ r (.ofField f) none (r.modifyField f (FieldEntry.fill type))

namespace Resolution

variable {res : Resolution} {J : Registry → Prop} {I : Progress → Prop} {r₀ : Registry}

/-- A resolution may be taken to begin anew with the registry that some part of it
leaves. -/
theorem ends_since {α : Type} {C : Registry → Registry → Prop} {x : StateM Progress α}
    (hx : Keeps (Progress.Since J r₀) x) {f : α → Attempt Unit}
    (hf : ∀ p, r₀.Evolves J (x p).2.workspace.registry →
      Ends (Progress.Since J (x p).2.workspace.registry) C (f (x p).1)) :
    Ends (Progress.Since J r₀) C (liftM x >>= f) := by
  refine ends_lift fun p hp => ?_
  have hq : Progress.Since J r₀ (x p).2 := hx p hp
  exact ⟨Progress.Since J (x p).2.workspace.registry, fun _ hp' => hq.trans hp', .refl J _, hf p hq⟩

theorem ends_scopeAround {C : Registry → Registry → Prop}
    (hask : ∀ c, Work.Evolves J (res.ask c)) (c : ClassId) {f : Scope → Attempt Unit}
    (hf : ∀ r₁, r₀.Evolves J r₁ →
      Ends (Progress.Since J r₁) C (f (({} : Scope).pushEnclosing r₁ c))) :
    Ends (Progress.Since J r₀) C (liftM (res.scopeAround c) >>= f) :=
  ends_since ((steady_of_evolves hask r₀).calm.scopeAround c) fun _ hq => hf _ hq

theorem ends_scopeInside {C : Registry → Registry → Prop}
    (hask : ∀ c, Work.Evolves J (res.ask c)) (c : ClassId) {f : Scope → Attempt Unit}
    (hf : ∀ r₁, r₀.Evolves J r₁ → Ends (Progress.Since J r₁) C (f (({} : Scope).pushBody r₁ c))) :
    Ends (Progress.Since J r₀) C (liftM (res.scopeInside c) >>= f) :=
  ends_since ((steady_of_evolves hask r₀).calm.scopeInside c) fun _ hq => hf _ hq

/-! ### Classes -/

theorem ends_commitClass (c : ClassId) (types : ClassTypes) :
    Ends I (fun r r' => r' = r.modifyClass c types.fill) (res.commitClass c types) := by
  refine Ends.ofRegistry fun r => ?_
  have hchecked : Ends I (fun r r' => r' = r.modifyClass c types.fill)
      (if (r.classAt? c).isNone then
        (throw (.unknownDeclaration (.ofClass c)) : Attempt PUnit) >>= fun _ =>
          commit (fun r => r.modifyClass c types.fill)
            (.classResolved res.owner types.typeParams.length)
        else commit (fun r => r.modifyClass c types.fill)
          (.classResolved res.owner types.typeParams.length)) := by
    split
    · exact ends_throw _
    · exact ends_commit _ _
  by_cases hv : res.options.verifyErasure = true
  · simp only [hv, if_true]
    exact (computes_ofExcept _).ends fun _ _ => hchecked
  · simp only [hv]
    exact hchecked

theorem ends_resolveClassText (hask : ∀ c, Work.Evolves J (res.ask c)) {c : ClassId}
    {e : ClassEntry} (he : r₀.classAt? c = some e) (hs : e.stage ≠ .unresolved) (text : String) :
    Ends (Progress.Since J r₀) (fun r r' => r₀.Commits J r (.ofClass c) (some text) r')
      (res.resolveClassText c text) := by
  unfold resolveClassText
  split
  · exact ends_throw _
  · rename_i sig hparse
    refine ends_scopeAround hask c fun r₁ h₁ => ?_
    -- the class is marked, so its type parameters are those it had in `r₀`
    have hd : ∀ p, Progress.Since J r₁ p →
        p.workspace.registry.typeParams (.ofClass c) = r₀.typeParams (.ofClass c) := by
      intro p hp
      rw [Registry.typeParams_ofClass he,
        Registry.typeParams_ofClass ((h₁.trans hp).1.classAt?_eq_some he hs)]
    have hl := settled_of_evolves hask (l := r₁.lexiconAround c) fun _ => rfl
    refine (computes_classTypes hl rfl hd sig).ends fun types htypes => ?_
    refine (ends_commitClass c types).mono ?_
    rintro p _ hp rfl
    exact .classSignature r₁ hparse h₁ hp htypes

theorem ends_resolveClassHeader (hask : ∀ c, Work.Evolves J (res.ask c)) {c : ClassId}
    {e : ClassEntry} (he : r₀.classAt? c = some e) (hs : e.stage ≠ .unresolved) :
    Ends (Progress.Since J r₀) (fun r r' => r₀.Commits J r (.ofClass c) none r')
      (res.resolveClassHeader c) := by
  have hl := settled_of_evolves hask (l := r₀.lexiconAround c) fun _ => rfl
  refine ends_lift fun p hp => ⟨_, fun _ => id, hp, ?_⟩
  have hfound : (getRegistry p).1.classAt? c = some e := hp.1.classAt?_eq_some he hs
  rw [hfound]
  refine (Computes.mapM_option (computes_find hl.named) e.erasedSuper).ends
    fun superclass hsuper => ?_
  refine (Computes.mapM (computes_find hl.named) e.erasedInterfaces).ends fun interfaces hints => ?_
  refine (ends_commit _ _).mono ?_
  rintro p' _ hp' rfl
  exact .classHeader he hsuper hints

/-! ### Methods and fields -/

theorem Steady.nameParams (h : res.Steady I) (names : List String) (declared synthetic : Nat) :
    Keeps I (res.nameParams names declared synthetic) := by
  unfold Resolution.nameParams
  split
  · exact fun p hp => hp
  · split
    · exact Keeps.bind (h.warn _ fun _ => nofun) fun _ p hp => hp
    · exact fun p hp => hp

/-- What is left to do with the parameters of a method once their types are known. -/
theorem ends_nameParams (h : res.Steady I) (names : List String) (declared synthetic : Nat)
    (f : List String → Registry → Registry) (n : Note) :
    Ends I (fun r r' => ∃ names, r' = f names r)
      (liftM (res.nameParams names declared synthetic) >>= fun names => commit (f names) n) := by
  refine ends_lift fun p hp => ⟨I, fun _ => id, h.nameParams _ _ _ p hp, ?_⟩
  exact (ends_commit _ _).mono fun _ _ _ heq => ⟨_, heq⟩

theorem ends_commitMethod (h : res.Steady I) (m : MethodId) (types : MethodTypes) :
    Ends I (fun r r' => ∃ names, r' = r.modifyMethod m (types.fill names))
      (res.commitMethod m types) := by
  refine Ends.ofRegistry fun r => ?_
  cases r.methodAt? m with
  | none => exact ends_throw _
  | some entry =>
    have hnames := ends_nameParams h entry.argNames types.params.length
      (r.syntheticCount entry types.params.length)
      (fun names r => r.modifyMethod m (types.fill names)) (.methodResolved res.owner)
    by_cases hv : res.options.verifyErasure = true
    · simp only [hv, if_true]
      exact (computes_ofExcept _).ends fun _ _ => hnames
    · simp only [hv]
      exact hnames

theorem ends_resolveMethodText (hask : ∀ c, Work.Evolves J (res.ask c)) (m : MethodId)
    (text : String) :
    Ends (Progress.Since J r₀) (fun r r' => r₀.Commits J r (.ofMethod m) (some text) r')
      (res.resolveMethodText m text) := by
  unfold resolveMethodText
  split
  · exact ends_throw _
  · rename_i sig hparse
    refine ends_lift fun p hp => ⟨_, fun _ => id, hp, ?_⟩
    have hmethod : (getRegistry p).1.methodAt? m = r₀.methodAt? m := hp.1.methodAt?_eq m
    rw [hmethod]
    cases hm : r₀.methodAt? m with
    | none => exact ends_throw _
    | some entry =>
      refine ends_scopeInside hask entry.owner fun r₁ h₁ => ?_
      -- the method has not changed since, as no method does
      have hd : ∀ p, Progress.Since J r₁ p →
          p.workspace.registry.typeParams (.ofMethod m) = r₀.typeParams (.ofMethod m) :=
        fun p hp => (h₁.trans hp).1.typeParams_ofMethod_eq m
      have hl := settled_of_evolves hask (l := r₁.lexiconInside entry.owner) fun _ => rfl
      refine (computes_methodTypes hl rfl hd sig).ends fun types htypes => ?_
      refine (ends_commitMethod hl.steady m types).mono ?_
      rintro p _ hp ⟨names, rfl⟩
      exact .methodSignature r₁ names hparse hm h₁ hp htypes

theorem ends_resolveMethodDescriptor (hask : ∀ c, Work.Evolves J (res.ask c)) (m : MethodId) :
    Ends (Progress.Since J r₀) (fun r r' => r₀.Commits J r (.ofMethod m) none r')
      (res.resolveMethodDescriptor m) := by
  refine ends_lift fun p hp => ⟨_, fun _ => id, hp, ?_⟩
  have hmethod : (getRegistry p).1.methodAt? m = r₀.methodAt? m := hp.1.methodAt?_eq m
  rw [hmethod]
  cases hm : r₀.methodAt? m with
  | none => exact ends_throw _
  | some entry =>
    have hl := settled_of_evolves hask (l := r₀.lexiconInside entry.owner) fun _ => rfl
    refine (Computes.mapM (computes_raw hl.named) _).ends fun params hparams => ?_
    refine (computes_erasedResult hl.named entry).ends fun result hresult => ?_
    refine (ends_nameParams hl.steady entry.argNames params.length 0
      (fun names r => r.modifyMethod m
        (MethodEntry.fillErased (names.zip params) result)) _).mono ?_
    rintro p' _ hp' ⟨names, rfl⟩
    exact .methodDescriptor names hm hparams hresult

theorem ends_resolveFieldText (hask : ∀ c, Work.Evolves J (res.ask c)) {f : FieldId}
    {entry : FieldEntry} (hf : r₀.fieldAt? f = some entry) (text : String) :
    Ends (Progress.Since J r₀) (fun r r' => r₀.Commits J r (.ofField f) (some text) r')
      (res.resolveFieldText entry.owner entry.descriptor text >>= fun type =>
        commit (fun r => r.modifyField f (FieldEntry.fill type)) (.fieldResolved res.owner)) := by
  unfold resolveFieldText
  rw [bind_assoc]
  refine ends_scopeInside hask entry.owner fun r₁ h₁ => ?_
  cases hparse : TypeSig.parse text with
  | error e => exact ends_throw _
  | ok sig =>
    have hl := settled_of_evolves hask (l := r₁.lexiconInside entry.owner) fun _ => rfl
    dsimp only
    rw [bind_assoc]
    refine (computes_typeAt hl rfl .reference sig).ends fun type htype => ?_
    have hcommit : Ends (Progress.Since J r₁)
        (fun r r' => r₀.Commits J r (.ofField f) (some text) r')
        (commit (fun r => r.modifyField f (FieldEntry.fill type)) (.fieldResolved res.owner)) := by
      refine (ends_commit _ _).mono ?_
      rintro p _ hp rfl
      exact .fieldSignature r₁ hparse hf h₁ hp htype
    by_cases hv : res.options.verifyErasure = true
    · simp only [hv, if_true]
      rw [bind_assoc]
      refine Ends.ofRegistry fun r => ?_
      rw [bind_assoc]
      exact (computes_ofExcept _).ends fun _ _ => hcommit
    · simp only [hv]
      exact hcommit

theorem ends_resolveFieldEntry (hask : ∀ c, Work.Evolves J (res.ask c)) (f : FieldId)
    (signature : Option String) :
    Ends (Progress.Since J r₀) (fun r r' => r₀.Commits J r (.ofField f) signature r')
      (res.resolveFieldEntry f signature) := by
  refine ends_lift fun p hp => ⟨_, fun _ => id, hp, ?_⟩
  have hfield : (getRegistry p).1.fieldAt? f = r₀.fieldAt? f := hp.1.fieldAt?_eq f
  rw [hfield]
  cases hf : r₀.fieldAt? f with
  | none => exact ends_throw _
  | some entry =>
    cases signature with
    | some text => exact ends_resolveFieldText hask hf text
    | none =>
      have hl := settled_of_evolves hask (l := r₀.lexiconInside entry.owner) fun _ => rfl
      refine (computes_raw hl.named entry.descriptor).ends fun type htype => ?_
      refine (ends_commit _ _).mono ?_
      rintro p _ hp rfl
      exact .fieldDescriptor hf htype

end Resolution

end JavaGenerics
