import JavaGenerics.Proofs.Erasure
import JavaGenerics.Proofs.Frame
import JavaGenerics.Proofs.Parallel

/-!
# What verification adds

A member can be resolved with or without a check against its descriptor. This file
compares the two. They go side by side up to the check, which comes when all types are
known and nothing is committed yet; so the check can only turn a success into a failure,
and it does so exactly if what is committed without it does not agree with the descriptor
(`JavaGenerics.Workspace.resolve_verified`).

Agreement is stated on what the registry holds afterwards
(`JavaGenerics.Registry.CommittedAgrees`). That it can be read off there is no matter of
course: the check looks at types that are still on their way, and at a registry that may
not be the last.
-/

namespace JavaGenerics

open Attempt

/-! ### Agreement of what is committed -/

/-- Whether what the registry holds of a member agrees with its descriptor. -/
def Registry.CommittedAgrees (r : Registry) : Target → Prop
  | .ofClass _ => True
  | .ofMethod m => ∃ entry result, r.methodAt? m = some entry ∧
      (entry.isConstructor = false → entry.result = some result) ∧
      r.MethodAgrees entry (entry.params.map fun p => r.erasure p.2) (r.erasure result)
  | .ofField f => ∃ entry type, r.fieldAt? f = some entry ∧ entry.type = some type ∧
      (r.erasure type).Fits entry.descriptor

/-- There are as many names as parameters. -/
theorem length_suppliedArgNames? {names supplied : List String} {declared synthetic : Nat}
    (h : suppliedArgNames? names declared synthetic = some supplied) :
    supplied.length = declared := by
  unfold suppliedArgNames? at h
  split at h
  · cases h
    assumption
  · split at h
    · cases h
      rw [List.length_drop]
      omega
    · cases h

theorem Resolution.length_nameParams (res : Resolution) (names : List String)
    (declared synthetic : Nat) (p : Progress) :
    (res.nameParams names declared synthetic p).1.length = declared := by
  unfold nameParams
  rcases hs : suppliedArgNames? names declared synthetic with _ | supplied
  · dsimp only
    split <;> exact (List.length_map _).trans List.length_range
  · exact length_suppliedArgNames? hs

theorem Resolution.registry_nameParams (res : Resolution) (names : List String)
    (declared synthetic : Nat) (p : Progress) :
    (res.nameParams names declared synthetic p).2.workspace.registry = p.workspace.registry := by
  unfold nameParams
  rcases suppliedArgNames? names declared synthetic with _ | supplied
  · dsimp only
    split <;> rfl
  · rfl

/-- What is committed for a method agrees with its descriptor if the types do that were
found for it. -/
theorem Registry.committedAgrees_fillMethod {r : Registry} {m : MethodId} {entry : MethodEntry}
    (h : r.methodAt? m = some entry) {types : MethodTypes} {names : List String}
    (hnames : names.length = types.params.length) :
    (r.modifyMethod m (types.fill names)).CommittedAgrees (.ofMethod m) ↔
      r.MethodAgrees entry (types.params.map r.erasure) (r.erasure types.result) := by
  have hentry : (r.modifyMethod m (types.fill names)).methodAt? m
      = some (types.fill names entry) := by
    rw [methodAt?_modifyMethod, if_pos rfl, h]
    rfl
  -- what is written into a method changes no class, so erasure stays what it is
  have hclasses : ∀ c, (r.modifyMethod m (types.fill names)).classAt? c = r.classAt? c :=
    fun _ => rfl
  have herasure := erasure_congr hclasses
  have hparams : (types.fill names entry).params.map (fun p => r.erasure p.2) =
      types.params.map r.erasure := by
    have hzip : (names.zip types.params).map (·.2) = types.params :=
      List.map_snd_zip (Nat.le_of_eq hnames.symm)
    rw [← hzip, List.map_map]
    rfl
  constructor
  · rintro ⟨entry', result, hfound, hresult, hagree⟩
    cases hentry.symm.trans hfound
    simp only [herasure, hparams] at hagree
    refine ⟨hagree.1, fun hmethod => ?_⟩
    have hsame : (if entry.isConstructor then none else some types.result) = some result :=
      hresult hmethod
    rw [if_neg (by simp [hmethod])] at hsame
    cases hsame
    exact hagree.2 hmethod
  · intro hagree
    refine ⟨_, types.result, hentry, fun hmethod => ?_, ?_⟩
    · have hmethod : entry.isConstructor = false := hmethod
      exact if_neg (by simp [hmethod])
    · simp only [herasure, hparams]
      exact hagree

/-- What is committed for a field agrees with its descriptor if the type does that was
found for it. -/
theorem Registry.committedAgrees_fillField {r : Registry} {f : FieldId} {entry : FieldEntry}
    (h : r.fieldAt? f = some entry) (type : ResolvedType) :
    (r.modifyField f (FieldEntry.fill type)).CommittedAgrees (.ofField f) ↔
      (r.erasure type).Fits entry.descriptor := by
  have hentry : (r.modifyField f (FieldEntry.fill type)).fieldAt? f
      = some (FieldEntry.fill type entry) := by
    rw [fieldAt?_modifyField, if_pos rfl, h]
    rfl
  have hclasses : ∀ c, (r.modifyField f (FieldEntry.fill type)).classAt? c = r.classAt? c :=
    fun _ => rfl
  have herasure := erasure_congr hclasses type
  constructor
  · rintro ⟨entry', type', hfound, htype, hagree⟩
    cases hentry.symm.trans hfound
    cases htype
    rwa [herasure] at hagree
  · intro hagree
    exact ⟨_, type, hentry, rfl, by rwa [herasure]⟩

/-! ### With the check and without -/

namespace Attempt

variable {α : Type} {I : Progress → Prop} {A : Registry → Prop}

/-- How an attempt that makes a check ends, compared with the same attempt without it: a
failure is the same, and a success is if what it leaves is as `A` says; otherwise the check
fails. -/
def Checks (A : Registry → Prop) (checked : Except ResolveError Unit × Progress) :
    Except ResolveError Unit × Progress → Prop
  | (.error e, q) => checked = (.error e, q)
  | (.ok _, q) => (A q.workspace.registry → checked = (.ok (), q)) ∧
      (¬A q.workspace.registry → ∃ cause, checked.1 = .error (.mismatch cause))

/-- Begun in any state with `I`, the attempt `x` is `y` with a check that succeeds if what
is left is as `A` says. -/
def IsChecked (I : Progress → Prop) (A : Registry → Prop) (x y : Attempt Unit) : Prop :=
  ∀ p, I p → Checks A (x.outcome p) (y.outcome p)

theorem isChecked_throw (e : ResolveError) : IsChecked I A (throw e) (throw e) :=
  fun _ _ => rfl

/-- What comes before the check is the same. -/
theorem IsChecked.after {z : Attempt α} {f g : α → Attempt Unit}
    (hz : ∀ p, I p → I (z.outcome p).2) (h : ∀ a, IsChecked I A (f a) (g a)) :
    IsChecked I A (z >>= f) (z >>= g) := by
  intro p hp
  have hq := hz p hp
  rw [outcome_bind, outcome_bind]
  rcases hout : z.outcome p with ⟨e | a, q⟩
  · rfl
  · rw [hout] at hq
    exact h a q hq

theorem IsChecked.after_lift {z : StateM Progress α} {f g : α → Attempt Unit} (hz : Keeps I z)
    (h : ∀ a, IsChecked I A (f a) (g a)) : IsChecked I A (liftM z >>= f) (liftM z >>= g) :=
  fun p hp => h _ _ (hz p hp)

theorem IsChecked.ofRegistry {f g : Registry → Attempt Unit}
    (h : ∀ p, I p → Checks A ((f p.workspace.registry).outcome p)
      ((g p.workspace.registry).outcome p)) :
    IsChecked I A (liftM getRegistry >>= f) (liftM getRegistry >>= g) := h

/-- A check is put before an attempt that then succeeds as `A` says if the check does. -/
theorem checks_ofExcept {v : Except ResolveError Unit} {y : Attempt Unit} {p q : Progress}
    (hy : y.outcome p = (.ok (), q)) (hA : A q.workspace.registry ↔ v = .ok ())
    (hv : ∀ e, v = .error e → ∃ cause, e = .mismatch cause) :
    Checks A ((ofExcept v >>= fun _ => y).outcome p) (y.outcome p) := by
  rcases v with e | ⟨⟨⟩⟩
  · obtain ⟨cause, rfl⟩ := hv e rfl
    rw [hy]
    exact ⟨fun h => by simpa using hA.1 h, fun _ => ⟨cause, rfl⟩⟩
  · rw [hy]
    exact ⟨fun _ => hy, fun h => absurd (hA.2 rfl) h⟩

/-- Attempts that go side by side in equal states are equal. -/
theorem eq_of_together {x y : Attempt α} (h : Together Eq x y) : x = y := by
  funext p
  obtain ⟨hresult, hstate⟩ := h p p rfl
  exact Prod.ext hresult hstate

theorem eq_of_alike {x y : StateM Progress α} (h : Alike Eq x y) : x = y := by
  funext p
  obtain ⟨hresult, hstate⟩ := h p p rfl
  exact Prod.ext hresult hstate

end Attempt

namespace Resolution

variable {res : Resolution} {I : Progress → Prop} {J : Registry → Prop} {r₀ : Registry}

/-- The same resolution with or without the check. -/
def verifying (res : Resolution) (verify : Bool) : Resolution :=
  { res with options := { res.options with verifyErasure := verify } }

theorem verifyErasure_verifying (res : Resolution) (verify : Bool) :
    (res.verifying verify).options.verifyErasure = verify := rfl

/-- The check does not show before it is made. -/
theorem parallel_verifying (res : Resolution) (verify : Bool) :
    (res.verifying verify).Parallel res Eq where
  request c := by
    rintro p _ rfl
    exact ⟨rfl, rfl⟩
  warnArity c supplied := by
    rintro p _ rfl
    exact ⟨rfl, rfl⟩
  noteCycle c := by
    rintro p _ rfl
    exact ⟨rfl, rfl⟩
  agrees := by
    rintro p _ rfl
    exact .refl _

theorem scopeInside_verifying (res : Resolution) (verify : Bool) (c : ClassId) :
    (res.verifying verify).scopeInside c = res.scopeInside c :=
  eq_of_alike (alike_scopeInside (res.parallel_verifying verify) c)

theorem resolveAt_verifying (res : Resolution) (verify : Bool) (position : Position)
    (scope : Scope) (t : TypeSig) :
    (res.verifying verify).resolveAt position scope t = res.resolveAt position scope t :=
  eq_of_together (together_typeAt (res.parallel_verifying verify) position scope t)

theorem resolveMethodTypes_verifying (res : Resolution) (verify : Bool) (m : MethodId)
    (scope : Scope) (sig : MethodSig) :
    (res.verifying verify).resolveMethodTypes m scope sig = res.resolveMethodTypes m scope sig :=
  eq_of_together (together_methodTypes (res.parallel_verifying verify) m scope sig)

/-! ### Members -/

/-- What is left to do for a method behind the check does not fail. -/
theorem outcome_fillMethod (res : Resolution) (m : MethodId) (types : MethodTypes)
    (names : List String) (declared synthetic : Nat) (n : Note) (p : Progress) :
    ∃ q, (liftM (res.nameParams names declared synthetic) >>= fun names =>
        commit (fun r => r.modifyMethod m (types.fill names)) n : Attempt Unit).outcome p
          = (.ok (), q) ∧
      q.workspace.registry = p.workspace.registry.modifyMethod m
        (types.fill (res.nameParams names declared synthetic p).1) := by
  refine ⟨_, rfl, ?_⟩
  rw [← res.registry_nameParams names declared synthetic p]
  rfl

theorem isChecked_commitMethod (m : MethodId) (types : MethodTypes) :
    IsChecked I (Registry.CommittedAgrees · (.ofMethod m))
      ((res.verifying true).commitMethod m types)
      ((res.verifying false).commitMethod m types) := by
  refine IsChecked.ofRegistry fun p _ => ?_
  cases hm : p.workspace.registry.methodAt? m with
  | none => rfl
  | some entry =>
    obtain ⟨q, hq, hregistry⟩ := (res.verifying false).outcome_fillMethod m types entry.argNames
      types.params.length (p.workspace.registry.syntheticCount entry types.params.length)
      (.methodResolved res.owner) p
    refine checks_ofExcept hq ?_ fun e => Registry.checkDescriptor_eq_error
    rw [hregistry, Registry.committedAgrees_fillMethod hm (length_nameParams _ _ _ _ _)]
    exact Registry.checkDescriptor_eq_ok.symm

theorem isChecked_methodText (m : MethodId) (text : String) :
    IsChecked (fun _ => True) (Registry.CommittedAgrees · (.ofMethod m))
      ((res.verifying true).resolveMethodText m text)
      ((res.verifying false).resolveMethodText m text) := by
  unfold resolveMethodText
  split
  · exact isChecked_throw _
  · rename_i sig _
    refine IsChecked.ofRegistry fun p _ => ?_
    cases p.workspace.registry.methodAt? m with
    | none => rfl
    | some entry =>
      have hsig : IsChecked (fun _ => True) (Registry.CommittedAgrees · (.ofMethod m))
          ((res.verifying true).resolveMethodSig m entry.owner sig)
          ((res.verifying false).resolveMethodSig m entry.owner sig) := by
        unfold resolveMethodSig
        simp only [scopeInside_verifying, resolveMethodTypes_verifying]
        refine IsChecked.after_lift (fun _ _ => trivial) fun scope => ?_
        exact IsChecked.after (fun _ _ => trivial) fun types => isChecked_commitMethod m types
      exact hsig p trivial

theorem isChecked_fieldText (hask : ∀ c, Work.Evolves J (res.ask c)) {f : FieldId}
    {entry : FieldEntry} (hf : r₀.fieldAt? f = some entry) (text : String) (n : Note) :
    IsChecked (Progress.Since J r₀) (Registry.CommittedAgrees · (.ofField f))
      ((res.verifying true).resolveFieldText entry.owner entry.descriptor text >>= fun type =>
        commit (fun r => r.modifyField f (FieldEntry.fill type)) n)
      ((res.verifying false).resolveFieldText entry.owner entry.descriptor text >>= fun type =>
        commit (fun r => r.modifyField f (FieldEntry.fill type)) n) := by
  unfold resolveFieldText
  simp only [bind_assoc, scopeInside_verifying]
  have hscope := (steady_of_evolves hask r₀).calm.scopeInside entry.owner
  refine IsChecked.after_lift hscope fun scope => ?_
  cases TypeSig.parse text with
  | error e => exact isChecked_throw _
  | ok sig =>
    have hl := settled_of_evolves hask (l := ⟨r₀.lookup, scope.resolve⟩) fun _ => rfl
    dsimp only
    rw [verifyErasure_verifying, verifyErasure_verifying]
    simp only [bind_assoc, resolveAt_verifying, if_true, Bool.false_eq_true, if_false, pure_bind]
    refine IsChecked.after (fun p hp => (computes_typeAt hl rfl .reference sig p hp).2)
      fun type p hp => ?_
    -- no field has changed since the descriptor was read
    have hfound : p.workspace.registry.fieldAt? f = some entry :=
      (hp.1.fieldAt?_eq f).trans hf
    have hcheck : Registry.CommittedAgrees (p.workspace.registry.modifyField f
        (FieldEntry.fill type)) (.ofField f) ↔
          p.workspace.registry.checkErasure entry.descriptor type = .ok () := by
      rw [Registry.checkErasure_eq_ok]
      exact Registry.committedAgrees_fillField hfound type
    exact checks_ofExcept rfl hcheck fun e => Registry.checkErasure_eq_error

theorem isChecked_fieldEntry (hask : ∀ c, Work.Evolves J (res.ask c)) (f : FieldId)
    (text : String) :
    IsChecked (Progress.Since J r₀) (Registry.CommittedAgrees · (.ofField f))
      ((res.verifying true).resolveFieldEntry f (some text))
      ((res.verifying false).resolveFieldEntry f (some text)) := by
  refine IsChecked.ofRegistry fun p hp => ?_
  cases hf : p.workspace.registry.fieldAt? f with
  | none => rfl
  | some entry =>
    have hfound : r₀.fieldAt? f = some entry :=
      (hp.1.fieldAt?_eq f).symm.trans hf
    exact isChecked_fieldText hask hfound text _ p hp

end Resolution

/-! ### Calls -/

namespace Workspace

/-- **How a call that makes the check compares with one that does not**, where `agrees`
says what the check asks for. -/
structure Verified (agrees : Registry → Prop)
    (checked unchecked : Except ResolveError Unit × Workspace) : Prop where
  /-- It succeeds if the other does and what that commits agrees. -/
  ok_iff : checked.1 = .ok () ↔ unchecked.1 = .ok () ∧ agrees unchecked.2.registry
  /-- Then it leaves the same, down to the journal. -/
  state_eq : checked.1 = .ok () → checked.2 = unchecked.2
  /-- Otherwise it fails as the other does, or the other succeeds and the check fails. -/
  error : ∀ e, checked.1 = .error e →
    checked = unchecked ∨ unchecked.1 = .ok () ∧ ∃ cause, e = .mismatch cause

/-- A call without a main part to it is the same with the check and without. -/
theorem Verified.of_error {A : Registry → Prop} {out : Except ResolveError Unit × Workspace}
    {e : ResolveError} (h : out.1 = .error e) : Verified A out out :=
  ⟨by simp [h], fun _ => rfl, fun _ _ => .inl rfl⟩

/-- Calls are compared by their main parts. -/
theorem verified_resolveBy {A : Registry → Prop} (res : Resolution) {t : Target}
    (signature : Option String) {body : Resolution → Attempt Unit} {w : Workspace}
    (howner : res.owner = w.registry.targetName t)
    (h : Checks A ((body (res.verifying true)).outcome (beginning t w))
      ((body (res.verifying false)).outcome (beginning t w))) :
    Verified A
      (resolveBy res.ask (res.verifying true).options t signature body w)
      (resolveBy res.ask (res.verifying false).options t signature body w) := by
  cases hm : w.registry.mark t with
  | error e =>
    rw [resolveBy_of_mark_error _ _ _ _ hm, resolveBy_of_mark_error _ _ _ _ hm]
    exact .of_error rfl
  | ok marked =>
    have hres : ∀ verify, (⟨(res.verifying verify).options, w.registry.targetName t, res.ask⟩ :
        Resolution) = res.verifying verify := fun verify => by rw [← howner]; rfl
    rw [resolveBy_of_mark_ok _ _ _ _ hm, resolveBy_of_mark_ok _ _ _ _ hm]
    simp only [hres]
    rcases hoff : (body (res.verifying false)).outcome (beginning t w) with ⟨e | _, q⟩ <;>
      rw [hoff] at h
    · rw [show (body (res.verifying true)).outcome (beginning t w) = (.error e, q) from h]
      exact .of_error rfl
    · by_cases hA : A q.workspace.registry
      · rw [h.1 hA]
        refine ⟨?_, fun _ => rfl, fun _ _ => .inl rfl⟩
        rw [returning_registry]
        exact ⟨fun _ => ⟨rfl, hA⟩, fun _ => rfl⟩
      · obtain ⟨cause, hcause⟩ := h.2 hA
        refine ⟨?_, ?_, ?_⟩ <;> dsimp only <;> rw [hcause]
        · rw [returning_registry]
          exact ⟨nofun, fun h => absurd h.2 hA⟩
        · exact nofun
        · rintro _ ⟨⟩
          exact .inr ⟨rfl, cause, rfl⟩

/-- **Verification of a member is agreement with its descriptor**: with the check, the
resolution of a method or of a field from a signature succeeds if it does without it and
what is then committed agrees with the descriptor; both leave the same then. Otherwise it
fails as it does without the check, or with a mismatch. -/
theorem resolve_verified (k : Collaborator) (options : Options) (text : String) (w : Workspace) :
    (∀ m, Verified (Registry.CommittedAgrees · (.ofMethod m))
      (resolveMethod k { options with verifyErasure := true } m (some text) w)
      (resolveMethod k { options with verifyErasure := false } m (some text) w)) ∧
    ∀ f, Verified (Registry.CommittedAgrees · (.ofField f))
      (resolveField k { options with verifyErasure := true } f (some text) w)
      (resolveField k { options with verifyErasure := false } f (some text) w) := by
  refine ⟨fun m => ?_, fun f => ?_⟩
  · rw [resolveMethod, resolveMethod, bind_apply, bind_apply, getRegistry_apply]
    exact verified_resolveBy (k.resolution options w.registry (.ofMethod m)) (some text) rfl
      (Resolution.isChecked_methodText m text _ trivial)
  · have hask := k.askWithin_evolves Registry.stable_trivial (k.serves_trivial _)
      w.registry.unresolvedCount
    rw [resolveField, resolveField, bind_apply, bind_apply, getRegistry_apply]
    exact verified_resolveBy (k.resolution options w.registry (.ofField f)) (some text) rfl
      (Resolution.isChecked_fieldEntry hask f text _ (.refl _ _))

end Workspace

end JavaGenerics
