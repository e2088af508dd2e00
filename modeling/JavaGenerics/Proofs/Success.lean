import JavaGenerics.Proofs.Acceptance
import JavaGenerics.Proofs.Admission
import JavaGenerics.Proofs.Nesting
import JavaGenerics.Registry.Platform

/-!
# When a resolution succeeds

A text that parses is not yet a signature that fits. What more it takes for a resolution to
succeed, while no other class is resolved on the way, is that the registry admits the
signature (`JavaGenerics.Workspace.resolve_ok_iff_admits`); and where it does not, the
resolution fails with one of the errors that the registry objects with.

The proof follows the resolution through its parts. Each part has a set of errors that it
is *failed by* (`JavaGenerics.Attempt.IsFailedBy`): the meaning of the signature has one by
the file on definedness, and so has the check behind it. As nothing touches the registry
meanwhile, all parts look names up in the same one.
-/

namespace JavaGenerics

open Attempt

/-! ### Attempts and the errors that fail them -/

namespace Attempt

variable {α β : Type} {I : Progress → Prop} {E E' : ResolveError → Prop}

/-- Begun in any state with `I`, an attempt is failed by the errors `E`. -/
def IsFailedBy (I : Progress → Prop) (E : ResolveError → Prop) (x : Attempt α) : Prop :=
  ∀ p, I p → FailsBy E (x.outcome p).1

theorem IsFailedBy.congr {x : Attempt α} (h : IsFailedBy I E x) (hE : ∀ e, E e ↔ E' e) :
    IsFailedBy I E' x := fun p hp => (h p hp).congr hE

/-- What is computed first fails an attempt, and after that what fails the rest. -/
theorem Computes.isFailedBy {x : Attempt α} {v : Except ResolveError α} {f : α → Attempt β}
    (hx : Computes I x v) (hv : FailsBy E v) (hf : ∀ a, v = .ok a → IsFailedBy I E' (f a)) :
    IsFailedBy I (fun e => E e ∨ E' e) (x >>= f) := by
  intro p hp
  obtain ⟨hresult, hq⟩ := hx p hp
  rw [outcome_bind]
  rcases hout : x.outcome p with ⟨e | a, q⟩ <;> rw [hout] at hresult hq
  · cases hresult
    exact .inl hv
  · cases hresult
    exact (hf a rfl q hq).congr fun e => (or_iff_right (hv e)).symm

/-- A check that is made or not, before something that does not fail. -/
theorem isFailedBy_check {v : Except ResolveError Unit} {y : Attempt Unit} (verify : Bool)
    (hv : FailsBy E v) (hy : IsFailedBy I (fun _ => False) y) :
    IsFailedBy I (fun e => verify = true ∧ E e)
      (if verify = true then ofExcept v >>= fun _ => y else y) := by
  cases verify with
  | false => exact hy.congr fun e => by simp
  | true =>
    refine ((computes_ofExcept v).isFailedBy hv fun _ _ => hy).congr fun e => ?_
    simp

theorem isFailedBy_commit (f : Registry → Registry) (n : Note) :
    IsFailedBy I (fun _ => False) (commit f n) := fun _ _ _ => id

/-- The registry may be looked at first. -/
theorem IsFailedBy.ofRegistry {f : Registry → Attempt Unit}
    (hf : ∀ p, I p → IsFailedBy I E (f p.workspace.registry)) :
    IsFailedBy I E (liftM getRegistry >>= f) := fun p hp => hf p hp p hp

end Attempt

/-! ### Resolutions that find one registry throughout -/

/-- The resolutions under way that began with the registry `r` and still find it. -/
abbrev Progress.Still (r : Registry) : Progress → Prop := Progress.Since (· = r) r

theorem Progress.Still.registry_eq {r : Registry} {p : Progress} (h : Progress.Still r p) :
    p.workspace.registry = r := h.2 rfl

namespace Resolution

variable {res : Resolution} {r : Registry} {E : ResolveError → Prop}

theorem isFailedBy_ofRegistry {f : Registry → Attempt Unit}
    (hf : IsFailedBy (Progress.Still r) E (f r)) :
    IsFailedBy (Progress.Still r) E (liftM getRegistry >>= f) :=
  .ofRegistry fun _ hp => by rwa [Progress.Still.registry_eq hp]

/-- A part that does not fail may be run first, if what it returns is settled by the state
that it leaves. -/
theorem isFailedBy_lift {α : Type} {x : StateM Progress α} {f : α → Attempt Unit}
    (hx : Keeps (Progress.Still r) x) (a : Registry → α)
    (ha : ∀ p, (x p).1 = a (x p).2.workspace.registry)
    (hf : IsFailedBy (Progress.Still r) E (f (a r))) :
    IsFailedBy (Progress.Still r) E (liftM x >>= f) := by
  intro p hp
  have hq := hx p hp
  change FailsBy E ((f (x p).1).outcome (x p).2).1
  rw [ha, Progress.Still.registry_eq hq]
  exact hf _ hq

theorem isFailedBy_scopeInside (hask : ∀ c, Work.Evolves (· = r) (res.ask c)) (c : ClassId)
    {f : Scope → Attempt Unit}
    (hf : IsFailedBy (Progress.Still r) E (f (({} : Scope).pushBody r c))) :
    IsFailedBy (Progress.Still r) E (liftM (res.scopeInside c) >>= f) :=
  isFailedBy_lift ((steady_of_evolves hask r).calm.scopeInside c)
    (fun r => ({} : Scope).pushBody r c) (fun _ => rfl) hf

theorem isFailedBy_commitMethod {m : MethodId} {entry : MethodEntry}
    (hm : r.methodAt? m = some entry) {types : MethodTypes}
    (hE : FailsBy E (r.checkDescriptor entry (r.syntheticCount entry types.params.length)
      types.params types.result)) :
    IsFailedBy (Progress.Still r) (fun e => res.options.verifyErasure = true ∧ E e)
      (res.commitMethod m types) := by
  refine isFailedBy_ofRegistry ?_
  rw [hm]
  exact isFailedBy_check res.options.verifyErasure hE fun _ _ _ => id

/-- What is left to do for a field once its type is known. -/
theorem isFailedBy_commitField {f : FieldId} {descriptor : FieldType} {type : ResolvedType}
    {n : Note} (hE : FailsBy E (r.checkErasure descriptor type)) :
    IsFailedBy (Progress.Still r) (fun e => res.options.verifyErasure = true ∧ E e) ((do
      if res.options.verifyErasure then
        Attempt.ofExcept ((← Attempt.getRegistry).checkErasure descriptor type)
      pure type) >>= fun type => commit (fun r => r.modifyField f (FieldEntry.fill type)) n) := by
  have hcheck := isFailedBy_check (I := Progress.Still r) res.options.verifyErasure hE
    (isFailedBy_commit (fun r => r.modifyField f (FieldEntry.fill type)) n)
  by_cases hv : res.options.verifyErasure = true
  · simp only [hv, if_true, bind_assoc, pure_bind] at hcheck ⊢
    exact isFailedBy_ofRegistry hcheck
  · simp only [hv] at hcheck ⊢
    exact hcheck

/-- What is left to do for a class once its types are known. -/
theorem isFailedBy_commitClass {I : Progress → Prop} {c : ClassId} {entry : ClassEntry}
    (hc : ∀ p, I p → p.workspace.registry.classAt? c = some entry) {types : ClassTypes}
    (hE : ∀ p, I p →
      FailsBy E (p.workspace.registry.checkHeader c types.superclass types.interfaces)) :
    IsFailedBy I (fun e => res.options.verifyErasure = true ∧ E e) (res.commitClass c types) := by
  refine .ofRegistry fun p hp => ?_
  have hcheck := isFailedBy_check res.options.verifyErasure (hE p hp)
    (isFailedBy_commit (I := I) (fun r => r.modifyClass c types.fill)
      (.classResolved res.owner types.typeParams.length))
  simp only [hc p hp, Option.isNone_some, Bool.false_eq_true, if_false]
  exact hcheck

/-- The registry that a resolution finds when it has asked for the classes around `c`. -/
def reading (res : Resolution) (c : ClassId) (p : Progress) : Registry :=
  (res.scopeAround c p).2.workspace.registry

/-- A class signature is resolved in the registry that is then found. -/
theorem outcome_classText {c : ClassId} {text : String} {sig : ClassSig}
    (hparse : ClassSig.parse text = .ok sig) (p : Progress) :
    (res.resolveClassText c text).outcome p =
      (res.resolveClassTypes c (({} : Scope).pushEnclosing (res.reading c p) c) sig >>=
        res.commitClass c).outcome (res.scopeAround c p).2 := by
  unfold resolveClassText
  rw [hparse]
  rfl

/-- Where nothing is resolved meanwhile, that is the registry it began with. -/
theorem reading_of_still (hask : ∀ c, Work.Evolves (· = r) (res.ask c)) (c : ClassId)
    {p : Progress} (hp : Progress.Still r p) : res.reading c p = r :=
  Progress.Still.registry_eq ((steady_of_evolves hask r).calm.scopeAround c p hp)

/-- **A class signature fails by what the registry objects to** in which it is read, whoever
answers the requests and whatever becomes of other classes meanwhile. -/
theorem failsBy_classText {J : Registry → Prop} (hask : ∀ c, Work.Evolves J (res.ask c))
    {c : ClassId} {entry : ClassEntry} {p : Progress}
    (hc : p.workspace.registry.classAt? c = some entry) (hs : entry.stage ≠ .unresolved)
    {text : String} {sig : ClassSig} (hparse : ClassSig.parse text = .ok sig) :
    FailsBy ((res.reading c p).Objects res.options.verifyErasure (.ofClass c) sig)
      ((res.resolveClassText c text).outcome p).1 := by
  have hreadable := (ClassSig.parse_eq_ok.1 hparse).1
  have hafter : p.workspace.registry.Evolves J (res.reading c p) :=
    (steady_of_evolves hask p.workspace.registry).calm.scopeAround c p (.refl J _)
  have hfound := hafter.1.classAt?_eq_some hc hs
  generalize hread : res.reading c p = r₁ at hafter hfound
  -- the class is marked, so its entry stays as it is
  have hkept : ∀ q, Progress.Since J r₁ q → q.workspace.registry.classAt? c = some entry :=
    fun q hq => hq.1.classAt?_eq_some hfound hs
  have hdeclared : ∀ q, Progress.Since J r₁ q →
      q.workspace.registry.typeParams (.ofClass c) = r₁.typeParams (.ofClass c) := fun q hq => by
    rw [Registry.typeParams_ofClass (hkept q hq), Registry.typeParams_ofClass hfound]
  have hl := settled_of_evolves hask (r := r₁) (l := r₁.lexiconAround c) fun _ => rfl
  have herases : ∀ q, Progress.Since J r₁ q →
      (q.workspace.registry.Erases (.ofClass c) sig ↔ r₁.Erases (.ofClass c) sig) := fun q hq => by
    simp only [Registry.Erases, hkept q hq, hfound]
  have hcommit : ∀ types, (r₁.lexiconAround c).classTypes (r₁.typeParams (.ofClass c)) c sig =
      .ok types → IsFailedBy (Progress.Since J r₁) (fun e => res.options.verifyErasure = true ∧
        ¬r₁.Erases (.ofClass c) sig ∧ ∃ cause, e = .mismatch cause) (res.commitClass c types) := by
    refine fun types htypes => isFailedBy_commitClass hkept fun q hq => ?_
    have hcheck := Registry.failsBy_checkHeader (hkept q hq) (l := r₁.lexiconAround c)
      (funext fun name => (hq.1.lookup_eq name).symm) hreadable htypes
    rwa [herases q hq] at hcheck
  have hvar : ∀ name, ((r₁.lexiconAround c).declare (.ofClass c) sig.typeParams).var? name = none ↔
      ¬(name ∈ sig.typeParams.map (·.name) ∨
        ∃ outer, r₁.InForce (.ofClass c) outer ∧ name ∈ r₁.paramNames outer) := fun name => by
    rw [Lexicon.var?_declare_eq_none, Registry.var?_lexiconAround_eq_none, not_or]
  have hrest := (computes_classTypes hl rfl hdeclared sig).isFailedBy
    (Lexicon.failsBy_classTypes hreadable) hcommit
  rw [outcome_classText hparse p, hread]
  exact (hrest.congr fun e => (r₁.objects_iff res.options.verifyErasure (t := .ofClass c) sig rfl
    hvar).symm) _ (hread ▸ .refl J _)

/-- **A method signature fails by what the registry objects to.** -/
theorem isFailedBy_methodText (hask : ∀ c, Work.Evolves (· = r) (res.ask c)) {m : MethodId}
    {entry : MethodEntry} (hm : r.methodAt? m = some entry) {text : String} {sig : MethodSig}
    (hparse : MethodSig.parse text = .ok sig) :
    IsFailedBy (Progress.Still r)
      (r.Objects res.options.verifyErasure (.ofMethod m) sig) (res.resolveMethodText m text) := by
  have hreadable := (MethodSig.parse_eq_ok.1 hparse).1
  unfold resolveMethodText
  rw [hparse]
  refine isFailedBy_ofRegistry ?_
  rw [hm]
  refine isFailedBy_scopeInside hask entry.owner ?_
  have hl := settled_of_evolves hask (l := r.lexiconInside entry.owner) fun _ => rfl
  have hdeclared : ∀ p, Progress.Still r p →
      p.workspace.registry.typeParams (.ofMethod m) = r.typeParams (.ofMethod m) :=
    fun p hp => by rw [Progress.Still.registry_eq hp]
  have hvar : ∀ name,
      ((r.lexiconInside entry.owner).declare (.ofMethod m) sig.typeParams).var? name = none ↔
        ¬(name ∈ sig.typeParams.map (·.name) ∨
          ∃ outer, r.InForce (.ofMethod m) outer ∧ name ∈ r.paramNames outer) := fun name => by
    rw [Lexicon.var?_declare_eq_none, Registry.var?_lexiconInside_eq_none, not_or]
    simp only [Registry.InForce, hm, Option.map_some, Option.some.injEq, exists_eq_left']
  refine ((computes_methodTypes hl rfl hdeclared sig).isFailedBy
    (Lexicon.failsBy_methodTypes hreadable) fun types htypes =>
      isFailedBy_commitMethod hm (Registry.failsBy_checkDescriptor hm hreadable htypes)).congr
        fun e => ?_
  exact (r.objects_iff res.options.verifyErasure (t := .ofMethod m) sig rfl hvar).symm

/-- **A field signature fails by what the registry objects to.** -/
theorem isFailedBy_fieldEntry (hask : ∀ c, Work.Evolves (· = r) (res.ask c)) {f : FieldId}
    {entry : FieldEntry} (hf : r.fieldAt? f = some entry) {text : String} {sig : TypeSig}
    (hparse : TypeSig.parse text = .ok sig) :
    IsFailedBy (Progress.Still r)
      (r.Objects res.options.verifyErasure (.ofField f) sig)
      (res.resolveFieldEntry f (some text)) := by
  have hreadable := (TypeSig.parse_eq_ok.1 hparse).1
  refine isFailedBy_ofRegistry ?_
  rw [hf]
  dsimp only
  unfold resolveFieldText
  rw [bind_assoc]
  refine isFailedBy_scopeInside hask entry.owner ?_
  have hl := settled_of_evolves hask (l := r.lexiconInside entry.owner) fun _ => rfl
  rw [hparse]
  dsimp only
  rw [bind_assoc]
  have hvar : ∀ name, (r.lexiconInside entry.owner).var? name = none ↔
      ¬(name ∈ [] ∨ ∃ outer, r.InForce (.ofField f) outer ∧ name ∈ r.paramNames outer) :=
    fun name => by
      rw [Registry.var?_lexiconInside_eq_none]
      simp only [Registry.InForce, hf, Option.map_some, Option.some.injEq, exists_eq_left',
        List.not_mem_nil, false_or]
  refine ((computes_typeAt hl rfl .reference sig).isFailedBy
    (Lexicon.failsBy_typeAt_reference hreadable.reference) fun type htype =>
      isFailedBy_commitField (Registry.failsBy_checkErasure hf hreadable htype)).congr fun e => ?_
  rw [r.objects_iff res.options.verifyErasure (t := .ofField f) sig rfl hvar]
  refine or_congr_left ?_
  -- a field declares no type parameters
  have hnone : ¬Lexicon.Misdeclared [] [] e := by
    rintro (⟨⟨⟩⟩ | ⟨already, -⟩)
    exact already rfl
  have htypes : ∀ g : TypeSig → List String, [sig].flatMap g = g sig := fun g =>
    List.append_nil _
  change _ ↔ Lexicon.Misdeclared [] [] e ∨ (r.lexiconInside entry.owner).Missing
    ([sig].flatMap TypeSig.classNames) ([sig].flatMap TypeSig.varNames) e
  rw [htypes, htypes, or_iff_right hnone]

end Resolution

/-! ### Calls -/

/-- The collaborator that does nothing leaves the registry as it is. -/
theorem Collaborator.silent_evolves (J : Registry → Prop) (depth : Nat) (c : ClassId) :
    Work.Evolves J (silent.askWithin depth c) := by
  intro w
  cases depth <;> exact .refl J _

/-- **When a resolution succeeds**, where a text was read as `sig` and the collaborator does
nothing: if the registry admits this signature; and an error is one that the registry
objects to it with. -/
theorem Workspace.resolve_ok_iff_admits (options : Options) {t : Target} {text : String}
    {sig : t.Signature} {w : Workspace} (hparse : t.parse text = .ok sig)
    (hstage : w.registry.stage? t = some .unresolved) :
    ((resolve .silent options t (some text) w).1 = .ok () ↔
      w.registry.Admits options.verifyErasure t sig) ∧
    ∀ e, (resolve .silent options t (some text) w).1 = .error e →
      w.registry.Objects options.verifyErasure t sig e := by
  have hfails : FailsBy (w.registry.Objects options.verifyErasure t sig)
      (resolve .silent options t (some text) w).1 := by
    rw [resolve_apply, resolveAsking, resolveBy_of_mark_ok _ _ _ _ (Registry.mark_eq_ok.2
      ⟨hstage, rfl⟩)]
    have hask := Collaborator.silent_evolves (· = w.registry.setStage .resolving t)
      w.registry.unresolvedCount
    have hbegin : Progress.Still (w.registry.setStage .resolving t) (beginning t w) :=
      .refl _ _
    have hmarked := Registry.stage?_setStage w.registry .resolving t
    rw [hstage] at hmarked
    refine FailsBy.congr ?_ fun _ => Registry.objects_setStage (s := .resolving)
    cases t with
    | ofClass c =>
      obtain ⟨entry, hc, hs⟩ := Option.map_eq_some_iff.1 hmarked
      let res : Resolution := Collaborator.silent.resolution options w.registry (.ofClass c)
      have hfails := res.failsBy_classText hask (p := beginning (.ofClass c) w) hc (by simp [hs])
        hparse
      rwa [res.reading_of_still hask c hbegin] at hfails
    | ofMethod m =>
      obtain ⟨entry, hm, -⟩ := Option.map_eq_some_iff.1 hmarked
      exact Resolution.isFailedBy_methodText hask hm hparse _ hbegin
    | ofField f =>
      obtain ⟨entry, hf, -⟩ := Option.map_eq_some_iff.1 hmarked
      exact Resolution.isFailedBy_fieldEntry hask hf hparse _ hbegin
  exact ⟨hfails.eq_ok_iff.trans Registry.admits_iff.symm, fun e => hfails.error⟩

/-- A member class that uses the type parameter of the class around it. -/
theorem Workspace.resolve_ok_of_enclosed :
    let w : Workspace :=
      { registry := .ofHeaders [{ name := "O", typeParams := ["T"] },
          { name := "A", enclosing := some ⟨0⟩, superclass := some "O" }] }
    let sig : ClassSig := ⟨[⟨"U", some (.var "T"), []⟩],
      .ofClass (.mk "O" [.bounded .exact (.var "U")]) [], []⟩
    (Target.ofClass ⟨1⟩).parse "<U:TT;>LO<TU;>;" = .ok sig ∧
      w.registry.stage? (.ofClass ⟨1⟩) = some .unresolved ∧
      w.registry.Admits true (.ofClass ⟨1⟩) sig ∧
      (resolve .silent {} (.ofClass ⟨1⟩) (some "<U:TT;>LO<TU;>;") w).1 = .ok () := by
  intro w sig
  have hu : IsName "U" := by simp [IsName]
  have hreadable : sig.IsReadable :=
    { typeParams := by
        rintro p (_ | ⟨_, ⟨⟩⟩)
        refine ⟨hu, ?_⟩
        rintro t (_ | ⟨_, ⟨⟩⟩)
        exact .var (by simp [IsName])
      superclass := by
        refine .mk ⟨["O"], List.cons_ne_nil _ _, ?_, by decide +kernel⟩ ?_ (List.forall_mem_nil _)
        · rintro part (_ | ⟨_, ⟨⟩⟩)
          simp [IsName]
        · rintro a (_ | ⟨_, ⟨⟩⟩)
          exact .bounded .exact (.var hu)
      interfaces := List.forall_mem_nil _
      nesting := by decide +kernel
      separated := .singleton _ }
  have hparse : (Target.ofClass ⟨1⟩).parse "<U:TT;>LO<TU;>;" = .ok sig :=
    ClassSig.parse_eq_ok.2 ⟨hreadable, by decide +kernel⟩
  have hstage : w.registry.stage? (.ofClass ⟨1⟩) = some .unresolved := by decide +kernel
  have hadmits : w.registry.Admits true (.ofClass ⟨1⟩) sig := by
    have hclasses : Target.Signature.classNames (t := .ofClass ⟨1⟩) sig = ["O"] := by
      decide +kernel
    have hvars : Target.Signature.varNames (t := .ofClass ⟨1⟩) sig = ["T", "U"] := by
      decide +kernel
    have hlink : w.registry.enclosing? ⟨1⟩ = some ⟨0⟩ := by decide +kernel
    have houter : w.registry.paramNames ⟨0⟩ = ["T"] := by decide +kernel
    refine ⟨List.nodup_singleton "U", .inl (by decide +kernel), ?_, ?_, ?_⟩
    · rw [hclasses]
      intro name hname
      rw [List.mem_singleton.1 hname]
      unfold Registry.Registers
      decide +kernel
    · rw [hvars]
      rintro name (_ | ⟨_, _ | ⟨_, ⟨⟩⟩⟩)
      · refine .inr ⟨⟨0⟩, ⟨by decide, .single hlink⟩, ?_⟩
        rw [houter]
        exact List.mem_singleton_self "T"
      · exact .inl (List.mem_singleton_self "U")
    · intro _ entry erased hentry herased
      have hheader : (w.registry.classAt? ⟨1⟩).map (fun e => (e.erasedSuper, e.erasedInterfaces))
          = some (some "O", []) := by decide +kernel
      rw [hentry] at hheader
      obtain ⟨hsuper, hinterfaces⟩ := Prod.mk.inj (Option.some.inj hheader)
      cases hsuper.symm.trans herased
      rw [hinterfaces]
      exact ⟨by decide +kernel, rfl⟩
  exact ⟨hparse, hstage, hadmits, (resolve_ok_iff_admits {} hparse hstage).1.2 hadmits⟩

end JavaGenerics
