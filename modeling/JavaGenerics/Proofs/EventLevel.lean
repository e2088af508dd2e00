import JavaGenerics.Proofs.Feeding
import JavaGenerics.Proofs.LexicalScoping
import JavaGenerics.Proofs.MethodFeeding
import JavaGenerics.Proofs.ParameterNames
import JavaGenerics.Proofs.Unreadable

/-!
# Text and events

The signature of a class or of a method can be resolved in one call, from its text, or by feeding
its events to an assembler, up to the first that is refused. The call marks the declaration while
it works on it, has the classes around it asked for first, and takes the mark away if it fails.
Feeding does nothing of the kind, so that to a signature that mentions its own declaration this
looks half resolved in the one case, and unresolved in the other. Where the collaborator does
nothing, none of this shows: both ways have the same result, and leave the same registry
(`JavaGenerics.Workspace.resolve_eq_feed`).

Both are compared with a third, which is no process at all: what a signature comes to in a
registry (`JavaGenerics.Registry.classOutcome`, `JavaGenerics.Registry.methodOutcome`). It is the
meaning of the signature, checked and filled in, and all of this looks past marks
(`JavaGenerics.Registry.classOutcome_setStage`, `JavaGenerics.Registry.methodOutcome_setStage`).
-/

namespace JavaGenerics

open Attempt

/-! ### What a signature comes to -/

namespace Registry

variable (r : Registry) (verify : Bool)

/-- The registry with a class resolved to some types, if these stand up to the check. -/
def fillClass (c : ClassId) (types : ClassTypes) : Except ResolveError Registry := do
  if verify then r.checkHeader c types.superclass types.interfaces
  if (r.classAt? c).isNone then throw (.unknownDeclaration (.ofClass c))
  pure (r.modifyClass c types.fill)

/-- **What the signature of a class comes to**: the registry with the class resolved, or the
reason why there is none. -/
def classOutcome (c : ClassId) (sig : ClassSig) : Except ResolveError Registry := do
  let types ← (r.lexiconAround c).classTypes (r.typeParams (.ofClass c)) c sig
  r.fillClass verify c types

/-- The registry with a method resolved to some types, if these stand up to the check. -/
def fillMethod (m : MethodId) (types : MethodTypes) : Except ResolveError Registry := do
  let some entry := r.methodAt? m | throw (.unknownDeclaration (.ofMethod m))
  let declared := types.params.length
  let synthetic := r.syntheticCount entry declared
  if verify then r.checkDescriptor entry synthetic types.params types.result
  pure (r.modifyMethod m (types.fill (chosenNames entry.argNames declared synthetic)))

/-- **What the signature of a method comes to**: the registry with the method resolved, or the
reason why there is none. -/
def methodOutcome (m : MethodId) (sig : MethodSig) : Except ResolveError Registry := do
  let some entry := r.methodAt? m | throw (.unknownDeclaration (.ofMethod m))
  let types ← (r.lexiconInside entry.owner).methodTypes (r.typeParams (.ofMethod m)) m sig
  r.fillMethod verify m types

/-! ### Marks -/

theorem looksLike_setStage (s : Stage) (t : Target) : r.LooksLike (r.setStage s t) where
  toAgrees := r.agrees_setStage s t
  records := r.sameRecords_setStage s t

/-- A class that is resolved has no mark any more. -/
theorem fillClass_setStage (c : ClassId) (s : Stage) (types : ClassTypes) :
    (r.setStage s (.ofClass c)).fillClass verify c types = r.fillClass verify c types := by
  have hlike := r.looksLike_setStage s (.ofClass c)
  unfold fillClass
  rw [hlike.checkHeader_eq, hlike.records.isNone_classAt?, setStage, modifyClass_modifyClass]
  rfl

/-- **A mark on a class does not show in what its signature comes to.** -/
theorem classOutcome_setStage (c : ClassId) (s : Stage) (sig : ClassSig) :
    (r.setStage s (.ofClass c)).classOutcome verify c sig = r.classOutcome verify c sig := by
  unfold classOutcome
  simp only [lexiconAround_setStage, typeParams_setStage, fillClass_setStage]

/-- What is found of a method that is marked. -/
theorem methodAt?_setStage (m : MethodId) (s : Stage) :
    (r.setStage s (.ofMethod m)).methodAt? m =
      (r.methodAt? m).map fun e => { e with stage := s } := by
  rw [setStage, methodAt?_modifyMethod, if_pos rfl]

/-- A method that is resolved has no mark any more. -/
theorem fillMethod_setStage (m : MethodId) (s : Stage) (types : MethodTypes) :
    (r.setStage s (.ofMethod m)).fillMethod verify m types = r.fillMethod verify m types := by
  have hlike := r.looksLike_setStage s (.ofMethod m)
  unfold fillMethod
  rw [methodAt?_setStage]
  cases hm : r.methodAt? m with
  | none => rfl
  | some entry =>
    simp only [Option.map_some, hlike.checkDescriptor_eq, hlike.records.syntheticCount_eq]
    rw [setStage, modifyMethod_modifyMethod]
    rfl

/-- **A mark on a method does not show in what its signature comes to.** -/
theorem methodOutcome_setStage (m : MethodId) (s : Stage) (sig : MethodSig) :
    (r.setStage s (.ofMethod m)).methodOutcome verify m sig = r.methodOutcome verify m sig := by
  unfold methodOutcome
  simp only [methodAt?_setStage, lexiconInside_setStage, typeParams_setStage, fillMethod_setStage]
  cases r.methodAt? m <;> rfl

end Registry

/-! ### Attempts that come to an outcome -/

namespace Attempt

variable {α : Type} {p : Progress} {v : Except ResolveError Registry}

/-- **An attempt that comes to `v`** from the state `p`: it leaves the registry that `v` is, or it
fails with the error that `v` is and leaves the registry alone. -/
def ComesTo (x : Attempt Unit) (p : Progress) (v : Except ResolveError Registry) : Prop :=
  x.Leads p (fun _ q => v = .ok q.workspace.registry)
    fun e q => v = .error e ∧ q.workspace.registry = p.workspace.registry

theorem comesTo_throw (e : ResolveError) : (throw e : Attempt Unit).ComesTo p (.error e) :=
  ⟨rfl, rfl⟩

theorem comesTo_commit (f : Registry → Registry) (n : Note) :
    (commit f n).ComesTo p (.ok (f p.workspace.registry)) := rfl

/-- What does not touch the registry may be done first. -/
theorem ComesTo.lift {x : StateM Progress α} {f : α → Attempt Unit}
    (hx : (x p).2.workspace.registry = p.workspace.registry)
    (hf : (f (x p).1).ComesTo (x p).2 v) : (liftM x >>= f).ComesTo p v := by
  unfold ComesTo at hf ⊢
  rw [hx] at hf
  exact hf

/-- The registry may be looked at first. -/
theorem ComesTo.ofRegistry {f : Registry → Attempt Unit}
    (hf : (f p.workspace.registry).ComesTo p v) : (liftM getRegistry >>= f).ComesTo p v := hf

/-- What computes a value while the registry stays as it is may be done first. -/
theorem Computes.comesTo {x : Attempt α} {u : Except ResolveError α} {f : α → Attempt Unit}
    {g : α → Except ResolveError Registry} (hx : Computes (Progress.Still p.workspace.registry) x u)
    (hf : ∀ a q, q.workspace.registry = p.workspace.registry → (f a).ComesTo q (g a)) :
    (x >>= f).ComesTo p (u >>= g) := by
  obtain ⟨hu, hq⟩ := hx p (.refl _ _)
  unfold ComesTo at hf ⊢
  rw [Attempt.leads_bind, Leads]
  rcases hout : x.outcome p with ⟨e | a, q⟩ <;> rw [hout] at hu hq <;> cases hu
  · exact ⟨rfl, hq.registry_eq⟩
  · have hthen := hf a q hq.registry_eq
    rw [hq.registry_eq] at hthen
    exact hthen

end Attempt

namespace Resolution

variable {res : Resolution} {p : Progress}

/-- A commit of a class fills it in. -/
theorem comesTo_commitClass (c : ClassId) (types : ClassTypes) :
    (res.commitClass c types).ComesTo p
      (p.workspace.registry.fillClass res.options.verifyErasure c types) := by
  have hcommit : ∀ q : Progress, q.workspace.registry = p.workspace.registry →
      Attempt.ComesTo (do
        if (p.workspace.registry.classAt? c).isNone then throw (.unknownDeclaration (.ofClass c))
        commit (fun r => r.modifyClass c types.fill)
          (.classResolved res.owner types.typeParams.length)) q (do
        if (p.workspace.registry.classAt? c).isNone then throw (.unknownDeclaration (.ofClass c))
        pure (p.workspace.registry.modifyClass c types.fill)) := by
    intro q hq
    rw [← hq]
    split
    · exact comesTo_throw _
    · exact comesTo_commit _ _
  unfold commitClass Registry.fillClass
  refine ComesTo.ofRegistry ?_
  by_cases hverify : res.options.verifyErasure = true
  · simp only [hverify, if_true]
    exact (computes_ofExcept _).comesTo fun _ => hcommit
  · simp only [hverify]
    exact hcommit p rfl

/-- A commit of a method fills it in. -/
theorem comesTo_commitMethod (m : MethodId) (types : MethodTypes) :
    (res.commitMethod m types).ComesTo p
      (p.workspace.registry.fillMethod res.options.verifyErasure m types) := by
  unfold commitMethod Registry.fillMethod
  refine ComesTo.ofRegistry ?_
  cases hm : p.workspace.registry.methodAt? m with
  | none => exact comesTo_throw _
  | some entry =>
    let declared := types.params.length
    let synthetic := p.workspace.registry.syntheticCount entry declared
    -- the names are chosen before the commit, which may take a warning
    have hcommit : ∀ q : Progress, q.workspace.registry = p.workspace.registry →
        ComesTo (liftM (res.nameParams entry.argNames declared synthetic) >>= fun names =>
          commit (fun r => r.modifyMethod m (types.fill names)) (.methodResolved res.owner)) q
          (pure (p.workspace.registry.modifyMethod m
            (types.fill (chosenNames entry.argNames declared synthetic)))) := by
      intro q hq
      refine ComesTo.lift (res.registry_nameParams _ _ _ q) ?_
      rw [nameParams_fst, ← hq, ← res.registry_nameParams entry.argNames declared synthetic q]
      exact comesTo_commit _ _
    by_cases hverify : res.options.verifyErasure = true
    · simp only [hverify, if_true]
      exact (computes_ofExcept _).comesTo fun _ => hcommit
    · simp only [hverify]
      exact hcommit p rfl

/-- **What is committed for a class** is what its signature comes to, if it is read with what is
in force around the class. -/
theorem comesTo_classTypes (hres : res.IsQuiet) (c : ClassId) (sig : ClassSig) :
    let scope := ({} : Scope).pushEnclosing p.workspace.registry c
    (res.resolveClassTypes c scope sig >>= res.commitClass c).ComesTo p
      (p.workspace.registry.classOutcome res.options.verifyErasure c sig) := by
  intro scope
  have htypes := computes_classTypes (hres.settled p scope) rfl
    (fun q hq => congrArg (·.typeParams (.ofClass c)) (Progress.Still.registry_eq hq)) sig
  refine htypes.comesTo fun types q hq => ?_
  rw [← hq]
  exact comesTo_commitClass c types

/-- **What is committed for a method** is what its signature comes to, if it is read with what is
in force in the body of its owner. -/
theorem comesTo_methodTypes (hres : res.IsQuiet) {m : MethodId} {entry : MethodEntry}
    (hm : p.workspace.registry.methodAt? m = some entry) (sig : MethodSig) :
    let scope := ({} : Scope).pushBody p.workspace.registry entry.owner
    (res.resolveMethodTypes m scope sig >>= res.commitMethod m).ComesTo p
      (p.workspace.registry.methodOutcome res.options.verifyErasure m sig) := by
  intro scope
  have htypes := computes_methodTypes (hres.settled p scope) rfl
    (fun q hq => congrArg (·.typeParams (.ofMethod m)) (Progress.Still.registry_eq hq)) sig
  unfold Registry.methodOutcome
  rw [hm]
  refine htypes.comesTo fun types q hq => ?_
  rw [← hq]
  exact comesTo_commitMethod m types

end Resolution

/-! ### From the text -/

namespace Resolution

variable {res : Resolution} {p : Progress} {text : String}

theorem comesTo_classText (hres : res.IsQuiet) (c : ClassId) {sig : ClassSig}
    (hparse : ClassSig.parse text = .ok sig) :
    (res.resolveClassText c text).ComesTo p
      (p.workspace.registry.classOutcome res.options.verifyErasure c sig) := by
  unfold resolveClassText resolveClassSig
  rw [hparse]
  have hstill := Progress.Still.registry_eq
    ((steady_of_evolves (hres _) _).calm.scopeAround c p (.refl _ _))
  refine ComesTo.lift hstill ?_
  change ComesTo (res.resolveClassTypes c
    (({} : Scope).pushEnclosing (res.scopeAround c p).2.workspace.registry c) sig >>= _) _ _
  rw [← hstill]
  exact comesTo_classTypes hres c sig

theorem comesTo_methodText (hres : res.IsQuiet) (m : MethodId) {sig : MethodSig}
    (hparse : MethodSig.parse text = .ok sig) :
    (res.resolveMethodText m text).ComesTo p
      (p.workspace.registry.methodOutcome res.options.verifyErasure m sig) := by
  unfold resolveMethodText
  rw [hparse]
  refine ComesTo.ofRegistry ?_
  cases hm : p.workspace.registry.methodAt? m with
  | none =>
    unfold Registry.methodOutcome
    rw [hm]
    exact comesTo_throw _
  | some entry =>
    unfold resolveMethodSig
    have hstill := Progress.Still.registry_eq
      ((steady_of_evolves (hres _) _).calm.scopeInside entry.owner p (.refl _ _))
    refine ComesTo.lift hstill ?_
    change ComesTo (res.resolveMethodTypes m
      (({} : Scope).pushBody (res.scopeInside entry.owner p).2.workspace.registry entry.owner)
      sig >>= _) _ _
    rw [← hstill]
    exact comesTo_methodTypes hres (hstill ▸ hm) sig

end Resolution

namespace Workspace

variable {t : Target} {w : Workspace}

/-- A call whose main part comes to something has this for its result, and leaves it behind; if
it fails, it leaves nothing. -/
theorem resolve_of_comesTo {options : Options} {signature : Option String}
    {v : Except ResolveError Registry}
    (hs : w.registry.stage? t = some .unresolved)
    (h : ((Collaborator.silent.resolution options w.registry t).body t signature).ComesTo
      (beginning t w) v) :
    (resolve .silent options t signature w).1 = v.map (fun _ => ()) ∧
      (resolve .silent options t signature w).2.registry = v.toOption.getD w.registry := by
  have hout := (resolve_apply .silent options t signature w).trans
    (resolveBy_of_mark_ok _ _ _ _ (Registry.mark_eq_ok.2 ⟨hs, rfl⟩))
  rw [hout, returning_registry]
  unfold Collaborator.resolution ComesTo Leads at h
  dsimp only
  generalize Attempt.outcome (Resolution.body _ t signature) (beginning t w) = x at h ⊢
  obtain ⟨e | ⟨⟩, q⟩ := x
  · obtain ⟨rfl, hq⟩ := h
    refine ⟨rfl, ?_⟩
    change q.workspace.registry.unmark t = w.registry
    rw [hq]
    exact w.registry.unmark_setStage hs
  · cases h
    exact ⟨rfl, rfl⟩

theorem resolve_classText (options : Options) {c : ClassId}
    (hs : w.registry.stage? (.ofClass c) = some .unresolved) {text : String} {sig : ClassSig}
    (hparse : ClassSig.parse text = .ok sig) :
    let v := w.registry.classOutcome options.verifyErasure c sig
    (resolve .silent options (.ofClass c) (some text) w).1 = v.map (fun _ => ()) ∧
      (resolve .silent options (.ofClass c) (some text) w).2.registry =
        v.toOption.getD w.registry := by
  refine resolve_of_comesTo hs ?_
  rw [← w.registry.classOutcome_setStage _ c .resolving]
  exact Resolution.comesTo_classText (Resolution.isQuiet_silent _ _ _) c hparse

theorem resolve_methodText (options : Options) {m : MethodId}
    (hs : w.registry.stage? (.ofMethod m) = some .unresolved) {text : String} {sig : MethodSig}
    (hparse : MethodSig.parse text = .ok sig) :
    let v := w.registry.methodOutcome options.verifyErasure m sig
    (resolve .silent options (.ofMethod m) (some text) w).1 = v.map (fun _ => ()) ∧
      (resolve .silent options (.ofMethod m) (some text) w).2.registry =
        v.toOption.getD w.registry := by
  refine resolve_of_comesTo hs ?_
  rw [← w.registry.methodOutcome_setStage _ m .resolving]
  exact Resolution.comesTo_methodText (Resolution.isQuiet_silent _ _ _) m hparse

/-! ### From the events -/

/-- **The resolution of a class from the events of its signature**: with what is in force around
it, they are taken in turn, up to the first that is refused, and then the class is finished. -/
def feedClass (k : Collaborator) (options : Options) (c : ClassId) (es : List Event) :
    Work (Except ResolveError Unit) := do
  let scope ← pushEnclosing {} c
  let res := k.resolution options (← getRegistry) (.ofClass c)
  Attempt.start ((Assembly.inTurn (ClassAssembler.move res) (es.map .accept ++ [.finish])).run.run'
    (ClassAssembler.start c scope))

/-- **The resolution of a method from the events of its signature**: with what is in force in the
body of its owner, they are taken in turn, up to the first that is refused, and then the method is
finished. -/
def feedMethod (k : Collaborator) (options : Options) (m : MethodId) (es : List Event) :
    Work (Except ResolveError Unit) := do
  let r ← getRegistry
  let some entry := r.methodAt? m | return .error (.unknownDeclaration (.ofMethod m))
  let scope ← pushBody {} entry.owner
  match MethodAssembler.start r m scope with
  | .error e => return .error e
  | .ok a =>
    let res := k.resolution options r (.ofMethod m)
    Attempt.start
      ((Assembly.inTurn (MethodAssembler.move res) (es.map .accept ++ [.finish])).run.run' a)

/-- What an assembler comes to is the result, and is left behind. -/
theorem start_of_leads {σ : Type} {x : Assembly σ Unit} {a : σ} {v : Except ResolveError Registry}
    (h : Assembly.Leads x a { workspace := w } (fun _ _ q => v = .ok q.workspace.registry)
      fun e _ q => v = .error e ∧ q.workspace.registry = w.registry) :
    (Attempt.start (x.run.run' a) w).1 = v.map (fun _ => ()) ∧
      (Attempt.start (x.run.run' a) w).2.registry = v.toOption.getD w.registry := by
  have hstart : Attempt.start (x.run.run' a) w =
      ((x.outcome a { workspace := w }).1.1, (x.outcome a { workspace := w }).2.workspace) := rfl
  rw [hstart]
  unfold Assembly.Leads at h
  rcases hout : x.outcome a { workspace := w } with ⟨⟨e | ⟨⟩, b⟩, q⟩ <;> rw [hout] at h
  · obtain ⟨rfl, hq⟩ := h
    exact ⟨rfl, hq⟩
  · cases h
    exact ⟨rfl, rfl⟩

theorem feedClass_events (options : Options) (w : Workspace) (c : ClassId) (sig : ClassSig) :
    let v := w.registry.classOutcome options.verifyErasure c sig
    (feedClass .silent options c sig.events w).1 = v.map (fun _ => ()) ∧
      (feedClass .silent options c sig.events w).2.registry = v.toOption.getD w.registry := by
  let begun : Workspace := (noteCycle c w).2
  have hregistry : begun.registry = w.registry := noteCycle_registry c w
  let res := Collaborator.silent.resolution options begun.registry (.ofClass c)
  have hcomes := Resolution.comesTo_classTypes (p := { workspace := begun })
    (Resolution.isQuiet_silent options begun.registry (.ofClass c)) c sig
  have hfeed : feedClass .silent options c sig.events w =
      Attempt.start ((Assembly.inTurn (ClassAssembler.move res)
        (sig.events.map .accept ++ [.finish])).run.run'
          (ClassAssembler.start c (({} : Scope).pushEnclosing begun.registry c))) begun := rfl
  rw [hfeed, ← hregistry]
  exact start_of_leads (ClassAssembler.leads_signature sig |>.2 hcomes)

theorem feedMethod_events (options : Options) {m : MethodId}
    (hm : w.registry.methodAt? m ≠ none) (sig : MethodSig) :
    let v := w.registry.methodOutcome options.verifyErasure m sig
    (feedMethod .silent options m sig.events w).1 = v.map (fun _ => ()) ∧
      (feedMethod .silent options m sig.events w).2.registry = v.toOption.getD w.registry := by
  obtain ⟨entry, hentry⟩ := Option.ne_none_iff_exists'.1 hm
  let begun : Workspace := (noteCycle entry.owner w).2
  have hregistry : begun.registry = w.registry := noteCycle_registry entry.owner w
  let res := Collaborator.silent.resolution options w.registry (.ofMethod m)
  have hcomes := Resolution.comesTo_methodTypes (p := { workspace := begun })
    (Resolution.isQuiet_silent options w.registry (.ofMethod m)) (hregistry ▸ hentry) sig
  let scope := ({} : Scope).pushBody begun.registry entry.owner
  have hstart : MethodAssembler.start w.registry m (pushBody {} entry.owner w).1 =
      .ok (MethodAssembler.collected m scope []) := by
    rw [MethodAssembler.start, hentry]
    rfl
  have hfeed : feedMethod .silent options m sig.events w =
      Attempt.start ((Assembly.inTurn (MethodAssembler.move res)
        (sig.events.map .accept ++ [.finish])).run.run'
          (MethodAssembler.collected m scope [])) begun := by
    simp only [feedMethod, bind_apply, getRegistry_apply, hentry]
    rw [hstart]
    rfl
  rw [hfeed, ← hregistry]
  exact start_of_leads (MethodAssembler.leads_signature sig |>.2 hcomes)

/-- **Text and events agree.** With a collaborator that does nothing, a call with the text of a
signature has the same result as its events, taken in turn up to the first that is refused, and
leaves the same registry, whether it succeeds or fails, and whether or not the signature mentions
the declaration itself. -/
theorem resolve_eq_feed (options : Options) (w : Workspace) :
    (∀ (c : ClassId) (text : String) (sig : ClassSig),
      w.registry.stage? (.ofClass c) = some .unresolved → ClassSig.parse text = .ok sig →
        let called := resolve .silent options (.ofClass c) (some text) w
        let fed := feedClass .silent options c sig.events w
        called.1 = fed.1 ∧ called.2.registry = fed.2.registry) ∧
      ∀ (m : MethodId) (text : String) (sig : MethodSig),
        w.registry.stage? (.ofMethod m) = some .unresolved → MethodSig.parse text = .ok sig →
          let called := resolve .silent options (.ofMethod m) (some text) w
          let fed := feedMethod .silent options m sig.events w
          called.1 = fed.1 ∧ called.2.registry = fed.2.registry := by
  constructor
  · intro c text sig hs hparse called fed
    obtain ⟨hresult, hregistry⟩ := resolve_classText options hs hparse
    obtain ⟨hresult', hregistry'⟩ := feedClass_events options w c sig
    exact ⟨hresult.trans hresult'.symm, hregistry.trans hregistry'.symm⟩
  · intro m text sig hs hparse called fed
    have hm : w.registry.methodAt? m ≠ none := fun hnone => by
      rw [Registry.stage?, hnone] at hs
      cases hs
    obtain ⟨hresult, hregistry⟩ := resolve_methodText options hs hparse
    obtain ⟨hresult', hregistry'⟩ := feedMethod_events options hm sig
    exact ⟨hresult.trans hresult'.symm, hregistry.trans hregistry'.symm⟩

/-- A class whose signature mentions it in a bound, as its superclass and as an interface, and a
method of it. -/
theorem resolve_eq_feed_of_self_reference :
    let w : Workspace := { registry := ((Registry.ofHeaders [{ name := "A" }]).addMethod ⟨0⟩ "m"
      ⟨[.object "A"], some (.object "A")⟩ [] []).2 }
    let text := "<T:LA<TT;>;>LA<TT;>;LA<TT;>;"
    let textOfMethod := "<T:LA<TT;>;>(TT;)LA<TT;>;"
    w.registry.stage? (.ofClass ⟨0⟩) = some .unresolved ∧
      w.registry.stage? (.ofMethod ⟨0⟩) = some .unresolved ∧
      (∃ sig, ClassSig.parse text = .ok sig ∧
        let called := resolve .silent {} (.ofClass ⟨0⟩) (some text) w
        let fed := feedClass .silent {} ⟨0⟩ sig.events w
        called.1.isOk = true ∧ called.1 = fed.1 ∧ called.2.registry = fed.2.registry) ∧
      ∃ sig, MethodSig.parse textOfMethod = .ok sig ∧
        let called := resolve .silent {} (.ofMethod ⟨0⟩) (some textOfMethod) w
        let fed := feedMethod .silent {} ⟨0⟩ sig.events w
        called.1.isOk = true ∧ called.1 = fed.1 ∧ called.2.registry = fed.2.registry := by
  intro w text textOfMethod
  have hclass : w.registry.stage? (.ofClass ⟨0⟩) = some .unresolved := by decide +kernel
  have hmethod : w.registry.stage? (.ofMethod ⟨0⟩) = some .unresolved := by decide +kernel
  have hcalled : (resolve .silent {} (.ofClass ⟨0⟩) (some text) w).1.isOk = true ∧
      (resolve .silent {} (.ofMethod ⟨0⟩) (some textOfMethod) w).1.isOk = true := by
    decide +kernel
  obtain ⟨sig, hsig⟩ : ∃ sig, ClassSig.parse text = .ok sig :=
    isOk_iff_exists.1 (by decide +kernel)
  obtain ⟨sig', hsig'⟩ : ∃ sig, MethodSig.parse textOfMethod = .ok sig :=
    isOk_iff_exists.1 (by decide +kernel)
  have hagree := resolve_eq_feed {} w
  exact ⟨hclass, hmethod, ⟨sig, hsig, hcalled.1, hagree.1 ⟨0⟩ text sig hclass hsig⟩,
    sig', hsig', hcalled.2, hagree.2 ⟨0⟩ textOfMethod sig' hmethod hsig'⟩

end Workspace

end JavaGenerics
