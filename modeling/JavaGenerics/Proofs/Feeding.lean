import JavaGenerics.Proofs.InTurn
import JavaGenerics.Proofs.WriteOnce

/-!
# Feeding a class signature

A class is resolved from the tree of its signature, or it is assembled from the events of this
tree. The two go about it in different order: the assembler finds a type parameter that is
declared twice while it still collects them, it resolves nothing before the superclass begins,
and it knows the class types of the signature only one after the other. Here it is proved that
none of this shows: if the events of a signature are fed in order, up to the first that is
refused, and the class is finished then, this ends as the resolution of the tree does, with the
same error if it fails, and in the same state
(`JavaGenerics.ClassAssembler.leads_signature`). Where requests leave the registry alone, this
comes down to what the signature means (`JavaGenerics.ClassAssembler.feed_accepted_iff`).

On the way the assembler passes through states of two shapes only,
`JavaGenerics.ClassAssembler.collected` before the superclass and
`JavaGenerics.ClassAssembler.headed` behind it. There is one equivalence for each section of a
signature, which says what the events of the section lead to from such a state.
-/

namespace JavaGenerics

/-! ### Commits -/

/-- **What has to hold for a commit, and what it does**: the types agree with the header if
that is asked for, and the class is registered. -/
theorem Resolution.leads_commitClass {res : Resolution} {c : ClassId} {types : ClassTypes}
    {p : Progress} {r : Registry} (hr : p.workspace.registry = r) {R : Registry → Prop} :
    (res.commitClass c types).Leads p (fun _ q => R q.workspace.registry) (fun _ _ => False) ↔
      (res.options.verifyErasure = true →
          r.checkHeader c types.superclass types.interfaces = .ok ()) ∧
        r.classAt? c ≠ none ∧ R (r.modifyClass c types.fill) := by
  have hcommit : Attempt.Leads (do
        if (r.classAt? c).isNone then throw (.unknownDeclaration (.ofClass c))
        Attempt.commit (fun r => r.modifyClass c types.fill)
          (.classResolved res.owner types.typeParams.length)) p
      (fun _ q => R q.workspace.registry) (fun _ _ => False) ↔
        r.classAt? c ≠ none ∧ R (r.modifyClass c types.fill) := by
    cases hc : r.classAt? c with
    | none => simp [Attempt.leads_throw]
    | some e =>
      simp only [Option.isNone_some, Bool.false_eq_true, if_false, ne_eq, reduceCtorEq,
        not_false_eq_true, true_and, ← hr]
      exact Iff.rfl
  rw [commitClass, Attempt.leads_bind, Attempt.leads_getRegistry, hr]
  by_cases hverify : res.options.verifyErasure = true
  · simp only [hverify, true_implies]
    cases hheader : r.checkHeader c types.superclass types.interfaces with
    | error e => simp [Attempt.leads_bind, Attempt.leads_ofExcept]
    | ok u => simpa [Attempt.leads_bind, Attempt.leads_ofExcept] using hcommit
  · simpa [hverify] using hcommit

namespace ClassAssembler

open Assembly

variable {res : Resolution} {a : ClassAssembler} {p : Progress}
  {Q : Unit → ClassAssembler → Progress → Prop}
  {F : ResolveError → ClassAssembler → Progress → Prop}
  {G : ResolveError → Progress → Prop}

/-! ### One type -/

/-- What the assembler of types accepts is an event of a type. -/
theorem accept_of_type {b b' : TypeAssembler} {e : Event} {t : Option TypeSig}
    (h : b.accept e = (.ok t, b')) : accept res e = acceptTypeEvent res e := by
  cases e
  case formalTypeParameter | classBound | interfaceBound | superclass | interface | parameterType
      | returnType | exceptionType => simp [TypeAssembler.accept] at h
  all_goals rfl

/-- **The events of a type** put it where it is for, where nothing is unfinished. -/
theorem leads_typeSig {slot : ClassSlot} (hslot : a.slot = some slot) (htype : a.type = {})
    (t : TypeSig) :
    Leads (inTurn (move res) (t.events.map .accept)) a p Q F ↔
      Leads (fill res t slot) { a with slot := none } p Q F := by
  obtain ⟨target, params, phase, _, _, superclass, interfaces⟩ := a
  obtain rfl := hslot
  obtain rfl := htype
  let holding (type : TypeAssembler) : ClassAssembler :=
    ⟨target, params, phase, some slot, type, superclass, interfaces⟩
  refine leads_typeEvents holding (fun h => ?_) (fun h => ?_) (TypeAssembler.completes_events t [])
  · rw [move, accept_of_type h, acceptTypeEvent, leads_acceptTypeEvent]
    simp only [holding, typePart, h]
  · rw [move, accept_of_type h, acceptTypeEvent, leads_acceptTypeEvent]
    simp only [holding, typePart, h]

/-! ### Type parameters -/

/-- The assembler that has collected the type parameters `ps`. -/
def collected (c : ClassId) (scope : Scope) (ps : List TypeParamSig) : ClassAssembler where
  target := c
  params := { scope, pending := ps }

variable {c : ClassId} {scope : Scope}

/-- **A class collects type parameters** in front of its superclass. -/
theorem collectsParams : CollectsParams (move res) (collected c scope) where
  declare name ps p Q F := by
    simp [move, accept, leads_bind, leads_expectSection, onParams, leads_within,
      TypeParamSection.leads_collect, collected]
  bound kind t before p tp tp' Q F h := by
    have hopen : ∀ {Q : Unit → ClassAssembler → Progress → Prop},
        Leads (move res (.accept kind.event)) (collected c scope (before ++ [tp])) p Q F ↔
          Q () { collected c scope (before ++ [tp]) with slot := some (.bound kind) } p := by
      intro Q
      cases kind <;> simp [move, accept, BoundKind.event, leads_openBound, collected]
    rw [List.map_cons, leads_inTurn_cons, hopen, leads_typeSig rfl rfl, fill, onParams,
      leads_within, TypeParamSection.leads_collectBound]
    simp [collected, h]

/-! ### The superclass and the interfaces -/

/-- The assembler that has come to the type parameters, the superclass and some of the
interfaces. -/
def headed (c : ClassId) (scope : Scope) (typeParams : List TypeParam) (superclass : ResolvedType)
    (interfaces : List ResolvedType) : ClassAssembler where
  target := c
  params := { scope, resolved := typeParams }
  phase := .interfaces
  superclass := some superclass
  interfaces := interfaces

/-- **The events of the superclass** introduce the type parameters, and then resolve it. -/
theorem leads_superclass (ps : List TypeParamSig) (t : TypeSig) :
    Leads (inTurn (move res) ((.superclass :: t.events).map .accept)) (collected c scope ps) p Q
        (fun e _ q => G e q) ↔
      (res.introduce scope (.ofClass c) ps).Leads p (fun r q =>
        (res.resolveAt .classType r.2 t).Leads q (fun u q => Q () (headed c r.2 r.1 u []) q) G)
        G := by
  rw [List.map_cons, leads_inTurn_cons]
  simp only [move, accept, leads_bind, leads_expectSection, leads_get, onParams, leads_within,
    leads_modify]
  rw [if_pos ⟨rfl, rfl⟩]
  refine TypeParamSection.leads_introduce_collected.trans ?_
  refine Iff.of_eq (congrArg (fun Q => Attempt.Leads _ p Q G) (funext₂ fun r q => propext ?_))
  rw [leads_typeSig rfl rfl]
  simp only [fill, leads_bind, leads_get, leads_attempt_iff, leads_modify]
  exact Iff.rfl

/-- **The events of interfaces** have them resolved one after the other. -/
theorem leads_interfaces (ts : List TypeSig) (tps : List TypeParam) (superclass : ResolvedType)
    (us : List ResolvedType) :
    Leads (inTurn (move res) ((ts.flatMap fun t => .interface :: t.events).map .accept))
        (headed c scope tps superclass us) p Q (fun e _ q => G e q) ↔
      (ts.mapM (res.resolveAt .classType scope)).Leads p
        (fun vs q => Q () (headed c scope tps superclass (us ++ vs)) q) G := by
  refine leads_eachType (fun t us p {Q} => ?_) ts us
  have hopen : ∀ {Q : Unit → ClassAssembler → Progress → Prop},
      Leads (move res (.accept .interface)) (headed c scope tps superclass us) p Q
          (fun e _ q => G e q) ↔
        Q () { headed c scope tps superclass us with slot := some .interface } p := by
    intro Q
    simp [move, accept, leads_bind, leads_expectSection, leads_modify, headed]
  rw [List.map_cons, leads_inTurn_cons, hopen, leads_typeSig rfl rfl]
  simp only [fill, leads_bind, leads_get, leads_attempt_iff, leads_modify]
  exact Iff.rfl

/-! ### The whole signature -/

/-- Behind the last interface, the class is committed. -/
theorem leads_finish_headed {R : Progress → Prop} (tps : List TypeParam)
    (superclass : ResolvedType) (us : List ResolvedType) :
    Leads (move res .finish) (headed c scope tps superclass us) p (fun _ _ q => R q)
        (fun e _ q => G e q) ↔
      (res.commitClass c ⟨tps, superclass, us⟩).Leads p (fun _ q => R q) G := by
  simp only [move, finish, leads_bind, leads_get, headed]
  simp only [leads_bind, leads_getRegistry, leads_ite, leads_set, leads_attempt_iff, leads_modify]
  by_cases h : (p.workspace.registry.classAt? c).isNone = true <;> simp [h]

/-- **The events of a signature end as its tree does**: the class is assembled from the events,
up to the first that is refused, with the result and in the state with which the types of the
signature are resolved and committed. -/
theorem leads_signature (sig : ClassSig) {R : Progress → Prop} :
    Leads (inTurn (move res) (sig.events.map .accept ++ [.finish])) (start c scope) p
        (fun _ _ q => R q) (fun e _ q => G e q) ↔
      (res.resolveClassTypes c scope sig >>= res.commitClass c).Leads p (fun _ q => R q) G := by
  have hstart : start c scope = collected c scope [] := rfl
  rw [hstart, ClassSig.events, List.append_assoc, List.map_append, List.append_assoc,
    leads_inTurn_append, collectsParams.leads_typeParams, List.map_append, List.append_assoc]
  simp only [leads_inTurn_append, leads_superclass, leads_interfaces, leads_inTurn_singleton,
    leads_finish_headed, Resolution.resolveClassTypes, Attempt.leads_bind, Attempt.leads_ofExcept,
    Attempt.leads_pure, checkDistinct, List.nil_append, List.map_nil, List.reverse_nil]
  cases firstRepeated [] (sig.typeParams.map (·.name)) <;> exact Iff.rfl

/-- **When the events of a signature are accepted, and what they lead to**, where requests leave
the registry alone: the signature comes to some types that may be committed, and they are. -/
theorem feed_accepted_iff (hres : res.IsQuiet) {r : Registry} (hr : p.workspace.registry = r)
    (sig : ClassSig) {R : Registry → Prop} :
    (∀ o ∈ (feed (move res) (sig.events.map .accept ++ [.finish]) (start c scope) p).1,
        o.1 = .ok ()) ∧
      R (feed (move res) (sig.events.map .accept ++ [.finish]) (start c scope)
        p).2.workspace.registry ↔
      ∃ types, Lexicon.classTypes ⟨r.lookup, scope.resolve⟩ (r.typeParams (.ofClass c)) c sig =
          .ok types ∧
        (res.options.verifyErasure = true →
          r.checkHeader c types.superclass types.interfaces = .ok ()) ∧
        r.classAt? c ≠ none ∧ R (r.modifyClass c types.fill) := by
  subst hr
  have htypes := Resolution.computes_classTypes (hres.settled p scope) rfl (c := c)
    (fun q hq => congrArg (·.typeParams (.ofClass c)) (hq.2 rfl)) sig p (.refl _ _)
  rw [← leads_inTurn_iff_feed (Q := fun q => R q.workspace.registry), leads_signature,
    Attempt.leads_bind, Attempt.Leads]
  rcases hout : (res.resolveClassTypes c scope sig).outcome p with ⟨e | types, q⟩
  · rw [hout] at htypes
    obtain ⟨herror, -⟩ := htypes
    simp [← herror]
  · rw [hout] at htypes
    obtain ⟨hok, hq⟩ := htypes
    have hregistry : q.workspace.registry = p.workspace.registry := hq.2 rfl
    dsimp only
    rw [Resolution.leads_commitClass hregistry]
    simp [← hok]

end ClassAssembler

end JavaGenerics
