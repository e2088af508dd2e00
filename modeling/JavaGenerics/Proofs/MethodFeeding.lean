import JavaGenerics.Proofs.InTurn

/-!
# Feeding a method signature

A method is assembled from the events of its signature as a class is
(`JavaGenerics.MethodAssembler.leads_signature`), up to two differences. The assembler does not
know in advance whether the method has parameters: the type parameters are over when the first
parameter begins, or the result if there is none, so that the state in which they are
introduced is looked at from both (`JavaGenerics.MethodAssembler.leads_introducing`). And there are
two lists of types, one on either side of the result.
-/

namespace JavaGenerics

namespace MethodAssembler

open Assembly

variable {res : Resolution} {a : MethodAssembler} {p : Progress}
  {Q : Unit → MethodAssembler → Progress → Prop}
  {F : ResolveError → MethodAssembler → Progress → Prop} {G : ResolveError → Progress → Prop}

/-! ### One type -/

/-- What the assembler of types accepts is an event of a type. -/
theorem accept_of_type {b b' : TypeAssembler} {e : Event} {t : Option TypeSig}
    (h : b.accept e = (.ok t, b')) : accept res e = acceptTypeEvent res e := by
  cases e
  case formalTypeParameter | classBound | interfaceBound | superclass | interface | parameterType
      | returnType | exceptionType => simp [TypeAssembler.accept] at h
  all_goals rfl

/-- **The events of a type** put it where it is for, where nothing is unfinished. -/
theorem leads_typeSig {slot : MethodSlot} (hslot : a.slot = some slot) (htype : a.type = {})
    (t : TypeSig) :
    Leads (inTurn (move res) (t.events.map .accept)) a p Q F ↔
      Leads (fill res t slot) { a with slot := none } p Q F := by
  obtain ⟨target, typeParams, phase, _, _, params, result, throws⟩ := a
  obtain rfl := hslot
  obtain rfl := htype
  let holding (type : TypeAssembler) : MethodAssembler :=
    ⟨target, typeParams, phase, some slot, type, params, result, throws⟩
  refine leads_typeEvents holding (fun h => ?_) (fun h => ?_) (TypeAssembler.completes_events t [])
  · rw [move, accept_of_type h, acceptTypeEvent, leads_acceptTypeEvent]
    simp only [holding, typePart, h]
  · rw [move, accept_of_type h, acceptTypeEvent, leads_acceptTypeEvent]
    simp only [holding, typePart, h]

/-! ### Type parameters -/

/-- The assembler that has collected the type parameters `ps`. -/
def collected (m : MethodId) (scope : Scope) (ps : List TypeParamSig) : MethodAssembler where
  target := m
  typeParams := { scope, pending := ps }

/-- The assembler that has come to the type parameters and some of the parameters. -/
def introduced (m : MethodId) (scope : Scope) (typeParams : List TypeParam)
    (params : List ResolvedType) : MethodAssembler where
  target := m
  typeParams := { scope, resolved := typeParams }
  phase := .params
  params := params

/-- The assembler that has come to everything but some of the exceptions. -/
def returned (m : MethodId) (scope : Scope) (typeParams : List TypeParam)
    (params : List ResolvedType) (result : ResolvedType) (throws : List ResolvedType) :
    MethodAssembler where
  target := m
  typeParams := { scope, resolved := typeParams }
  phase := .throws
  params := params
  result := some result
  throws := throws

variable {m : MethodId} {scope : Scope} {tps : List TypeParam} {us : List ResolvedType}

/-- **A method collects type parameters** in front of its parameters. -/
theorem collectsParams : CollectsParams (move res) (collected m scope) where
  declare name ps p Q F := by
    simp [move, accept, leads_bind, leads_expectSection, onTypeParams, leads_within,
      TypeParamSection.leads_collect, collected]
  bound kind t before p tp tp' Q F h := by
    have hopen : ∀ {Q : Unit → MethodAssembler → Progress → Prop},
        Leads (move res (.accept kind.event)) (collected m scope (before ++ [tp])) p Q F ↔
          Q () { collected m scope (before ++ [tp]) with slot := some (.bound kind) } p := by
      intro Q
      cases kind <;> simp [move, accept, BoundKind.event, leads_openBound, collected]
    rw [List.map_cons, leads_inTurn_cons, hopen, leads_typeSig rfl rfl, fill, onTypeParams,
      leads_within, TypeParamSection.leads_collectBound]
    simp [collected, h]

/-- A type behind the type parameters is opened when these have been introduced. -/
theorem leads_openType_introduced (e : Event) (phase : MethodPhase) (slot : MethodSlot) :
    Leads (openType res e phase slot) (introduced m scope tps us) p Q F ↔
      Q () { introduced m scope tps us with phase, slot := some slot } p := by
  simp [leads_openType, introduced]

/-- Before the type parameters are introduced, opening a type introduces them. -/
theorem leads_openType_collected (e : Event) (phase : MethodPhase) (slot : MethodSlot)
    (ps : List TypeParamSig) :
    Leads (openType res e phase slot) (collected m scope ps) p Q (fun e _ q => G e q) ↔
      (res.introduce scope (.ofMethod m) ps).Leads p (fun r q =>
        Leads (openType res e phase slot) (introduced m r.2 r.1 []) q Q fun e _ q => G e q) G := by
  simp only [leads_openType_introduced]
  rw [leads_openType, if_pos ⟨List.mem_cons_self, rfl⟩,
    if_pos (show (collected m scope ps).phase = .typeParams from rfl)]
  exact TypeParamSection.leads_introduce_collected

/-- **The type parameters are introduced** by whatever comes first behind them: a parameter, or
else the result. -/
theorem leads_introducing (ts : List TypeSig) (es : List Event) (ms : List Move)
    (ps : List TypeParamSig) :
    let rest : List Move :=
      ((ts.flatMap fun t => .parameterType :: t.events) ++ .returnType :: es).map .accept ++ ms
    Leads (inTurn (move res) rest) (collected m scope ps) p Q (fun e _ q => G e q) ↔
      (res.introduce scope (.ofMethod m) ps).Leads p (fun r q =>
        Leads (inTurn (move res) rest) (introduced m r.2 r.1 []) q Q fun e _ q => G e q) G := by
  cases ts with
  | nil =>
    simp only [List.flatMap_nil, List.nil_append, List.map_cons, List.cons_append,
      leads_inTurn_cons]
    exact leads_openType_collected .returnType .result .result ps
  | cons t ts =>
    simp only [List.flatMap_cons, List.map_cons, List.cons_append, leads_inTurn_cons]
    exact leads_openType_collected .parameterType .params .param ps

/-! ### Parameters, result and exceptions -/

/-- **The events of parameters** have them resolved one after the other. -/
theorem leads_params (ts : List TypeSig) (us : List ResolvedType) :
    Leads (inTurn (move res) ((ts.flatMap fun t => .parameterType :: t.events).map .accept))
        (introduced m scope tps us) p Q (fun e _ q => G e q) ↔
      (ts.mapM (res.resolveAt .param scope)).Leads p
        (fun vs q => Q () (introduced m scope tps (us ++ vs)) q) G := by
  refine leads_eachType (fun t us p {Q} => ?_) ts us
  rw [List.map_cons, leads_inTurn_cons, move, accept, leads_openType_introduced,
    leads_typeSig rfl rfl]
  simp only [fill, leads_bind, leads_get, leads_attempt_iff, leads_modify]
  exact Iff.rfl

/-- **The events of the result** have it resolved. -/
theorem leads_result (t : TypeSig) :
    Leads (inTurn (move res) ((.returnType :: t.events).map .accept)) (introduced m scope tps us)
        p Q (fun e _ q => G e q) ↔
      (res.resolve scope t).Leads p (fun u q => Q () (returned m scope tps us u []) q) G := by
  rw [List.map_cons, leads_inTurn_cons, move, accept, leads_openType_introduced,
    leads_typeSig rfl rfl]
  simp only [fill, leads_bind, leads_get, leads_attempt_iff, leads_modify]
  exact Iff.rfl

/-- **The events of exceptions** have them resolved one after the other. -/
theorem leads_throws (result : ResolvedType) (ts : List TypeSig) (vs : List ResolvedType) :
    Leads (inTurn (move res) ((ts.flatMap fun t => .exceptionType :: t.events).map .accept))
        (returned m scope tps us result vs) p Q (fun e _ q => G e q) ↔
      (ts.mapM (res.resolveAt .reference scope)).Leads p
        (fun xs q => Q () (returned m scope tps us result (vs ++ xs)) q) G := by
  refine leads_eachType (fun t vs p {Q} => ?_) ts vs
  have hopen : ∀ {Q : Unit → MethodAssembler → Progress → Prop},
      Leads (move res (.accept .exceptionType)) (returned m scope tps us result vs) p Q
          (fun e _ q => G e q) ↔
        Q () { returned m scope tps us result vs with slot := some .throws } p := by
    intro Q
    simp [move, accept, leads_bind, leads_expectSection, leads_modify, returned]
  rw [List.map_cons, leads_inTurn_cons, hopen, leads_typeSig rfl rfl]
  simp only [fill, leads_bind, leads_get, leads_attempt_iff, leads_modify]
  exact Iff.rfl

/-! ### The whole signature -/

/-- Behind the last exception, the method is committed. -/
theorem leads_finish_returned {R : Progress → Prop} (result : ResolvedType)
    (vs : List ResolvedType) :
    Leads (move res .finish) (returned m scope tps us result vs) p (fun _ _ q => R q)
        (fun e _ q => G e q) ↔
      (res.commitMethod m ⟨tps, us, result, vs⟩).Leads p (fun _ q => R q) G := by
  simp only [move, finish, leads_bind, leads_get, returned]
  simp only [leads_attempt_iff, leads_modify]

/-- **The events of a signature end as its tree does**: the method is assembled from the events,
up to the first that is refused, with the result and in the state with which the types of the
signature are resolved and committed. -/
theorem leads_signature (sig : MethodSig) {R : Progress → Prop} :
    Leads (inTurn (move res) (sig.events.map .accept ++ [.finish])) (collected m scope []) p
        (fun _ _ q => R q) (fun e _ q => G e q) ↔
      (res.resolveMethodTypes m scope sig >>= res.commitMethod m).Leads p (fun _ q => R q) G := by
  have hevents : sig.events.map Move.accept ++ [.finish] =
      (sig.typeParams.flatMap TypeParamSig.events).map .accept ++
        (((sig.params.flatMap fun t => .parameterType :: t.events) ++ .returnType ::
          (sig.result.events ++ sig.throws.flatMap fun t => .exceptionType :: t.events)).map .accept
          ++ [.finish]) := by
    simp [MethodSig.events]
  rw [hevents, leads_inTurn_append, collectsParams.leads_typeParams]
  simp only [leads_introducing]
  simp only [List.map_append, ← List.cons_append, List.append_assoc, leads_inTurn_append,
    leads_params, leads_result, leads_throws, leads_inTurn_singleton, leads_finish_returned,
    Resolution.resolveMethodTypes, Attempt.leads_bind, Attempt.leads_ofExcept, Attempt.leads_pure,
    checkDistinct, List.nil_append, List.map_nil, List.reverse_nil]
  cases firstRepeated [] (sig.typeParams.map (·.name)) <;> exact Iff.rfl

end MethodAssembler

end JavaGenerics
