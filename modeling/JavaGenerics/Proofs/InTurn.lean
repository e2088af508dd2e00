import JavaGenerics.Proofs.EventGrammar
import JavaGenerics.Proofs.TypeAssembly

/-!
# Moves in turn

An assembler can be fed up to the first move that is refused
(`JavaGenerics.Assembly.inTurn`). What this leads to is known section by section: moves made in
turn are taken apart like other steps, and the moves of a section are the events of a walk
over a part of a signature.

What the sections of classes and methods have in common is said here once. The events of one
type put it where it is for (`JavaGenerics.Assembly.leads_typeEvents`). A marker before each of
several types has them resolved one after the other (`JavaGenerics.Assembly.leads_eachType`).
And the events of type parameters collect them, up to the first whose name is declared already
(`JavaGenerics.Assembly.CollectsParams.leads_typeParams`).
-/

namespace JavaGenerics

/-! ### What an attempt leads to -/

namespace Attempt

variable {α β : Type} {p : Progress} {Q : α → Progress → Prop} {F : ResolveError → Progress → Prop}

/-- **What an attempt leads to** from the state `p`: to a result with `Q`, or to a failure with
`F`. -/
def Leads (x : Attempt α) (p : Progress) (Q : α → Progress → Prop)
    (F : ResolveError → Progress → Prop) : Prop :=
  match x.outcome p with
  | (.ok r, q) => Q r q
  | (.error e, q) => F e q

protected theorem leads_pure (r : α) : Leads (pure r) p Q F ↔ Q r p := Iff.rfl

protected theorem leads_throw (e : ResolveError) :
    Leads (throw e : Attempt α) p Q F ↔ F e p := Iff.rfl

protected theorem leads_bind (x : Attempt α) (f : α → Attempt β) {Q : β → Progress → Prop} :
    Leads (x >>= f) p Q F ↔ Leads x p (fun r q => Leads (f r) q Q F) F := by
  unfold Leads
  rw [outcome_bind]
  rcases x.outcome p with ⟨_ | _, q⟩ <;> exact Iff.rfl

protected theorem leads_getRegistry {Q : Registry → Progress → Prop} :
    Leads (liftM getRegistry : Attempt Registry) p Q F ↔ Q p.workspace.registry p := Iff.rfl

protected theorem leads_ofExcept (v : Except ResolveError α) :
    Leads (ofExcept v) p Q F ↔ match v with
      | .ok r => Q r p
      | .error e => F e p := by
  cases v <;> exact Iff.rfl

end Attempt

namespace Assembly

variable {σ α : Type} {step : Move → Assembly σ Unit} {a : σ} {p : Progress}
  {Q : Unit → σ → Progress → Prop} {F : ResolveError → σ → Progress → Prop}

/-- A part of a resolution, made as a step of an assembler, leads to where it leads. -/
theorem leads_attempt_iff (x : Attempt α) {Q : α → σ → Progress → Prop} :
    Leads (attempt x : Assembly σ α) a p Q F ↔
      x.Leads p (fun r q => Q r a q) fun e q => F e a q := by
  unfold Attempt.Leads
  rw [leads_attempt]
  rcases x.outcome p with ⟨_ | _, q⟩ <;> simp

/-! ### Moves up to the first that is refused -/

/-- Makes all moves in order, up to the first that is refused. -/
def inTurn (step : Move → Assembly σ Unit) : List Move → Assembly σ Unit
  | [] => pure ()
  | m :: ms => do
    step m
    inTurn step ms

theorem leads_inTurn_nil : Leads (inTurn step []) a p Q F ↔ Q () a p := Iff.rfl

theorem leads_inTurn_cons (m : Move) (ms : List Move) :
    Leads (inTurn step (m :: ms)) a p Q F ↔
      Leads (step m) a p (fun _ b q => Leads (inTurn step ms) b q Q F) F := leads_bind _ _

theorem leads_inTurn_append (ms more : List Move) :
    Leads (inTurn step (ms ++ more)) a p Q F ↔
      Leads (inTurn step ms) a p (fun _ b q => Leads (inTurn step more) b q Q F) F := by
  induction ms generalizing a p with
  | nil => exact Iff.rfl
  | cons m ms ih =>
    rw [List.cons_append, leads_inTurn_cons, leads_inTurn_cons]
    simp only [ih]

theorem leads_inTurn_singleton (m : Move) :
    Leads (inTurn step [m]) a p Q F ↔ Leads (step m) a p Q F := leads_inTurn_cons m []

/-- **If no move of a feed is refused**, the feed ends where the moves lead in turn. -/
theorem leads_inTurn_iff_feed (ms : List Move) {Q : Progress → Prop} :
    Leads (inTurn step ms) a p (fun _ _ q => Q q) (fun _ _ _ => False) ↔
      (∀ o ∈ (feed step ms a p).1, o.1 = .ok ()) ∧ Q (feed step ms a p).2 := by
  induction ms generalizing a p with
  | nil =>
    rw [leads_inTurn_nil]
    exact ⟨fun h => ⟨fun o ho => (List.not_mem_nil ho).elim, h⟩, And.right⟩
  | cons m ms ih =>
    rw [leads_inTurn_cons, feed_cons, List.forall_mem_cons, Leads]
    rcases (step m).outcome a p with ⟨⟨e | ⟨⟩, b⟩, q⟩
    · simp
    · simpa using ih (a := b) (p := q)

/-! ### Types -/

/-- **The events of one type**, where `holding` is an assembler as far as it holds an unfinished
type: if every event is taken that leads to no type, then they lead to what the last one leads
to. -/
theorem leads_typeEvents (holding : TypeAssembler → σ) {t : TypeSig} {type : TypeAssembler}
    {P : Prop}
    (more : ∀ {b b' e Q}, b.accept e = (.ok none, b') →
      (Leads (step (.accept e)) (holding b) p Q F ↔ Q () (holding b') p))
    (last : ∀ {b e}, b.accept e = (.ok (some t), type) →
      (Leads (step (.accept e)) (holding b) p Q F ↔ P))
    {b : TypeAssembler} {es : List Event} (h : TypeAssembler.Completes (.ok (some t), type) b es) :
    Leads (inTurn step (es.map .accept)) (holding b) p Q F ↔ P := by
  induction h with
  | last h => rw [List.map_singleton, leads_inTurn_singleton, last h]
  | cons first _ ih => rw [List.map_cons, leads_inTurn_cons, more first, ih]

/-- **The events of several types**, each behind a marker: if those of one type have it resolved
by `f`, then those of several have them resolved one after the other. -/
theorem leads_eachType {state : List ResolvedType → σ} {marker : Event}
    {f : TypeSig → Attempt ResolvedType} {G : ResolveError → Progress → Prop}
    (hone : ∀ t us p {Q : Unit → σ → Progress → Prop},
      Leads (inTurn step ((marker :: t.events).map .accept)) (state us) p Q (fun e _ q => G e q) ↔
        (f t).Leads p (fun u q => Q () (state (us ++ [u])) q) G)
    (ts : List TypeSig) (us : List ResolvedType) :
    Leads (inTurn step ((ts.flatMap fun t => marker :: t.events).map .accept)) (state us) p Q
        (fun e _ q => G e q) ↔
      (ts.mapM f).Leads p (fun vs q => Q () (state (us ++ vs)) q) G := by
  induction ts generalizing us p with
  | nil =>
    rw [List.mapM_nil, Attempt.leads_pure, List.append_nil]
    exact leads_inTurn_nil
  | cons t ts ih =>
    rw [List.flatMap_cons, List.map_append, leads_inTurn_append, hone, List.mapM_cons,
      Attempt.leads_bind]
    simp only [ih, Attempt.leads_bind, Attempt.leads_pure, List.append_assoc, List.singleton_append]

/-! ### Type parameters -/

/-- **How type parameters are collected**, where `collected ps` is the assembler that has
collected `ps` and nothing else: the announcement of one that is not declared already adds it
without bounds, and the events of a bound add the bound to the last. -/
structure CollectsParams (step : Move → Assembly σ Unit) (collected : List TypeParamSig → σ) :
    Prop where
  declare : ∀ name ps p {Q : Unit → σ → Progress → Prop} {F : ResolveError → σ → Progress → Prop},
    Leads (step (.accept (.formalTypeParameter name))) (collected ps) p Q F ↔
      if name ∈ ps.map (·.name) then F (.malformed (.duplicateTypeParam name)) (collected ps) p
      else Q () (collected (ps ++ [⟨name, none, []⟩])) p
  bound : ∀ kind t before p {tp tp' : TypeParamSig} {Q : Unit → σ → Progress → Prop}
    {F : ResolveError → σ → Progress → Prop}, TypeParamSection.withBound kind t tp = .ok tp' →
    (Leads (inTurn step ((kind.event :: t.events).map .accept)) (collected (before ++ [tp])) p Q F ↔
      Q () (collected (before ++ [tp'])) p)

namespace CollectsParams

variable {collected : List TypeParamSig → σ} {G : ResolveError → Progress → Prop}

/-- The events of interface bounds. -/
theorem leads_interfaceBounds (h : CollectsParams step collected) (ts : List TypeSig)
    (before : List TypeParamSig) (tp : TypeParamSig) :
    Leads (inTurn step ((ts.flatMap fun t => .interfaceBound :: t.events).map .accept))
        (collected (before ++ [tp])) p Q F ↔
      Q () (collected (before ++ [{ tp with interfaceBounds := tp.interfaceBounds ++ ts }])) p := by
  induction ts generalizing tp with
  | nil =>
    rw [List.append_nil]
    exact leads_inTurn_nil
  | cons t ts ih =>
    rw [List.flatMap_cons, List.map_append, leads_inTurn_append]
    refine (h.bound .ofInterface t before p rfl).trans ?_
    rw [ih, List.append_assoc, List.singleton_append]

/-- **The events of a type parameter** collect it, unless its name is declared already. -/
theorem leads_typeParam (h : CollectsParams step collected) (tp : TypeParamSig)
    (before : List TypeParamSig) :
    Leads (inTurn step (tp.events.map .accept)) (collected before) p Q F ↔
      if tp.name ∈ before.map (·.name) then
        F (.malformed (.duplicateTypeParam tp.name)) (collected before) p
      else Q () (collected (before ++ [tp])) p := by
  have hbounds : ∀ {Q : Unit → σ → Progress → Prop},
      Leads (inTurn step ((tp.classBound.elim [] fun t => .classBound :: t.events).map .accept))
          (collected (before ++ [⟨tp.name, none, []⟩])) p Q F ↔
        Q () (collected (before ++ [⟨tp.name, tp.classBound, []⟩])) p := by
    intro Q
    cases tp.classBound with
    | none => exact leads_inTurn_nil
    | some t => exact h.bound .ofClass t before p rfl
  rw [TypeParamSig.events, List.cons_append, List.map_cons, List.map_append, leads_inTurn_cons,
    h.declare]
  simp only [leads_inTurn_append, hbounds, h.leads_interfaceBounds, List.nil_append]

/-- **The events of type parameters** collect them, up to the first whose name is declared
already. -/
theorem leads_typeParams (h : CollectsParams step collected) (ps before : List TypeParamSig) :
    Leads (inTurn step ((ps.flatMap TypeParamSig.events).map .accept)) (collected before) p Q
        (fun e _ q => G e q) ↔
      match firstRepeated (before.map (·.name)).reverse (ps.map (·.name)) with
      | some name => G (.malformed (.duplicateTypeParam name)) p
      | none => Q () (collected (before ++ ps)) p := by
  induction ps generalizing before with
  | nil =>
    rw [List.append_nil]
    exact leads_inTurn_nil
  | cons tp ps ih =>
    rw [List.flatMap_cons, List.map_append, leads_inTurn_append, h.leads_typeParam, List.map_cons,
      firstRepeated]
    by_cases hname : tp.name ∈ before.map (·.name)
    · rw [if_pos hname, if_pos (List.mem_reverse.2 hname)]
    · rw [if_neg hname, if_neg (mt List.mem_reverse.1 hname), ih, List.map_append,
        List.reverse_append, List.append_assoc]
      exact Iff.rfl

end CollectsParams

end Assembly

/-- **Introducing the type parameters that have been collected** is what the resolution of a
signature does with them. -/
theorem TypeParamSection.leads_introduce_collected {res : Resolution} {owner : Declarer}
    {scope : Scope} {ps : List TypeParamSig} {p : Progress}
    {Q : TypeParamSection → Progress → Prop} {G : ResolveError → Progress → Prop} :
    Assembly.Leads (introduce res owner) { scope, pending := ps } p (fun _ s q => Q s q)
        (fun e _ q => G e q) ↔
      (res.introduce scope owner ps).Leads p
        (fun r q => Q { scope := r.2, resolved := r.1 } q) G := by
  simp only [leads_introduce, Resolution.introduce, Attempt.leads_bind, Attempt.leads_getRegistry,
    Attempt.leads_ofExcept, Attempt.leads_pure]
  cases checkDeclared (p.workspace.registry.typeParams owner) ps with
  | error e => exact Iff.rfl
  | ok _ =>
    dsimp only
    rw [Attempt.Leads]
    rcases (res.resolveBounds (scope.pushDeclared owner ps) owner 0 ps).outcome p
      with ⟨e | tps, q⟩ <;> exact Iff.rfl

end JavaGenerics
