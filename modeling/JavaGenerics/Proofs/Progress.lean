import JavaGenerics.Proofs.Meaning

/-!
# A resolution under way

Before it commits anything, a resolution does three things to the state it works in:
it asks for classes, it makes remarks and it notes circles. An invariant that
survives these three is called *steady* (`JavaGenerics.Resolution.Steady`), and every
part of a resolution keeps it.

Where a steady invariant also fixes what class a name stands for, nothing that is
done on the way can change the result: `JavaGenerics.Resolution.computes_type` and
its companions say that a resolution then *computes* the meaning of what it reads
(`JavaGenerics.Attempt.Computes`), errors included.
-/

namespace JavaGenerics

namespace Attempt

variable {α β : Type} {I : Progress → Prop}

/-- How an attempt ends, and the state that it leaves. -/
def outcome (x : Attempt α) (p : Progress) : Except ResolveError α × Progress := ExceptT.run x p

/-- Under the invariant `I`, `x` comes to `v` and keeps the invariant. -/
def Computes (I : Progress → Prop) (x : Attempt α) (v : Except ResolveError α) : Prop :=
  ∀ p, I p → (x.outcome p).1 = v ∧ I (x.outcome p).2

/-- `x` keeps the invariant `I`. -/
def Keeps (I : Progress → Prop) (x : StateM Progress α) : Prop := ∀ p, I p → I (x p).2

theorem outcome_bind (x : Attempt α) (f : α → Attempt β) (p : Progress) :
    (x >>= f).outcome p = match x.outcome p with
      | (.ok a, q) => (f a).outcome q
      | (.error e, q) => (.error e, q) := by
  change (ExceptT.bind x f) p = _
  simp only [ExceptT.bind, ExceptT.mk, bind, StateT.bind, outcome, ExceptT.run]
  rcases h : x p with ⟨_ | _, q⟩
  · rfl
  · rfl

theorem computes_pure (a : α) : Computes I (pure a) (.ok a) := fun _ hp => ⟨rfl, hp⟩

theorem computes_throw (e : ResolveError) : Computes I (throw e : Attempt α) (.error e) :=
  fun _ hp => ⟨rfl, hp⟩

theorem computes_ofExcept (v : Except ResolveError α) : Computes I (ofExcept v) v := by
  cases v with
  | error e => exact computes_throw e
  | ok a => exact computes_pure a

theorem Computes.bind {x : Attempt α} {f : α → Attempt β} {v : Except ResolveError α}
    {g : α → Except ResolveError β} (hx : Computes I x v)
    (hf : ∀ a, v = .ok a → Computes I (f a) (g a)) : Computes I (x >>= f) (v >>= g) := by
  intro p hp
  obtain ⟨hv, hq⟩ := hx p hp
  rw [outcome_bind]
  rcases h : x.outcome p with ⟨_ | a, q⟩
  · rw [h] at hv hq
    cases hv
    exact ⟨rfl, hq⟩
  · rw [h] at hv hq
    cases hv
    exact hf a rfl q hq

/-- A part without a result of its own does not show in what is computed. -/
theorem Computes.after {x : StateM Progress Unit} {y : Attempt β} {v : Except ResolveError β}
    (hx : Keeps I x) (hy : Computes I y v) : Computes I (liftM x >>= fun _ => y) v := by
  intro p hp
  exact hy _ (hx p hp)

/-- The registry may be looked at: what is computed is then settled by the invariant. -/
theorem Computes.ofRegistry {f : Registry → Attempt β} {v : Except ResolveError β}
    (hf : ∀ p, I p → Computes I (f p.workspace.registry) v) :
    Computes I (liftM getRegistry >>= f) v := by
  intro p hp
  exact hf p hp p hp

theorem Computes.mapM {f : α → Attempt β} {g : α → Except ResolveError β}
    (hf : ∀ a, Computes I (f a) (g a)) (as : List α) : Computes I (as.mapM f) (as.mapM g) := by
  induction as with
  | nil => exact computes_pure []
  | cons a as ih =>
    rw [List.mapM_cons, List.mapM_cons]
    exact (hf a).bind fun b _ => ih.bind fun bs _ => computes_pure (b :: bs)

theorem Computes.mapM_option {f : α → Attempt β} {g : α → Except ResolveError β}
    (hf : ∀ a, Computes I (f a) (g a)) (a : Option α) : Computes I (a.mapM f) (a.mapM g) := by
  cases a with
  | none => exact computes_pure none
  | some a => exact (hf a).bind fun b _ => computes_pure (some b)

theorem Keeps.bind {x : StateM Progress α} {f : α → StateM Progress β} (hx : Keeps I x)
    (hf : ∀ a, Keeps I (f a)) : Keeps I (x >>= f) := fun p hp => hf _ _ (hx p hp)

theorem getRegistry_bind_apply (f : Registry → StateM Progress β) (p : Progress) :
    (getRegistry >>= f) p = f p.workspace.registry p := rfl

theorem Keeps.forM {f : α → StateM Progress Unit} (hf : ∀ a, Keeps I (f a)) (as : List α) :
    Keeps I (as.forM f) := by
  induction as with
  | nil => exact fun p hp => hp
  | cons a as ih => exact (hf a).bind fun _ => ih

end Attempt

open Attempt

/-- A circle is noted if there is one, and nothing else is done. -/
theorem Workspace.noteCycle_apply (c : ClassId) (w : Workspace) :
    (noteCycle c w).2 = if w.registry.enclosingIsCyclic c then
      (record (.noted (.enclosingCycle (w.registry.className c))) w).2 else w := by
  change ((if w.registry.enclosingIsCyclic c = true then _ else pure () : Work Unit) w).2 = _
  split <;> rfl

/-- What notes keep, notes of circles keep. -/
theorem Attempt.keeps_noteCycle {I : Progress → Prop}
    (h : ∀ n, Keeps I (work (Workspace.record (.noted n)))) (c : ClassId) :
    Keeps I (work (Workspace.noteCycle c)) := by
  intro p hp
  change I { p with workspace := (Workspace.noteCycle c p.workspace).2 }
  rw [Workspace.noteCycle_apply]
  split
  · exact h _ p hp
  · exact hp

/-! ### Remarks -/

/-- A warning that does not come of a request. -/
def Warning.IsRemark (w : Warning) : Prop := ∀ name, w ≠ .unresolvedClass name

/-- What is said of the use of a class is that the number of type arguments is wrong. -/
theorem Registry.exists_of_arityWarning? {r : Registry} {c : ClassId} {supplied : Nat}
    {w : Warning} (h : r.arityWarning? c supplied = some w) :
    ∃ name declared, w = .typeArgumentArity name declared supplied := by
  unfold arityWarning? at h
  split at h
  · cases h
  · dsimp only at h
    split at h
    · exact ⟨_, _, (Option.some.inj h).symm⟩
    · cases h

theorem Registry.isRemark_of_arityWarning? {r : Registry} {c : ClassId} {supplied : Nat}
    {w : Warning} (h : r.arityWarning? c supplied = some w) : w.IsRemark := by
  obtain ⟨name, declared, rfl⟩ := exists_of_arityWarning? h
  exact fun _ => nofun

namespace Resolution

variable {res : Resolution} {I : Progress → Prop}

/-! ### What a request does -/

/-- The state in which the collaborator is asked for `c`. -/
def asking (c : ClassId) (p : Progress) : Progress where
  workspace := (Workspace.record (.noted (.resolvingReferenced (p.workspace.registry.className c)))
    p.workspace).2
  requested := c :: p.requested

/-- The state in which the collaborator has answered for `c`. -/
def answered (res : Resolution) (c : ClassId) (p : Progress) : Progress :=
  { asking c p with workspace := (res.ask c (asking c p).workspace).2 }

theorem request_apply (res : Resolution) (c : ClassId) (p : Progress) :
    (res.request c p).2 =
      if res.options.resolveReferenced && p.workspace.registry.isUnresolved c
          && !p.requested.contains c then
        if (res.ask c (asking c p).workspace).1 then res.answered c p
        else (res.warn (.unresolvedClass (p.workspace.registry.className c)) (res.answered c p)).2
      else p := by
  -- the first branch is whether to ask, the second what the answer was
  change ((if (_ : Bool) = true then _ else pure () : StateM Progress Unit) p).2 = _
  split
  · change ((if (!(res.ask c (asking c p).workspace).1) = true then _ else pure () :
      StateM Progress Unit) (res.answered c p)).2 = _
    cases (res.ask c (asking c p).workspace).1 <;> rfl
  · rfl

/-- What a check of the number of type arguments does. -/
theorem warnArity_apply (res : Resolution) (c : ClassId) (supplied : Nat) (p : Progress) :
    (res.warnArity c supplied p).2 =
      if res.options.warnArity then
        (p.workspace.registry.arityWarning? c supplied).elim p fun w => (res.warn w p).2
      else p := by
  unfold warnArity
  split
  · rw [getRegistry_bind_apply]
    cases p.workspace.registry.arityWarning? c supplied <;> rfl
  · rfl

/-- There is nothing to be said of a class without type arguments. -/
theorem warnArity_zero (res : Resolution) (c : ClassId) : res.warnArity c 0 = pure () := by
  have hnone : ∀ r : Registry, r.arityWarning? c 0 = none := by
    intro r
    unfold Registry.arityWarning?
    cases r.classAt? c <;> rfl
  unfold warnArity
  split
  · simp only [hnone]
    rfl
  · rfl

theorem keeps_warnArity (h : ∀ w : Warning, w.IsRemark → Keeps I (res.warn w)) (c : ClassId)
    (supplied : Nat) : Keeps I (res.warnArity c supplied) := by
  intro p hp
  rw [warnArity_apply]
  split
  · cases hw : p.workspace.registry.arityWarning? c supplied with
    | none => exact hp
    | some w => exact h w (Registry.isRemark_of_arityWarning? hw) p hp
  · exact hp

/-! ### Invariants -/

/-- A calm invariant: one that requests and notes of circles keep. It may count remarks. -/
structure Calm (res : Resolution) (I : Progress → Prop) : Prop where
  request : ∀ c, Keeps I (res.request c)
  noteCycle : ∀ c, Keeps I (work (Workspace.noteCycle c))

theorem Calm.requestEnclosing (h : res.Calm I) (c : ClassId) :
    Keeps I (res.requestEnclosing c) := by
  intro p hp
  exact Keeps.forM h.request _ _ (h.noteCycle c p hp)

theorem Calm.scopeAround (h : res.Calm I) (c : ClassId) : Keeps I (res.scopeAround c) :=
  Keeps.bind (h.requestEnclosing c) fun _ => h.noteCycle c

theorem Calm.scopeInside (h : res.Calm I) (c : ClassId) : Keeps I (res.scopeInside c) :=
  Keeps.bind (h.requestEnclosing c) fun _ => Keeps.bind (h.request c) fun _ => h.noteCycle c

/-- **A steady invariant**: one that requests, remarks and notes of circles keep. -/
structure Steady (res : Resolution) (I : Progress → Prop) : Prop where
  request : ∀ c, Keeps I (res.request c)
  warn : ∀ w : Warning, w.IsRemark → Keeps I (res.warn w)
  noteCycle : ∀ c, Keeps I (work (Workspace.noteCycle c))

theorem Steady.calm (h : res.Steady I) : res.Calm I := ⟨h.request, h.noteCycle⟩

theorem Steady.warnArity (h : res.Steady I) (c : ClassId) (supplied : Nat) :
    Keeps I (res.warnArity c supplied) := keeps_warnArity h.warn c supplied

/-! ### Types -/

/-- Under the invariant `I`, which requests keep, the names of classes stand for what `l`
says. -/
structure Named (res : Resolution) (I : Progress → Prop) (l : Lexicon) : Prop where
  request : ∀ c, Keeps I (res.request c)
  lookup : ∀ p, I p → ∀ name, p.workspace.registry.lookup name = l.class? name

variable {l : Lexicon}

theorem computes_find (h : res.Named I l) (name : String) :
    Computes I (res.find name) (l.classNamed name) := by
  refine Computes.ofRegistry fun p hp => ?_
  -- the look-up is settled by the invariant, and the request after it cannot fail
  unfold Lexicon.classNamed
  rw [h.lookup p hp name]
  cases l.class? name with
  | none => exact computes_throw _
  | some c => exact (computes_pure c).after (h.request c)

theorem computes_raw (h : res.Named I l) (t : FieldType) :
    Computes I (res.resolveRaw t) (l.raw t) := by
  induction t with
  | base b => exact computes_pure _
  | object name => exact (computes_find h _).bind fun c _ => computes_pure _
  | array elem ih => exact ih.bind fun t _ => computes_pure _

theorem computes_erasedResult (h : res.Named I l) (m : MethodEntry) :
    Computes I (res.resolveErasedResult m) (l.erasedResult m) := by
  unfold resolveErasedResult Lexicon.erasedResult
  split
  · exact computes_pure _
  · cases m.descriptor.result with
    | none => exact computes_pure _
    | some erased => exact (computes_raw h erased).bind fun t _ => computes_pure _

/-- Under the steady invariant `I`, the names of classes stand for what `l` says. -/
structure Settled (res : Resolution) (I : Progress → Prop) (l : Lexicon) : Prop where
  steady : res.Steady I
  lookup : ∀ p, I p → ∀ name, p.workspace.registry.lookup name = l.class? name

theorem Settled.named (h : res.Settled I l) : res.Named I l := ⟨h.steady.request, h.lookup⟩

mutual

/-- **A resolution computes the meaning of a type.** -/
theorem computes_type (h : res.Settled I l) {scope : Scope} (hs : l.var? = scope.resolve) :
    ∀ t : TypeSig, Computes I (res.resolve scope t) (l.type t)
  | .base b => computes_pure _
  | .void => computes_pure _
  | .var name => by
    simp only [resolve, Lexicon.type, hs]
    cases scope.resolve name with
    | none => exact computes_throw _
    | some v => exact computes_pure _
  | .array elem => by
    -- an array of `void` is the one type that fails by its shape alone
    by_cases he : elem = .void
    · subst he
      exact computes_throw _
    · rw [resolve.eq_5 res scope elem he, Lexicon.type.eq_5 l elem he]
      exact (computes_type h hs elem).bind fun t _ => computes_pure _
  | .ofClass outer inner => by
    simp only [resolve, Lexicon.type]
    exact (computes_step h hs outer).bind fun r _ => computes_steps h hs inner

theorem computes_step (h : res.Settled I l) {scope : Scope} (hs : l.var? = scope.resolve) :
    ∀ (s : Segment) {name : String} {outer : Option ResolvedType},
      Computes I (res.resolveStep scope name outer s) (l.step name outer s)
  | .mk segment args, name, outer => by
    simp only [resolveStep, Lexicon.step]
    refine (computes_find h.named _).bind fun c _ => (computes_types h hs args).bind fun ts _ => ?_
    exact (computes_pure _).after (h.steady.warnArity c ts.length)

theorem computes_steps (h : res.Settled I l) {scope : Scope} (hs : l.var? = scope.resolve) :
    ∀ (ss : List Segment) {name : String} {t : ResolvedType},
      Computes I (res.resolveInner scope name t ss) (l.steps name t ss)
  | [], name, t => by
    simp only [resolveInner, Lexicon.steps]
    exact computes_pure _
  | s :: ss, name, t => by
    simp only [resolveInner, Lexicon.steps]
    exact (computes_step h hs s).bind fun r _ => computes_steps h hs ss

theorem computes_types (h : res.Settled I l) {scope : Scope} (hs : l.var? = scope.resolve) :
    ∀ as : List TypeArg, Computes I (res.resolveArgs scope as) (l.types as)
  | [] => computes_pure _
  | a :: as => by
    simp only [resolveArgs, Lexicon.types]
    exact (computes_argument h hs a).bind fun t _ =>
      (computes_types h hs as).bind fun ts _ => computes_pure _

theorem computes_argument (h : res.Settled I l) {scope : Scope} (hs : l.var? = scope.resolve) :
    ∀ a : TypeArg, Computes I (res.resolveArg scope a) (l.argument a)
  | .unbounded => computes_pure _
  | .bounded variance t => by
    simp only [resolveArg, Lexicon.argument]
    cases Position.reference.complaint? t with
    | some cause => exact computes_throw _
    | none => exact (computes_type h hs t).bind fun u _ => computes_pure _

end

theorem computes_typeAt (h : res.Settled I l) {scope : Scope} (hs : l.var? = scope.resolve)
    (position : Position) (t : TypeSig) :
    Computes I (res.resolveAt position scope t) (l.typeAt position t) := by
  unfold resolveAt Lexicon.typeAt
  cases position.complaint? t with
  | some cause => exact computes_throw _
  | none => exact computes_type h hs t

/-! ### Type parameters -/

theorem computes_params (h : res.Settled I l) {scope : Scope} (hs : l.var? = scope.resolve)
    (owner : Declarer) (first : Nat) (ps : List TypeParamSig) :
    Computes I (res.resolveBounds scope owner first ps) (l.params owner first ps) := by
  induction ps generalizing first with
  | nil => exact computes_pure _
  | cons p ps ih =>
    refine (Computes.mapM (computes_typeAt h hs .reference) p.bounds).bind fun bs _ => ?_
    exact (ih (first + 1)).bind fun rest _ => computes_pure _

/-- The position of a name in a list, as a frame of a scope records it. -/
theorem lookup_zipIdx (names : List String) (name : String) (start : Nat) :
    (names.zipIdx start).lookup name = (names.idxOf? name).map (· + start) := by
  induction names generalizing start with
  | nil => rfl
  | cons n names ih =>
    rw [List.zipIdx_cons, List.lookup_cons, List.idxOf?_cons, ih]
    by_cases hn : n = name
    · simp [hn]
    · have hb : (name == n) = false := beq_eq_false_iff_ne.2 fun h => hn h.symm
      simp [hn, hb, Function.comp_def, Nat.add_comm, Nat.add_left_comm]

/-- Bringing type parameters into force in a scope declares them in the lexicon. -/
theorem var?_declare {scope : Scope} (hs : l.var? = scope.resolve) (owner : Declarer)
    (ps : List TypeParamSig) :
    (l.declare owner ps).var? = (scope.pushDeclared owner ps).resolve := by
  funext name
  unfold Lexicon.declare Scope.pushDeclared
  rw [hs]
  cases ps with
  | nil => rfl
  | cons p ps =>
    simp only [List.isEmpty_cons, Bool.false_eq_true, if_false, Scope.resolve, Scope.push,
      List.findSome?_cons, Scope.resolveIn, lookup_zipIdx, Nat.add_zero, Option.map_id']
    cases ((p :: ps).map (·.name)).idxOf? name <;> rfl

theorem Settled.declare (h : res.Settled I l) (owner : Declarer) (ps : List TypeParamSig) :
    res.Settled I (l.declare owner ps) :=
  ⟨h.steady, h.lookup⟩

/-- What goes on with type parameters once they are introduced goes on in the scope
in which they are in force. -/
theorem computes_introduce {β : Type} (h : res.Settled I l) {scope : Scope}
    (hs : l.var? = scope.resolve) {declared : List TypeParam} {owner : Declarer}
    (hd : ∀ p, I p → p.workspace.registry.typeParams owner = declared) (ps : List TypeParamSig)
    {f : List TypeParam × Scope → Attempt β} {g : List TypeParam → Except ResolveError β}
    (hf : ∀ tps, Computes I (f (tps, scope.pushDeclared owner ps)) (g tps)) :
    Computes I (Attempt.ofExcept (checkDistinct ps) >>= fun _ => res.introduce scope owner ps >>= f)
      (l.introduce declared owner ps >>= g) := by
  unfold Lexicon.introduce introduce
  simp only [bind_assoc]
  refine (computes_ofExcept _).bind fun _ _ => Computes.ofRegistry fun p hp => ?_
  rw [hd p hp]
  refine (computes_ofExcept _).bind fun _ _ => ?_
  refine (computes_params (h.declare owner ps) (var?_declare hs owner ps) owner 0 ps).bind
    fun tps _ => ?_
  exact hf tps

/-! ### Signatures -/

/-- **A resolution computes the meaning of a class signature.** -/
theorem computes_classTypes (h : res.Settled I l) {scope : Scope} (hs : l.var? = scope.resolve)
    {declared : List TypeParam} {c : ClassId}
    (hd : ∀ p, I p → p.workspace.registry.typeParams (.ofClass c) = declared) (sig : ClassSig) :
    Computes I (res.resolveClassTypes c scope sig) (l.classTypes declared c sig) := by
  have hs' := var?_declare hs (.ofClass c) sig.typeParams
  have h' := h.declare (.ofClass c) sig.typeParams
  refine computes_introduce h hs hd sig.typeParams fun tps => ?_
  refine (computes_typeAt h' hs' .classType sig.superclass).bind fun superclass _ => ?_
  refine (Computes.mapM (computes_typeAt h' hs' .classType) sig.interfaces).bind fun ts _ => ?_
  exact computes_pure _

/-- **A resolution computes the meaning of a method signature.** -/
theorem computes_methodTypes (h : res.Settled I l) {scope : Scope} (hs : l.var? = scope.resolve)
    {declared : List TypeParam} {m : MethodId}
    (hd : ∀ p, I p → p.workspace.registry.typeParams (.ofMethod m) = declared) (sig : MethodSig) :
    Computes I (res.resolveMethodTypes m scope sig) (l.methodTypes declared m sig) := by
  have hs' := var?_declare hs (.ofMethod m) sig.typeParams
  have h' := h.declare (.ofMethod m) sig.typeParams
  refine computes_introduce h hs hd sig.typeParams fun tps => ?_
  refine (Computes.mapM (computes_typeAt h' hs' .param) sig.params).bind fun params _ => ?_
  refine (computes_type h' hs' sig.result).bind fun result _ => ?_
  refine (Computes.mapM (computes_typeAt h' hs' .reference) sig.throws).bind fun throws _ => ?_
  exact computes_pure _

end Resolution

end JavaGenerics
