import JavaGenerics.Assembly.Class
import JavaGenerics.Assembly.Method
import JavaGenerics.Proofs.Commit
import JavaGenerics.Proofs.Erasure

/-!
# What a move leads to

An assembler is fed by moves, and a move that is refused still leaves an assembler to go on
with. So a rule for a move speaks of two ends: `JavaGenerics.Assembly.Leads` says that the
move comes to a result with `Q`, or is refused with `F`, where both `Q` and `F` see what is
left. There is one rule for every way in which moves are put together, and every rule is
an equivalence, so to apply the rules is to run the move.

The rules come down to the parts of which the moves consist, such as the event of a type
(`JavaGenerics.Assembly.leads_acceptTypeEvent`). What holds of every move then holds of a
whole feed (`JavaGenerics.Assembly.feed_snoc`).
-/

namespace JavaGenerics

namespace Assembly

variable {σ τ α β : Type} {a : σ} {p : Progress} {Q : α → σ → Progress → Prop}
  {F : ResolveError → σ → Progress → Prop}

/-- How a step ends, and the assembler and the state that it leaves. -/
def outcome (x : Assembly σ α) (a : σ) (p : Progress) : (Except ResolveError α × σ) × Progress :=
  ExceptT.run x a p

/-- **What a step leads to** from the assembler `a` in the state `p`: to a result with `Q`,
or to a refusal with `F`. -/
def Leads (x : Assembly σ α) (a : σ) (p : Progress) (Q : α → σ → Progress → Prop)
    (F : ResolveError → σ → Progress → Prop) : Prop :=
  match x.outcome a p with
  | ((.ok r, b), q) => Q r b q
  | ((.error e, b), q) => F e b q

/-! ### One rule for each construct -/

theorem leads_pure (r : α) : Leads (pure r) a p Q F ↔ Q r a p := Iff.rfl

theorem leads_throw (e : ResolveError) : Leads (throw e : Assembly σ α) a p Q F ↔ F e a p := Iff.rfl

theorem leads_unexpected (e : Event) :
    Leads (unexpected e : Assembly σ α) a p Q F ↔ F (.malformed (.unexpected e)) a p := Iff.rfl

theorem leads_bind (x : Assembly σ α) (f : α → Assembly σ β) {Q : β → σ → Progress → Prop} :
    Leads (x >>= f) a p Q F ↔ Leads x a p (fun r b q => Leads (f r) b q Q F) F := by
  have h : (x >>= f).outcome a p = match x.outcome a p with
      | ((.ok r, b), q) => (f r).outcome b q
      | ((.error e, b), q) => ((.error e, b), q) := by
    change (ExceptT.bind x f) a p = _
    simp only [ExceptT.bind, ExceptT.mk, bind, StateT.bind, outcome, ExceptT.run]
    rcases x a p with ⟨⟨_ | _, b⟩, q⟩ <;> rfl
  unfold Leads
  rw [h]
  rcases x.outcome a p with ⟨⟨_ | _, b⟩, q⟩ <;> exact Iff.rfl

theorem leads_get {Q : σ → σ → Progress → Prop} :
    Leads (get : Assembly σ σ) a p Q F ↔ Q a a p := Iff.rfl

theorem leads_set (b : σ) {Q : PUnit → σ → Progress → Prop} :
    Leads (set b : Assembly σ PUnit) a p Q F ↔ Q ⟨⟩ b p := Iff.rfl

theorem leads_modify (f : σ → σ) {Q : PUnit → σ → Progress → Prop} :
    Leads (modify f : Assembly σ PUnit) a p Q F ↔ Q ⟨⟩ (f a) p := Iff.rfl

theorem leads_getRegistry {Q : Registry → σ → Progress → Prop} :
    Leads (liftM Attempt.getRegistry : Assembly σ Registry) a p Q F ↔
      Q p.workspace.registry a p := Iff.rfl

theorem leads_ite {c : Prop} [Decidable c] (x y : Assembly σ α) :
    Leads (if c then x else y) a p Q F ↔ (c → Leads x a p Q F) ∧ (¬c → Leads y a p Q F) := by
  by_cases hc : c <;> simp [hc]

theorem leads_ofExcept (v : Except ResolveError α) :
    Leads (ofExcept v) a p Q F ↔ (∀ r, v = .ok r → Q r a p) ∧ ∀ e, v = .error e → F e a p := by
  cases v with
  | ok r => simp [ofExcept, leads_pure]
  | error e => simp [ofExcept, leads_throw]

/-- A part of a resolution leaves the assembler as it is. -/
theorem leads_attempt (x : Attempt α) :
    Leads (attempt x : Assembly σ α) a p Q F ↔
      (∀ r q, x.outcome p = (.ok r, q) → Q r a q) ∧
        ∀ e q, x.outcome p = (.error e, q) → F e a q := by
  change (match (((x.outcome p).1, a), (x.outcome p).2) with
    | ((.ok r, b), q) => Q r b q
    | ((.error e, b), q) => F e b q : Prop) ↔ _
  rcases x.outcome p with ⟨_ | _, q⟩ <;> simp

/-- A step of one part of an assembler leads to where it leads as a step of this part. -/
theorem leads_within (part : σ → τ) (replace : σ → τ → σ) (x : Assembly τ α) :
    Leads (within part replace x) a p Q F ↔
      Leads x (part a) p (fun r b => Q r (replace a b)) fun e b => F e (replace a b) := by
  change (match (((x.outcome (part a) p).1.1, replace a (x.outcome (part a) p).1.2),
      (x.outcome (part a) p).2) with
    | ((.ok r, b), q) => Q r b q
    | ((.error e, b), q) => F e b q : Prop) ↔ _
  unfold Leads
  rcases x.outcome (part a) p with ⟨⟨_ | _, b⟩, q⟩ <;> exact Iff.rfl

/-- What a step leads to may be said more weakly. -/
theorem Leads.mono {x : Assembly σ α} {Q' : α → σ → Progress → Prop}
    {F' : ResolveError → σ → Progress → Prop} (h : Leads x a p Q F)
    (hQ : ∀ r b q, Q r b q → Q' r b q) (hF : ∀ e b q, F e b q → F' e b q) :
    Leads x a p Q' F' := by
  unfold Leads at h ⊢
  rcases hout : x.outcome a p with ⟨⟨e | r, b⟩, q⟩ <;> rw [hout] at h
  · exact hF e b q h
  · exact hQ r b q h

/-- Two things may be said of what a step leads to. -/
theorem Leads.and {x : Assembly σ α} {Q' : α → σ → Progress → Prop}
    {F' : ResolveError → σ → Progress → Prop} (h : Leads x a p Q F) (h' : Leads x a p Q' F') :
    Leads x a p (fun r b q => Q r b q ∧ Q' r b q) fun e b q => F e b q ∧ F' e b q := by
  unfold Leads at h h' ⊢
  rcases hout : x.outcome a p with ⟨⟨e | r, b⟩, q⟩ <;> rw [hout] at h h'
  · exact ⟨h, h'⟩
  · exact ⟨h, h'⟩

/-- A step comes to a result or is refused. -/
theorem Leads.ok_or_error {x : Assembly σ α} (h : Leads x a p Q F) :
    let out := x.outcome a p
    (∃ r, out.1.1 = .ok r ∧ Q r out.1.2 out.2) ∨ ∃ e, out.1.1 = .error e ∧ F e out.1.2 out.2 := by
  unfold Leads at h
  rcases hout : x.outcome a p with ⟨⟨e | r, b⟩, q⟩ <;> rw [hout] at h
  · exact .inr ⟨e, rfl, h⟩
  · exact .inl ⟨r, rfl, h⟩

/-- What a step leads to is known if it comes to a result. -/
theorem Leads.of_ok {x : Assembly σ α} (h : Leads x a p Q F) {r : α}
    (hok : (x.outcome a p).1.1 = .ok r) : Q r (x.outcome a p).1.2 (x.outcome a p).2 := by
  rcases h.ok_or_error with ⟨r', hok', hQ⟩ | ⟨e, herror, -⟩
  · cases hok.symm.trans hok'
    exact hQ
  · cases hok.symm.trans herror

/-! ### Events of a type -/

section Types

variable {γ : Type} {part : TypePart σ γ} {fill : TypeSig → γ → Assembly σ Unit}
  {Q : Unit → σ → Progress → Prop}

/-- **An event of a type** may finish the type, which then is put where it is for. -/
theorem leads_acceptTypeEvent (e : Event) :
    Leads (acceptTypeEvent part fill e) a p Q F ↔
      match part.slot a with
      | none => F (.malformed (.unexpected e)) a p
      | some slot => match (part.type a).accept e with
        | (.error err, type) => F err (part.replace a (part.slot a) type) p
        | (.ok none, type) => Q () (part.replace a (part.slot a) type) p
        | (.ok (some t), type) => Leads (fill t slot) (part.replace a none type) p Q F := by
  simp only [acceptTypeEvent, leads_bind, leads_get]
  rcases part.slot a with _ | slot
  · exact Iff.rfl
  · dsimp only
    rcases (part.type a).accept e with ⟨_ | _ | t, type⟩
    · exact Iff.rfl
    · exact Iff.rfl
    · simp [leads_bind, leads_set, leads_ofExcept, leads_modify, part.type_replace,
        part.replace_replace]

/-- What neither the type nor the slot has a part in is kept by an event of a type, if it is
kept where a finished type is put. -/
theorem leads_acceptTypeEvent_of_kept {R : σ → Progress → Prop} (e : Event) (h : R a p)
    (htype : ∀ type, R (part.replace a (part.slot a) type) p)
    (hfill : ∀ slot type t, part.slot a = some slot →
      Leads (fill t slot) (part.replace a none type) p (fun _ => R) fun _ => R) :
    Leads (acceptTypeEvent part fill e) a p (fun _ => R) fun _ => R := by
  rw [leads_acceptTypeEvent]
  split
  case h_1 => exact h
  case h_2 slot hslot =>
    split
    case h_1 => exact htype _
    case h_2 => exact htype _
    case h_3 => exact hfill slot _ _ hslot

end Types

/-! ### Feeds -/

theorem feed_cons (step : Move → Assembly σ Unit) (m : Move) (ms : List Move) (a : σ)
    (p : Progress) :
    let out := (step m).outcome a p
    let rest := feed step ms out.1.2 out.2
    feed step (m :: ms) a p = (out.1 :: rest.1, rest.2) := rfl

/-- The assembler and the state that some moves lead to. -/
def reached (step : Move → Assembly σ Unit) : List Move → σ → Progress → σ × Progress
  | [], a, p => (a, p)
  | m :: ms, a, p => reached step ms ((step m).outcome a p).1.2 ((step m).outcome a p).2

section Feeds

variable {step : Move → Assembly σ Unit}

theorem reached_snd (ms : List Move) (a : σ) (p : Progress) :
    (reached step ms a p).2 = (feed step ms a p).2 := by
  induction ms generalizing a p with
  | nil => rfl
  | cons m ms ih => exact ih _ _

theorem feed_append (ms more : List Move) (a : σ) (p : Progress) :
    feed step (ms ++ more) a p =
      ((feed step ms a p).1 ++ (feed step more (reached step ms a p).1 (reached step ms a p).2).1,
        (feed step more (reached step ms a p).1 (reached step ms a p).2).2) := by
  induction ms generalizing a p with
  | nil => rfl
  | cons m ms ih =>
    rw [List.cons_append, feed_cons, feed_cons, ih]
    rfl

theorem length_feed (ms : List Move) (a : σ) (p : Progress) :
    (feed step ms a p).1.length = ms.length := by
  induction ms generalizing a p with
  | nil => rfl
  | cons m ms ih => exact congrArg Nat.succ (ih _ _)

/-- How one more move ends. -/
theorem feed_concat (ms : List Move) (m : Move) (a : σ) (p : Progress) :
    let out := (step m).outcome (reached step ms a p).1 (reached step ms a p).2
    feed step (ms ++ [m]) a p = ((feed step ms a p).1 ++ [out.1], out.2) := feed_append ms [m] a p

end Feeds

/-- **What holds along a feed**, by induction on the moves: if every move keeps `I`, unless it
is refused in a way that is not among `Allowed`, then the last of some moves is made with `I`. -/
theorem feed_snoc {step : Move → Assembly σ Unit} {I : σ → Progress → Prop}
    {Allowed : Move → ResolveError → Prop}
    (hstep : ∀ m a p, I a p →
      Leads (step m) a p (fun _ b q => I b q) fun e b q => Allowed m e → I b q)
    (last : Move) (ms : List Move) (ha : I a p)
    (hall : ∀ m e b, (m, .error e, b) ∈ ms.zip (feed step (ms ++ [last]) a p).1 → Allowed m e) :
    ∃ b q, I b q ∧
      (feed step (ms ++ [last]) a p).1.getLast? = some ((step last).outcome b q).1 ∧
      (feed step (ms ++ [last]) a p).2 = ((step last).outcome b q).2 := by
  induction ms generalizing a p with
  | nil => exact ⟨a, p, ha, rfl, rfl⟩
  | cons m ms ih =>
    rw [List.cons_append, feed_cons] at hall ⊢
    have hkept : I ((step m).outcome a p).1.2 ((step m).outcome a p).2 := by
      have hm := hstep m a p ha
      unfold Leads at hm
      rcases hout : (step m).outcome a p with ⟨⟨e | r, b⟩, q⟩ <;> rw [hout] at hm hall
      · exact hm (hall m e b List.mem_cons_self)
      · exact hm
    obtain ⟨b, q, hb, hlast, hleft⟩ := ih hkept fun m' e b h =>
      hall m' e b (List.mem_cons_of_mem _ h)
    refine ⟨b, q, hb, ?_, hleft⟩
    dsimp only
    rw [List.getLast?_cons, hlast]
    rfl

end Assembly

/-! ### The section of type parameters -/

namespace TypeParamSection

open Assembly

variable {s : TypeParamSection} {p : Progress} {Q : Unit → TypeParamSection → Progress → Prop}
  {F : ResolveError → TypeParamSection → Progress → Prop}

theorem leads_collect (name : String) :
    Leads (collect name) s p Q F ↔
      if s.pending.any (·.name == name) then F (.malformed (.duplicateTypeParam name)) s p
      else Q () { s with pending := s.pending ++ [⟨name, none, []⟩] } p := by
  simp only [collect, leads_bind, leads_get]
  split
  · exact Iff.rfl
  · exact Iff.rfl

theorem leads_collectBound (kind : BoundKind) (bound : TypeSig) :
    Leads (collectBound kind bound) s p Q F ↔
      match s.pending.getLast? with
      | none => F (.malformed .boundWithoutParam) s p
      | some last => match withBound kind bound last with
        | .error e => F e s p
        | .ok last => Q () { s with pending := s.pending.dropLast ++ [last] } p := by
  simp only [collectBound, leads_bind, leads_get]
  cases s.pending.getLast? with
  | none => exact Iff.rfl
  | some last =>
    dsimp only
    rw [leads_bind]
    cases withBound kind bound last <;> exact Iff.rfl

/-- The type parameters are no longer collected, whatever comes of them; they come into
force before their bounds are resolved, and stay so if that fails. -/
theorem leads_introduce (res : Resolution) (owner : Declarer) :
    Leads (introduce res owner) s p Q F ↔
      let scope := s.scope.pushDeclared owner s.pending
      match checkDeclared (p.workspace.registry.typeParams owner) s.pending with
      | .error e => F e { s with pending := [] } p
      | .ok _ => match (res.resolveBounds scope owner 0 s.pending).outcome p with
        | (.error e, q) => F e { s with scope, pending := [] } q
        | (.ok resolved, q) => Q () { scope, pending := [], resolved } q := by
  simp only [introduce, leads_bind, leads_get, leads_modify, leads_getRegistry]
  cases checkDeclared (p.workspace.registry.typeParams owner) s.pending with
  | error e => simp [leads_ofExcept]
  | ok u =>
    simp only [leads_ofExcept, leads_attempt]
    rcases (res.resolveBounds (s.scope.pushDeclared owner s.pending) owner 0 s.pending).outcome p
      with ⟨_ | _, q⟩ <;> simp

end TypeParamSection

/-! ### Types -/

namespace TypeAssembler

theorem settle_refused {t : TypeSig} {frames : List Frame} {e : ResolveError} {b : TypeAssembler}
    (h : settle t frames = (.error e, b)) :
    e = .malformed .strayArgument ∨ e = .malformed .unmarkedArgument := by
  fun_induction settle t frames with
  | case1 => cases h
  | case2 t frames ih => exact ih h
  | case3 => cases h
  | case4 =>
    cases h
    exact .inl rfl
  | case5 =>
    cases h
    exact .inr rfl

/-- **How an event of a type is refused**: it has no place, and then nothing is changed, or
the type that it finishes has none. -/
theorem accept_refused {a b : TypeAssembler} {event : Event} {e : ResolveError}
    (h : a.accept event = (.error e, b)) :
    e = .malformed (.unexpected event) ∧ b = a ∨
      e = .malformed .strayArgument ∨ e = .malformed .unmarkedArgument := by
  unfold accept at h
  split at h
  case h_1 | h_2 | h_3 | h_9 => exact .inr (settle_refused h)
  case h_10 =>
    cases h
    exact .inl ⟨rfl, rfl⟩
  all_goals cases h

end TypeAssembler

/-! ### Commits -/

namespace Resolution

open Attempt

variable {res : Resolution} {p q : Progress} {e : ResolveError}

theorem outcome_ofRegistry {β : Type} (f : Registry → Attempt β) (p : Progress) :
    (liftM getRegistry >>= f).outcome p = (f p.workspace.registry).outcome p := rfl

/-- What fails behind a check that is perhaps made fails by the check, before anything is
done, or else by itself. -/
theorem refused_of_check {c : Prop} [Decidable c] {v : Except ResolveError Unit} {y : Attempt Unit}
    (h : (if c then ofExcept v >>= fun _ => y else y).outcome p = (.error e, q)) :
    (v = .error e ∧ q = p) ∨ y.outcome p = (.error e, q) := by
  split at h
  · cases v with
    | error cause =>
      cases h
      exact .inl ⟨rfl, rfl⟩
    | ok u => exact .inr h
  · exact .inr h

theorem commitClass_of_unregistered {c : ClassId} (hc : p.workspace.registry.classAt? c = none)
    (types : ClassTypes) :
    (res.commitClass c types).outcome p = (.error (.unknownDeclaration (.ofClass c)), p) := by
  rw [commitClass, outcome_ofRegistry]
  simp only [Registry.checkHeader, hc]
  split <;> rfl

/-- **A commit that fails does nothing**; if the class is registered, what would be committed
disagrees with its header. -/
theorem commitClass_refused {c : ClassId} {types : ClassTypes}
    (h : (res.commitClass c types).outcome p = (.error e, q))
    (hc : p.workspace.registry.classAt? c ≠ none) : q = p ∧ ∃ cause, e = .mismatch cause := by
  rw [commitClass, outcome_ofRegistry] at h
  rcases refused_of_check h with ⟨hcheck, rfl⟩ | h
  · exact ⟨rfl, Registry.checkHeader_eq_error hcheck⟩
  · rw [if_neg fun hnone => hc (Option.isNone_iff_eq_none.1 hnone)] at h
    cases h

/-- A commit that fails does nothing, also for a method; the method is not registered, or what
would be committed disagrees with its descriptor. -/
theorem commitMethod_refused {m : MethodId} {types : MethodTypes}
    (h : (res.commitMethod m types).outcome p = (.error e, q)) :
    q = p ∧ (e = .unknownDeclaration (.ofMethod m) ∨ ∃ cause, e = .mismatch cause) := by
  rw [commitMethod, outcome_ofRegistry] at h
  cases hm : p.workspace.registry.methodAt? m with
  | none =>
    rw [hm] at h
    cases h
    exact ⟨rfl, .inl rfl⟩
  | some entry =>
    rw [hm] at h
    rcases refused_of_check h with ⟨hcheck, rfl⟩ | h
    · exact ⟨rfl, .inr (Registry.checkDescriptor_eq_error hcheck)⟩
    · cases h

end Resolution

/-! ### Classes -/

namespace ClassAssembler

open Assembly

variable {a : ClassAssembler} {p : Progress} {Q : Unit → ClassAssembler → Progress → Prop}
  {F : ResolveError → ClassAssembler → Progress → Prop}

@[simp] theorem typePart_slot (a : ClassAssembler) : typePart.slot a = a.slot := rfl

@[simp] theorem typePart_type (a : ClassAssembler) : typePart.type a = a.type := rfl

@[simp] theorem typePart_replace (a : ClassAssembler) (slot : Option ClassSlot)
    (type : TypeAssembler) :
    typePart.replace a slot type = { a with slot, type } := rfl

theorem leads_expectSection (e : Event) (phase : ClassPhase) :
    Leads (expectSection e phase) a p Q F ↔
      if a.phase = phase ∧ a.slot = none then Q () a p else F (.malformed (.unexpected e)) a p := by
  have hiff : (a.phase ≠ phase ∨ a.slot.isSome = true) ↔ ¬(a.phase = phase ∧ a.slot = none) := by
    cases a.slot <;> simp
  simp only [expectSection, leads_bind, leads_get, hiff]
  by_cases hphase : a.phase = phase ∧ a.slot = none
  · rw [if_neg (not_not_intro hphase), if_pos hphase, leads_pure]
  · rw [if_pos hphase, if_neg hphase, leads_unexpected]

theorem leads_openBound (e : Event) (kind : BoundKind) :
    Leads (openBound e kind) a p Q F ↔
      if (a.phase = .typeParams ∧ a.slot = none) ∧ a.params.pending ≠ [] then
        Q () { a with slot := some (.bound kind) } p
      else F (.malformed (.unexpected e)) a p := by
  simp only [openBound, leads_bind, leads_expectSection, leads_get]
  by_cases hphase : a.phase = .typeParams ∧ a.slot = none
  · rw [if_pos hphase]
    cases a.params.pending <;> simp [hphase, leads_bind, leads_unexpected, leads_modify]
  · rw [if_neg hphase, if_neg fun h => hphase h.1]

/-- What an assembler has come to, with this superclass. -/
def classTypes (a : ClassAssembler) (superclass : ResolvedType) : ClassTypes :=
  ⟨a.params.resolved, superclass, a.interfaces⟩

/-- **How a class is finished**: what was understood is committed; or nothing is done; or the
class is not registered, and what was understood is given up. -/
theorem leads_finish (res : Resolution)
    (committed : ∀ superclass q, a.phase = .interfaces → a.slot = none →
      a.superclass = some superclass →
      q.workspace.registry =
        p.workspace.registry.modifyClass a.target (a.classTypes superclass).fill →
      Q () { a with phase := .done } q)
    (refused : ∀ e, (∀ t, e ≠ .unknownDeclaration t) → F e a p)
    (unregistered : a.phase = .interfaces → p.workspace.registry.classAt? a.target = none →
      F (.unknownDeclaration (.ofClass a.target)) { a with
        superclass := none, interfaces := [], params := { a.params with resolved := [] } } p) :
    Leads (finish res) a p Q F := by
  simp only [finish, leads_bind, leads_get]
  split
  case h_1 => exact refused _ nofun
  case h_2 => exact refused _ nofun
  case h_4 => exact refused _ nofun
  case h_3 superclass hphase hslot hsuper =>
    simp only [leads_bind, leads_getRegistry, leads_ite, leads_set, leads_attempt, leads_modify,
      Option.isNone_iff_eq_none]
    refine ⟨fun hnone => ⟨fun _ q h => ?_, fun e q h => ?_⟩,
      fun hsome => ⟨fun _ q h => ?_, fun e q h => ?_⟩⟩
    · rw [Resolution.commitClass_of_unregistered hnone] at h
      cases h
    · rw [Resolution.commitClass_of_unregistered hnone] at h
      cases h
      exact unregistered hphase hnone
    · have hends : Attempt.Ends (· = p) _ (res.commitClass a.target (a.classTypes superclass)) :=
        Resolution.ends_commitClass a.target _
      have hp := hends p rfl
      rw [classTypes, h] at hp
      obtain ⟨_, rfl, hq⟩ := hp
      exact committed superclass q hphase hslot hsuper hq
    · obtain ⟨rfl, cause, rfl⟩ := Resolution.commitClass_refused h hsome
      exact refused _ nofun

end ClassAssembler

/-! ### Methods -/

namespace MethodAssembler

open Assembly

variable {a : MethodAssembler} {p : Progress} {Q : Unit → MethodAssembler → Progress → Prop}
  {F : ResolveError → MethodAssembler → Progress → Prop}

@[simp] theorem typePart_slot (a : MethodAssembler) : typePart.slot a = a.slot := rfl

@[simp] theorem typePart_type (a : MethodAssembler) : typePart.type a = a.type := rfl

@[simp] theorem typePart_replace (a : MethodAssembler) (slot : Option MethodSlot)
    (type : TypeAssembler) :
    typePart.replace a slot type = { a with slot, type } := rfl

theorem leads_expectSection (e : Event) (phases : List MethodPhase) :
    Leads (expectSection e phases) a p Q F ↔
      if a.phase ∈ phases ∧ a.slot = none then Q () a p
      else F (.malformed (.unexpected e)) a p := by
  have hiff : (a.phase ∉ phases ∨ a.slot.isSome = true) ↔ ¬(a.phase ∈ phases ∧ a.slot = none) := by
    cases a.slot <;> simp
  simp only [expectSection, leads_bind, leads_get, hiff]
  by_cases hphase : a.phase ∈ phases ∧ a.slot = none
  · rw [if_neg (not_not_intro hphase), if_pos hphase, leads_pure]
  · rw [if_pos hphase, if_neg hphase, leads_unexpected]

theorem leads_openBound (e : Event) (kind : BoundKind) :
    Leads (openBound e kind) a p Q F ↔
      if (a.phase = .typeParams ∧ a.slot = none) ∧ a.typeParams.pending ≠ [] then
        Q () { a with slot := some (.bound kind) } p
      else F (.malformed (.unexpected e)) a p := by
  simp only [openBound, leads_bind, leads_expectSection, leads_get, List.mem_singleton]
  by_cases hphase : a.phase = .typeParams ∧ a.slot = none
  · rw [if_pos hphase]
    cases a.typeParams.pending <;> simp [hphase, leads_bind, leads_unexpected, leads_modify]
  · rw [if_neg hphase, if_neg fun h => hphase h.1]

/-- A parameter or the result ends the type parameters, if they have not ended yet. -/
theorem leads_openType (res : Resolution) (e : Event) (phase : MethodPhase) (slot : MethodSlot) :
    Leads (openType res e phase slot) a p Q F ↔
      if a.phase ∈ [.typeParams, .params] ∧ a.slot = none then
        if a.phase = .typeParams then
          Leads (TypeParamSection.introduce res (.ofMethod a.target)) a.typeParams p
            (fun _ s q => Q () { a with typeParams := s, phase, slot := some slot } q)
            fun err s q => F err { a with typeParams := s } q
        else Q () { a with phase, slot := some slot } p
      else F (.malformed (.unexpected e)) a p := by
  simp only [openType, leads_bind, leads_expectSection, leads_get]
  by_cases hsection : a.phase ∈ [.typeParams, .params] ∧ a.slot = none
  · rw [if_pos hsection, if_pos hsection]
    by_cases hphase : a.phase = .typeParams <;>
      simp [hphase, leads_bind, onTypeParams, leads_within, leads_modify]
  · rw [if_neg hsection, if_neg hsection]

/-- What an assembler has come to, with this result. -/
def methodTypes (a : MethodAssembler) (result : ResolvedType) : MethodTypes :=
  ⟨a.typeParams.resolved, a.params, result, a.throws⟩

/-- **How a method is finished**: what was understood is committed, or nothing is done. -/
theorem leads_finish (res : Resolution)
    (committed : ∀ result q, a.phase = .throws → a.slot = none → a.result = some result →
      (res.commitMethod a.target (a.methodTypes result)).outcome p = (.ok (), q) →
      Q () { a with phase := .done } q)
    (refused : ∀ e, (a.phase = .done → e = .malformed .finished) → F e a p) :
    Leads (finish res) a p Q F := by
  simp only [finish, leads_bind, leads_get]
  split
  case h_1 => exact refused _ fun _ => rfl
  case h_2 hphase _ => exact refused _ fun hdone => absurd (hphase.symm.trans hdone) nofun
  case h_4 hdone _ _ => exact refused _ fun h => absurd h hdone
  case h_3 result hphase hslot hresult =>
    simp only [leads_bind, leads_attempt, leads_modify]
    refine ⟨fun _ q h => committed result q hphase hslot hresult h, fun e q h => ?_⟩
    obtain ⟨rfl, -⟩ := Resolution.commitMethod_refused h
    exact refused e fun hdone => absurd (hphase.symm.trans hdone) nofun

end MethodAssembler

end JavaGenerics
