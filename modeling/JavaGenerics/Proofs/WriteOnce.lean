import JavaGenerics.Proofs.EventScoping
import JavaGenerics.Proofs.Success

/-!
# An assembler writes once

While a declaration is assembled, the registry is looked at and not written. It is written in
one move, when the declaration is finished; only the entry of the declaration changes then, and
the assembler has come to its end: whatever else it is fed, it refuses, and the registry is
left alone (`JavaGenerics.Assembly.WritesOnce`). None of this depends on what was refused
before. That the sections of the signature are never gone back to is part of it, and what it
rests on: the type that is being put together belongs to the section that the assembler is at
(`JavaGenerics.ClassAssembler.AtSection`), so a type that is complete leads onwards, and an
assembler that is done has no type left to complete.

The collaborator is the silent one. Others may well write to the registry before the
declaration is finished, since the classes that it mentions are resolved on request.
-/

namespace JavaGenerics

open Assembly Attempt

/-! ### What is written -/

/-- From `r` to `r'`, the class `c` is resolved: its type parameters, its types and its stage
are given anew, and everything else stays. -/
def Registry.ResolvesClass (c : ClassId) (r r' : Registry) : Prop :=
  ∃ typeParams superclass interfaces,
    r' = r.modifyClass c fun e => { e with typeParams, superclass, interfaces, stage := .resolved }

/-- From `r` to `r'`, the method `m` is resolved: its type parameters, its types and its stage
are given anew, and everything else stays. -/
def Registry.ResolvesMethod (m : MethodId) (r r' : Registry) : Prop :=
  ∃ typeParams params result throws, r' = r.modifyMethod m fun e =>
    { e with
      typeParams, params, throws, stage := .resolved
      result := if e.isConstructor then none else some result }

/-! ### Requests that leave the registry alone -/

namespace Resolution

variable {res : Resolution} {p q : Progress}

/-- Whatever is asked for, the registry stays as it is. -/
def IsQuiet (res : Resolution) : Prop := ∀ J c, Work.Evolves J (res.ask c)

theorem isQuiet_silent (options : Options) (r : Registry) (t : Target) :
    (Collaborator.silent.resolution options r t).IsQuiet :=
  fun J c => Collaborator.silent_evolves J _ c

theorem IsQuiet.settled (h : res.IsQuiet) (p : Progress) (scope : Scope) :
    res.Settled (Progress.Since (· = p.workspace.registry) p.workspace.registry)
      ⟨p.workspace.registry.lookup, scope.resolve⟩ :=
  settled_of_evolves (h _) fun _ => rfl

theorem IsQuiet.resolveAt (h : res.IsQuiet) {position : Position} {scope : Scope} {t : TypeSig}
    {out : Except ResolveError ResolvedType}
    (hout : (res.resolveAt position scope t).outcome p = (out, q)) :
    q.workspace.registry = p.workspace.registry := by
  obtain ⟨-, hq⟩ := computes_typeAt (h.settled p scope) rfl position t p (.refl _ _)
  rw [hout] at hq
  exact hq.2 rfl

theorem IsQuiet.resolve (h : res.IsQuiet) {scope : Scope} {t : TypeSig}
    {out : Except ResolveError ResolvedType} (hout : (res.resolve scope t).outcome p = (out, q)) :
    q.workspace.registry = p.workspace.registry :=
  h.resolveAt (show (res.resolveAt .anything scope t).outcome p = _ from hout)

theorem IsQuiet.resolveBounds (h : res.IsQuiet) {scope : Scope} {owner : Declarer}
    {ps : List TypeParamSig} {out : Except ResolveError (List TypeParam)}
    (hout : (res.resolveBounds scope owner 0 ps).outcome p = (out, q)) :
    q.workspace.registry = p.workspace.registry := by
  obtain ⟨-, hq⟩ := computes_params (h.settled p scope) rfl owner 0 ps p (.refl _ _)
  rw [hout] at hq
  exact hq.2 rfl

/-- The type parameters come into force without anything being written. -/
theorem IsQuiet.leads_introduce (h : res.IsQuiet) (owner : Declarer) {s : TypeParamSection} :
    Leads (TypeParamSection.introduce res owner) s p
      (fun _ _ q => q.workspace.registry = p.workspace.registry)
      fun _ _ q => q.workspace.registry = p.workspace.registry := by
  rw [TypeParamSection.leads_introduce]
  dsimp only
  split
  · rfl
  · split
    · rename_i hout
      exact h.resolveBounds hout
    · rename_i hout
      exact h.resolveBounds hout

end Resolution

/-! ### Feeds -/

namespace Assembly

variable {σ : Type} {step : Move → Assembly σ Unit} {rank : σ → Nat}
  {Writes : Registry → Registry → Prop} {Inv Done : σ → Prop} {a : σ} {p : Progress}

/-- **An assembler that writes once**, begun as `a` in the state `p`, whatever it is fed. -/
structure WritesOnce (step : Move → Assembly σ Unit) (rank : σ → Nat)
    (Writes : Registry → Registry → Prop) (a : σ) (p : Progress) : Prop where
  /-- Only a finish that succeeds writes. -/
  written : ∀ ms m,
    let before := (feed step ms a p).2.workspace.registry
    let out := feed step (ms ++ [m]) a p
    out.2.workspace.registry = before ∨
      m = .finish ∧ out.1.getLast?.map (·.1) = some (.ok ()) ∧
        Writes before out.2.workspace.registry
  /-- No section is gone back to. -/
  forward : ∀ ms, (rank a :: (feed step ms a p).1.map fun o => rank o.2).IsChain (· ≤ ·)
  /-- After a finish that succeeds, everything is refused, and nothing is written any more. -/
  closed : ∀ ms more, (feed step (ms ++ [.finish]) a p).1.getLast?.map (·.1) = some (.ok ()) →
    let out := feed step (ms ++ .finish :: more) a p
    (∀ o ∈ out.1.drop (ms.length + 1), ∃ cause, o.1 = .error (.malformed cause)) ∧
      out.2.workspace.registry = (feed step (ms ++ [.finish]) a p).2.workspace.registry

/-- From `a` in the state `p` to `b` in the state `q`, `Inv` is kept, the assembler does not go
back, and nothing is written. -/
def Onward (Inv : σ → Prop) (rank : σ → Nat) (a : σ) (p : Progress) (b : σ) (q : Progress) : Prop :=
  Inv b ∧ rank a ≤ rank b ∧ q.workspace.registry = p.workspace.registry

/-- What is asked of single moves. -/
structure Disciplined (step : Move → Assembly σ Unit) (rank : σ → Nat)
    (Writes : Registry → Registry → Prop) (Inv Done : σ → Prop) : Prop where
  accept : ∀ e a p, Inv a → Leads (step (.accept e)) a p (fun _ => Onward Inv rank a p)
    fun _ => Onward Inv rank a p
  finish : ∀ a p, Inv a → Leads (step .finish) a p
    (fun _ b q => Done b ∧ Inv b ∧ rank a ≤ rank b ∧
      Writes p.workspace.registry q.workspace.registry)
    fun _ => Onward Inv rank a p
  done : ∀ m a p, Done a → Leads (step m) a p (fun _ _ _ => False) fun e b q =>
    (∃ cause, e = .malformed cause) ∧ b = a ∧ q = p

namespace Disciplined

/-- **One move** keeps the invariant, does not lead back, and writes only if it is a finish
that succeeds. -/
theorem move (h : Disciplined step rank Writes Inv Done) (ha : Inv a) (m : Move) (p : Progress) :
    let out := (step m).outcome a p
    (Inv out.1.2 ∧ rank a ≤ rank out.1.2) ∧
      (out.2.workspace.registry = p.workspace.registry ∨
        m = .finish ∧ out.1.1 = .ok () ∧
          Writes p.workspace.registry out.2.workspace.registry) := by
  cases m with
  | accept e =>
    rcases (h.accept e a p ha).ok_or_error with ⟨-, -, hb, hrank, hq⟩ | ⟨-, -, hb, hrank, hq⟩
    · exact ⟨⟨hb, hrank⟩, .inl hq⟩
    · exact ⟨⟨hb, hrank⟩, .inl hq⟩
  | finish =>
    rcases (h.finish a p ha).ok_or_error with ⟨_, hok, -, hb, hrank, hq⟩ | ⟨-, -, hb, hrank, hq⟩
    · exact ⟨⟨hb, hrank⟩, .inr ⟨rfl, hok, hq⟩⟩
    · exact ⟨⟨hb, hrank⟩, .inl hq⟩

theorem inv_reached (h : Disciplined step rank Writes Inv Done) (ms : List Move) (ha : Inv a)
    (p : Progress) : Inv (reached step ms a p).1 := by
  induction ms generalizing a p with
  | nil => exact ha
  | cons m ms ih => exact ih (h.move ha m p).1.1 _

/-- An assembler that is done refuses every move, and the registry stays. -/
theorem feed_done (h : Disciplined step rank Writes Inv Done) (ms : List Move) (ha : Done a)
    (p : Progress) :
    (∀ o ∈ (feed step ms a p).1, ∃ cause, o.1 = .error (.malformed cause)) ∧
      (feed step ms a p).2 = p := by
  induction ms with
  | nil => exact ⟨nofun, rfl⟩
  | cons m ms ih =>
    rw [feed_cons]
    rcases (h.done m a p ha).ok_or_error with ⟨-, -, hfalse⟩ | ⟨_, herror, ⟨cause, rfl⟩, hb, hq⟩
    · exact hfalse.elim
    · rw [hb, hq]
      exact ⟨List.forall_mem_cons.2 ⟨⟨cause, herror⟩, ih.1⟩, ih.2⟩

/-- **What single moves observe, a whole feed observes.** -/
theorem writesOnce (h : Disciplined step rank Writes Inv Done) (ha : Inv a) (p : Progress) :
    WritesOnce step rank Writes a p where
  written ms m := by
    rw [feed_concat]
    dsimp only
    rw [List.getLast?_concat, ← reached_snd]
    refine (h.move (h.inv_reached ms ha p) m _).2.imp_right ?_
    exact fun ⟨hm, hok, hwrites⟩ => ⟨hm, congrArg some hok, hwrites⟩
  forward ms := by
    induction ms generalizing a p with
    | nil => exact .singleton _
    | cons m ms ih =>
      obtain ⟨⟨hb, hrank⟩, -⟩ := h.move ha m p
      exact (ih hb _).cons_cons hrank
  closed ms more hok := by
    rw [feed_concat] at hok ⊢
    rw [feed_append, feed_cons]
    dsimp only at hok ⊢
    rw [List.getLast?_concat] at hok
    -- the assembler that the finish leaves is done, and `more` is fed to this one
    have hdone := ((h.finish _ _ (h.inv_reached ms ha p)).of_ok (Option.some.inj hok)).1
    obtain ⟨hrefused, hleft⟩ := h.feed_done more hdone _
    refine ⟨?_, congrArg (·.workspace.registry) hleft⟩
    rwa [List.append_cons, List.drop_left' (by simp [length_feed])]

end Disciplined

end Assembly

/-! ### Classes -/

/-- The place of a section in the order of a class signature. -/
def ClassPhase.rank : ClassPhase → Nat
  | typeParams => 0
  | superclass => 1
  | interfaces => 2
  | done => 3

/-- The section that a type belongs to. -/
def ClassSlot.phase : ClassSlot → ClassPhase
  | bound _ => .typeParams
  | superclass => .superclass
  | interface => .interfaces

namespace ClassAssembler

/-- **An assembler of `c` that is at the section of its type**, if there is a type that is not
complete. -/
structure AtSection (c : ClassId) (a : ClassAssembler) : Prop where
  target : a.target = c
  phase : ∀ slot, a.slot = some slot → a.phase = slot.phase

variable {c : ClassId} {res : Resolution} {a : ClassAssembler} {p : Progress}

/-- Between two types, an assembler is at any section. -/
theorem AtSection.of_slot (htarget : a.target = c) (hslot : a.slot = none) : a.AtSection c :=
  ⟨htarget, fun _ h => absurd (hslot.symm.trans h) nofun⟩

/-- A type leads on to the section behind it, or is refused. -/
theorem leads_fill_onward (hres : res.IsQuiet) (htarget : a.target = c) (hslot : a.slot = none)
    {slot : ClassSlot} (hphase : a.phase = slot.phase) (t : TypeSig) :
    Leads (fill res t slot) a p (fun _ => Onward (AtSection c) (·.phase.rank) a p)
      fun _ => Onward (AtSection c) (·.phase.rank) a p := by
  cases slot with
  | bound kind =>
    rw [fill, onParams, leads_within, TypeParamSection.leads_collectBound]
    split
    · exact ⟨.of_slot htarget hslot, le_rfl, rfl⟩
    · split <;> exact ⟨.of_slot htarget hslot, le_rfl, rfl⟩
  | superclass =>
    have hle : a.phase.rank ≤ ClassPhase.interfaces.rank := by
      rw [hphase]
      decide
    simp only [fill, leads_bind, leads_get, leads_attempt, leads_modify]
    exact ⟨fun u q hout => ⟨.of_slot htarget hslot, hle, hres.resolveAt hout⟩, fun e q hout =>
      ⟨.of_slot htarget hslot, le_rfl, hres.resolveAt hout⟩⟩
  | interface =>
    simp only [fill, leads_bind, leads_get, leads_attempt, leads_modify]
    exact ⟨fun u q hout => ⟨.of_slot htarget hslot, le_rfl, hres.resolveAt hout⟩, fun e q hout =>
      ⟨.of_slot htarget hslot, le_rfl, hres.resolveAt hout⟩⟩

/-- **An event leads onwards**, and writes nothing. -/
theorem leads_accept_onward (hres : res.IsQuiet) (h : a.AtSection c) (e : Event) :
    Leads (accept res e) a p (fun _ => Onward (AtSection c) (·.phase.rank) a p)
      fun _ => Onward (AtSection c) (·.phase.rank) a p := by
  have htype : Leads (acceptTypeEvent res e) a p (fun _ => Onward (AtSection c) (·.phase.rank) a p)
      fun _ => Onward (AtSection c) (·.phase.rank) a p :=
    leads_acceptTypeEvent_of_kept e ⟨h, le_rfl, rfl⟩ (fun _ => ⟨⟨h.target, h.phase⟩, le_rfl, rfl⟩)
      fun slot type t hslot => leads_fill_onward (a := { a with type, slot := none }) hres
        h.target rfl (h.phase slot hslot) t
  cases e
  case formalTypeParameter name =>
    simp only [accept, leads_bind, leads_expectSection, onParams, leads_within,
      TypeParamSection.leads_collect]
    split
    · split <;> exact ⟨⟨h.target, h.phase⟩, le_rfl, rfl⟩
    · exact ⟨h, le_rfl, rfl⟩
  case classBound | interfaceBound =>
    simp only [accept, leads_openBound]
    split
    case isTrue hat =>
      refine ⟨⟨h.target, fun slot hslot => ?_⟩, le_rfl, rfl⟩
      cases hslot
      exact hat.1.1
    case isFalse => exact ⟨h, le_rfl, rfl⟩
  case superclass =>
    simp only [accept, leads_bind, leads_expectSection]
    split
    case isTrue hat =>
      have hle : a.phase.rank ≤ ClassPhase.superclass.rank := by
        rw [hat.1]
        decide
      simp only [leads_get, onParams, leads_within, leads_modify]
      refine (hres.leads_introduce _).mono (fun _ s q hq => ⟨⟨h.target, ?_⟩, hle, hq⟩)
        fun _ s q hq => ⟨⟨h.target, h.phase⟩, le_rfl, hq⟩
      rintro slot ⟨⟩
      rfl
    case isFalse => exact ⟨h, le_rfl, rfl⟩
  case interface =>
    simp only [accept, leads_bind, leads_expectSection, leads_modify]
    split
    case isTrue hat =>
      refine ⟨⟨h.target, fun slot hslot => ?_⟩, le_rfl, rfl⟩
      cases hslot
      exact hat.1
    case isFalse => exact ⟨h, le_rfl, rfl⟩
  case parameterType | returnType | exceptionType => exact ⟨h, le_rfl, rfl⟩
  all_goals exact htype

theorem disciplined (hres : res.IsQuiet) (c : ClassId) :
    Disciplined (move res) (·.phase.rank) (Registry.ResolvesClass c) (AtSection c) IsDone where
  accept e _ _ h := leads_accept_onward hres h e
  finish a p h := by
    obtain rfl := h.target
    refine leads_finish res (fun superclass q hphase hslot _ hq => ?_) (fun _ _ => ?_)
      fun hphase _ => ?_
    · have hle : a.phase.rank ≤ ClassPhase.done.rank := by
        rw [hphase]
        decide
      exact ⟨⟨rfl, hslot⟩, .of_slot rfl hslot, hle, _, _, _, hq⟩
    · exact ⟨h, le_rfl, rfl⟩
    · exact ⟨⟨rfl, h.phase⟩, le_rfl, rfl⟩
  done m _ _ h := leads_move_of_isDone h m

end ClassAssembler

/-! ### Methods -/

/-- The place of a section in the order of a method signature. -/
def MethodPhase.rank : MethodPhase → Nat
  | typeParams => 0
  | params => 1
  | result => 2
  | throws => 3
  | done => 4

/-- The section that a type belongs to. -/
def MethodSlot.phase : MethodSlot → MethodPhase
  | bound _ => .typeParams
  | param => .params
  | result => .result
  | throws => .throws

namespace MethodAssembler

/-- **An assembler of `m` that is at the section of its type**, if there is a type that is not
complete. -/
structure AtSection (m : MethodId) (a : MethodAssembler) : Prop where
  target : a.target = m
  phase : ∀ slot, a.slot = some slot → a.phase = slot.phase

/-- An assembler that has committed its method, and so accepts nothing more. -/
def IsDone (a : MethodAssembler) : Prop := a.phase = .done ∧ a.slot = none

variable {m : MethodId} {res : Resolution} {a : MethodAssembler} {p : Progress}

/-- Between two types, an assembler is at any section. -/
theorem AtSection.of_slot (htarget : a.target = m) (hslot : a.slot = none) : a.AtSection m :=
  ⟨htarget, fun _ h => absurd (hslot.symm.trans h) nofun⟩

/-- A type leads on to the section behind it, or is refused. -/
theorem leads_fill_onward (hres : res.IsQuiet) (htarget : a.target = m) (hslot : a.slot = none)
    {slot : MethodSlot} (hphase : a.phase = slot.phase) (t : TypeSig) :
    Leads (fill res t slot) a p (fun _ => Onward (AtSection m) (·.phase.rank) a p)
      fun _ => Onward (AtSection m) (·.phase.rank) a p := by
  cases slot with
  | bound kind =>
    rw [fill, onTypeParams, leads_within, TypeParamSection.leads_collectBound]
    split
    · exact ⟨.of_slot htarget hslot, le_rfl, rfl⟩
    · split <;> exact ⟨.of_slot htarget hslot, le_rfl, rfl⟩
  | param | throws =>
    simp only [fill, leads_bind, leads_get, leads_attempt, leads_modify]
    exact ⟨fun u q hout => ⟨.of_slot htarget hslot, le_rfl, hres.resolveAt hout⟩, fun e q hout =>
      ⟨.of_slot htarget hslot, le_rfl, hres.resolveAt hout⟩⟩
  | result =>
    have hle : a.phase.rank ≤ MethodPhase.throws.rank := by
      rw [hphase]
      decide
    simp only [fill, leads_bind, leads_get, leads_attempt, leads_modify]
    exact ⟨fun u q hout => ⟨.of_slot htarget hslot, hle, hres.resolve hout⟩, fun e q hout =>
      ⟨.of_slot htarget hslot, le_rfl, hres.resolve hout⟩⟩

/-- A parameter or the result begins only where the section is not behind it. -/
theorem leads_openType_onward (hres : res.IsQuiet) (h : a.AtSection m) (e : Event)
    {phase : MethodPhase} {slot : MethodSlot} (hslot : slot.phase = phase)
    (hrank : MethodPhase.params.rank ≤ phase.rank) :
    Leads (openType res e phase slot) a p (fun _ => Onward (AtSection m) (·.phase.rank) a p)
      fun _ => Onward (AtSection m) (·.phase.rank) a p := by
  have hopened : ∀ b : MethodAssembler, b.target = m → b.phase = phase → b.slot = some slot →
      b.AtSection m := by
    refine fun b htarget hphase hb => ⟨htarget, fun slot' hslot' => ?_⟩
    obtain rfl := Option.some.inj (hb.symm.trans hslot')
    rw [hphase, hslot]
  rw [leads_openType]
  split
  case isFalse => exact ⟨h, le_rfl, rfl⟩
  case isTrue hat =>
    have hle : a.phase.rank ≤ phase.rank := by
      refine le_trans ?_ hrank
      rcases List.mem_cons.1 hat.1 with hphase | hphase
      · rw [hphase]
        decide
      · rw [List.mem_singleton.1 hphase]
    split
    · exact (hres.leads_introduce _).mono (fun _ s q hq => ⟨hopened _ h.target rfl rfl, hle, hq⟩)
        fun _ s q hq => ⟨⟨h.target, h.phase⟩, le_rfl, hq⟩
    · exact ⟨hopened _ h.target rfl rfl, hle, rfl⟩

/-- **An event leads onwards**, and writes nothing. -/
theorem leads_accept_onward (hres : res.IsQuiet) (h : a.AtSection m) (e : Event) :
    Leads (accept res e) a p (fun _ => Onward (AtSection m) (·.phase.rank) a p)
      fun _ => Onward (AtSection m) (·.phase.rank) a p := by
  have htype : Leads (acceptTypeEvent res e) a p (fun _ => Onward (AtSection m) (·.phase.rank) a p)
      fun _ => Onward (AtSection m) (·.phase.rank) a p :=
    leads_acceptTypeEvent_of_kept e ⟨h, le_rfl, rfl⟩ (fun _ => ⟨⟨h.target, h.phase⟩, le_rfl, rfl⟩)
      fun slot type t hslot => leads_fill_onward (a := { a with type, slot := none }) hres
        h.target rfl (h.phase slot hslot) t
  cases e
  case formalTypeParameter name =>
    simp only [accept, leads_bind, leads_expectSection, onTypeParams, leads_within,
      TypeParamSection.leads_collect]
    split
    · split <;> exact ⟨⟨h.target, h.phase⟩, le_rfl, rfl⟩
    · exact ⟨h, le_rfl, rfl⟩
  case classBound | interfaceBound =>
    simp only [accept, leads_openBound]
    split
    case isTrue hat =>
      refine ⟨⟨h.target, fun slot hslot => ?_⟩, le_rfl, rfl⟩
      cases hslot
      exact hat.1.1
    case isFalse => exact ⟨h, le_rfl, rfl⟩
  case parameterType => exact leads_openType_onward hres h _ rfl le_rfl
  case returnType => exact leads_openType_onward hres h _ rfl (by decide)
  case exceptionType =>
    simp only [accept, leads_bind, leads_expectSection, leads_modify]
    split
    case isTrue hat =>
      refine ⟨⟨h.target, fun slot hslot => ?_⟩, le_rfl, rfl⟩
      cases hslot
      exact List.mem_singleton.1 hat.1
    case isFalse => exact ⟨h, le_rfl, rfl⟩
  case superclass | interface => exact ⟨h, le_rfl, rfl⟩
  all_goals exact htype

/-- An assembler that has committed its method refuses everything, and nothing changes. -/
theorem leads_move_of_isDone (h : a.IsDone) (m : Move) :
    Leads (move res m) a p (fun _ _ _ => False) fun e b q =>
      (∃ cause, e = .malformed cause) ∧ b = a ∧ q = p := by
  obtain ⟨hphase, hslot⟩ := h
  cases m with
  | accept e =>
    have htype : Leads (acceptTypeEvent res e) a p (fun _ _ _ => False) fun e b q =>
        (∃ cause, e = .malformed cause) ∧ b = a ∧ q = p := by
      rw [acceptTypeEvent, leads_acceptTypeEvent, show typePart.slot a = none from hslot]
      exact ⟨⟨_, rfl⟩, rfl, rfl⟩
    cases e
    case formalTypeParameter | exceptionType =>
      simp [move, accept, leads_bind, leads_expectSection, hphase]
    case classBound | interfaceBound => simp [move, accept, leads_openBound, hphase]
    case parameterType | returnType => simp [move, accept, leads_openType, hphase]
    case superclass | interface => exact ⟨⟨_, rfl⟩, rfl, rfl⟩
    all_goals exact htype
  | finish => simp [move, finish, leads_bind, leads_get, leads_throw, hphase]

/-- A method that is committed is resolved, and nothing else is written. -/
theorem resolvesMethod_commit (hres : res.IsQuiet) {types : MethodTypes} {q : Progress}
    (h : (res.commitMethod m types).outcome p = (.ok (), q)) :
    p.workspace.registry.ResolvesMethod m q.workspace.registry := by
  have hends := Resolution.ends_commitMethod
    (Resolution.steady_of_evolves (hres (· = p.workspace.registry)) _) m types p (.refl _ _)
  rw [h] at hends
  obtain ⟨p', hp', names, hq⟩ := hends
  rw [hp'.2 rfl] at hq
  exact ⟨_, _, _, _, hq⟩

theorem disciplined (hres : res.IsQuiet) (m : MethodId) :
    Disciplined (move res) (·.phase.rank) (Registry.ResolvesMethod m) (AtSection m) IsDone where
  accept e _ _ h := leads_accept_onward hres h e
  finish a p h := by
    obtain rfl := h.target
    refine leads_finish res (fun result q hphase hslot _ hcommit => ?_)
      fun _ _ => ⟨h, le_rfl, rfl⟩
    have hle : a.phase.rank ≤ MethodPhase.done.rank := by
      rw [hphase]
      decide
    exact ⟨⟨rfl, hslot⟩, .of_slot rfl hslot, hle, resolvesMethod_commit hres hcommit⟩
  done m _ _ h := leads_move_of_isDone h m

end MethodAssembler

/-! ### Every assembler -/

/-- **Nothing is written before a declaration is finished, and it is finished at most once.**
Take a new assembler of any class or any method, with the silent collaborator, and feed it any
moves, whether they are refused or not. The registry stays as it is at every move but a finish
that succeeds, which changes only the type parameters, the types and the stage of the
declaration; the sections of the signature are reached in their order; and after a finish that
succeeds, every move is refused as malformed, and the registry stays as it is. -/
theorem Assembly.writesOnce_start (options : Options) (scope : Scope) (p : Progress) :
    (∀ c : ClassId,
      WritesOnce (ClassAssembler.move
          (Collaborator.silent.resolution options p.workspace.registry (.ofClass c)))
        (·.phase.rank) (Registry.ResolvesClass c) (ClassAssembler.start c scope) p) ∧
      ∀ (m : MethodId) (a : MethodAssembler),
        MethodAssembler.start p.workspace.registry m scope = .ok a →
        WritesOnce (MethodAssembler.move
            (Collaborator.silent.resolution options p.workspace.registry (.ofMethod m)))
          (·.phase.rank) (Registry.ResolvesMethod m) a p := by
  refine ⟨fun c => ?_, fun m a ha => ?_⟩
  · have hres := Resolution.isQuiet_silent options p.workspace.registry (.ofClass c)
    exact (ClassAssembler.disciplined hres c).writesOnce (.of_slot rfl rfl) p
  · have hres := Resolution.isQuiet_silent options p.workspace.registry (.ofMethod m)
    unfold MethodAssembler.start at ha
    split at ha
    · cases ha
      exact (MethodAssembler.disciplined hres m).writesOnce (.of_slot rfl rfl) p
    · cases ha

/-- A method without a result is finished, and then fed on. -/
theorem Assembly.writesOnce_of_void :
    let r := ((Registry.ofHeaders [{ name := "A" }]).addMethod ⟨0⟩ "m" ⟨[], none⟩ [] []).2
    let p : Progress := { workspace := { registry := r } }
    let step := MethodAssembler.move (Collaborator.silent.resolution {} r (.ofMethod ⟨0⟩))
    let a : MethodAssembler := { target := ⟨0⟩, typeParams := { scope := {} } }
    let ms := [Move.accept .exceptionType, .finish, .accept .returnType, .accept .voidType]
    let more := [Move.accept .exceptionType, .finish]
    let out := feed step (ms ++ .finish :: more) a p
    MethodAssembler.start r ⟨0⟩ {} = .ok a ∧
      out.1.map (·.1.isOk) = [false, false, true, true, true, false, false] ∧
      (∀ o ∈ out.1.drop 5, ∃ cause, o.1 = .error (.malformed cause)) ∧
      WritesOnce step (·.phase.rank) (Registry.ResolvesMethod ⟨0⟩) a p := by
  intro r p step a ms more out
  have hstart : MethodAssembler.start r ⟨0⟩ {} = .ok a := if_pos (by decide +kernel)
  have honce : WritesOnce step (·.phase.rank) (Registry.ResolvesMethod ⟨0⟩) a p :=
    (writesOnce_start {} {} p).2 ⟨0⟩ a hstart
  exact ⟨hstart, by decide +kernel, (honce.closed ms more (by decide +kernel)).1, honce⟩

end JavaGenerics
