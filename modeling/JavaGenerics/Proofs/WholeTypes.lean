import JavaGenerics.Proofs.Refusal
import JavaGenerics.Proofs.TypeStack

/-!
# Only whole types are finished

An assembler of a class or a method hands the events of a type to a `JavaGenerics.TypeAssembler`.
Whether such a type is open it remembers in its slot, and only the slot is looked at when a section
begins or the declaration is finished: what the type assembler has on its stack then, nobody
asks. This is enough, whatever was refused before (`JavaGenerics.Assembly.finishesWhole_start`).
Where the slot is empty, so is the stack; where it is not, the declaration cannot be finished; and
since the stack is only ever changed by the events of a type, every part on it has its place.

What carries the invariant is that the slot and the stack change together. An event that is handed
to the type may leave the stack in any sound state, also when it is refused; but the slot
is emptied only behind a type that is complete, and a type is complete when it is taken off
the bottom of the stack. Whatever comes after – the bound is late, the superclass is no class type,
the parameter is `void` – leaves both as they are.
-/

namespace JavaGenerics

open Assembly Attempt

/-! ### Errors of a commit -/

namespace Resolution

variable {res : Resolution} {p q : Progress} {e : ResolveError}

/-- A commit fails by nothing that an event is refused for. -/
theorem not_ofEvent_commitClass {c : ClassId} {types : ClassTypes}
    (h : (res.commitClass c types).outcome p = (.error e, q)) : ¬e.OfEvent := by
  by_cases hc : p.workspace.registry.classAt? c = none
  · rw [commitClass_of_unregistered hc] at h
    cases h
    exact nofun
  · obtain ⟨-, cause, rfl⟩ := commitClass_refused h hc
    exact nofun

theorem not_ofEvent_commitMethod {m : MethodId} {types : MethodTypes}
    (h : (res.commitMethod m types).outcome p = (.error e, q)) : ¬e.OfEvent := by
  obtain ⟨-, rfl | ⟨cause, rfl⟩⟩ := commitMethod_refused h
  · exact nofun
  · exact nofun

end Resolution

theorem ResolveError.ne_strayArgument {e : ResolveError} (h : ¬e.OfEvent) :
    e ≠ .malformed .strayArgument := by
  rintro rfl
  exact h .strayArgument

/-! ### Steps that leave a part alone -/

namespace Assembly

variable {σ τ ρ α β : Type} {f : σ → τ}

/-- A step that leaves `f` of the assembler as it is, whether it is refused or not. -/
def Leaves (f : σ → τ) (x : Assembly σ α) : Prop :=
  ∀ a p, Leads x a p (fun _ b _ => f b = f a) fun _ b _ => f b = f a

theorem leaves_get : Leaves f (get : Assembly σ σ) := fun _ _ => rfl

theorem leaves_modify {g : σ → σ} (h : ∀ a, f (g a) = f a) :
    Leaves f (modify g : Assembly σ PUnit) := fun a _ => h a

theorem leaves_attempt (x : Attempt α) : Leaves f (attempt x : Assembly σ α) := fun _ _ =>
  (leads_attempt x).2 ⟨fun _ _ _ => rfl, fun _ _ _ => rfl⟩

theorem leaves_within {part : σ → ρ} {replace : σ → ρ → σ} (h : ∀ a s, f (replace a s) = f a)
    (x : Assembly ρ α) : Leaves f (within part replace x) := by
  intro a p
  rw [leads_within]
  unfold Leads
  rcases x.outcome (part a) p with ⟨⟨_ | _, s⟩, q⟩ <;> exact h a s

theorem Leaves.bind {x : Assembly σ α} {k : α → Assembly σ β} (hx : Leaves f x)
    (hk : ∀ r, Leaves f (k r)) : Leaves f (x >>= k) := by
  intro a p
  rw [leads_bind]
  refine (hx a p).mono (fun r b q hb => ?_) fun _ _ _ h => h
  exact (hk r b q).mono (fun _ _ _ h => h.trans hb) fun _ _ _ h => h.trans hb

end Assembly

/-! ### Whole types -/

/-- The events in a move. -/
def Move.events : Move → List Event
  | accept e => [e]
  | finish => []

namespace Assembly

variable {σ γ : Type} {step : Move → Assembly σ Unit} {slot : σ → Option γ}
  {type : σ → TypeAssembler} {a b : σ} {e : Event} {es : List Event} {p : Progress}

/-- **An assembler that finishes whole types only**, begun as `a` in the state `p`, whatever it
is fed. -/
structure FinishesWhole (step : Move → Assembly σ Unit) (slot : σ → Option γ)
    (type : σ → TypeAssembler) (a : σ) (p : Progress) : Prop where
  /-- Where no type is open, nothing is unfinished. -/
  closed : ∀ ms,
    let b := (reached step ms a p).1
    slot b = none → (type b).stack = []
  /-- What is unfinished is what a loose stack comes to that is fed some of the events. Every part
  on it has its place, and no event is refused on it for an argument without a class type. -/
  sound : ∀ ms, ∃ es : List Event, es.Sublist (ms.flatMap Move.events) ∧ ∀ nothing,
    let loose := LooseStack.feed nothing es []
    (type (reached step ms a p).1).stack = loose.2 ∧ loose.2.Sound ∧
      ∀ result ∈ loose.1, result ≠ .error (.malformed .strayArgument)
  /-- No move is refused for an argument without a class type. -/
  placed : ∀ ms, ∀ o ∈ (feed step ms a p).1, o.1 ≠ .error (.malformed .strayArgument)
  /-- While a type is open, or anything of it unfinished, to finish is refused, and nothing is
  done. -/
  unfinished : ∀ ms,
    let b := (reached step ms a p).1
    let q := (reached step ms a p).2
    slot b ≠ none ∨ (type b).stack ≠ [] → ∃ e, (step .finish).outcome b q = ((.error e, b), q)

/-- **What a move does to the type that is open**: it leaves the type alone, and then closes
none; or it hands its event to the type, and then closes it only if nothing is left
unfinished. -/
inductive Passes (slot : σ → Option γ) (type : σ → TypeAssembler) (a b : σ) : Move → Prop where
  | alone {m : Move} (htype : type b = type a) (hslot : slot b = none → slot a = none) :
      Passes slot type a b m
  | handed {e : Event} (htype : type b = ((type a).accept e).2)
      (hslot : slot b = none → (type b).frames = []) : Passes slot type a b (.accept e)

/-- A type that is left alone may be opened. -/
theorem Passes.of_opened {m : Move} (htype : type b = type a) (hslot : slot b ≠ none) :
    Passes slot type a b m := .alone htype fun h => absurd h hslot

/-- An event that leaves the type open may leave it in any state. -/
theorem Passes.of_open {result : Except ResolveError (Option TypeSig)} {t : TypeAssembler}
    (hout : (type a).accept e = (result, t)) (htype : type b = t) (hslot : slot b ≠ none) :
    Passes slot type a b (.accept e) := by
  subst htype
  exact .handed (by rw [hout]) fun h => absurd h hslot

/-- A type is closed when it is complete, and then nothing is left unfinished. -/
theorem Passes.of_complete {u : TypeSig} {t : TypeAssembler}
    (hout : (type a).accept e = (.ok (some u), t)) (hb : (slot b, type b) = (none, t)) :
    Passes slot type a b (.accept e) := by
  obtain ⟨-, rfl⟩ := Prod.mk.inj hb
  exact .handed (by rw [hout]) fun _ => TypeAssembler.accept_complete hout

/-- A step that does nothing else to the type that is open, as the move `m`; and if it is refused
for an argument without a class type, it is the type that refuses some event for it. -/
def Passing (slot : σ → Option γ) (type : σ → TypeAssembler) (m : Move) (x : Assembly σ Unit) :
    Prop :=
  ∀ a p, Leads x a p (fun _ b _ => Passes slot type a b m) fun err b _ =>
    Passes slot type a b m ∧
      (err = .malformed .strayArgument → ∃ e, ((type a).accept e).1 = .error err)

/-- A move that changes nothing may be refused, but not for an argument without a class type. -/
theorem passes_refused {m : Move} {cause : Malformed} (hcause : cause ≠ .strayArgument) :
    Passes slot type a a m ∧ (ResolveError.malformed cause = .malformed .strayArgument →
      ∃ e, ((type a).accept e).1 = .error (.malformed cause)) :=
  ⟨.alone rfl id, fun h => absurd (ResolveError.malformed.inj h) hcause⟩

/-- The type refuses nothing where only its surroundings fail. -/
theorem passing_of_avoids {m : Move} {x : Assembly σ Unit}
    (hx : ∀ a p, Leads x a p (fun _ b _ => Passes slot type a b m)
      fun _ b _ => Passes slot type a b m)
    (havoids : Avoids ResolveError.OfEvent x) : Passing slot type m x := fun a p =>
  ((hx a p).and (havoids a p)).mono (fun _ _ _ h => h.1) fun _ _ _ h =>
    ⟨h.1, fun herr => absurd herr (ResolveError.ne_strayArgument h.2)⟩

/-- **An event of a type is handed to the type**, which is closed by what completes it. -/
theorem passing_acceptTypeEvent {part : TypePart σ γ} {fill : TypeSig → γ → Assembly σ Unit}
    (hleaves : ∀ t γ, Leaves (fun a => (part.slot a, part.type a)) (fill t γ))
    (havoids : ∀ t γ, Avoids ResolveError.OfEvent (fill t γ)) (e : Event) :
    Passing part.slot part.type (.accept e) (acceptTypeEvent part fill e) := by
  intro a p
  rw [leads_acceptTypeEvent]
  split
  case h_1 => exact passes_refused (by simp)
  case h_2 slot hslot =>
    have hopen : ∀ type, part.slot (part.replace a (part.slot a) type) ≠ none := by
      simp [part.slot_replace, hslot]
    split
    case h_1 err type hout =>
      exact ⟨.of_open hout (part.type_replace ..) (hopen _), fun _ => ⟨e, by rw [hout]⟩⟩
    case h_2 type hout => exact .of_open hout (part.type_replace ..) (hopen _)
    case h_3 t type hout =>
      -- the slot is emptied before the type is put where it is for, which may still fail
      have hcomplete : ∀ b, (part.slot b, part.type b) = (part.slot (part.replace a none type),
          part.type (part.replace a none type)) → Passes part.slot part.type a b (.accept e) := by
        intro b hb
        rw [part.slot_replace, part.type_replace] at hb
        exact .of_complete hout hb
      refine ((hleaves t slot _ p).and (havoids t slot _ p)).mono
        (fun _ b _ h => hcomplete b h.1) fun _ b _ h => ⟨hcomplete b h.1, ?_⟩
      exact fun herr => absurd herr (ResolveError.ne_strayArgument h.2)

/-- What is asked of single moves. -/
structure HandsOver (step : Move → Assembly σ Unit) (slot : σ → Option γ)
    (type : σ → TypeAssembler) : Prop where
  passes : ∀ m, Passing slot type m (step m)
  unfinished : ∀ a p, slot a ≠ none →
    Leads (step .finish) a p (fun _ _ _ => False) fun _ b q => b = a ∧ q = p

/-- The type has been handed the events `es`, and if it is not open, nothing of it is
unfinished. -/
structure Holds (slot : σ → Option γ) (type : σ → TypeAssembler) (es : List Event) (a : σ) :
    Prop where
  closed : slot a = none → (type a).frames = []
  handed : type a = (TypeAssembler.feed es {}).2

namespace Holds

theorem stack_eq (h : Holds slot type es a) (nothing : TypeSig) :
    (type a).stack = (LooseStack.feed nothing es []).2 := by
  rw [h.handed]
  exact congrArg Prod.snd (TypeAssembler.feed_stack es {}).symm

theorem stack_sound (h : Holds slot type es a) : (type a).stack.Sound := by
  rw [h.stack_eq .void]
  exact (LooseStack.sound_feed es LooseStack.sound_nil).1

/-- No event finds an argument without a class type. -/
theorem accept_ne_strayArgument (h : Holds slot type es a) (e : Event) :
    ((type a).accept e).1 ≠ .error (.malformed .strayArgument) := by
  have hsound := LooseStack.sound_accept .void h.stack_sound e
  rw [TypeAssembler.accept_stack] at hsound
  exact hsound.2

/-- What is handed over is the event of the move, if anything is. -/
theorem passes {m : Move} (h : Holds slot type es a) (hpass : Passes slot type a b m) :
    ∃ handed : List Event, handed.Sublist m.events ∧ Holds slot type (es ++ handed) b := by
  cases hpass with
  | alone htype hslot =>
    refine ⟨[], List.nil_sublist _, fun hb => ?_, ?_⟩
    · rw [htype]
      exact h.closed (hslot hb)
    · rw [htype, List.append_nil, h.handed]
  | @handed e htype hslot =>
    refine ⟨[e], List.Sublist.refl _, hslot, ?_⟩
    rw [htype, TypeAssembler.feed_concat_snd, h.handed]

end Holds

namespace HandsOver

/-- **One move** hands over at most its event, and is not refused for an argument without a class
type. -/
theorem move (h : HandsOver step slot type) (ha : Holds slot type es a) (m : Move) (p : Progress) :
    let out := (step m).outcome a p
    (∃ handed : List Event, handed.Sublist m.events ∧
      Holds slot type (es ++ handed) out.1.2) ∧ out.1.1 ≠ .error (.malformed .strayArgument) := by
  rcases (h.passes m a p).ok_or_error with ⟨_, hok, hpass⟩ | ⟨err, herror, hpass, hstray⟩
  · refine ⟨ha.passes hpass, ?_⟩
    rw [hok]
    exact nofun
  · refine ⟨ha.passes hpass, ?_⟩
    rw [herror]
    rintro ⟨⟩
    obtain ⟨e, he⟩ := hstray rfl
    exact ha.accept_ne_strayArgument e he

/-- **What single moves hand over, a whole feed hands over**, in the same order. -/
theorem holds_reached (h : HandsOver step slot type) (ms : List Move)
    (ha : Holds slot type es a) (p : Progress) :
    ∃ handed : List Event, handed.Sublist (ms.flatMap Move.events) ∧
      Holds slot type (es ++ handed) (reached step ms a p).1 := by
  induction ms generalizing es a p with
  | nil => exact ⟨[], .slnil, by rwa [List.append_nil]⟩
  | cons m ms ih =>
    obtain ⟨⟨first, hfirst, hb⟩, -⟩ := h.move ha m p
    obtain ⟨rest, hrest, hend⟩ := ih hb _
    refine ⟨first ++ rest, ?_, ?_⟩
    · rw [List.flatMap_cons]
      exact hfirst.append hrest
    · rwa [← List.append_assoc]

/-- No move of a feed is refused for an argument without a class type. -/
theorem ne_strayArgument_of_mem_feed (h : HandsOver step slot type) (ms : List Move)
    (ha : Holds slot type es a) (p : Progress) :
    ∀ o ∈ (feed step ms a p).1, o.1 ≠ .error (.malformed .strayArgument) := by
  induction ms generalizing es a p with
  | nil => exact nofun
  | cons m ms ih =>
    obtain ⟨⟨_, -, hb⟩, hresult⟩ := h.move ha m p
    exact List.forall_mem_cons.2 ⟨hresult, ih hb _⟩

/-- **What single moves observe, a whole feed observes.** -/
theorem finishesWhole (h : HandsOver step slot type) (ha : Holds slot type [] a) (p : Progress) :
    FinishesWhole step slot type a p where
  closed ms hslot := by
    obtain ⟨es, -, hb⟩ := h.holds_reached ms ha p
    exact TypeAssembler.stack_eq_nil.2 (hb.closed hslot)
  sound ms := by
    obtain ⟨es, hes, hb⟩ := h.holds_reached ms ha p
    exact ⟨es, hes, fun nothing =>
      ⟨hb.stack_eq nothing, LooseStack.sound_feed es LooseStack.sound_nil⟩⟩
  placed ms := h.ne_strayArgument_of_mem_feed ms ha p
  unfinished ms hopen := by
    obtain ⟨es, -, hb⟩ := h.holds_reached ms ha p
    have hslot : slot (reached step ms a p).1 ≠ none := by
      rcases hopen with hslot | hstack
      · exact hslot
      · exact fun hslot => hstack (TypeAssembler.stack_eq_nil.2 (hb.closed hslot))
    rcases (h.unfinished _ (reached step ms a p).2 hslot).ok_or_error with
      ⟨-, -, hfalse⟩ | ⟨e, herror, hstate, hprogress⟩
    · exact hfalse.elim
    · exact ⟨e, Prod.ext (Prod.ext herror hstate) hprogress⟩

end HandsOver

end Assembly

/-! ### Classes -/

namespace ClassAssembler

variable (res : Resolution) {a : ClassAssembler} {p : Progress}

/-- Where a type is put, the type that is open is not touched. -/
theorem leaves_fill (t : TypeSig) (slot : ClassSlot) :
    Leaves (fun a => (a.slot, a.type)) (fill res t slot) := by
  cases slot with
  | bound kind =>
    rw [fill, onParams]
    refine leaves_within ?_ _
    exact fun _ _ => rfl
  | superclass | interface =>
    exact leaves_get.bind fun _ => (leaves_attempt _).bind fun _ => leaves_modify fun _ => rfl

/-- **An event goes to the type that is open, or does not touch it.** -/
theorem passing_accept (e : Event) :
    Passing (·.slot) (·.type) (.accept e) (accept res e) := by
  have htype : Passing typePart.slot typePart.type (.accept e) (acceptTypeEvent res e) :=
    passing_acceptTypeEvent (leaves_fill res) (avoids_fill res) e
  intro a p
  cases e
  case formalTypeParameter name =>
    simp only [accept, leads_bind, leads_expectSection, onParams, leads_within,
      TypeParamSection.leads_collect]
    split
    · split
      · exact passes_refused (by simp)
      · exact .alone rfl id
    · exact passes_refused (by simp)
  case classBound | interfaceBound =>
    simp only [accept, leads_openBound]
    split
    · exact .of_opened rfl (Option.some_ne_none _)
    · exact passes_refused (by simp)
  case superclass =>
    simp only [accept, leads_bind, leads_expectSection]
    split
    · -- if the type parameters fail, the slot stays empty, and so does the type
      simp only [leads_get, onParams, leads_within, leads_modify]
      refine (TypeParamSection.avoids_introduce res _ _ _).mono
        (fun _ _ _ _ => .of_opened rfl (Option.some_ne_none _))
        fun _ _ _ herr => ⟨.alone rfl id, ?_⟩
      exact fun h => absurd h (ResolveError.ne_strayArgument herr)
    · exact passes_refused (by simp)
  case interface =>
    simp only [accept, leads_bind, leads_expectSection, leads_modify]
    split
    · exact .of_opened rfl (Option.some_ne_none _)
    · exact passes_refused (by simp)
  case parameterType | returnType | exceptionType => exact passes_refused (by simp)
  all_goals exact htype a p

theorem avoids_finish : Avoids ResolveError.OfEvent (finish res) := by
  refine avoids_get.bind fun a => ?_
  split
  · exact avoids_throw nofun
  · exact avoids_throw nofun
  · have hcommit : ∀ types, Avoids ResolveError.OfEvent
        (attempt (res.commitClass a.target types) : Assembly ClassAssembler Unit) := fun types =>
      avoids_attempt fun _ _ _ h => Resolution.not_ofEvent_commitClass h
    refine avoids_getRegistry.bind fun r => ?_
    dsimp only
    split
    · exact (avoids_set _).bind fun _ => (hcommit _).bind fun _ => avoids_modify _
    · exact (hcommit _).bind fun _ => avoids_modify _
  · exact avoids_throw nofun

/-- While a type is open, to finish is refused, at every section. -/
theorem leads_finish_of_open (hslot : a.slot ≠ none) :
    Leads (finish res) a p (fun _ _ _ => False) fun _ b q => b = a ∧ q = p := by
  simp only [finish, leads_bind, leads_get]
  split
  case h_1 | h_2 | h_4 => exact ⟨rfl, rfl⟩
  case h_3 hnone _ => exact absurd hnone hslot

theorem handsOver : HandsOver (move res) (·.slot) (·.type) where
  passes m := by
    cases m with
    | accept e => exact passing_accept res e
    | finish =>
      exact passing_of_avoids (fun a p => leads_finish res (fun _ _ _ _ _ _ => .alone rfl id)
        (fun _ _ => .alone rfl id) fun _ _ => .alone rfl id) (avoids_finish res)
  unfinished _ _ hslot := leads_finish_of_open res hslot

end ClassAssembler

/-! ### Methods -/

namespace MethodAssembler

variable (res : Resolution) {a : MethodAssembler} {p : Progress}

/-- Where a type is put, the type that is open is not touched. -/
theorem leaves_fill (t : TypeSig) (slot : MethodSlot) :
    Leaves (fun a => (a.slot, a.type)) (fill res t slot) := by
  cases slot with
  | bound kind =>
    rw [fill, onTypeParams]
    refine leaves_within ?_ _
    exact fun _ _ => rfl
  | param | result | throws =>
    exact leaves_get.bind fun _ => (leaves_attempt _).bind fun _ => leaves_modify fun _ => rfl

/-- Where a parameter or the result begins, the type is left alone. -/
theorem passing_openType (e : Event) (phase : MethodPhase) (slot : MethodSlot) :
    Passing (·.slot) (·.type) (.accept e) (openType res e phase slot) := by
  intro a p
  rw [leads_openType]
  split
  · split
    · refine (TypeParamSection.avoids_introduce res _ _ _).mono
        (fun _ _ _ _ => .of_opened rfl (Option.some_ne_none _))
        fun _ _ _ herr => ⟨.alone rfl id, ?_⟩
      exact fun h => absurd h (ResolveError.ne_strayArgument herr)
    · exact .of_opened rfl (Option.some_ne_none _)
  · exact passes_refused (by simp)

/-- **An event goes to the type that is open, or does not touch it.** -/
theorem passing_accept (e : Event) :
    Passing (·.slot) (·.type) (.accept e) (accept res e) := by
  have htype : Passing typePart.slot typePart.type (.accept e) (acceptTypeEvent res e) :=
    passing_acceptTypeEvent (leaves_fill res) (avoids_fill res) e
  intro a p
  cases e
  case formalTypeParameter name =>
    simp only [accept, leads_bind, leads_expectSection, onTypeParams, leads_within,
      TypeParamSection.leads_collect]
    split
    · split
      · exact passes_refused (by simp)
      · exact .alone rfl id
    · exact passes_refused (by simp)
  case classBound | interfaceBound =>
    simp only [accept, leads_openBound]
    split
    · exact .of_opened rfl (Option.some_ne_none _)
    · exact passes_refused (by simp)
  case parameterType | returnType => exact passing_openType res _ _ _ a p
  case exceptionType =>
    simp only [accept, leads_bind, leads_expectSection, leads_modify]
    split
    · exact .of_opened rfl (Option.some_ne_none _)
    · exact passes_refused (by simp)
  case superclass | interface => exact passes_refused (by simp)
  all_goals exact htype a p

theorem avoids_finish : Avoids ResolveError.OfEvent (finish res) := by
  refine avoids_get.bind fun a => ?_
  split
  · exact avoids_throw nofun
  · exact avoids_throw nofun
  · exact (avoids_attempt fun _ _ _ h => Resolution.not_ofEvent_commitMethod h).bind fun _ =>
      avoids_modify _
  · exact avoids_throw nofun

/-- While a type is open, to finish is refused, at every section. -/
theorem leads_finish_of_open (hslot : a.slot ≠ none) :
    Leads (finish res) a p (fun _ _ _ => False) fun _ b q => b = a ∧ q = p := by
  simp only [finish, leads_bind, leads_get]
  split
  case h_1 | h_2 | h_4 => exact ⟨rfl, rfl⟩
  case h_3 hnone _ => exact absurd hnone hslot

theorem handsOver : HandsOver (move res) (·.slot) (·.type) where
  passes m := by
    cases m with
    | accept e => exact passing_accept res e
    | finish =>
      exact passing_of_avoids (fun a p => leads_finish res (fun _ _ _ _ _ _ => .alone rfl id)
        fun _ _ => .alone rfl id) (avoids_finish res)
  unfinished _ _ hslot := leads_finish_of_open res hslot

end MethodAssembler

/-! ### Every assembler -/

/-- **Nothing is finished by halves.** Take a new assembler of any class or any method, whoever
answers its requests, and feed it any moves, whether they are refused or not. Where no type is
open, none is unfinished; of a type that is open, the unfinished parts are those that a loose
stack would hold, every announced argument lies directly on a class type, and every class type
has a segment, so that no argument is ever refused for want of a class type; and while a type is
open, to finish the declaration is refused, and nothing is done. -/
theorem Assembly.finishesWhole_start (res : Resolution) (scope : Scope) (p : Progress) :
    (∀ c : ClassId,
      FinishesWhole (ClassAssembler.move res) (·.slot) (·.type) (ClassAssembler.start c scope) p) ∧
    ∀ (r : Registry) (m : MethodId) (a : MethodAssembler),
      MethodAssembler.start r m scope = .ok a →
        FinishesWhole (MethodAssembler.move res) (·.slot) (·.type) a p := by
  refine ⟨fun c => (ClassAssembler.handsOver res).finishesWhole ⟨fun _ => rfl, rfl⟩ p,
    fun r m a ha => (MethodAssembler.handsOver res).finishesWhole ?_ p⟩
  unfold MethodAssembler.start at ha
  split at ha
  · cases ha
    exact ⟨fun _ => rfl, rfl⟩
  · cases ha

/-- In the result of a method, an array has no place inside a class type, and is lost when its
element comes; then it is fed again, as an argument. -/
theorem Assembly.finishesWhole_of_lost_array :
    let r := ((Registry.ofHeaders [{ name := "E", typeParams := ["X"] }, { name := "A" }]).addMethod
      ⟨1⟩ "m" ⟨[], some (.object "E")⟩ [] []).2
    let p : Progress := { workspace := { registry := r } }
    let step := MethodAssembler.move (Collaborator.silent.resolution {} r (.ofMethod ⟨0⟩))
    let a : MethodAssembler := { target := ⟨0⟩, typeParams := { scope := {} } }
    let ms := [Move.accept .returnType, .accept (.classType "E"), .accept .arrayType,
      .accept (.baseType .int), .finish, .accept (.typeArgument .exact)]
    let more := [Move.finish, .accept .arrayType, .accept (.baseType .int), .accept .close, .finish]
    let b := (reached step ms a p).1
    let q := (reached step ms a p).2
    MethodAssembler.start r ⟨0⟩ {} = .ok a ∧
      (feed step (ms ++ more) a p).1.map (·.1.isOk) =
        [true, true, true, false, false, true, false, true, true, true, true] ∧
      b.slot = some .result ∧ (∃ e, (step .finish).outcome b q = ((.error e, b), q)) ∧
      FinishesWhole step (·.slot) (·.type) a p := by
  intro r p step a ms more b q
  have hstart : MethodAssembler.start r ⟨0⟩ {} = .ok a := if_pos (by decide +kernel)
  have hwhole : FinishesWhole step (·.slot) (·.type) a p :=
    (finishesWhole_start _ {} p).2 r ⟨0⟩ a hstart
  have hslot : b.slot = some .result := by decide +kernel
  have hopen : b.slot ≠ none := hslot ▸ nofun
  exact ⟨hstart, by decide +kernel, hslot, hwhole.unfinished ms (.inl hopen), hwhole⟩

end JavaGenerics
