import JavaGenerics.Proofs.Assembling
import JavaGenerics.Proofs.Collecting
import JavaGenerics.Registry.Platform
import JavaGenerics.Resolution.Collaborator

/-!
# What a refused move leaves behind

Whoever feeds an assembler may go on after a refusal, so it matters what a refused move has
done. Most refusals come before anything is done: the event has no place where it is fed, the
type parameter has a name that is taken, or the signature is not complete or does not agree
with what the class file records. Such a move can be left out, and everything that comes
after is the same, the journal included (`JavaGenerics.Assembly.feed_without_refused`).

It is different where an event is taken and only its consequences fail. The event that ends
the type parameters gives them up before their bounds are resolved, and the event that
finishes a type gives up the place of the type before it is resolved. If the resolution then
fails, the rest of the signature goes another way than it would have gone without the event
(`JavaGenerics.ClassAssembler.feed_depends_on_refused`).
-/

namespace JavaGenerics

open Assembly Attempt

/-! ### Refusals that come first -/

/-- **The refusals that leave nothing behind.** -/
inductive Move.Forgets : Move → ResolveError → Prop where
  /-- The event has no place. -/
  | unexpected (event event' : Event) : Forgets (.accept event) (.malformed (.unexpected event'))
  | duplicate (event : Event) (name : String) :
      Forgets (.accept event) (.malformed (.duplicateTypeParam name))
  /-- There is more to come, or what there is disagrees with what is recorded. -/
  | finish {e : ResolveError} (registered : ∀ t, e ≠ .unknownDeclaration t) : Forgets .finish e

/-- The errors by which an event itself is refused, and not what it completes. -/
inductive ResolveError.OfEvent : ResolveError → Prop where
  | unexpected (event : Event) : OfEvent (.malformed (.unexpected event))
  | duplicate (name : String) : OfEvent (.malformed (.duplicateTypeParam name))
  | unmarkedArgument : OfEvent (.malformed .unmarkedArgument)
  | strayArgument : OfEvent (.malformed .strayArgument)

theorem Move.Forgets.ofEvent {event : Event} {e : ResolveError}
    (h : (Move.accept event).Forgets e) : e.OfEvent := by
  cases h with
  | unexpected event event' => exact .unexpected event'
  | duplicate event name => exact .duplicate name

theorem Position.complaint?_mem {position : Position} {t : TypeSig} {cause : Malformed}
    (h : position.complaint? t = some cause) :
    cause ∈ [.voidParam, .notReference, .notClassType] := by
  cases position <;> cases t <;> cases h <;> simp

/-- No event is refused for what a type fails by. -/
theorem ResolveError.OfType.not_ofEvent {e : ResolveError} (h : e.OfType) : ¬e.OfEvent := by
  rintro (_ | _ | _ | _) <;> obtain - | - | - | complaint := h <;>
    simpa using Position.complaint?_mem complaint

theorem withBound_refused {kind : BoundKind} {bound : TypeSig} {p : TypeParamSig}
    {e : ResolveError} (h : TypeParamSection.withBound kind bound p = .error e) : ¬e.OfEvent := by
  cases kind with
  | ofInterface => cases h
  | ofClass =>
    unfold TypeParamSection.withBound at h
    dsimp only at h
    split at h
    · cases h
    · cases h
      exact nofun

/-- An event of a type that is refused without a trace has changed nothing of the type. -/
theorem TypeAssembler.accept_forgets {a b : TypeAssembler} {event event' : Event}
    {e : ResolveError} (h : a.accept event = (.error e, b))
    (he : (Move.accept event').Forgets e) : b = a := by
  obtain ⟨-, rfl⟩ | rfl | rfl := accept_refused h
  · rfl
  · cases he
  · cases he

/-! ### Steps -/

namespace Assembly

variable {σ τ α β : Type} {E : ResolveError → Prop}

/-- A step that leaves everything as it is, whether it is refused or not. -/
def Looks (x : Assembly σ α) : Prop :=
  ∀ a p, Leads x a p (fun _ b q => b = a ∧ q = p) fun _ b q => b = a ∧ q = p

/-- A step that leaves everything as it is if it is refused with an error of `E`. -/
def Spares (E : ResolveError → Prop) (x : Assembly σ α) : Prop :=
  ∀ a p, Leads x a p (fun _ _ _ => True) fun e b q => E e → b = a ∧ q = p

/-- A step that is never refused with an error of `E`. -/
def Avoids (E : ResolveError → Prop) (x : Assembly σ α) : Prop :=
  ∀ a p, Leads x a p (fun _ _ _ => True) fun e _ _ => ¬E e

theorem looks_pure (r : α) : Looks (pure r : Assembly σ α) := fun _ _ => ⟨rfl, rfl⟩

theorem looks_throw (e : ResolveError) : Looks (throw e : Assembly σ α) := fun _ _ => ⟨rfl, rfl⟩

theorem looks_get : Looks (get : Assembly σ σ) := fun _ _ => ⟨rfl, rfl⟩

theorem Looks.bind {x : Assembly σ α} {f : α → Assembly σ β} (hx : Looks x)
    (hf : ∀ r, Looks (f r)) : Looks (x >>= f) := by
  intro a p
  rw [leads_bind]
  refine (hx a p).mono ?_ fun _ _ _ h => h
  rintro r _ _ ⟨rfl, rfl⟩
  exact hf r _ _

theorem Looks.spares {x : Assembly σ α} (hx : Looks x) : Spares E x := fun a p =>
  (hx a p).mono (fun _ _ _ _ => trivial) fun _ _ _ h _ => h

theorem Avoids.mono {E' : ResolveError → Prop} {x : Assembly σ α} (hx : Avoids E x)
    (h : ∀ e, E' e → E e) : Avoids E' x := fun a p =>
  Leads.mono (hx a p) (fun _ _ _ => id) fun e _ _ he he' => he (h e he')

theorem Avoids.spares {x : Assembly σ α} (hx : Avoids E x) : Spares E x := fun a p =>
  (hx a p).mono (fun _ _ _ => id) fun _ _ _ h he => absurd he h

/-- What follows a look is spared if it is by itself. -/
theorem Looks.spares_bind {x : Assembly σ α} {f : α → Assembly σ β} (hx : Looks x)
    (hf : ∀ r, Spares E (f r)) : Spares E (x >>= f) := by
  intro a p
  rw [leads_bind]
  refine (hx a p).mono ?_ fun _ _ _ h _ => h
  rintro r _ _ ⟨rfl, rfl⟩
  exact hf r _ _

theorem Avoids.bind {x : Assembly σ α} {f : α → Assembly σ β} (hx : Avoids E x)
    (hf : ∀ r, Avoids E (f r)) : Avoids E (x >>= f) := fun a p =>
  (leads_bind x f).2 ((hx a p).mono (fun r b q _ => hf r b q) fun _ _ _ h => h)

theorem avoids_get : Avoids E (get : Assembly σ σ) := fun _ _ => trivial

theorem avoids_set (b : σ) : Avoids E (set b : Assembly σ PUnit) := fun _ _ => trivial

theorem avoids_modify (f : σ → σ) : Avoids E (modify f : Assembly σ PUnit) := fun _ _ => trivial

theorem avoids_getRegistry : Avoids E (liftM Attempt.getRegistry : Assembly σ Registry) :=
  fun _ _ => trivial

theorem avoids_throw {e : ResolveError} (he : ¬E e) : Avoids E (throw e : Assembly σ α) :=
  fun _ _ => he

theorem avoids_ofExcept {v : Except ResolveError α} (hv : ∀ e, v = .error e → ¬E e) :
    Avoids E (ofExcept v : Assembly σ α) := fun _ _ =>
  (leads_ofExcept v).2 ⟨fun _ _ => trivial, hv⟩

theorem avoids_attempt {x : Attempt α} (hx : ∀ p e q, x.outcome p = (.error e, q) → ¬E e) :
    Avoids E (attempt x : Assembly σ α) := fun _ p =>
  (leads_attempt x).2 ⟨fun _ _ _ => trivial, hx p⟩

theorem Avoids.within {part : σ → τ} {replace : σ → τ → σ} {x : Assembly τ α} (hx : Avoids E x) :
    Avoids E (within part replace x) := fun a p =>
  (leads_within part replace x).2 (hx (part a) p)

/-- An event of a type that is refused without a trace has changed nothing of the type, if no
finished type is refused in this way where it is put. -/
theorem spares_acceptTypeEvent {γ : Type} {part : TypePart σ γ}
    {fill : TypeSig → γ → Assembly σ Unit}
    (hfill : ∀ t slot, Avoids ResolveError.OfEvent (fill t slot)) {event : Event} (e : Event) :
    Spares (Move.accept event).Forgets (acceptTypeEvent part fill e) := by
  intro a p
  rw [leads_acceptTypeEvent]
  split
  · exact fun _ => ⟨rfl, rfl⟩
  · split
    · rename_i hout
      intro hf
      obtain rfl := TypeAssembler.accept_forgets hout hf
      exact ⟨part.replace_self a, rfl⟩
    · trivial
    · exact (hfill _ _ _ p).mono (fun _ _ _ => id) fun _ _ _ h hf => absurd hf.ofEvent h

/-- A part that is put back as it was leaves the whole as it was. -/
theorem Spares.within {part : σ → τ} {replace : σ → τ → σ} (h : ∀ a, replace a (part a) = a)
    {x : Assembly τ α} (hx : Spares E x) : Spares E (within part replace x) := by
  intro a p
  refine (leads_within part replace x).2 ((hx (part a) p).mono (fun _ _ _ => id) ?_)
  intro e b q hb he
  obtain ⟨rfl, rfl⟩ := hb he
  exact ⟨h a, rfl⟩

end Assembly

/-! ### Type parameters -/

namespace TypeParamSection

variable {event : Event}

theorem spares_collect (name : String) :
    Spares (Move.accept event).Forgets (collect name) := by
  refine looks_get.spares_bind fun s => ?_
  dsimp only
  split
  · exact (looks_throw _).spares_bind fun _ => (avoids_set _).spares
  · exact (avoids_set _).spares

theorem avoids_collectBound (kind : BoundKind) (bound : TypeSig) :
    Avoids ResolveError.OfEvent (collectBound kind bound) := by
  refine avoids_get.bind fun s => ?_
  split
  · exact avoids_throw nofun
  · exact (avoids_ofExcept fun e he => withBound_refused he).bind fun _ => avoids_set _

theorem avoids_introduce (res : Resolution) (owner : Declarer) :
    Avoids ResolveError.OfEvent (introduce res owner) := by
  refine avoids_get.bind fun s => (avoids_modify _).bind fun _ => ?_
  refine avoids_getRegistry.bind fun r => ?_
  refine Avoids.bind (avoids_ofExcept fun e he => ?_) fun _ => ?_
  · unfold checkDeclared at he
    dsimp only at he
    split at he
    · cases he
    · cases he
      exact nofun
  · refine (avoids_modify _).bind fun _ => avoids_get.bind fun s => ?_
    exact (avoids_attempt fun _ _ _ h => (Resolution.ofType_resolveBounds h).not_ofEvent).bind
      fun _ => avoids_modify _

end TypeParamSection

/-! ### Classes -/

namespace ClassAssembler

variable (res : Resolution) {event : Event}

theorem looks_expectSection (e : Event) (phase : ClassPhase) : Looks (expectSection e phase) := by
  refine looks_get.bind fun a => ?_
  split
  · exact looks_throw _
  · exact looks_pure _

theorem spares_openBound (e : Event) (kind : BoundKind) :
    Spares (Move.accept event).Forgets (openBound e kind) := by
  refine (looks_expectSection _ _).spares_bind fun _ => looks_get.spares_bind fun a => ?_
  split
  · exact (looks_throw _).spares_bind fun _ => (avoids_modify _).spares
  · exact (avoids_modify _).spares

theorem avoids_fill (t : TypeSig) (slot : ClassSlot) :
    Avoids ResolveError.OfEvent (fill res t slot) := by
  cases slot with
  | bound kind =>
    rw [fill]
    exact (TypeParamSection.avoids_collectBound kind t).within
  | superclass | interface =>
    exact avoids_get.bind fun a => (avoids_attempt fun _ _ _ h =>
      (Resolution.ofType_resolveAt h).not_ofEvent).bind fun _ => avoids_modify _

theorem spares_accept (e : Event) : Spares (Move.accept event).Forgets (accept res e) := by
  cases e
  case formalTypeParameter name =>
    exact (looks_expectSection _ _).spares_bind fun _ =>
      (TypeParamSection.spares_collect name).within fun _ => rfl
  case classBound => exact spares_openBound _ _
  case interfaceBound => exact spares_openBound _ _
  case superclass =>
    refine (looks_expectSection _ _).spares_bind fun _ => (avoids_get.bind fun a => ?_).spares
    exact ((TypeParamSection.avoids_introduce res _).mono fun _ => Move.Forgets.ofEvent).within.bind
      fun _ => avoids_modify _
  case interface =>
    exact (looks_expectSection _ _).spares_bind fun _ => (avoids_modify _).spares
  case parameterType | returnType | exceptionType => exact (looks_throw _).spares
  all_goals exact spares_acceptTypeEvent (avoids_fill res) _

theorem spares_finish : Spares Move.finish.Forgets (finish res) := by
  intro a p
  refine leads_finish res (fun _ _ _ _ _ _ => trivial) (fun _ _ _ => ⟨rfl, rfl⟩) fun _ _ hf => ?_
  cases hf with
  | finish registered => exact absurd rfl (registered _)

/-- **What a class assembler refuses in this way leaves nothing behind.** -/
theorem spares_move (m : Move) : Spares m.Forgets (move res m) := by
  cases m with
  | accept event => exact spares_accept res event
  | finish => exact spares_finish res

end ClassAssembler

/-! ### Methods -/

namespace MethodAssembler

variable (res : Resolution) {event : Event}

theorem looks_expectSection (e : Event) (phases : List MethodPhase) :
    Looks (expectSection e phases) := by
  refine looks_get.bind fun a => ?_
  split
  · exact looks_throw _
  · exact looks_pure _

theorem spares_openBound (e : Event) (kind : BoundKind) :
    Spares (Move.accept event).Forgets (openBound e kind) := by
  refine (looks_expectSection _ _).spares_bind fun _ => looks_get.spares_bind fun a => ?_
  split
  · exact (looks_throw _).spares_bind fun _ => (avoids_modify _).spares
  · exact (avoids_modify _).spares

theorem spares_openType (e : Event) (phase : MethodPhase) (slot : MethodSlot) :
    Spares (Move.accept event).Forgets (openType res e phase slot) := by
  refine (looks_expectSection _ _).spares_bind fun _ => (avoids_get.bind fun a => ?_).spares
  split
  · exact ((TypeParamSection.avoids_introduce res _).mono fun _ => Move.Forgets.ofEvent).within.bind
      fun _ => avoids_modify _
  · exact avoids_modify _

theorem avoids_fill (t : TypeSig) (slot : MethodSlot) :
    Avoids ResolveError.OfEvent (fill res t slot) := by
  cases slot with
  | bound kind =>
    rw [fill]
    exact (TypeParamSection.avoids_collectBound kind t).within
  | param | throws =>
    exact avoids_get.bind fun a => (avoids_attempt fun _ _ _ h =>
      (Resolution.ofType_resolveAt h).not_ofEvent).bind fun _ => avoids_modify _
  | result =>
    exact avoids_get.bind fun a => (avoids_attempt fun _ _ _ h =>
      (Resolution.ofType_resolve h).not_ofEvent).bind fun _ => avoids_modify _

theorem spares_accept (e : Event) : Spares (Move.accept event).Forgets (accept res e) := by
  cases e
  case formalTypeParameter name =>
    exact (looks_expectSection _ _).spares_bind fun _ =>
      (TypeParamSection.spares_collect name).within fun _ => rfl
  case classBound => exact spares_openBound _ _
  case interfaceBound => exact spares_openBound _ _
  case parameterType => exact spares_openType res _ _ _
  case returnType => exact spares_openType res _ _ _
  case exceptionType =>
    exact (looks_expectSection _ _).spares_bind fun _ => (avoids_modify _).spares
  case superclass | interface => exact (looks_throw _).spares
  all_goals exact spares_acceptTypeEvent (avoids_fill res) _

theorem spares_finish : Spares Move.finish.Forgets (finish res) := by
  intro a p
  simp only [finish, leads_bind, leads_get]
  split
  · exact fun _ => ⟨rfl, rfl⟩
  · exact fun _ => ⟨rfl, rfl⟩
  · simp only [leads_bind, leads_attempt, leads_modify]
    exact ⟨fun _ _ _ => trivial, fun e q h _ => ⟨trivial, (Resolution.commitMethod_refused h).1⟩⟩
  · exact fun _ => ⟨rfl, rfl⟩

/-- **What a method assembler refuses in this way leaves nothing behind.** -/
theorem spares_move (m : Move) : Spares m.Forgets (move res m) := by
  cases m with
  | accept event => exact spares_accept res event
  | finish => exact spares_finish res

end MethodAssembler

/-! ### Feeds -/

namespace Assembly

variable {σ : Type} {step : Move → Assembly σ Unit}

/-- A move that leaves nothing behind may be left out of a feed. -/
theorem Spares.feed_eraseIdx {m : Move} (hm : Spares m.Forgets (step m)) {e : ResolveError}
    (he : m.Forgets e) (before after : List Move) (a : σ) (p : Progress)
    (h : ((feed step (before ++ m :: after) a p).1[before.length]?).map (·.1) = some (.error e)) :
    feed step (before ++ after) a p =
      ((feed step (before ++ m :: after) a p).1.eraseIdx before.length,
        (feed step (before ++ m :: after) a p).2) := by
  induction before generalizing a p with
  | nil =>
    have hleft := hm a p
    simp only [List.nil_append, feed_cons] at h ⊢
    unfold Leads at hleft
    rcases hout : (step m).outcome a p with ⟨⟨e' | r, b⟩, q⟩ <;> rw [hout] at h hleft
    · cases h
      obtain ⟨rfl, rfl⟩ := hleft he
      rfl
    · cases h
  | cons m' before ih =>
    simp only [List.cons_append, feed_cons] at h ⊢
    rw [ih _ _ h]
    rfl

/-- **A refused move may be left out**, if it is refused before anything is done: the outcomes
of all other moves are the same without it, and so is what is left in the end. -/
theorem feed_without_refused (res : Resolution) {m : Move} {e : ResolveError} (hm : m.Forgets e)
    (before after : List Move) (p : Progress) :
    (∀ a : ClassAssembler,
      let out := feed (ClassAssembler.move res) (before ++ m :: after) a p
      out.1[before.length]?.map (·.1) = some (.error e) →
        feed (ClassAssembler.move res) (before ++ after) a p
          = (out.1.eraseIdx before.length, out.2)) ∧
    ∀ a : MethodAssembler,
      let out := feed (MethodAssembler.move res) (before ++ m :: after) a p
      out.1[before.length]?.map (·.1) = some (.error e) →
        feed (MethodAssembler.move res) (before ++ after) a p
          = (out.1.eraseIdx before.length, out.2) :=
  ⟨fun a => (ClassAssembler.spares_move res m).feed_eraseIdx hm before after a p,
    fun a => (MethodAssembler.spares_move res m).feed_eraseIdx hm before after a p⟩

/-- A type parameter is declared twice, of a class and of a method, and then gets a bound. -/
theorem feed_without_duplicate :
    let w : Workspace := { registry := .ofHeaders [{ name := "A" }] }
    let res := Collaborator.silent.resolution {} w.registry (.ofClass ⟨0⟩)
    let before := [Move.accept (.formalTypeParameter "T")]
    let after := [Move.accept .interfaceBound, .accept (.typeVariable "T"), .finish]
    let m := Move.accept (.formalTypeParameter "T")
    let a := ClassAssembler.start ⟨0⟩ {}
    let a' : MethodAssembler := { target := ⟨0⟩, typeParams := { scope := {} } }
    let out := feed (ClassAssembler.move res) (before ++ m :: after) a ⟨w, []⟩
    let out' := feed (MethodAssembler.move res) (before ++ m :: after) a' ⟨w, []⟩
    out.1.map (·.1.isOk) = [true, false, true, true, false] ∧
      feed (ClassAssembler.move res) (before ++ after) a ⟨w, []⟩ = (out.1.eraseIdx 1, out.2) ∧
      out'.1.map (·.1.isOk) = [true, false, true, true, false] ∧
      feed (MethodAssembler.move res) (before ++ after) a' ⟨w, []⟩
        = (out'.1.eraseIdx 1, out'.2) := by
  intro w res before after m a a' out out'
  obtain ⟨hclass, hmethod⟩ := feed_without_refused res
    (.duplicate (.formalTypeParameter "T") "T") before after ⟨w, []⟩
  exact ⟨by decide +kernel, hclass a (by decide +kernel), by decide +kernel,
    hmethod a' (by decide +kernel)⟩

end Assembly

/-- Here the first event for the superclass ends the type parameters and is refused, since a
bound mentions `X`. The second one is then accepted, because no bound is left, and the class
is resolved without type parameters. Had the first one never been fed, the second would be
refused, and the class stay unresolved. -/
theorem ClassAssembler.feed_depends_on_refused :
    let w : Workspace := { registry := .ofHeaders [{ name := "O" }, { name := "A" }] }
    let res := Collaborator.silent.resolution {} w.registry (.ofClass ⟨1⟩)
    let before := [Event.formalTypeParameter "T", .interfaceBound, .typeVariable "X"].map .accept
    let after := [Event.superclass, .classType "O", .close].map .accept ++ [Move.finish]
    let out := feed (move res) (before ++ .accept .superclass :: after) (start ⟨1⟩ {}) ⟨w, []⟩
    let without := feed (move res) (before ++ after) (start ⟨1⟩ {}) ⟨w, []⟩
    out.1.map (·.1.isOk) = [true, true, true, false, true, true, true, true] ∧
      without.1.map (·.1.isOk) = [true, true, true, false, false, false, false] ∧
      out.2.workspace.registry.stage? (.ofClass ⟨1⟩) = some .resolved ∧
      without.2.workspace.registry.stage? (.ofClass ⟨1⟩) = some .unresolved := by
  decide +kernel

end JavaGenerics
