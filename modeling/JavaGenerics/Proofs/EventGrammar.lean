import JavaGenerics.Proofs.Assembling
import JavaGenerics.Proofs.Forms
import JavaGenerics.Proofs.Grammatical
import JavaGenerics.Registry.Platform
import JavaGenerics.Resolution.Collaborator

/-!
# The grammar of events

An assembler takes any events in any order, and looks at each of them only as far as its place
goes: whether a section may begin here, whether a type is open, whether the type that is
complete has the form that its place asks for. There is no grammar of events that it would
follow. Yet where nothing is refused and the declaration is finished, the events are those of
a signature, and the signature has the forms of the grammar
(`JavaGenerics.ClassAssembler.exists_classSig_of_accepted`,
`JavaGenerics.MethodAssembler.exists_methodSig_of_accepted`).

The invariant is that no event is lost. The parts of a type that are unfinished are the events
of this type so far (`JavaGenerics.TypeAssembler.accept_keeps`), and with what came before
them, they are all the events that were fed. What came before need not be kept by the
assembler: it has long gone on from the symbolic types to resolved ones, and that these could
be resolved is the evidence that the forms are right.

Of the exceptions of a method, the assembler asks less than the grammar does: it takes arrays
for them (`JavaGenerics.MethodAssembler.feed_array_exception`). This is the only difference.
-/

namespace JavaGenerics

open Assembly Attempt

/-! ### Signatures with forms -/

/-- A class signature with the forms of the grammar, whatever the names are. -/
structure ClassSig.HasForm (s : ClassSig) : Prop where
  bounds : ∀ p ∈ s.typeParams, ∀ t ∈ p.bounds, t.ReferenceForm
  superclass : s.superclass.ClassForm
  interfaces : ∀ t ∈ s.interfaces, t.ClassForm

/-- A method signature with the forms of the grammar, except that its exceptions are
`Thrown`. -/
structure MethodSig.HasForm (Thrown : TypeSig → Prop) (s : MethodSig) : Prop where
  bounds : ∀ p ∈ s.typeParams, ∀ t ∈ p.bounds, t.ReferenceForm
  params : ∀ t ∈ s.params, t.ValueForm
  result : s.result.ResultForm
  throws : ∀ t ∈ s.throws, Thrown t

/-- If an exception is an array, two of the events tell so. -/
theorem MethodSig.array_exception {s : MethodSig} {elem : TypeSig} (h : .array elem ∈ s.throws) :
    [.exceptionType, .arrayType] <:+: s.events := by
  obtain ⟨before, after, hthrows⟩ := List.append_of_mem h
  rw [MethodSig.events, hthrows, List.flatMap_append, List.flatMap_cons]
  simp only [TypeSig.events, List.append_assoc, List.cons_append]
  exact ((List.prefix_append [_, _] _).isInfix.trans (List.suffix_append _ _).isInfix).trans
    (((List.suffix_append _ _).trans (List.suffix_cons _ _)).trans
      ((List.suffix_append _ _).trans (List.suffix_append _ _))).isInfix

/-- Arrays apart, reference types are what may be thrown. -/
theorem MethodSig.HasForm.thrown {s : MethodSig} (h : s.HasForm TypeSig.ReferenceForm)
    (hes : ¬[.exceptionType, .arrayType] <:+: s.events) : s.HasForm TypeSig.ThrownForm := by
  refine ⟨h.bounds, h.params, h.result, fun t ht => (h.throws t ht).thrown ?_⟩
  rintro elem rfl
  exact hes (array_exception ht)

/-! ### The events of an unfinished type -/

theorem TypeArg.allEvents_append (as bs : List TypeArg) :
    allEvents (as ++ bs) = allEvents as ++ allEvents bs := by
  induction as with
  | nil => rfl
  | cons a as ih => simp [allEvents, ih]

theorem Segment.innerEvents_append (ss ts : List Segment) :
    innerEvents (ss ++ ts) = innerEvents ss ++ innerEvents ts := by
  induction ss with
  | nil => rfl
  | cons s ss ih => simp [innerEvents, ih]

theorem Segment.eventsFrom_withArg (opening : String → Event) (s : Segment) (arg : TypeArg) :
    (s.withArg arg).eventsFrom opening = s.eventsFrom opening ++ arg.events := by
  obtain ⟨name, args⟩ := s
  simp [withArg, Segment.name, Segment.args, eventsFrom, TypeArg.allEvents_append,
    TypeArg.allEvents]

namespace Frame

/-- The events that have led to an unfinished part. -/
def events : Frame → List Event
  | array => [.arrayType]
  | ofClass outer inner => outer.eventsFrom .classType ++ Segment.innerEvents inner
  | argument variance => [.typeArgument variance]

@[simp] theorem events_array : array.events = [.arrayType] := rfl

@[simp] theorem events_ofClass (outer : Segment) (inner : List Segment) :
    (ofClass outer inner).events = outer.eventsFrom .classType ++ Segment.innerEvents inner := rfl

@[simp] theorem events_argument (variance : Variance) :
    (argument variance).events = [.typeArgument variance] := rfl

theorem events_ofClassWithArg (outer : Segment) (inner : List Segment) (arg : TypeArg) :
    (ofClassWithArg outer inner arg).events = (ofClass outer inner).events ++ arg.events := by
  rcases List.eq_nil_or_concat inner with rfl | ⟨inner, last, rfl⟩
  · simp [ofClassWithArg, Segment.eventsFrom_withArg, Segment.innerEvents]
  · simp [ofClassWithArg, Segment.innerEvents_append, Segment.innerEvents,
      Segment.eventsFrom_withArg]

end Frame

namespace TypeAssembler

/-- The events that have led to the unfinished parts of a type. -/
def events (a : TypeAssembler) : List Event := a.frames.reverse.flatMap Frame.events

@[simp] theorem events_nil : events ⟨[]⟩ = [] := rfl

@[simp] theorem events_cons (frame : Frame) (frames : List Frame) :
    events ⟨frame :: frames⟩ = events ⟨frames⟩ ++ frame.events := by
  simp [events]

/-- None of the events `es` is lost: they are those of the type that is finished, or those of
the unfinished parts. -/
def Keeps (es : List Event) : Outcome → Prop
  | (.ok none, b) => b.events = es
  | (.ok (some t), b) => t.events = es ∧ b.events = []
  | (.error _, _) => True

theorem settle_keeps (t : TypeSig) (frames : List Frame) :
    Keeps (events ⟨frames⟩ ++ t.events) (settle t frames) := by
  fun_induction settle t frames with
  | case1 t => exact ⟨rfl, rfl⟩
  | case2 t frames ih =>
    -- the array marker comes directly before the element, so the array is complete as well
    rw [events_cons, List.append_assoc]
    exact ih
  | case3 t v outer inner frames =>
    change events _ = _
    simp [Frame.events_ofClassWithArg, TypeArg.events]
  | case4 => trivial
  | case5 => trivial

/-- **No event of a type is lost.** -/
theorem accept_keeps (a : TypeAssembler) (e : Event) : Keeps (a.events ++ [e]) (a.accept e) := by
  obtain ⟨frames⟩ := a
  unfold accept
  split
  case h_1 _ _ b => exact settle_keeps (.base b) frames
  case h_2 => exact settle_keeps .void frames
  case h_3 _ _ name => exact settle_keeps (.var name) frames
  case h_4 => exact events_cons .array frames
  case h_5 _ _ name => exact events_cons (.ofClass (.mk name []) []) frames
  case h_6 _ _ name outer inner frames h =>
    cases h
    change events _ = _
    simp [Segment.innerEvents_append, Segment.innerEvents, Segment.eventsFrom, TypeArg.allEvents]
  case h_7 _ _ v outer inner frames h =>
    cases h
    exact events_cons (.argument v) (.ofClass outer inner :: frames)
  case h_8 _ _ outer inner frames h =>
    cases h
    change events _ = _
    rw [events_cons, Frame.events_ofClassWithArg, events_cons, List.append_assoc]
    rfl
  case h_9 _ _ outer inner frames h =>
    cases h
    -- the closing event completes the class type, which then settles as any other type
    have hkept := settle_keeps (.ofClass outer inner) frames
    rw [TypeSig.events, ← List.append_assoc] at hkept
    rw [events_cons]
    exact hkept
  case h_10 => trivial

end TypeAssembler

/-! ### The events of the type parameters -/

/-- The event that opens a bound. -/
def BoundKind.event : BoundKind → Event
  | .ofClass => .classBound
  | .ofInterface => .interfaceBound

namespace TypeParamSection

variable {s : TypeParamSection} {p : Progress}

/-- The events that have led to the type parameters collected so far. -/
def events (s : TypeParamSection) : List Event := s.pending.flatMap TypeParamSig.events

/-- A bound comes last of all that is known of its type parameter: a class bound is the first
bound, and the interface bounds are in order. -/
theorem events_withBound {kind : BoundKind} {t : TypeSig} {tp tp' : TypeParamSig}
    (h : withBound kind t tp = .ok tp') : tp'.events = tp.events ++ kind.event :: t.events := by
  obtain ⟨name, classBound, interfaceBounds⟩ := tp
  cases kind with
  | ofInterface =>
    cases h
    simp [TypeParamSig.events, BoundKind.event]
  | ofClass =>
    unfold withBound at h
    dsimp only at h
    split at h
    case isFalse => cases h
    case isTrue hnone =>
      cases h
      simp only [TypeParamSig.bounds, List.isEmpty_iff, List.append_eq_nil_iff,
        Option.toList_eq_nil_iff] at hnone
      obtain ⟨rfl, rfl⟩ := hnone
      simp [TypeParamSig.events, BoundKind.event]

theorem leads_collect_events (name : String) :
    Leads (collect name) s p (fun _ s' _ => s'.events = s.events ++ [.formalTypeParameter name])
      fun _ _ _ => True := by
  rw [leads_collect]
  split
  · trivial
  · simp [events, TypeParamSig.events]

theorem leads_collectBound_events (kind : BoundKind) (t : TypeSig) :
    Leads (collectBound kind t) s p
      (fun _ s' _ => s'.events = s.events ++ kind.event :: t.events) fun _ _ _ => True := by
  rw [leads_collectBound]
  split
  case h_1 => trivial
  case h_2 last hlast =>
    split
    case h_1 => trivial
    case h_2 last' hbound =>
      have hsplit : s.pending = s.pending.dropLast ++ [last] :=
        (List.dropLast_append_getLast? last hlast).symm
      rw [events, events, List.flatMap_append, List.flatMap_singleton, events_withBound hbound,
        ← List.append_assoc]
      conv_rhs => rw [hsplit, List.flatMap_append, List.flatMap_singleton]

/-- The type parameters that come into force have reference types as bounds. -/
theorem leads_introduce_forms (res : Resolution) (owner : Declarer) :
    Leads (introduce res owner) s p
      (fun _ _ _ => ∀ tp ∈ s.pending, ∀ t ∈ tp.bounds, t.ReferenceForm) fun _ _ _ => True := by
  rw [leads_introduce]
  dsimp only
  split
  · trivial
  · split
    · trivial
    · rename_i hout
      exact Resolution.needs_bounds owner 0 s.pending _ _ _ hout

end TypeParamSection

/-! ### Events of a type -/

/-- An event of a type goes to the type that is open, whose events it joins. -/
theorem Assembly.leads_acceptTypeEvent_events {σ γ : Type} {part : TypePart σ γ}
    {fill : TypeSig → γ → Assembly σ Unit} {a : σ} {p : Progress}
    {Q : Unit → σ → Progress → Prop} {e : Event} {slot : γ} (hslot : part.slot a = some slot)
    (unfinished : ∀ type, type.events = (part.type a).events ++ [e] →
      Q () (part.replace a (some slot) type) p)
    (complete : ∀ t type, t.events = (part.type a).events ++ [e] → type.events = [] →
      Leads (fill t slot) (part.replace a none type) p Q fun _ _ _ => True) :
    Leads (acceptTypeEvent part fill e) a p Q fun _ _ _ => True := by
  rw [leads_acceptTypeEvent, hslot]
  have hkeeps := (part.type a).accept_keeps e
  rcases hout : (part.type a).accept e with ⟨_ | _ | t, type⟩ <;> rw [hout] at hkeeps
  · trivial
  · exact unfinished type hkeeps
  · exact complete t type hkeeps.1 hkeeps.2

/-! ### Feeds without a refusal -/

/-- **What is said of the events that were fed**, by induction on them: if every event that is
accepted keeps `I`, then the last of some moves, none of which is refused, is made with `I`. -/
theorem Assembly.feed_accepted {σ : Type} {step : Move → Assembly σ Unit}
    {I : List Event → σ → Prop}
    (hstep : ∀ es e a p, I es a →
      Leads (step (.accept e)) a p (fun _ b _ => I (es ++ [e]) b) fun _ _ _ => True)
    (last : Move) (before es : List Event) {a : σ} {p : Progress} (ha : I before a)
    (hok : ∀ o ∈ (feed step (es.map .accept ++ [last]) a p).1, o.1 = .ok ()) :
    ∃ b q, I (before ++ es) b ∧ ((step last).outcome b q).1.1 = .ok () := by
  induction es generalizing before a p with
  | nil =>
    rw [List.append_nil]
    exact ⟨a, p, ha, hok _ List.mem_cons_self⟩
  | cons e es ih =>
    rw [List.map_cons, List.cons_append, feed_cons] at hok
    obtain ⟨hfirst, hrest⟩ := List.forall_mem_cons.1 hok
    obtain ⟨b, q, hb, hlast⟩ := ih (before ++ [e]) ((hstep before e a p ha).of_ok hfirst) hrest
    rw [List.append_assoc] at hb
    exact ⟨b, q, hb, hlast⟩

/-! ### Classes -/

namespace ClassAssembler

variable {res : Resolution} {a : ClassAssembler} {p : Progress} {es : List Event}

/-- **The assembler `a` follows the events `es`**: they are those of the sections that it has
left behind, whose forms are right, and those of what it is about. -/
inductive Follows (a : ClassAssembler) (es : List Event) : Prop where
  | typeParams (phase : a.phase = .typeParams) (slot : a.slot = none) (type : a.type.events = [])
      (events : a.params.events = es)
  | bound (phase : a.phase = .typeParams) (kind : BoundKind) (slot : a.slot = some (.bound kind))
      (events : a.params.events ++ kind.event :: a.type.events = es)
  | superclass (phase : a.phase = .superclass) (slot : a.slot = some .superclass)
      (tps : List TypeParamSig) (bounds : ∀ tp ∈ tps, ∀ t ∈ tp.bounds, t.ReferenceForm)
      (events : tps.flatMap TypeParamSig.events ++ .superclass :: a.type.events = es)
  | interfaces (phase : a.phase = .interfaces) (slot : a.slot = none) (type : a.type.events = [])
      (sig : ClassSig) (form : sig.HasForm) (events : sig.events = es)
  | interface (phase : a.phase = .interfaces) (slot : a.slot = some .interface)
      (sig : ClassSig) (form : sig.HasForm)
      (events : sig.events ++ .interface :: a.type.events = es)

/-- Between two types, no events of a type are left. -/
theorem Follows.type_events (h : Follows a es) (hslot : a.slot = none) : a.type.events = [] := by
  cases h with
  | typeParams _ _ type | interfaces _ _ type => exact type
  | bound _ _ slot | superclass _ slot | interface _ slot => cases hslot.symm.trans slot

theorem Follows.of_typeParams (h : Follows a es) (hphase : a.phase = .typeParams)
    (hslot : a.slot = none) : a.params.events = es := by
  cases h with
  | typeParams _ _ _ events => exact events
  | bound _ _ slot => cases hslot.symm.trans slot
  | superclass phase | interfaces phase | interface phase => cases hphase.symm.trans phase

/-- Behind the superclass, the events so far are those of a signature. -/
theorem Follows.of_interfaces (h : Follows a es) (hphase : a.phase = .interfaces)
    (hslot : a.slot = none) : ∃ sig : ClassSig, sig.events = es ∧ sig.HasForm := by
  cases h with
  | interfaces _ _ _ sig form events => exact ⟨sig, events, form⟩
  | interface _ slot => cases hslot.symm.trans slot
  | typeParams phase | bound phase | superclass phase => cases hphase.symm.trans phase

theorem leads_acceptTypeEvent_of_follows (h : Follows a es) (e : Event) :
    Leads (acceptTypeEvent res e) a p (fun _ b _ => Follows b (es ++ [e])) fun _ _ _ => True := by
  cases h with
  | typeParams _ slot | interfaces _ slot =>
    rw [acceptTypeEvent, leads_acceptTypeEvent, show typePart.slot a = none from slot]
    trivial
  | bound phase kind slot events =>
    subst events
    refine leads_acceptTypeEvent_events slot (fun type htype => .bound phase kind rfl ?_)
      fun t type ht htype => ?_
    · simp [htype]
    · rw [fill, onParams, leads_within]
      refine (TypeParamSection.leads_collectBound_events kind t).mono (fun _ s _ hs => ?_)
        fun _ _ _ => id
      exact .typeParams phase rfl htype (by simp [hs, ht])
  | superclass phase slot tps bounds events =>
    subst events
    refine leads_acceptTypeEvent_events slot (fun type htype => .superclass phase rfl tps bounds ?_)
      fun t type ht htype => ?_
    · simp [htype]
    · simp only [fill, leads_bind, leads_get, leads_attempt, leads_modify]
      refine ⟨fun u q hout => ?_, fun _ _ _ => trivial⟩
      refine .interfaces rfl rfl htype ⟨tps, t, []⟩ ⟨bounds, ?_, nofun⟩ ?_
      · exact Resolution.needs_classType t _ _ _ hout
      · simp [ClassSig.events, ht]
  | interface phase slot sig form events =>
    subst events
    refine leads_acceptTypeEvent_events slot (fun type htype => .interface phase rfl sig form ?_)
      fun t type ht htype => ?_
    · simp [htype]
    · simp only [fill, leads_bind, leads_get, leads_attempt, leads_modify]
      refine ⟨fun u q hout => ?_, fun _ _ _ => trivial⟩
      refine .interfaces phase rfl htype { sig with interfaces := sig.interfaces ++ [t] } ?_ ?_
      · exact ⟨form.bounds, form.superclass, List.forall_mem_append.2
          ⟨form.interfaces, List.forall_mem_singleton.2 (Resolution.needs_classType t _ _ _ hout)⟩⟩
      · simp [ClassSig.events, ht]

/-- **Every event that is accepted is followed.** -/
theorem leads_accept_of_follows (h : Follows a es) (e : Event) :
    Leads (accept res e) a p (fun _ b _ => Follows b (es ++ [e])) fun _ _ _ => True := by
  have htype : Leads (acceptTypeEvent res e) a p (fun _ b _ => Follows b (es ++ [e]))
      fun _ _ _ => True := leads_acceptTypeEvent_of_follows h e
  cases e
  case formalTypeParameter name =>
    simp only [accept, leads_bind, leads_expectSection, onParams, leads_within]
    split
    case isFalse => trivial
    case isTrue hat =>
      refine (TypeParamSection.leads_collect_events name).mono (fun _ s _ hs => ?_)
        fun _ _ _ => id
      exact .typeParams hat.1 hat.2 (h.type_events hat.2) (by rw [hs, h.of_typeParams hat.1 hat.2])
  case classBound | interfaceBound =>
    simp only [accept, leads_openBound]
    split
    case isFalse => trivial
    case isTrue hat =>
      obtain ⟨⟨hphase, hslot⟩, -⟩ := hat
      refine .bound hphase _ rfl ?_
      rw [h.type_events hslot, h.of_typeParams hphase hslot]
      rfl
  case superclass =>
    simp only [accept, leads_bind, leads_expectSection]
    split
    case isFalse => trivial
    case isTrue hat =>
      simp only [leads_get, onParams, leads_within, leads_modify]
      refine (TypeParamSection.leads_introduce_forms res _).mono (fun _ s _ hforms => ?_)
        fun _ _ _ => id
      -- the section gives up what it has collected, and the invariant takes it over
      refine .superclass rfl rfl a.params.pending hforms ?_
      rw [h.type_events hat.2, ← h.of_typeParams hat.1 hat.2]
      rfl
  case interface =>
    simp only [accept, leads_bind, leads_expectSection, leads_modify]
    split
    case isFalse => trivial
    case isTrue hat =>
      obtain ⟨sig, hsig, hform⟩ := h.of_interfaces hat.1 hat.2
      refine .interface hat.1 rfl sig hform ?_
      rw [h.type_events hat.2, hsig]
  case parameterType | returnType | exceptionType => trivial
  all_goals exact htype

/-- **Only the events of a signature are accepted for a class.** Let the events `es` be fed to
a new assembler and all be accepted, and let it be finished then. Then `es` are the events of
a class signature with the forms of the grammar – in whatever state of the registry, whoever
answers the requests, and whatever the names are. -/
theorem exists_classSig_of_accepted (res : Resolution) (c : ClassId) (scope : Scope) (p : Progress)
    (es : List Event) :
    let out := feed (move res) (es.map .accept ++ [.finish]) (start c scope) p
    (∀ o ∈ out.1, o.1 = .ok ()) → ∃ sig : ClassSig, sig.events = es ∧ sig.HasForm := by
  intro out hok
  obtain ⟨a, q, ha, hfinish⟩ := feed_accepted (I := fun es a => Follows a es)
    (fun _ e _ _ h => leads_accept_of_follows h e) .finish [] es
    (.typeParams rfl rfl rfl rfl) hok
  have hcomplete : a.phase = .interfaces ∧ a.slot = none := by
    have hleads : Leads (finish res) a q (fun _ _ _ => a.phase = .interfaces ∧ a.slot = none)
        fun _ _ _ => True :=
      leads_finish res (fun _ _ hphase hslot _ _ => ⟨hphase, hslot⟩) (fun _ _ => trivial)
        fun _ _ => trivial
    exact hleads.of_ok hfinish
  exact ha.of_interfaces hcomplete.1 hcomplete.2

/-- A class with a bound, the member class of a parameterized class as its superclass, and an
interface whose argument is a wildcard. -/
theorem exists_classSig_of_member :
    let p : Progress := { workspace := { registry := .ofHeaders [
      { name := "Outer", typeParams := ["U"] }, { name := "Outer$Inner", enclosing := some ⟨0⟩ },
      { name := "Box", typeParams := ["E"] }, { name := "A" }] } }
    let res := Collaborator.silent.resolution {} p.workspace.registry (.ofClass ⟨3⟩)
    let es := [Event.formalTypeParameter "T", .classBound, .classType "Box", .typeArgument .exact,
      .typeVariable "T", .close, .interfaceBound, .classType "Outer", .close,
      .superclass, .classType "Outer", .typeArgument .exact, .arrayType, .baseType .int,
      .innerClassType "Inner", .close,
      .interface, .classType "Box", .typeArgument .upper, .typeVariable "T", .close]
    let out := feed (move res) (es.map .accept ++ [.finish]) (start ⟨3⟩ {}) p
    (∀ o ∈ out.1, o.1 = .ok ()) ∧ ∃ sig : ClassSig, sig.events = es ∧ sig.HasForm :=
  have haccepted := by decide +kernel
  ⟨haccepted, exists_classSig_of_accepted _ ⟨3⟩ {} _ _ haccepted⟩

end ClassAssembler

/-! ### Methods -/

namespace MethodAssembler

variable {res : Resolution} {a : MethodAssembler} {p : Progress} {es : List Event}

/-- What comes before the result of a method, with the forms of the grammar. -/
structure Head where
  typeParams : List TypeParamSig
  params : List TypeSig
  bounds : ∀ tp ∈ typeParams, ∀ t ∈ tp.bounds, t.ReferenceForm
  values : ∀ t ∈ params, t.ValueForm

/-- The events of the type parameters and of the parameters. -/
def Head.events (head : Head) : List Event :=
  head.typeParams.flatMap TypeParamSig.events ++
    head.params.flatMap fun t => .parameterType :: t.events

/-- **The assembler `a` follows the events `es`**: they are those of the sections that it has
left behind, whose forms are right, and those of what it is about. -/
inductive Follows (a : MethodAssembler) (es : List Event) : Prop where
  | typeParams (phase : a.phase = .typeParams) (slot : a.slot = none) (type : a.type.events = [])
      (events : a.typeParams.events = es)
  | bound (phase : a.phase = .typeParams) (kind : BoundKind) (slot : a.slot = some (.bound kind))
      (events : a.typeParams.events ++ kind.event :: a.type.events = es)
  | params (phase : a.phase = .params) (slot : a.slot = none) (type : a.type.events = [])
      (head : Head) (events : head.events = es)
  | param (phase : a.phase = .params) (slot : a.slot = some .param)
      (head : Head) (events : head.events ++ .parameterType :: a.type.events = es)
  | result (phase : a.phase = .result) (slot : a.slot = some .result)
      (head : Head) (events : head.events ++ .returnType :: a.type.events = es)
  | throws (phase : a.phase = .throws) (slot : a.slot = none) (type : a.type.events = [])
      (sig : MethodSig) (form : sig.HasForm TypeSig.ReferenceForm) (events : sig.events = es)
  | exception (phase : a.phase = .throws) (slot : a.slot = some .throws)
      (sig : MethodSig) (form : sig.HasForm TypeSig.ReferenceForm)
      (events : sig.events ++ .exceptionType :: a.type.events = es)

/-- Between two types, no events of a type are left. -/
theorem Follows.type_events (h : Follows a es) (hslot : a.slot = none) : a.type.events = [] := by
  cases h with
  | typeParams _ _ type | params _ _ type | throws _ _ type => exact type
  | bound _ _ slot | param _ slot | result _ slot | exception _ slot =>
    cases hslot.symm.trans slot

theorem Follows.of_typeParams (h : Follows a es) (hphase : a.phase = .typeParams)
    (hslot : a.slot = none) : a.typeParams.events = es := by
  cases h with
  | typeParams _ _ _ events => exact events
  | bound _ _ slot => cases hslot.symm.trans slot
  | params phase | param phase | result phase | throws phase | exception phase =>
    cases hphase.symm.trans phase

theorem Follows.of_params (h : Follows a es) (hphase : a.phase = .params)
    (hslot : a.slot = none) : ∃ head : Head, head.events = es := by
  cases h with
  | params _ _ _ head events => exact ⟨head, events⟩
  | param _ slot => cases hslot.symm.trans slot
  | typeParams phase | bound phase | result phase | throws phase | exception phase =>
    cases hphase.symm.trans phase

/-- Behind the result, the events so far are those of a signature. -/
theorem Follows.of_throws (h : Follows a es) (hphase : a.phase = .throws) (hslot : a.slot = none) :
    ∃ sig : MethodSig, sig.events = es ∧ sig.HasForm TypeSig.ReferenceForm := by
  cases h with
  | throws _ _ _ sig form events => exact ⟨sig, events, form⟩
  | exception _ slot => cases hslot.symm.trans slot
  | typeParams phase | bound phase | params phase | param phase | result phase =>
    cases hphase.symm.trans phase

theorem leads_acceptTypeEvent_of_follows (h : Follows a es) (e : Event) :
    Leads (acceptTypeEvent res e) a p (fun _ b _ => Follows b (es ++ [e])) fun _ _ _ => True := by
  cases h with
  | typeParams _ slot | params _ slot | throws _ slot =>
    rw [acceptTypeEvent, leads_acceptTypeEvent, show typePart.slot a = none from slot]
    trivial
  | bound phase kind slot events =>
    subst events
    refine leads_acceptTypeEvent_events slot (fun type htype => .bound phase kind rfl ?_)
      fun t type ht htype => ?_
    · simp [htype]
    · rw [fill, onTypeParams, leads_within]
      refine (TypeParamSection.leads_collectBound_events kind t).mono (fun _ s _ hs => ?_)
        fun _ _ _ => id
      exact .typeParams phase rfl htype (by simp [hs, ht])
  | param phase slot head events =>
    subst events
    refine leads_acceptTypeEvent_events slot (fun type htype => .param phase rfl head ?_)
      fun t type ht htype => ?_
    · simp [htype]
    · simp only [fill, leads_bind, leads_get, leads_attempt, leads_modify]
      refine ⟨fun u q hout => ?_, fun _ _ _ => trivial⟩
      have hvalues : ∀ u ∈ head.params ++ [t], u.ValueForm := List.forall_mem_append.2
        ⟨head.values, List.forall_mem_singleton.2 (Resolution.needs_param t _ _ _ hout)⟩
      refine .params phase rfl htype ⟨head.typeParams, _, head.bounds, hvalues⟩ ?_
      simp [Head.events, ht]
  | result phase slot head events =>
    subst events
    refine leads_acceptTypeEvent_events slot (fun type htype => .result phase rfl head ?_)
      fun t type ht htype => ?_
    · simp [htype]
    · simp only [fill, leads_bind, leads_get, leads_attempt, leads_modify]
      refine ⟨fun u q hout => ?_, fun _ _ _ => trivial⟩
      refine .throws rfl rfl htype ⟨head.typeParams, head.params, t, []⟩ ?_ ?_
      · exact ⟨head.bounds, head.values, Resolution.needs_type t _ _ _ hout, List.forall_mem_nil _⟩
      · simp [MethodSig.events, Head.events, ht]
  | exception phase slot sig form events =>
    subst events
    refine leads_acceptTypeEvent_events slot (fun type htype => .exception phase rfl sig form ?_)
      fun t type ht htype => ?_
    · simp [htype]
    · simp only [fill, leads_bind, leads_get, leads_attempt, leads_modify]
      refine ⟨fun u q hout => ?_, fun _ _ _ => trivial⟩
      refine .throws phase rfl htype { sig with throws := sig.throws ++ [t] } ?_ ?_
      · exact ⟨form.bounds, form.params, form.result, List.forall_mem_append.2
          ⟨form.throws, List.forall_mem_singleton.2 (Resolution.needs_reference t _ _ _ hout)⟩⟩
      · simp [MethodSig.events, ht]

/-- **Where a parameter or the result begins**, the events so far are those of a head. -/
theorem leads_openType_of_follows (h : Follows a es) {e : Event} {phase : MethodPhase}
    {slot : MethodSlot}
    (opened : ∀ (b : MethodAssembler) (head : Head), b.phase = phase → b.slot = some slot →
      b.type.events = [] → head.events = es → Follows b (es ++ [e])) :
    Leads (openType res e phase slot) a p (fun _ b _ => Follows b (es ++ [e]))
      fun _ _ _ => True := by
  rw [leads_openType]
  split
  case isFalse => trivial
  case isTrue hat =>
    obtain ⟨hsection, hslot⟩ := hat
    split
    case isTrue hphase =>
      refine (TypeParamSection.leads_introduce_forms res _).mono (fun _ s _ hforms => ?_)
        fun _ _ _ => id
      refine opened _ ⟨a.typeParams.pending, [], hforms, nofun⟩ rfl rfl (h.type_events hslot) ?_
      rw [← h.of_typeParams hphase hslot]
      exact List.append_nil _
    case isFalse hphase =>
      have hparams : a.phase = .params := by simpa [hphase] using hsection
      obtain ⟨head, hhead⟩ := h.of_params hparams hslot
      exact opened _ head rfl rfl (h.type_events hslot) hhead

/-- **Every event that is accepted is followed.** -/
theorem leads_accept_of_follows (h : Follows a es) (e : Event) :
    Leads (accept res e) a p (fun _ b _ => Follows b (es ++ [e])) fun _ _ _ => True := by
  have htype : Leads (acceptTypeEvent res e) a p (fun _ b _ => Follows b (es ++ [e]))
      fun _ _ _ => True := leads_acceptTypeEvent_of_follows h e
  cases e
  case formalTypeParameter name =>
    simp only [accept, leads_bind, leads_expectSection, onTypeParams, leads_within,
      List.mem_singleton]
    split
    case isFalse => trivial
    case isTrue hat =>
      refine (TypeParamSection.leads_collect_events name).mono (fun _ s _ hs => ?_)
        fun _ _ _ => id
      exact .typeParams hat.1 hat.2 (h.type_events hat.2) (by rw [hs, h.of_typeParams hat.1 hat.2])
  case classBound | interfaceBound =>
    simp only [accept, leads_openBound]
    split
    case isFalse => trivial
    case isTrue hat =>
      obtain ⟨⟨hphase, hslot⟩, -⟩ := hat
      refine .bound hphase _ rfl ?_
      rw [h.type_events hslot, h.of_typeParams hphase hslot]
      rfl
  case parameterType =>
    refine leads_openType_of_follows h fun b head hphase hslot htype hhead => ?_
    exact .param hphase hslot head (by rw [htype, hhead])
  case returnType =>
    refine leads_openType_of_follows h fun b head hphase hslot htype hhead => ?_
    exact .result hphase hslot head (by rw [htype, hhead])
  case exceptionType =>
    simp only [accept, leads_bind, leads_expectSection, leads_modify, List.mem_singleton]
    split
    case isFalse => trivial
    case isTrue hat =>
      obtain ⟨sig, hsig, hform⟩ := h.of_throws hat.1 hat.2
      refine .exception hat.1 rfl sig hform ?_
      rw [h.type_events hat.2, hsig]
  case superclass | interface => trivial
  all_goals exact htype

/-- **Only the events of a signature are accepted for a method**, if no exception begins as an
array. Let the events `es` be fed to a new assembler and all be accepted, and let it be
finished then. Then `es` are the events of a method signature with the forms of the grammar,
except that there may be arrays among the exceptions; and if no event that announces an
exception is followed by an array marker, there are none. -/
theorem exists_methodSig_of_accepted (res : Resolution) (r : Registry) (m : MethodId)
    (scope : Scope)
    (a : MethodAssembler) (ha : start r m scope = .ok a) (p : Progress) (es : List Event) :
    let out := feed (move res) (es.map .accept ++ [.finish]) a p
    (∀ o ∈ out.1, o.1 = .ok ()) →
      ∃ sig : MethodSig, sig.events = es ∧ sig.HasForm TypeSig.ReferenceForm ∧
        (¬[.exceptionType, .arrayType] <:+: es → sig.HasForm TypeSig.ThrownForm) := by
  intro out hok
  have hstart : Follows a [] := by
    unfold start at ha
    split at ha
    · cases ha
      exact .typeParams rfl rfl rfl rfl
    · cases ha
  obtain ⟨b, q, hb, hfinish⟩ := feed_accepted (I := fun es a => Follows a es)
    (fun _ e _ _ h => leads_accept_of_follows h e) .finish [] es hstart hok
  have hcomplete : b.phase = .throws ∧ b.slot = none := by
    have hleads : Leads (finish res) b q (fun _ _ _ => b.phase = .throws ∧ b.slot = none)
        fun _ _ _ => True :=
      leads_finish res (fun _ _ hphase hslot _ _ => ⟨hphase, hslot⟩) fun _ _ => trivial
    exact hleads.of_ok hfinish
  obtain ⟨sig, rfl, hform⟩ := hb.of_throws hcomplete.1 hcomplete.2
  exact ⟨sig, rfl, hform, hform.thrown⟩

/-- A method with a type parameter, an array as its parameter, and exceptions that are a class
and a type variable. -/
theorem exists_methodSig_of_thrown :
    let r := ((Registry.ofHeaders [{ name := "E" }, { name := "A" }]).addMethod ⟨1⟩ "m"
      ⟨[.array (.base .int)], none⟩ [] []).2
    let p : Progress := { workspace := { registry := r } }
    let res := Collaborator.silent.resolution {} r (.ofMethod ⟨0⟩)
    let a : MethodAssembler := { target := ⟨0⟩, typeParams := { scope := {} } }
    let es := [Event.formalTypeParameter "T", .classBound, .classType "E", .close,
      .parameterType, .arrayType, .baseType .int, .returnType, .voidType,
      .exceptionType, .classType "E", .close, .exceptionType, .typeVariable "T"]
    let out := feed (move res) (es.map .accept ++ [.finish]) a p
    start r ⟨0⟩ {} = .ok a ∧ (∀ o ∈ out.1, o.1 = .ok ()) ∧
      ¬[.exceptionType, .arrayType] <:+: es ∧
      ∃ sig : MethodSig, sig.events = es ∧ sig.HasForm TypeSig.ThrownForm := by
  intro r p res a es out
  have hstart : start r ⟨0⟩ {} = .ok a := if_pos (by decide +kernel)
  have haccepted : ∀ o ∈ out.1, o.1 = .ok () := by decide +kernel
  have hinfix : ¬[.exceptionType, .arrayType] <:+: es := by decide
  obtain ⟨sig, hsig, -, hform⟩ := exists_methodSig_of_accepted res r ⟨0⟩ {} a hstart p es haccepted
  exact ⟨hstart, haccepted, hinfix, sig, hsig, hform hinfix⟩

/-- An array of `int` is accepted as an exception, and the method is resolved with it. -/
theorem feed_array_exception :
    let r := ((Registry.ofHeaders [{ name := "A" }]).addMethod ⟨0⟩ "m" ⟨[], none⟩ [] []).2
    let p : Progress := { workspace := { registry := r } }
    let res := Collaborator.silent.resolution {} r (.ofMethod ⟨0⟩)
    let a : MethodAssembler := { target := ⟨0⟩, typeParams := { scope := {} } }
    let es := [Event.returnType, .voidType, .exceptionType, .arrayType, .baseType .int]
    let out := feed (move res) (es.map .accept ++ [.finish]) a p
    start r ⟨0⟩ {} = .ok a ∧ (∀ o ∈ out.1, o.1 = .ok ()) ∧
      out.2.workspace.registry.stage? (.ofMethod ⟨0⟩) = some .resolved ∧
      ¬∃ sig : MethodSig, sig.events = es ∧ sig.HasForm TypeSig.ThrownForm := by
  refine ⟨if_pos (by decide +kernel), by decide +kernel, by decide +kernel, ?_⟩
  rintro ⟨sig, hsig, hform⟩
  -- there is only one signature with these events
  obtain rfl : sig = ⟨[], [], .void, [.array (.base .int)]⟩ := MethodSig.events_injective hsig
  cases hform.throws _ List.mem_cons_self with
  | ofClass h => cases h

end MethodAssembler

end JavaGenerics
