import JavaGenerics.Proofs.TypeFeeding

/-!
# The stack of an unfinished type

What a `JavaGenerics.TypeAssembler` has not finished lies on a stack, and what is finished goes
into the part on top. That there is something for it to go into is not a matter of course: a
type that was announced as an argument needs a class type right below the announcement, and an
argument needs a segment of that class type. The assembler keeps the outermost segment of a
class type apart, so it cannot even say that one is missing.

Here the stack is kept loosely instead. In a `JavaGenerics.LooseStack` an open class type has a
list of segments, which may be empty, and whoever comes upon a part that is missing refuses. It
turns out that nobody ever does. Whatever events are fed, and however many of them are refused,
every part stays where it fits (`JavaGenerics.LooseStack.sound_feed`), because what is taken
off the stack before a refusal is taken off from the top. And with all parts in place, the loose
stack does what the assembler does, event by event (`JavaGenerics.TypeAssembler.feed_stack`).
-/

namespace JavaGenerics

/-! ### A stack that is kept loosely -/

/-- An unfinished part of a type, as a loose stack keeps it: an open class type has any
segments, or none. -/
inductive LoosePart where
  | array
  | ofClass (segments : List Segment)
  | argument (variance : Variance)

/-- Unfinished parts of a type, innermost first. -/
abbrev LooseStack := List LoosePart

/-- Segments, the last of which has one more argument; there has to be one. -/
def Segment.addArg? (arg : TypeArg) (segments : List Segment) : Option (List Segment) :=
  segments.getLast?.map fun last => segments.dropLast ++ [last.withArg arg]

theorem Segment.addArg?_ne_nil {arg : TypeArg} {segments segments' : List Segment}
    (h : addArg? arg segments = some segments') : segments' ≠ [] := by
  obtain ⟨last, -, rfl⟩ := Option.map_eq_some_iff.1 h
  exact List.concat_ne_nil _ _

theorem Segment.addArg?_eq_none {arg : TypeArg} {segments : List Segment} :
    addArg? arg segments = none ↔ segments = [] := by
  rw [addArg?, Option.map_eq_none_iff, List.getLast?_eq_none_iff]

/-- The class type of some segments. Without any there is no such type, and it is taken to be
`nothing`. -/
def TypeSig.ofSegments (nothing : TypeSig) : List Segment → TypeSig
  | [] => nothing
  | outer :: inner => .ofClass outer inner

namespace LooseStack

/-- What an event leads to: the finished type, if it was the last event of one, or a refusal,
and the stack afterwards. -/
abbrev Outcome := Except ResolveError (Option TypeSig) × LooseStack

/-- Puts a finished type into the part that waits for it. -/
def settle (t : TypeSig) : LooseStack → Outcome
  | [] => (.ok (some t), [])
  | .array :: s => settle (.array t) s
  | .argument v :: .ofClass segments :: s =>
    match Segment.addArg? (.bounded v t) segments with
    | some segments => (.ok none, .ofClass segments :: s)
    | none => (.error (.malformed .strayArgument), .ofClass segments :: s)
  | .argument _ :: s => (.error (.malformed .strayArgument), s)
  | .ofClass segments :: s => (.error (.malformed .unmarkedArgument), .ofClass segments :: s)

variable (nothing : TypeSig)

/-- Takes the next event of a type. -/
def accept (s : LooseStack) (e : Event) : Outcome :=
  match e, s with
  | .baseType b, s => settle (.base b) s
  | .voidType, s => settle .void s
  | .typeVariable name, s => settle (.var name) s
  | .arrayType, s => (.ok none, .array :: s)
  | .classType name, s => (.ok none, .ofClass [.mk name []] :: s)
  | .innerClassType name, .ofClass segments :: s =>
    (.ok none, .ofClass (segments ++ [.mk name []]) :: s)
  | .typeArgument v, .ofClass segments :: s => (.ok none, .argument v :: .ofClass segments :: s)
  | .unboundedTypeArgument, .ofClass segments :: s =>
    match Segment.addArg? .unbounded segments with
    | some segments => (.ok none, .ofClass segments :: s)
    | none => (.error (.malformed (.unexpected .unboundedTypeArgument)), .ofClass segments :: s)
  | .close, .ofClass segments :: s => settle (.ofSegments nothing segments) s
  | e, s => (.error (.malformed (.unexpected e)), s)

/-- Takes all events in order, whether they are refused or not, and lists what each of them
leads to; with what is unfinished in the end. -/
def feed : List Event → LooseStack → List (Except ResolveError (Option TypeSig)) × LooseStack
  | [], s => ([], s)
  | e :: es, s =>
    let rest := feed es (accept nothing s e).2
    ((accept nothing s e).1 :: rest.1, rest.2)

end LooseStack

/-! ### Every part has its place -/

/-- A part that is where it can be finished: a class type with a segment, and an announced
argument directly on a class type. -/
def LoosePart.FitsOn (below : LooseStack) : LoosePart → Prop
  | array => True
  | ofClass segments => segments ≠ []
  | argument _ => ∃ segments rest, below = .ofClass segments :: rest

namespace LooseStack

/-- **A stack in which every part fits on what lies below it.** -/
def Sound (s : LooseStack) : Prop := ∀ part below, part :: below <:+ s → part.FitsOn below

variable {s : LooseStack} {nothing : TypeSig}

theorem sound_nil : Sound [] := fun _ _ h => absurd (List.suffix_nil.1 h) (List.cons_ne_nil _ _)

theorem sound_cons_iff {part : LoosePart} : Sound (part :: s) ↔ part.FitsOn s ∧ Sound s := by
  constructor
  · exact fun h => ⟨h part s List.suffix_rfl, fun part' below hs =>
      h part' below (hs.trans (List.suffix_cons part s))⟩
  · rintro ⟨hfits, h⟩ part' below hs
    rcases List.suffix_cons_iff.1 hs with heq | hs
    · cases heq
      exact hfits
    · exact h part' below hs

theorem settle_argument {t : TypeSig} {v : Variance} {segments segments' : List Segment}
    (h : Segment.addArg? (.bounded v t) segments = some segments') :
    settle t (.argument v :: .ofClass segments :: s) = (.ok none, .ofClass segments' :: s) := by
  simp only [settle, h]

theorem accept_unboundedTypeArgument {segments segments' : List Segment}
    (h : Segment.addArg? .unbounded segments = some segments') :
    accept nothing (.ofClass segments :: s) .unboundedTypeArgument =
      (.ok none, .ofClass segments' :: s) := by
  simp only [accept, h]

/-- What an outcome has to observe: the parts are in their places, and no argument has been
found without the class type that it is for. -/
def Outcome.Sound (o : Outcome) : Prop :=
  LooseStack.Sound o.2 ∧ o.1 ≠ .error (.malformed .strayArgument)

/-- **A type that is finished settles soundly**, also where it has no place and the arrays
around it are lost. -/
theorem sound_settle (t : TypeSig) (h : Sound s) : (settle t s).Sound := by
  fun_induction settle t s with
  | case1 t => exact ⟨sound_nil, nofun⟩
  | case2 t s ih => exact ih (sound_cons_iff.1 h).2
  | case3 t v segments s segments' hadd =>
    have hrest := (sound_cons_iff.1 (sound_cons_iff.1 h).2).2
    exact ⟨sound_cons_iff.2 ⟨Segment.addArg?_ne_nil hadd, hrest⟩, nofun⟩
  | case4 t v segments s hadd =>
    have hsegments : segments ≠ [] := (sound_cons_iff.1 (sound_cons_iff.1 h).2).1
    exact absurd (Segment.addArg?_eq_none.1 hadd) hsegments
  | case5 t v s hs =>
    -- `hs` says that no class type is below the argument
    obtain ⟨segments, rest, rfl⟩ := (sound_cons_iff.1 h).1
    exact absurd rfl (hs segments rest)
  | case6 t segments s => exact ⟨h, nofun⟩

/-- **An event keeps the parts in their places**, whether it is refused or not. -/
theorem sound_accept (nothing : TypeSig) (h : Sound s) (e : Event) :
    (accept nothing s e).Sound := by
  unfold accept
  split
  case h_1 | h_2 | h_3 => exact sound_settle _ h
  case h_4 => exact ⟨sound_cons_iff.2 ⟨trivial, h⟩, nofun⟩
  case h_5 => exact ⟨sound_cons_iff.2 ⟨List.cons_ne_nil _ _, h⟩, nofun⟩
  case h_6 => exact ⟨sound_cons_iff.2 ⟨List.concat_ne_nil _ _, (sound_cons_iff.1 h).2⟩, nofun⟩
  case h_7 segments rest => exact ⟨sound_cons_iff.2 ⟨⟨segments, rest, rfl⟩, h⟩, nofun⟩
  case h_8 =>
    split
    case h_1 hadd =>
      have hrest := (sound_cons_iff.1 h).2
      exact ⟨sound_cons_iff.2 ⟨Segment.addArg?_ne_nil hadd, hrest⟩, nofun⟩
    case h_2 => exact ⟨h, nofun⟩
  case h_9 => exact sound_settle _ (sound_cons_iff.1 h).2
  case h_10 => exact ⟨h, nofun⟩

/-- **Whatever is fed, the parts stay in their places**, and no argument is ever found without
the class type that it is for. -/
theorem sound_feed (es : List Event) (h : Sound s) :
    Sound (feed nothing es s).2 ∧
      ∀ result ∈ (feed nothing es s).1, result ≠ .error (.malformed .strayArgument) := by
  induction es generalizing s with
  | nil => exact ⟨h, nofun⟩
  | cons e es ih =>
    obtain ⟨hsound, hresult⟩ := sound_accept nothing h e
    obtain ⟨hend, hresults⟩ := ih hsound
    exact ⟨hend, List.forall_mem_cons.2 ⟨hresult, hresults⟩⟩

end LooseStack

/-! ### The stack of an assembler -/

/-- A part that an assembler has not finished, on a loose stack. -/
def Frame.loose : Frame → LoosePart
  | array => .array
  | ofClass outer inner => .ofClass (outer :: inner)
  | argument variance => .argument variance

/-- An argument goes to the same segment. -/
theorem Frame.addArg?_cons (outer : Segment) (inner : List Segment) (arg : TypeArg) :
    ∃ segments, Segment.addArg? arg (outer :: inner) = some segments ∧
      (Frame.ofClassWithArg outer inner arg).loose = .ofClass segments := by
  rcases List.eq_nil_or_concat' inner with rfl | ⟨before, last, rfl⟩
  · exact ⟨[outer.withArg arg], rfl, rfl⟩
  · refine ⟨outer :: before ++ [last.withArg arg], ?_, ?_⟩
    · rw [← List.cons_append, Segment.addArg?, List.getLast?_concat, List.dropLast_concat]
      rfl
    · rw [TypeAssembler.ofClassWithArg_concat]
      rfl

namespace TypeAssembler

variable {nothing : TypeSig}

/-- What an assembler has not finished, as a loose stack. -/
def stack (a : TypeAssembler) : LooseStack := a.frames.map Frame.loose

theorem stack_eq_nil {a : TypeAssembler} : a.stack = [] ↔ a.frames = [] := List.map_eq_nil_iff

/-- What an outcome is on a loose stack. -/
def Outcome.loose (o : Outcome) : LooseStack.Outcome := (o.1, o.2.stack)

theorem Outcome.loose_cons (result : Except ResolveError (Option TypeSig)) (frame : Frame)
    (frames : List Frame) :
    Outcome.loose (result, ⟨frame :: frames⟩) = (result, frame.loose :: frames.map Frame.loose) :=
  rfl

theorem settle_stack (t : TypeSig) (frames : List Frame) :
    LooseStack.settle t (frames.map Frame.loose) = (settle t frames).loose := by
  fun_induction settle t frames with
  | case1 t => rfl
  | case2 t frames ih => exact ih
  | case3 t v outer inner frames =>
    obtain ⟨segments, hadd, hloose⟩ := Frame.addArg?_cons outer inner (.bounded v t)
    rw [Outcome.loose_cons, hloose]
    exact LooseStack.settle_argument hadd
  | case4 t v frames h =>
    rcases frames with _ | ⟨_ | _ | _, frames⟩
    · rfl
    · rfl
    · exact absurd rfl (h _ _ _)
    · rfl
  | case5 t outer inner frames => rfl

/-- **An event does on the loose stack what it does to the assembler.** -/
theorem accept_stack (a : TypeAssembler) (e : Event) :
    LooseStack.accept nothing a.stack e = (a.accept e).loose := by
  obtain ⟨frames⟩ := a
  cases e
  case baseType b => exact settle_stack (.base b) frames
  case voidType => exact settle_stack .void frames
  case typeVariable name => exact settle_stack (.var name) frames
  case innerClassType | typeArgument => rcases frames with _ | ⟨_ | _ | _, frames⟩ <;> rfl
  case unboundedTypeArgument =>
    rcases frames with _ | ⟨_ | ⟨outer, inner⟩ | _, frames⟩
    · rfl
    · rfl
    · obtain ⟨segments, hadd, hloose⟩ := Frame.addArg?_cons outer inner .unbounded
      change _ = Outcome.loose (.ok none, ⟨.ofClassWithArg outer inner .unbounded :: frames⟩)
      rw [Outcome.loose_cons, hloose]
      exact LooseStack.accept_unboundedTypeArgument hadd
    · rfl
  case close =>
    rcases frames with _ | ⟨_ | ⟨outer, inner⟩ | _, frames⟩
    · rfl
    · rfl
    · exact settle_stack (.ofClass outer inner) frames
    · rfl
  all_goals rfl

/-- **A loose stack takes the same events as the assembler, and gives the same types**, along
any feed. -/
theorem feed_stack (es : List Event) (a : TypeAssembler) :
    LooseStack.feed nothing es a.stack = ((feed es a).1, (feed es a).2.stack) := by
  induction es generalizing a with
  | nil => rfl
  | cons e es ih =>
    rw [LooseStack.feed, accept_stack]
    dsimp only [Outcome.loose]
    rw [ih]
    rfl

theorem feed_concat_snd (es : List Event) (e : Event) (a : TypeAssembler) :
    (feed (es ++ [e]) a).2 = ((feed es a).2.accept e).2 := by
  induction es generalizing a with
  | nil => rfl
  | cons e' es ih => exact ih _

/-- A type is complete when nothing is left unfinished. -/
theorem settle_complete {t u : TypeSig} {frames : List Frame} {b : TypeAssembler}
    (h : settle t frames = (.ok (some u), b)) : b.frames = [] := by
  fun_induction settle t frames with
  | case1 t =>
    cases h
    rfl
  | case2 t frames ih => exact ih h
  | case3 | case4 | case5 => cases h

theorem accept_complete {a b : TypeAssembler} {e : Event} {t : TypeSig}
    (h : a.accept e = (.ok (some t), b)) : b.frames = [] := by
  unfold accept at h
  split at h
  case h_1 | h_2 | h_3 | h_9 => exact settle_complete h
  all_goals cases h

end TypeAssembler

end JavaGenerics
