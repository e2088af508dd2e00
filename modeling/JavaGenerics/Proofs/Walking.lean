import JavaGenerics.Proofs.Reading
import JavaGenerics.Signature.Walk

/-!
# The walk over a text

A text can be walked over without building the tree that it describes. This file proves that
it makes no difference: what is pushed on the way are the events of the tree that would have been
read, and a text is rejected for the same reason and at the same place.

The proof goes through the readers side by side. A walker *tells* what a reader reads
(`JavaGenerics.Walker.Tells`) if it takes the same characters and pushes what the result is told
by; and a walker that is put together as a reader is tells what that reads, by the rules below.
-/

namespace JavaGenerics

namespace Walker

variable {α β γ δ : Type}

/-! ### What a walker tells -/

/-- **A walker tells what a reader reads**: it ends as the reader does, at the same place, and
comes to `out a` where the reader comes to `a`, with these events pushed; `before` have been pushed
already. -/
def Tells (y : Walker β) (before : List Event) (x : Reader Stop α) (out : α → β × List Event) :
    Prop :=
  ∀ es cs, y (es ++ before) cs =
    (fun r : α × List Char => (((out r.1).1, es ++ (out r.1).2), r.2)) <$> x cs

variable {before : List Event} {out : α → β × List Event}

theorem tells_pure {a : α} {b : β} (h : out a = (b, before)) :
    Tells (pure b) before (pure a) out := by
  intro es cs
  change Except.ok (((b, es ++ before), cs) : (β × List Event) × List Char) =
    .ok (((out a).1, es ++ (out a).2), cs)
  rw [h]

theorem tells_stop (fault : Fault) : Tells (stop fault) before (Grammar.stop fault) out :=
  fun _ _ => rfl

theorem Tells.bind {y : Walker γ} {k : γ → Walker β} {x : Reader Stop δ} {f : δ → Reader Stop α}
    {out' : δ → γ × List Event} (hy : Tells y [] x out')
    (h : ∀ d, Tells (k (out' d).1) (before ++ (out' d).2) (f d) out) :
    Tells (y >>= k) before (x >>= f) out := by
  intro es cs
  have hfirst := hy (es ++ before) cs
  rw [List.append_nil] at hfirst
  change (y (es ++ before) cs >>= fun r => k r.1.1 r.1.2 r.2) = _ <$> (x cs >>= fun r => f r.1 r.2)
  rw [hfirst]
  rcases x cs with s | ⟨d, rest⟩
  · rfl
  · have hrest := h d es rest
    rw [← List.append_assoc] at hrest
    exact hrest

theorem Tells.read {k : γ → Walker β} {x : Reader Stop γ} {f : γ → Reader Stop α}
    (h : ∀ c, Tells (k c) before (f c) out) : Tells (quietly x >>= k) before (x >>= f) out := by
  intro es cs
  change ((fun r : γ × List Char => ((r.1, es ++ before), r.2)) <$> x cs >>=
    fun r => k r.1.1 r.1.2 r.2) = _ <$> (x cs >>= fun r => f r.1 r.2)
  rcases x cs with s | ⟨c, rest⟩
  · rfl
  · exact h c es rest

theorem Tells.push {e : Event} {k : Unit → Walker β} {x : Reader Stop α}
    (h : Tells (k ()) (before ++ [e]) x out) : Tells (push e >>= k) before x out := by
  intro es cs
  have hrest := h es cs
  rw [← List.append_assoc] at hrest
  exact hrest

/-- The result may be wrapped up, and counts as told by the same events. -/
theorem Tells.map {y : Walker β} {x : Reader Stop δ} {g : δ → α}
    (h : Tells y before x fun d => out (g d)) : Tells y before (g <$> x) out := by
  intro es cs
  rw [h es cs]
  change _ = _ <$> ((fun r : δ × List Char => (g r.1, r.2)) <$> x cs)
  rcases x cs with s | ⟨d, rest⟩ <;> rfl

/-- What is told behind other events. -/
theorem Tells.behind {y : Walker β} {x : Reader Stop α} {out' : α → β × List Event}
    (h : Tells y [] x out') (hout : ∀ a, out a = ((out' a).1, before ++ (out' a).2)) :
    Tells y before x out := by
  intro es cs
  have hy := h (es ++ before) cs
  rw [List.append_nil] at hy
  rw [hy]
  simp only [hout, List.append_assoc]

/-- A walker tells what a reader reads by the events `told`. -/
abbrev TellsAs (y : Walker Unit) (x : Reader Stop α) (told : α → List Event) : Prop :=
  Tells y [] x fun a => ((), told a)

/-- A walker tells of one round of a repetition, and whether there is a further one. -/
abbrev TellsNext (y : Walker Bool) (x : Reader Stop (Option α)) (told : α → List Event) : Prop :=
  Tells y [] x fun o => (o.isSome, o.elim [] told)

/-- What ends with a walk, when the tree is put together. -/
theorem Tells.finish {y : Walker β} {x : Reader Stop δ} {g : δ → α} {out' : δ → β × List Event}
    (h : Tells y [] x out') (hout : ∀ d, out (g d) = ((out' d).1, before ++ (out' d).2)) :
    Tells y before (x >>= fun d => pure (g d)) out := by
  rw [← map_eq_pure_bind]
  exact (h.behind hout).map

/-- One thing of those that a repetition is about, behind its announcement. -/
theorem TellsAs.next {y : Walker Unit} {x : Reader Stop α} {told told' : α → List Event}
    (h : TellsAs y x told) (htold : ∀ a, told' a = before ++ told a) :
    Tells (y >>= fun _ => pure true) before (some <$> x) fun o => (o.isSome, o.elim [] told') := by
  rw [map_eq_pure_bind]
  exact h.bind fun a => tells_pure (by simp [htold])

/-- **A repetition is told round by round.** -/
theorem TellsNext.many {step : Walker Bool} {x : Reader Stop (Option α)} {told : α → List Event}
    (h : TellsNext step x told) :
    TellsAs (Walker.many step) (Reader.many x) fun as => as.flatMap told := by
  intro es cs
  rw [List.append_nil]
  unfold Walker.many Reader.many
  induction hn : cs.length using Nat.strong_induction_on generalizing es cs with
  | _ n ih =>
    have hstep := h es cs
    rw [List.append_nil] at hstep
    rw [Walker.loop, Reader.collect, hstep]
    rcases x cs with s | ⟨_ | a, rest⟩
    · rfl
    · simp
    · by_cases hlt : rest.length < cs.length
      · have hrest := ih rest.length (hn ▸ hlt) (es ++ told a) rest rfl
        simp only [Functor.map, Except.map, Option.isSome_some, Option.elim_some, if_pos hlt]
          at hrest ⊢
        rw [hrest]
        rcases Reader.collect x rest with s | ⟨as, rest'⟩
        · rfl
        · simp
      · simp [hlt]

end Walker

open Walker

/-! ### Types -/

theorem TypeArg.allEvents_eq_flatMap (args : List TypeArg) :
    TypeArg.allEvents args = args.flatMap TypeArg.events := by
  induction args with
  | nil => rfl
  | cons arg args ih => rw [TypeArg.allEvents, ih, List.flatMap_cons]

theorem Segment.innerEvents_eq_flatMap (ss : List Segment) :
    Segment.innerEvents ss = ss.flatMap (Segment.eventsFrom .innerClassType) := by
  induction ss with
  | nil => rfl
  | cons s ss ih => rw [Segment.innerEvents, ih, List.flatMap_cons]

namespace TypeSig

/-- What may be nested, if anything, is told of. -/
abbrev NestedTells : Option (Walker Unit) → Option (Reader Stop TypeSig) → Prop :=
  Option.Rel fun y x => TellsAs y x events

variable {y? : Option (Walker Unit)} {x? : Option (Reader Stop TypeSig)} {y : Walker Unit}
  {x : Reader Stop TypeSig}

theorem tells_walkVar : TellsAs walkVar readVar events :=
  Tells.read fun _ => Tells.read fun _ => Tells.read fun _ => Tells.push (tells_pure rfl)

theorem tells_walkBounded (h : TellsAs y x events) (v : Variance) :
    TellsNext (walkBounded v y) (x >>= fun t => pure (some (.bounded v t))) TypeArg.events :=
  Tells.push (h.bind fun _ => tells_pure rfl)

theorem tells_walkArg? (h : TellsAs y x events) :
    TellsNext (walkArg? y) (readArg? x) TypeArg.events := by
  refine Tells.read fun c? => ?_
  by_cases hclose : c? = some '>'
  · subst hclose
    exact Tells.read fun _ => tells_pure rfl
  by_cases hany : c? = some '*'
  · subst hany
    exact Tells.read fun _ => Tells.push (tells_pure rfl)
  by_cases hupper : c? = some '+'
  · subst hupper
    exact Tells.read fun _ => tells_walkBounded h .upper
  by_cases hlower : c? = some '-'
  · subst hlower
    exact Tells.read fun _ => tells_walkBounded h .lower
  rw [if_neg hclose, if_neg hany, if_neg hupper, if_neg hlower]
  cases c? with
  | none => exact tells_stop _
  | some c =>
    rw [if_neg (Option.some_ne_none c)]
    split
    · exact absurd ‹_› hclose
    · exact absurd ‹_› hany
    · exact absurd ‹_› hupper
    · exact absurd ‹_› hlower
    · exact tells_walkBounded h .exact
    · exact absurd ‹_› (Option.some_ne_none c)

theorem tells_walkArgs (h : NestedTells y? x?) :
    TellsAs (walkArgs y?) (readArgs x?) TypeArg.allEvents := by
  refine Tells.read fun c? => ?_
  split
  · cases h with
    | none => exact tells_stop _
    | some h =>
      refine Tells.read fun _ => Tells.read fun c? => ?_
      split
      · exact tells_stop _
      · rw [funext TypeArg.allEvents_eq_flatMap]
        exact (tells_walkArg? h).many
  · exact tells_pure rfl

theorem tells_walkInner? (h : NestedTells y? x?) :
    TellsNext (walkInner? y?) (readInner? x?) (Segment.eventsFrom .innerClassType) := by
  refine Tells.read fun taken => ?_
  cases taken with
  | false => exact tells_pure rfl
  | true =>
    exact Tells.read fun name => Tells.push <| (tells_walkArgs h).bind fun args => tells_pure rfl

theorem tells_walkClassWith (h : NestedTells y? x?) :
    TellsAs (walkClassWith y?) (readClassWith x?) events := by
  refine Tells.read fun taken => ?_
  cases taken with
  | false => exact tells_stop _
  | true =>
    refine Tells.read fun name => ?_
    split
    · refine Tells.push <| (tells_walkArgs h).bind fun args => (tells_walkInner? h).many.bind
        fun inner => Tells.read fun closed => ?_
      cases closed with
      | false => exact tells_stop _
      | true =>
        refine Tells.push (tells_pure ?_)
        simp [events, Segment.eventsFrom, Segment.innerEvents_eq_flatMap]
    · exact tells_stop _

theorem tells_walkAnyWith (h : TellsAs y x events) :
    TellsAs (walkAnyWith y) (readAnyWith x) events := by
  refine Tells.read fun c? => ?_
  cases c?.bind BaseType.ofLetter? with
  | none => exact h
  | some b => exact Tells.read fun _ => Tells.push (tells_pure rfl)

theorem tells_walkWith (h : NestedTells y? x?) : TellsAs (walkWith y?) (readWith x?) events := by
  refine Tells.read fun c? => ?_
  by_cases hclass : c? = some 'L'
  · subst hclass
    exact tells_walkClassWith h
  by_cases hvar : c? = some 'T'
  · subst hvar
    exact tells_walkVar
  by_cases harray : c? = some '['
  · subst harray
    cases h with
    | none => exact tells_stop _
    | some h =>
      exact Tells.read fun _ => Tells.push ((tells_walkAnyWith h).behind fun t => rfl).map
  rw [if_neg hclass, if_neg hvar, if_neg harray]
  split
  · exact absurd rfl hclass
  · exact absurd rfl hvar
  · exact absurd rfl harray
  · exact tells_stop _

theorem tells_walkWithin (room : Nat) : TellsAs (walkWithin room) (readWithin room) events := by
  induction room with
  | zero => exact tells_walkWith .none
  | succ room ih => exact tells_walkWith (.some ih)

theorem tells_walkNestedWithin (room : Nat) :
    NestedTells (walkNestedWithin room) (nestedWithin room) := by
  cases room with
  | zero => exact .none
  | succ room => exact .some (tells_walkWithin room)

theorem tells_walker : TellsAs walker reader events := tells_walkWithin maxNesting

theorem tells_classWalker : TellsAs classWalker classReader events :=
  tells_walkClassWith (tells_walkNestedWithin maxNesting)

theorem tells_anyWalker : TellsAs anyWalker anyReader events := tells_walkAnyWith tells_walker

end TypeSig

/-! ### Type parameters -/

namespace TypeParamSig

/-- The events of a class bound, if there is one. -/
def classBoundEvents (bound : Option TypeSig) : List Event :=
  bound.elim [] fun t => .classBound :: t.events

theorem tells_walkClassBound : TellsAs walkClassBound readClassBound classBoundEvents := by
  have hbound : TellsAs (push .classBound >>= fun _ => TypeSig.walker) (some <$> TypeSig.reader)
      classBoundEvents :=
    Tells.push (TypeSig.tells_walker.behind fun _ => rfl).map
  refine Tells.read fun c? => ?_
  split
  · rename_i hc
    rcases hc with rfl | rfl | rfl <;> exact hbound
  · rename_i hc
    split
    · exact absurd (.inl rfl) hc
    · exact absurd (.inr (.inl rfl)) hc
    · exact absurd (.inr (.inr rfl)) hc
    · exact tells_pure rfl

theorem tells_walkInterfaceBound? :
    TellsNext walkInterfaceBound? readInterfaceBound? fun t => .interfaceBound :: t.events := by
  refine Tells.read fun taken => ?_
  cases taken with
  | false => exact tells_pure rfl
  | true => exact Tells.push (TypeSig.tells_walker.next fun _ => rfl)

theorem tells_walk? : TellsNext walk? read? events := by
  refine Tells.read fun taken => ?_
  cases taken with
  | true => exact tells_pure rfl
  | false =>
    exact Tells.read fun name => Tells.push <| Tells.read fun _ =>
      tells_walkClassBound.bind fun bound => tells_walkInterfaceBound?.many.bind fun bounds =>
        tells_pure rfl

theorem tells_listWalker : TellsAs listWalker listReader fun ps => ps.flatMap events := by
  refine Tells.read fun taken => ?_
  cases taken with
  | false => exact tells_pure rfl
  | true =>
    refine Tells.read fun c? => ?_
    split
    · exact tells_stop _
    · exact tells_walk?.many

end TypeParamSig

/-! ### Classes and methods -/

namespace ClassSig

theorem tells_walkInterface? :
    TellsNext walkInterface? readInterface? fun t => .interface :: t.events := by
  refine Tells.read fun done => ?_
  cases done with
  | true => exact tells_pure rfl
  | false => exact Tells.push (TypeSig.tells_classWalker.next fun _ => rfl)

theorem tells_walker : TellsAs walker reader events :=
  TypeParamSig.tells_listWalker.bind fun ps => Tells.push <|
    TypeSig.tells_classWalker.bind fun superclass =>
      tells_walkInterface?.many.finish fun interfaces => by simp [events]

end ClassSig

namespace MethodSig

theorem tells_walkParam? :
    TellsNext walkParam? readParam? fun t => .parameterType :: t.events := by
  refine Tells.read fun taken => ?_
  cases taken with
  | true => exact tells_pure rfl
  | false =>
    refine Tells.read fun done => ?_
    cases done with
    | true => exact tells_stop _
    | false => exact Tells.push (TypeSig.tells_anyWalker.next fun _ => rfl)

theorem tells_walkResult : TellsAs walkResult readResult fun t => .returnType :: t.events := by
  refine Tells.push (Tells.read fun taken => ?_)
  cases taken with
  | true => exact Tells.push (tells_pure rfl)
  | false => exact TypeSig.tells_anyWalker.behind fun _ => rfl

theorem tells_walkThrown? :
    TellsNext walkThrown? readThrown? fun t => .exceptionType :: t.events := by
  refine Tells.read fun taken => ?_
  cases taken with
  | false => exact tells_pure rfl
  | true =>
    refine Tells.push (Tells.read fun c? => ?_)
    by_cases hclass : c? = some 'L'
    · subst hclass
      exact TypeSig.tells_classWalker.next fun _ => rfl
    by_cases hvar : c? = some 'T'
    · subst hvar
      exact TypeSig.tells_walkVar.next fun _ => rfl
    rw [if_neg hclass, if_neg hvar]
    split
    · exact absurd rfl hclass
    · exact absurd rfl hvar
    · exact tells_stop _

theorem tells_walker : TellsAs walker reader events := by
  refine TypeParamSig.tells_listWalker.bind fun ps => Tells.read fun taken => ?_
  cases taken with
  | false => exact tells_stop _
  | true =>
    exact tells_walkParam?.many.bind fun params => tells_walkResult.bind fun result =>
      tells_walkThrown?.many.finish fun throws => by simp [events]

end MethodSig

/-! ### The parsers -/

namespace Grammar

/-- A walk over a whole text. -/
theorem events_eq {α : Type} {y : Walker Unit} {x : Reader Stop α} {told : α → List Event}
    (h : TellsAs y x told) (text : String) :
    y.events text = told <$> Grammar.signature.read x text := by
  have hwalk : (Prod.snd <$> y [] : Reader Stop (List Event)) text.toList =
      (fun r => (told r.1, r.2)) <$> x text.toList := by
    change (fun r => (r.1.2, r.2)) <$> y ([] ++ []) text.toList = _
    rw [h [] text.toList]
    rcases x text.toList with s | r <;> rfl
  unfold Walker.events Grammar.read
  rw [hwalk]
  rcases x text.toList with s | ⟨a, _ | ⟨c, left⟩⟩ <;> rfl

/-- **What is pushed on a walk over a text** are the events of the tree that it describes; and if
it describes none, both come to the same error. -/
theorem parseEvents_eq (text : String) :
    ClassSig.parseEvents text = ClassSig.events <$> ClassSig.parse text ∧
      MethodSig.parseEvents text = MethodSig.events <$> MethodSig.parse text ∧
      TypeSig.parseEvents text = TypeSig.events <$> TypeSig.parse text :=
  ⟨events_eq ClassSig.tells_walker text, events_eq MethodSig.tells_walker text,
    events_eq TypeSig.tells_walker text⟩

end Grammar

end JavaGenerics
