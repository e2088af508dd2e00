import JavaGenerics.Proofs.Acceptance
import JavaGenerics.Proofs.EventGrammar
import JavaGenerics.Proofs.TypeAssembly

/-!
# Types from events, and from texts

A `JavaGenerics.TypeAssembler` undoes the walk over a type. Fed the events of a type, an
assembler with nothing unfinished has no type to hand over until the last of them, then
hands over that type, and nothing is unfinished again
(`JavaGenerics.TypeAssembler.feed_events`). There are no other events that it takes for that
type (`JavaGenerics.TypeAssembler.feed_eq_iff`).

A text that is read as a field signature is handed over in such events. So whoever feeds them
gets one type, at the end, and this type is spelled like the text
(`JavaGenerics.TypeAssembler.feed_inverts_events`).
-/

namespace JavaGenerics

namespace TypeAssembler

variable {a b : TypeAssembler} {e : Event} {es : List Event} {t : TypeSig}
  {result : Except ResolveError (Option TypeSig)}

/-- Takes all events in order, whether they are refused or not, and lists what each of them
leads to; with what is unfinished in the end. -/
def feed : List Event → TypeAssembler → List (Except ResolveError (Option TypeSig)) × TypeAssembler
  | [], a => ([], a)
  | e :: es, a =>
    let rest := feed es (a.accept e).2
    ((a.accept e).1 :: rest.1, rest.2)

theorem feed_cons (h : a.accept e = (result, b)) :
    feed (e :: es) a = (result :: (feed es b).1, (feed es b).2) := by
  rw [feed, h]

/-- What is to come of `n` events: nothing of any but the last, and `result` of that one. -/
def atLast (result : Except ResolveError (Option TypeSig)) (n : Nat) :
    List (Except ResolveError (Option TypeSig)) :=
  List.replicate (n - 1) (.ok none) ++ [result]

theorem atLast_cons_cons (result : Except ResolveError (Option TypeSig)) (e e' : Event)
    (es : List Event) :
    atLast result (e :: e' :: es).length = .ok none :: atLast result (e' :: es).length := by
  simp only [atLast, List.length_cons, Nat.add_sub_cancel]
  rw [List.replicate_succ, List.cons_append]

/-- What completes a type is fed like this. -/
theorem Completes.feed_eq (h : Completes (result, b) a es) :
    feed es a = (atLast result es.length, b) := by
  induction h with
  | last h => exact feed_cons h
  | @cons _ _ e es first rest ih =>
    rw [feed_cons first, ih]
    obtain _ | ⟨e', es⟩ := es
    · cases rest
    · rw [atLast_cons_cons]

/-- **The assembler undoes the walk over a type**: no event but the last leads to a type, the
last leads to the type that was walked over, and nothing is left unfinished. -/
theorem feed_events (t : TypeSig) :
    feed t.events {} = (atLast (.ok (some t)) t.events.length, {}) :=
  (completes_events t []).feed_eq

/-- What is fed like the events of a type completes the events of that type. -/
theorem events_of_feed (h : (feed es a).1 = atLast (.ok (some t)) es.length) :
    a.events ++ es = t.events := by
  induction es generalizing a with
  | nil => cases h
  | cons e es ih =>
    have hkeeps := a.accept_keeps e
    rcases hout : a.accept e with ⟨result, b⟩
    rw [hout] at hkeeps
    rw [feed_cons hout] at h
    obtain _ | ⟨e', es⟩ := es
    · obtain rfl : result = .ok (some t) := List.head_eq_of_cons_eq h
      exact hkeeps.1.symm
    · rw [atLast_cons_cons] at h
      obtain ⟨rfl, hrest⟩ := List.cons_eq_cons.1 h
      have hevents : b.events = a.events ++ [e] := hkeeps
      rw [← ih hrest, hevents, List.append_assoc, List.singleton_append]

/-- **Only the walk over a type leads to it** in this way. -/
theorem feed_eq_iff : feed es {} = (atLast (.ok (some t)) es.length, {}) ↔ es = t.events := by
  constructor
  · intro h
    exact events_of_feed (congrArg Prod.fst h)
  · rintro rfl
    exact feed_events t

/-- **Assembling inverts the walk**, for every type, and so for every text that is read as a
field signature: its events lead to one type, at the last of them, and this type is the one
whose spelling the text is. -/
theorem feed_inverts_events :
    (∀ t : TypeSig, feed t.events {} = (atLast (.ok (some t)) t.events.length, {})) ∧
    ∀ text es, (TypeSig.parse text).map TypeSig.events = .ok es →
      ∃ t, TypeSig.parse text = .ok t ∧ feed es {} = (atLast (.ok (some t)) es.length, {}) ∧
        String.ofList t.spelling = text := by
  refine ⟨feed_events, fun text es hread => ?_⟩
  rcases hparse : TypeSig.parse text with _ | t <;> rw [hparse] at hread
  · cases hread
  · obtain rfl : t.events = es := Except.ok.inj hread
    refine ⟨t, rfl, feed_events t, ?_⟩
    rw [(TypeSig.parse_eq_ok.1 hparse).2, String.ofList_toList]

/-- For example, for member classes with arguments of their own, among them arrays in
wildcards. -/
theorem feed_inverts_events_of_nested :
    let text := "LO<TT;>.I<*+[[I>;"
    let es : List Event := [.classType "O", .typeArgument .exact, .typeVariable "T",
      .innerClassType "I", .unboundedTypeArgument, .typeArgument .upper, .arrayType, .arrayType,
      .baseType .int, .close]
    (TypeSig.parse text).map TypeSig.events = .ok es ∧
      ∃ t, TypeSig.parse text = .ok t ∧ feed es {} = (atLast (.ok (some t)) 10, {}) ∧
        String.ofList t.spelling = text := by
  intro text es
  have hread : (TypeSig.parse text).map TypeSig.events = .ok es := by decide +kernel
  exact ⟨hread, feed_inverts_events.2 text es hread⟩

end TypeAssembler

end JavaGenerics
