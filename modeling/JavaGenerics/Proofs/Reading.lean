import JavaGenerics.Grammar
import Mathlib.Data.List.TakeWhile

/-!
# What a reader reads

A reader takes characters off the front of a text. To say what it *reads* is to say
which things it can return and what they look like in the text: it returns `a` and
leaves `rest` exactly if `a` is one of those things and the text is the spelling of
`a` followed by `rest` (`JavaGenerics.Reader.Reads`). Such a statement is about
acceptance and about the result at once, and since a reader is a function, it also
says that no text has two readings.

The file gives this form to the steps that both grammars share: to the reading of
names (`JavaGenerics.Grammar.name_eq_ok`), to the reading of a whole text
(`JavaGenerics.Grammar.read_eq_ok`), and to repetition
(`JavaGenerics.Reader.Repeats.many_eq_ok`). In a repetition the one thing read may
restrict what comes after it, so there the statement also says what may follow.
-/

namespace JavaGenerics

namespace Reader

variable {ε α β : Type} {cs rest : List Char}

/-! ### Single steps -/

theorem bind_apply (x : Reader ε α) (f : α → Reader ε β) (cs : List Char) :
    (x >>= f) cs = match x cs with
      | .ok (a, mid) => f a mid
      | .error e => .error e := by
  change (x cs >>= fun p => f p.1 p.2) = _
  rcases x cs with _ | ⟨a, mid⟩ <;> rfl

theorem bind_eq_ok {x : Reader ε α} {f : α → Reader ε β} {b : β} :
    (x >>= f) cs = .ok (b, rest) ↔ ∃ a mid, x cs = .ok (a, mid) ∧ f a mid = .ok (b, rest) := by
  change (x cs >>= fun p => f p.1 p.2) = _ ↔ _
  rcases x cs with e | ⟨a, mid⟩
  · simp [bind, Except.bind]
  · constructor
    · exact fun h => ⟨a, mid, rfl, h⟩
    · rintro ⟨a', mid', h, hf⟩
      cases h
      exact hf

theorem map_eq_ok {x : Reader ε α} {f : α → β} {b : β} :
    (f <$> x) cs = .ok (b, rest) ↔ ∃ a, x cs = .ok (a, rest) ∧ f a = b := by
  rw [map_eq_pure_bind, bind_eq_ok]
  constructor
  · rintro ⟨a, mid, ha, h⟩
    cases h
    exact ⟨a, ha, rfl⟩
  · rintro ⟨a, ha, rfl⟩
    exact ⟨a, rest, ha, rfl⟩

theorem pure_eq_ok {a b : α} : (pure a : Reader ε α) cs = .ok (b, rest) ↔ b = a ∧ rest = cs := by
  change Except.ok (a, cs) = _ ↔ _
  simp [eq_comm]

/-- A step that looks at the next character goes on with it. -/
theorem peek_bind (f : Option Char → Reader ε β) (cs : List Char) :
    (peek >>= f) cs = f cs.head? cs := rfl

/-- A step that takes the next character goes on behind it. -/
theorem skip_bind (f : Unit → Reader ε β) (cs : List Char) :
    (skip >>= f) cs = f () cs.tail := rfl

theorem atEnd_bind (f : Bool → Reader ε β) (cs : List Char) :
    (atEnd >>= f) cs = f cs.isEmpty cs := rfl

/-- A step that takes `c` if it comes next goes on in one of two ways. -/
theorem eat_bind (c : Char) (x y : Reader ε β) (cs : List Char) :
    (eat c >>= fun taken => if taken = true then x else y) cs =
      if cs.head? = some c then x cs.tail else y cs := by
  cases cs with
  | nil => rfl
  | cons d cs =>
    by_cases h : d = c
    · subst h
      simp [bind, StateT.bind, eat, Except.bind]
    · simp [bind, StateT.bind, eat, Except.bind, h]

/-! ### Reading things one after the other -/

/-- **What a reader reads**: it returns `a` exactly if `a` is a `P` and the text begins
with the spelling of `a`. -/
def Reads (x : Reader ε α) (P : α → Prop) (spell : α → List Char) : Prop :=
  ∀ cs a rest, x cs = .ok (a, rest) ↔ P a ∧ cs = spell a ++ rest

/-- The rounds of a repetition that end well. -/
inductive Rounds (step : Reader ε (Option α)) : List α → List Char → List Char → Prop where
  | done {cs rest : List Char} (h : step cs = .ok (none, rest)) : Rounds step [] cs rest
  | more {a : α} {as : List α} {cs mid rest : List Char} (h : step cs = .ok (some a, mid))
      (hs : Rounds step as mid rest) : Rounds step (a :: as) cs rest

/-- A repetition whose rounds all take something ends well by such rounds only. -/
theorem many_eq_ok_iff_rounds {step : Reader ε (Option α)}
    (hstep : ∀ cs a mid, step cs = .ok (some a, mid) → mid.length < cs.length) {as : List α} :
    many step cs = .ok (as, rest) ↔ Rounds step as cs rest := by
  constructor
  · intro h
    change collect step cs = .ok (as, rest) at h
    induction cs using collect.induct step generalizing as with
    | case1 cs e he =>
      rw [collect, he] at h
      cases h
    | case2 cs mid hd =>
      rw [collect, hd] at h
      cases h
      exact .done hd
    | case3 cs a mid ha hlt e he =>
      rw [collect, ha] at h
      simp only [hlt, if_true, he] at h
      cases h
    | case4 cs a mid ha hlt as' rest' hc ih =>
      rw [collect, ha] at h
      simp only [hlt, if_true, hc] at h
      cases h
      exact .more ha (ih hc)
    | case5 cs a mid ha hlt => exact absurd (hstep cs a mid ha) hlt
  · intro h
    change collect step cs = .ok (as, rest)
    induction h with
    | done hd => rw [collect, hd]
    | more ha _ ih =>
      rw [collect, ha]
      simp only [hstep _ _ _ ha, if_true, ih]

/-- Each of some things read one after the other, up to the text `left`, is followed by
what may follow it. -/
def Follows (spell : α → List Char) (F : α → List Char → Prop) : List α → List Char → Prop
  | [], _ => True
  | a :: as, left => F a (as.flatMap spell ++ left) ∧ Follows spell F as left

/-- What one round of a repetition reads: a further `P`, followed by something that `F`
allows, or the end of the repetition, which leads from one text to another as `E`
says. -/
structure Repeats (step : Reader ε (Option α)) (P : α → Prop) (spell : α → List Char)
    (F : α → List Char → Prop) (E : List Char → List Char → Prop) : Prop where
  more : ∀ cs a rest, step cs = .ok (some a, rest) ↔ P a ∧ cs = spell a ++ rest ∧ F a rest
  done : ∀ cs rest, step cs = .ok (none, rest) ↔ E cs rest
  spell_ne : ∀ a, P a → spell a ≠ []

/-- **What a repetition reads**: things one after the other, each followed by what may
follow it, and the end. -/
theorem Repeats.many_eq_ok {step : Reader ε (Option α)} {P : α → Prop}
    {spell : α → List Char} {F : α → List Char → Prop} {E : List Char → List Char → Prop}
    (h : Repeats step P spell F E) {as : List α} :
    many step cs = .ok (as, rest) ↔ (∀ a ∈ as, P a) ∧
      ∃ left, cs = as.flatMap spell ++ left ∧ E left rest ∧ Follows spell F as left := by
  have hshort : ∀ cs a mid, step cs = .ok (some a, mid) → mid.length < cs.length := by
    intro cs a mid ha
    obtain ⟨hP, rfl, -⟩ := (h.more cs a mid).1 ha
    have hpos := List.length_pos_iff.2 (h.spell_ne a hP)
    rw [List.length_append]
    omega
  rw [many_eq_ok_iff_rounds hshort]
  constructor
  · intro hrounds
    induction hrounds with
    | done hd => exact ⟨by simp, _, rfl, (h.done _ _).1 hd, trivial⟩
    | more ha _ ih =>
      obtain ⟨hPs, left, rfl, hE, hF⟩ := ih
      obtain ⟨hP, rfl, hfollow⟩ := (h.more _ _ _).1 ha
      refine ⟨List.forall_mem_cons.2 ⟨hP, hPs⟩, left, ?_, hE, hfollow, hF⟩
      rw [List.flatMap_cons, List.append_assoc]
  · rintro ⟨hPs, left, rfl, hE, hF⟩
    induction as with
    | nil => exact .done ((h.done _ _).2 hE)
    | cons a as ih =>
      obtain ⟨hP, hPs⟩ := List.forall_mem_cons.1 hPs
      rw [List.flatMap_cons, List.append_assoc]
      exact .more ((h.more _ _ _).2 ⟨hP, rfl, hF.1⟩) (ih hPs hF.2)

/-- What a reader reads that always returns something, where `F` restricts what comes
behind. -/
def ReadsSome (x : Reader ε (Option α)) (P : α → Prop) (spell : α → List Char)
    (F : α → List Char → Prop) : Prop :=
  ∀ cs o rest, x cs = .ok (o, rest) ↔ ∃ a, o = some a ∧ P a ∧ cs = spell a ++ rest ∧ F a rest

theorem Reads.map_some {x : Reader ε α} {P : α → Prop} {spell : α → List Char}
    (h : Reads x P spell) : ReadsSome (some <$> x) P spell fun _ _ => True := by
  intro cs o rest
  rw [map_eq_ok]
  constructor
  · rintro ⟨a, hread, rfl⟩
    obtain ⟨ha, hcs⟩ := (h _ _ _).1 hread
    exact ⟨a, rfl, ha, hcs, trivial⟩
  · rintro ⟨a, rfl, ha, hcs, -⟩
    exact ⟨a, (h _ _ _).2 ⟨ha, hcs⟩, rfl⟩

/-- A repetition of things that are each announced by the character `c`. -/
theorem repeats_eat {c : Char} {x : Reader ε (Option α)} {P : α → Prop} {spell : α → List Char}
    {F : α → List Char → Prop} (h : ReadsSome x P spell F) :
    Repeats (eat c >>= fun taken => if taken = true then x else pure none) P
      (fun a => c :: spell a) F (fun cs rest => rest = cs ∧ cs.head? ≠ some c) where
  more cs a rest := by
    rw [eat_bind]
    by_cases hc : cs.head? = some c
    · obtain ⟨cs, rfl⟩ := List.head?_eq_some_iff.1 hc
      rw [if_pos hc, h, List.tail_cons]
      constructor
      · rintro ⟨b, hb, ha, rfl, hfollow⟩
        cases hb
        exact ⟨ha, rfl, hfollow⟩
      · rintro ⟨ha, hcs, hfollow⟩
        exact ⟨a, rfl, ha, (List.cons.inj hcs).2, hfollow⟩
    · rw [if_neg hc]
      refine iff_of_false (fun hread => by cases hread) ?_
      rintro ⟨-, rfl, -⟩
      exact hc rfl
  done cs rest := by
    rw [eat_bind]
    by_cases hc : cs.head? = some c
    · rw [if_pos hc, h]
      refine iff_of_false ?_ fun h => h.2 hc
      rintro ⟨a, ha, -⟩
      cases ha
    · rw [if_neg hc]
      constructor
      · intro hread
        cases hread
        exact ⟨rfl, hc⟩
      · rintro ⟨rfl, -⟩
        rfl
  spell_ne _ _ := by simp

/-- Where a further thing can be read, the repetition does not end. -/
theorem Repeats.not_end {step : Reader ε (Option α)} {P : α → Prop} {spell : α → List Char}
    {F : α → List Char → Prop} {E : List Char → List Char → Prop}
    (h : Repeats step P spell F E) {a : α} (ha : P a) (hfollow : F a rest) {left : List Char} :
    ¬E (spell a ++ rest) left := by
  intro hend
  have hmore := (h.more _ a rest).2 ⟨ha, rfl, hfollow⟩
  rw [(h.done _ _).2 hend] at hmore
  cases hmore

/-- Where anything may follow, everything is followed by what may follow it. -/
theorem follows_of_forall {spell : α → List Char} {F : α → List Char → Prop} {as : List α}
    {left : List Char} (h : ∀ a cs, F a cs) : Follows spell F as left := by
  induction as with
  | nil => trivial
  | cons a as ih => exact ⟨h a _, ih⟩

end Reader

namespace Grammar

open Reader

variable {cs rest : List Char}

theorem stop_ne_ok {α : Type} {fault : Fault} {a : α} :
    (stop fault : Reader Stop α) cs ≠ .ok (a, rest) := by
  intro h
  cases h

/-- A reading that ends with the character `c`. -/
theorem eat_pure_eq_ok {α : Type} {c : Char} {a b : α} {fault : Fault} :
    (eat c >>= fun taken => if taken = true then pure a else stop fault : Reader Stop α) cs =
      .ok (b, rest) ↔ b = a ∧ cs = c :: rest := by
  rw [eat_bind]
  by_cases hc : cs.head? = some c
  · rw [if_pos hc, pure_eq_ok]
    obtain ⟨tail, rfl⟩ := List.head?_eq_some_iff.1 hc
    simp [eq_comm]
  · rw [if_neg hc]
    refine iff_of_false stop_ne_ok ?_
    rintro ⟨-, rfl⟩
    exact hc rfl

/-- **What is read as a name**: a run of characters that is not empty and holds none of
`ends` and none of `forbidden`, up to one of `ends`. -/
theorem name_eq_ok {ends forbidden : List Char} {fault : Fault} {name : String} :
    Grammar.name ends forbidden fault cs = .ok (name, rest) ↔
      (name.toList ≠ [] ∧ ∀ c ∈ name.toList, c ∉ ends ∧ c ∉ forbidden) ∧
        cs = name.toList ++ rest ∧ ∃ c ∈ ends, rest.head? = some c := by
  let p : Char → Bool := fun c => !(ends.contains c || forbidden.contains c)
  have hp : ∀ c, p c = true ↔ c ∉ ends ∧ c ∉ forbidden := by simp [p]
  change (takeRun p >>= fun run => peek >>= _) cs = _ ↔ _
  rw [show ∀ f : List Char → Reader Stop String,
    (takeRun p >>= f) cs = f (cs.takeWhile p) (cs.dropWhile p) from fun _ => rfl, peek_bind]
  constructor
  · intro h
    rcases hc : (cs.dropWhile p).head? with _ | c
    · rw [hc] at h
      exact absurd h stop_ne_ok
    · rw [hc] at h
      dsimp only at h
      split at h
      · rename_i hend
        rw [Bool.and_eq_true, List.contains_iff_mem, Bool.not_eq_true', List.isEmpty_eq_false_iff]
          at hend
        obtain ⟨rfl, rfl⟩ := pure_eq_ok.1 h
        rw [String.toList_ofList]
        refine ⟨⟨hend.2, fun d hd => (hp d).1 (List.mem_takeWhile_imp hd)⟩, ?_, c, hend.1, hc⟩
        exact List.takeWhile_append_dropWhile.symm
      · exact absurd h stop_ne_ok
  · rintro ⟨⟨hne, hrun⟩, rfl, c, hend, hc⟩
    obtain ⟨tail, rfl⟩ : ∃ tail, rest = c :: tail := by
      cases rest with
      | nil => cases hc
      | cons d tail => exact ⟨tail, by cases hc; rfl⟩
    have hstop : ¬p c = true := fun h => ((hp c).1 h).1 hend
    have htake : (name.toList ++ c :: tail).takeWhile p = name.toList := by
      rw [List.takeWhile_append_of_pos fun d hd => (hp d).2 (hrun d hd),
        List.takeWhile_cons_of_neg hstop, List.append_nil]
    have hdrop : (name.toList ++ c :: tail).dropWhile p = c :: tail := by
      rw [List.dropWhile_append_of_pos fun d hd => (hp d).2 (hrun d hd),
        List.dropWhile_cons_of_neg hstop]
    rw [htake, hdrop]
    have hcond : (ends.contains c && !name.toList.isEmpty) = true := by
      rw [Bool.and_eq_true, List.contains_iff_mem, Bool.not_eq_true', List.isEmpty_eq_false_iff]
      exact ⟨hend, hne⟩
    simp only [List.head?_cons, hcond, if_true, String.ofList_toList]
    rfl

/-- What is read as a whole text is read to its end. -/
theorem read_eq_ok {α : Type} {grammar : Grammar} {reader : Reader Stop α} {text : String}
    {a : α} : grammar.read reader text = .ok a ↔ reader text.toList = .ok (a, []) := by
  unfold Grammar.read
  rcases reader text.toList with e | ⟨b, _ | ⟨c, left⟩⟩ <;> simp

end Grammar

end JavaGenerics
