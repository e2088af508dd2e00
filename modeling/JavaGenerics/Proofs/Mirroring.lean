import JavaGenerics.Proofs.ByteReading

/-!
# Bytes for characters

The readers of this library take whole characters. This file says what it takes for a reader of
bytes to do the same, from every position between two characters
(`JavaGenerics.ByteReader.Mirrors`). One byte is looked at, and so may only be told from others if
it is a character by itself; and only such a byte may be skipped. With this in mind, a reader of
bytes can be put together in the way the reader of characters is that it mirrors, by the rules
below.

A parser is *safe* if it can be run on the bytes of a text in this way
(`JavaGenerics.Grammar.IsSafe`). Then no name is ever cut out of the middle of a character, every
text is rejected at a position between two characters, and for what can be seen up to there.
-/

namespace JavaGenerics

namespace ByteReader

variable {α β : Type}

/-! ### What a reader of bytes does at characters -/

/-- At a position, the bytes are those of the characters `cs`. -/
structure Stands (bytes : List UInt8) (i : Nat) (cs : List Char) : Prop where
  le : i ≤ bytes.length
  drop : bytes.drop i = bytesOf cs

theorem Stands.length_sub {bytes : List UInt8} {i : Nat} {cs : List Char} (h : Stands bytes i cs) :
    bytes.length - i = byteLength cs := by
  rw [← List.length_drop, h.drop, length_bytesOf]

/-- Behind some of the characters. -/
theorem Stands.append {bytes : List UInt8} {i : Nat} {cs ds : List Char}
    (h : Stands bytes i (cs ++ ds)) : Stands bytes (i + byteLength cs) ds where
  le := by
    have hlength := h.length_sub
    rw [← length_bytesOf, bytesOf_append, List.length_append, length_bytesOf] at hlength
    have := h.le
    omega
  drop := by
    rw [← List.drop_drop, h.drop, bytesOf_append, ← length_bytesOf, List.drop_left]

/-- The next byte. -/
theorem Stands.getElem? {bytes : List UInt8} {i : Nat} {cs : List Char} (h : Stands bytes i cs) :
    bytes[i]? = (bytesOf cs).head? := by
  rw [← h.drop, List.head?_drop]

theorem Stands.isBoundary {bytes : List UInt8} {i : Nat} {cs : List Char}
    (h : Stands bytes i cs) : isBoundary bytes i = true := by
  unfold JavaGenerics.isBoundary
  rw [h.getElem?]
  rcases cs with _ | ⟨c, cs⟩
  · have hlength := h.length_sub
    have hle := h.le
    change bytes.length - i = 0 at hlength
    simp only [Bool.or_eq_true, beq_iff_eq]
    exact .inl (by omega)
  · obtain ⟨b, bs, hb, hfirst, -⟩ := encodeChar_eq_cons c
    simp [bytesOf_cons, hb, hfirst]

/-- The text between two positions that stand between characters. -/
theorem Stands.slice? {bytes : List UInt8} {i : Nat} {cs ds : List Char}
    (h : Stands bytes i (cs ++ ds)) :
    slice? bytes i (i + byteLength cs) = some (String.ofList cs) := by
  unfold JavaGenerics.slice?
  rw [if_pos ⟨Nat.le_add_right _ _, h.isBoundary, h.append.isBoundary⟩, ← fromUTF8?_bytesOf,
    List.drop_take, h.drop, Nat.add_sub_cancel_left, bytesOf_append, ← length_bytesOf,
    List.take_left]

/-- How a reading of bytes and one of the characters `cs` end alike: both with a result or both
for a fault, and at the same place, between two of the characters. -/
inductive EndAlike (bytes : List UInt8) (cs : List Char) :
    Except Halt (α × Nat) → Except Stop (α × List Char) → Prop where
  | ok {a : α} {j : Nat} {left : List Char} (suffix : left <:+ cs) (stands : Stands bytes j left) :
      EndAlike bytes cs (.ok (a, j)) (.ok (a, left))
  | stopped {fault : Fault} {j : Nat} {left : List Char} (suffix : left <:+ cs)
      (stands : Stands bytes j left) :
      EndAlike bytes cs (.error (.stopped fault j)) (.error ⟨fault, left⟩)

theorem EndAlike.of_suffix {bytes : List UInt8} {cs cs' : List Char}
    {out : Except Halt (α × Nat)} {out' : Except Stop (α × List Char)}
    (h : EndAlike bytes cs' out out') (hcs : cs' <:+ cs) : EndAlike bytes cs out out' := by
  cases h with
  | ok suffix stands => exact .ok (suffix.trans hcs) stands
  | stopped suffix stands => exact .stopped (suffix.trans hcs) stands

/-- **A reader of bytes tracks a reader of characters** at `cs`: wherever the bytes are those of
`cs`, they end alike. -/
def Tracks (y : ByteReader α) (x : Reader Stop α) (cs : List Char) : Prop :=
  ∀ bytes i, Stands bytes i cs → EndAlike bytes cs (y bytes i) (x cs)

theorem tracks_pure (a : α) (cs : List Char) : Tracks (pure a) (pure a) cs :=
  fun _ _ hi => .ok List.suffix_rfl hi

theorem tracks_stop (fault : Fault) (cs : List Char) :
    Tracks (stop fault : ByteReader α) (Grammar.stop fault) cs :=
  fun _ _ hi => .stopped List.suffix_rfl hi

theorem Tracks.bind {y : ByteReader α} {x : Reader Stop α} {g : α → ByteReader β}
    {f : α → Reader Stop β} {cs : List Char} (hx : Tracks y x cs)
    (hf : ∀ a left, x cs = .ok (a, left) → Tracks (g a) (f a) left) :
    Tracks (y >>= g) (x >>= f) cs := by
  intro bytes i hi
  have htracks := hx bytes i hi
  rw [bind_apply, Reader.bind_apply]
  generalize y bytes i = out at htracks
  generalize hout : x cs = out' at htracks
  cases htracks with
  | stopped suffix stands => exact .stopped suffix stands
  | ok suffix stands => exact (hf _ _ hout bytes _ stands).of_suffix suffix

/-- What comes next: the same to both if it is ASCII, and otherwise something else. -/
theorem Stands.peek {bytes : List UInt8} {i : Nat} {cs : List Char} (h : Stands bytes i cs) :
    ∃ c?, ByteReader.peek bytes i = .ok (c?, i) ∧ (c? = cs.head? ∨
      ∃ c d, cs.head? = some c ∧ c? = some d ∧ ¬IsAscii c ∧ ¬IsAscii d) := by
  unfold ByteReader.peek
  refine ⟨_, rfl, ?_⟩
  rw [h.getElem?]
  rcases cs with _ | ⟨c, cs⟩
  · exact .inl rfl
  · obtain ⟨b, bs, hb, -, hascii, hother⟩ := encodeChar_eq_cons c
    rw [bytesOf_cons, hb]
    by_cases hc : IsAscii c
    · exact .inl (congrArg some (hascii hc).2)
    · exact .inr ⟨c, _, rfl, rfl, hc, hother hc⟩

theorem Stands.tail {bytes : List UInt8} {i : Nat} {c : Char} {cs : List Char}
    (h : Stands bytes i (c :: cs)) (hc : IsAscii c) :
    i < bytes.length ∧ Stands bytes (i + 1) cs := by
  have hsize : byteLength [c] = 1 := by
    obtain ⟨b, hb, -⟩ := encodeChar_of_isAscii hc
    rw [← length_bytesOf, bytesOf_cons, hb]
    rfl
  have hfront : Stands bytes i ([c] ++ cs) := h
  have htail := hfront.append
  rw [hsize] at htail
  exact ⟨htail.le, htail⟩

theorem tracks_eat {c : Char} (hc : IsAscii c) (cs : List Char) :
    Tracks (eat c) (Reader.eat c) cs := by
  intro bytes i hi
  obtain ⟨c?, hpeek, hc?⟩ := hi.peek
  have heat : eat c bytes i = if c? = some c then .ok (true, i + 1) else .ok (false, i) := by
    cases hpeek
    rfl
  rw [heat]
  rcases cs with _ | ⟨d, cs⟩
  · obtain rfl : c? = none := by simpa using hc?
    exact .ok List.suffix_rfl hi
  · rw [Reader.eat]
    by_cases hd : d = c
    · subst hd
      obtain rfl : c? = some d := by
        rcases hc? with h | ⟨c, _, h, -, hnot, -⟩
        · exact h
        · cases h
          exact absurd hc hnot
      rw [if_pos rfl, if_pos rfl]
      exact .ok (List.suffix_cons d cs) (hi.tail hc).2
    · have hne : c? ≠ some c := by
        rcases hc? with h | ⟨_, e, -, h, -, hnot⟩
        · rw [h]
          exact fun heq => hd (Option.some.inj heq)
        · rw [h]
          rintro heq
          cases heq
          exact hnot hc
      rw [if_neg hne, if_neg hd]
      exact .ok List.suffix_rfl hi

theorem tracks_atEnd (cs : List Char) : Tracks atEnd Reader.atEnd cs := by
  intro bytes i hi
  have hlength := hi.length_sub
  have hle := hi.le
  have hend : decide (bytes.length ≤ i) = cs.isEmpty := by
    rcases cs with _ | ⟨c, cs⟩
    · change bytes.length - i = 0 at hlength
      exact decide_eq_true (by omega)
    · have hpos := c.utf8Size_pos
      rw [byteLength] at hlength
      exact decide_eq_false (by omega)
  unfold atEnd Reader.atEnd
  rw [hend]
  exact .ok List.suffix_rfl hi

theorem tracks_name {ends forbidden : List Char} (hends : ends.all fun c => IsAscii c)
    (hforbidden : forbidden.all fun c => IsAscii c) (fault : Fault) (cs : List Char) :
    Tracks (name ends forbidden fault) (Grammar.name ends forbidden fault) cs := by
  intro bytes i hi
  let stops : Char → Bool := fun c => ends.contains c || forbidden.contains c
  have hstops : ∀ c, stops c = true → IsAscii c := fun c hc => by
    simp only [stops, Bool.or_eq_true, List.contains_iff_mem] at hc
    simp only [List.all_eq_true, decide_eq_true_eq] at hends hforbidden
    exact hc.elim (hends c) (hforbidden c)
  obtain ⟨run, left, hrun, hleft, hcs⟩ : ∃ run left, cs.takeWhile (fun c => !stops c) = run ∧
      cs.dropWhile (fun c => !stops c) = left ∧ run ++ left = cs :=
    ⟨_, _, rfl, rfl, List.takeWhile_append_dropWhile⟩
  have hadvance : advance stops bytes i = .ok ((), i + byteLength run) := by
    unfold advance
    rw [hi.drop, takeWhile_bytesOf hstops, hrun, length_bytesOf]
  have hj : Stands bytes (i + byteLength run) left := (hcs ▸ hi).append
  have hsuffix : left <:+ cs := ⟨run, hcs⟩
  have hrun' : Reader.takeRun (ε := Stop) (fun c => !stops c) cs = .ok (run, left) := by
    unfold Reader.takeRun
    rw [hrun, hleft]
  have hlater : decide (i < i + byteLength run) = !run.isEmpty := by
    rcases run with _ | ⟨c, run⟩
    · exact decide_eq_false (by simp [byteLength])
    · have hpos := c.utf8Size_pos
      exact decide_eq_true (by rw [byteLength]; omega)
  have hstop : ∀ c, left.head? = some c → IsAscii c := by
    intro c hc
    have hnot := List.head?_dropWhile_not (fun c => !stops c) cs
    rw [hleft, hc] at hnot
    exact hstops c (by simpa using hnot)
  obtain ⟨c?, hpeek, hc?⟩ := hj.peek
  -- the character behind the run is ASCII, or there is none
  obtain rfl : c? = left.head? := by
    refine hc?.resolve_right ?_
    rintro ⟨c, _, hc, _, hnot, _⟩
    exact hnot (hstop c hc)
  have hslice : slice i bytes (i + byteLength run) =
      .ok (String.ofList run, i + byteLength run) := by
    unfold slice
    rw [(hcs ▸ hi : Stands bytes i (run ++ left)).slice?]
  unfold name Grammar.name
  rw [Reader.bind_apply, hrun', bind_apply]
  dsimp only [position]
  rw [bind_apply, hadvance]
  dsimp only
  rw [bind_apply, hpeek]
  dsimp only
  rw [bind_apply]
  dsimp only [position]
  rw [Reader.peek_bind]
  rcases left with _ | ⟨c, rest⟩
  · exact .stopped hsuffix hj
  · dsimp only [List.head?_cons]
    rw [hlater]
    cases ends.contains c && !run.isEmpty
    · exact .stopped hsuffix hj
    · rw [if_pos rfl, if_pos rfl, hslice]
      exact .ok hsuffix hj

/-! ### Mirrors -/

/-- **A reader of bytes mirrors a reader of characters** where `c?` comes next. -/
structure MirrorsAt (y : ByteReader α) (c? : Option Char) (x : Reader Stop α) : Prop where
  isLocal : y.IsLocal
  tracks : ∀ cs, cs.head? = c? → y.Tracks x cs

/-- **A reader of bytes that mirrors a reader of characters**: it ends as that does, at the same
place, and does not look past it. -/
def Mirrors (y : ByteReader α) (x : Reader Stop α) : Prop := ∀ c?, y.MirrorsAt c? x

theorem Mirrors.isLocal {y : ByteReader α} {x : Reader Stop α} (h : y.Mirrors x) : y.IsLocal :=
  (h none).isLocal

theorem Mirrors.tracks {y : ByteReader α} {x : Reader Stop α} (h : y.Mirrors x) (cs : List Char) :
    y.Tracks x cs := (h cs.head?).tracks cs rfl

theorem mirrors_of_tracks {y : ByteReader α} {x : Reader Stop α} (hlocal : y.IsLocal)
    (h : ∀ cs, y.Tracks x cs) : y.Mirrors x := fun _ => ⟨hlocal, fun cs _ => h cs⟩

theorem mirrors_pure (a : α) : (pure a : ByteReader α).Mirrors (pure a) :=
  mirrors_of_tracks (isLocal_pure a) (tracks_pure a)

theorem mirrors_stop (fault : Fault) : (stop fault : ByteReader α).Mirrors (Grammar.stop fault) :=
  mirrors_of_tracks (isLocal_stop fault) (tracks_stop fault)

theorem mirrors_eat {c : Char} (hc : IsAscii c) : (eat c).Mirrors (Reader.eat c) :=
  mirrors_of_tracks (isLocal_eat c) (tracks_eat hc)

theorem mirrors_atEnd : atEnd.Mirrors Reader.atEnd := mirrors_of_tracks isLocal_atEnd tracks_atEnd

theorem MirrorsAt.bind {y : ByteReader α} {c? : Option Char} {x : Reader Stop α}
    {g : α → ByteReader β} {f : α → Reader Stop β} (hx : y.MirrorsAt c? x)
    (hf : ∀ a, (g a).Mirrors (f a)) : (y >>= g).MirrorsAt c? (x >>= f) where
  isLocal := hx.isLocal.bind fun a => (hf a).isLocal
  tracks cs hcs := (hx.tracks cs hcs).bind fun a left _ => (hf a).tracks left

theorem Mirrors.bind {y : ByteReader α} {x : Reader Stop α} {g : α → ByteReader β}
    {f : α → Reader Stop β} (hx : y.Mirrors x) (hf : ∀ a, (g a).Mirrors (f a)) :
    (y >>= g).Mirrors (x >>= f) := fun c? => (hx c?).bind hf

theorem MirrorsAt.map {y : ByteReader α} {c? : Option Char} {x : Reader Stop α}
    (hx : y.MirrorsAt c? x) (f : α → β) : (f <$> y).MirrorsAt c? (f <$> x) := by
  rw [map_eq_pure_bind, map_eq_pure_bind]
  exact hx.bind fun a => mirrors_pure (f a)

theorem Mirrors.map {y : ByteReader α} {x : Reader Stop α} (hx : y.Mirrors x) (f : α → β) :
    (f <$> y).Mirrors (f <$> x) := fun c? => (hx c?).map f

/-- What depends on whether a character comes next. -/
theorem mirrors_eat_bind {c : Char} (hc : IsAscii c) {y y' : ByteReader α} {x x' : Reader Stop α}
    (h : y.Mirrors x) (h' : y'.Mirrors x') :
    (eat c >>= fun taken => if taken = true then y else y').Mirrors
      (Reader.eat c >>= fun taken => if taken = true then x else x') :=
  (mirrors_eat hc).bind fun taken => by
    cases taken
    · exact h'
    · exact h

/-- What depends on whether the text goes on. -/
theorem mirrors_atEnd_bind {y y' : ByteReader α} {x x' : Reader Stop α} (h : y.Mirrors x)
    (h' : y'.Mirrors x') :
    (atEnd >>= fun done => if done = true then y else y').Mirrors
      (Reader.atEnd >>= fun done => if done = true then x else x') :=
  mirrors_atEnd.bind fun done => by
    cases done
    · exact h'
    · exact h

/-- **A look at the next byte** is one at the next character, if `other` is done at every byte that
is not ASCII. -/
theorem mirrors_peek_bind {g : Option Char → ByteReader β} {f : Option Char → Reader Stop β}
    (other : ByteReader β) (hother : ∀ c, ¬IsAscii c → g (some c) = other)
    (h : ∀ c?, (g c?).MirrorsAt c? (f c?)) :
    (peek >>= g).Mirrors (Reader.peek >>= f) := by
  refine mirrors_of_tracks (isLocal_peek.bind fun c? => (h c?).isLocal) fun cs bytes i hi => ?_
  obtain ⟨c?, hpeek, hc?⟩ := hi.peek
  have hg : g c? = g cs.head? := by
    rcases hc? with rfl | ⟨c, d, hhead, rfl, hc, hd⟩
    · rfl
    · rw [hhead, hother c hc, hother d hd]
  rw [bind_apply, hpeek, Reader.peek_bind]
  dsimp only
  rw [hg]
  exact (h cs.head?).tracks cs rfl bytes i hi

/-- What depends on whether a character comes next, which is left in place. -/
theorem mirrors_peek_eq_bind {c : Char} (hc : IsAscii c) {y y' : ByteReader α}
    {x x' : Reader Stop α} (h : y.MirrorsAt (some c) x) (h' : y'.Mirrors x') :
    (peek >>= fun c? => if c? = some c then y else y').Mirrors
      (Reader.peek >>= fun c? => if c? = some c then x else x') := by
  refine mirrors_peek_bind y' (fun d hd => if_neg ?_) fun c? => ?_
  · rintro heq
    cases heq
    exact hd hc
  · by_cases hc? : c? = some c
    · subst hc?
      rw [if_pos rfl, if_pos rfl]
      exact h
    · rw [if_neg hc?, if_neg hc?]
      exact h' c?

/-- A character that has been looked at can be skipped as a byte if it is ASCII. -/
theorem mirrorsAt_skip_bind {c : Char} (hc : IsAscii c) {y : ByteReader α} {x : Reader Stop α}
    (h : y.Mirrors x) :
    (skip >>= fun _ => y).MirrorsAt (some c) (Reader.skip >>= fun _ => x) where
  isLocal := isLocal_skip.bind fun _ => h.isLocal
  tracks cs hcs bytes i hi := by
    obtain ⟨rest, rfl⟩ := List.head?_eq_some_iff.1 hcs
    obtain ⟨hlt, htail⟩ := hi.tail hc
    rw [bind_apply, skip, if_pos hlt, Reader.skip_bind]
    exact (h.tracks rest bytes (i + 1) htail).of_suffix (List.suffix_cons c rest)

theorem mirrors_name {ends forbidden : List Char} (hends : ends.all fun c => IsAscii c)
    (hforbidden : forbidden.all fun c => IsAscii c) (fault : Fault) :
    (name ends forbidden fault).Mirrors (Grammar.name ends forbidden fault) :=
  mirrors_of_tracks (isLocal_name ends forbidden fault) (tracks_name hends hforbidden fault)

/-- A name and the character that ends it. -/
theorem mirrors_name_bind_skip {ends forbidden : List Char} (hends : ends.all fun c => IsAscii c)
    (hforbidden : forbidden.all fun c => IsAscii c) (fault : Fault) {g : String → ByteReader β}
    {f : String → Reader Stop β} (h : ∀ name, (g name).Mirrors (f name)) :
    (name ends forbidden fault >>= fun name => skip >>= fun _ => g name).Mirrors
      (Grammar.name ends forbidden fault >>= fun name => Reader.skip >>= fun _ => f name) := by
  refine mirrors_of_tracks ?_ fun cs => ?_
  · exact (isLocal_name ends forbidden fault).bind fun name => isLocal_skip.bind fun _ =>
      (h name).isLocal
  · refine (tracks_name hends hforbidden fault cs).bind fun text left htext => ?_
    obtain ⟨-, -, c, hc, hhead⟩ := Grammar.name_eq_ok.1 htext
    have hascii : IsAscii c := of_decide_eq_true (List.all_eq_true.1 hends c hc)
    exact (mirrorsAt_skip_bind hascii (h text)).tracks left hhead

theorem Mirrors.many {y : ByteReader (Option α)} {x : Reader Stop (Option α)} (h : y.Mirrors x) :
    (many y).Mirrors (Reader.many x) := by
  refine mirrors_of_tracks h.isLocal.many fun cs => ?_
  induction hn : cs.length using Nat.strong_induction_on generalizing cs with
  | _ n ih =>
    intro bytes i hi
    change EndAlike bytes cs (collect y bytes i) (Reader.collect x cs)
    have hstep := h.tracks cs bytes i hi
    rw [collect, Reader.collect]
    generalize y bytes i = out at hstep
    generalize x cs = out' at hstep
    cases hstep with
    | stopped suffix stands => exact .stopped suffix stands
    | @ok a j left suffix stands =>
      cases a with
      | none => exact .ok suffix stands
      | some a =>
        dsimp only
        have hlength : left.length < cs.length ↔ bytes.length - j < bytes.length - i := by
          rw [hi.length_sub, stands.length_sub]
          exact length_lt_iff_of_suffix suffix
        simp only [← hlength]
        split
        · rename_i hlt
          have hrest := ih _ (hn ▸ hlt) left rfl bytes j stands
          change EndAlike bytes left (collect y bytes j) (Reader.collect x left) at hrest
          generalize collect y bytes j = out at hrest
          generalize Reader.collect x left = out' at hrest
          cases hrest with
          | ok suffix' stands' => exact .ok (suffix'.trans suffix) stands'
          | stopped suffix' stands' => exact .stopped (suffix'.trans suffix) stands'
        · exact .ok suffix stands

end ByteReader

/-! ### Whole texts -/

namespace Grammar

variable {α : Type} {grammar : Grammar} {x : Reader Stop α} {y : ByteReader α}

/-- Reads all characters. -/
def whole (x : Reader Stop α) : Reader Stop α := do
  let a ← x
  if ← Reader.atEnd then pure a else stop .trailing

theorem mirrors_whole (h : y.Mirrors x) : y.whole.Mirrors (whole x) :=
  h.bind fun a => ByteReader.mirrors_atEnd_bind (ByteReader.mirrors_pure a)
    (ByteReader.mirrors_stop .trailing)

/-- A text is rejected for the fault at which its reader stops, with the number of bytes in
front. -/
theorem read_eq_whole (grammar : Grammar) (x : Reader Stop α) (text : String) :
    grammar.read x text = match whole x text.toList with
      | .ok (a, _) => .ok a
      | .error s =>
        .error ⟨grammar, text, byteLength text.toList - byteLength s.left, s.fault⟩ := by
  unfold read whole
  rw [Reader.bind_apply]
  rcases x text.toList with s | ⟨a, _ | ⟨c, left⟩⟩ <;> rfl

theorem stands_textBytes (text : String) : ByteReader.Stands (textBytes text) 0 text.toList :=
  ⟨Nat.zero_le _, textBytes_eq text⟩

/-- Whoever reads a text byte by byte, and mirrors the reader of its characters, comes to the same
end. -/
theorem run_eq_read (h : y.Mirrors x) (grammar : Grammar) (text : String) :
    y.run text = (grammar.read x text).mapError fun e => .stopped e.fault e.offset := by
  have hwhole := (mirrors_whole h).tracks text.toList _ _ (stands_textBytes text)
  rw [read_eq_whole, ByteReader.run]
  generalize y.whole (textBytes text) 0 = out at hwhole
  generalize whole x text.toList = out' at hwhole
  cases hwhole with
  | ok => rfl
  | @stopped fault j left suffix stands =>
    have hj : j = byteLength text.toList - byteLength left := by
      have hle := stands.le
      have hlength := stands.length_sub
      rw [textBytes_eq, length_bytesOf] at hle hlength
      omega
    rw [hj]
    rfl

/-- The position at which a text is rejected lies between two characters. -/
theorem isValid_offset (h : y.Mirrors x) {text : String} {e : SyntaxError}
    (he : grammar.read x text = .error e) : String.Pos.Raw.IsValid text ⟨e.offset⟩ := by
  have hwhole := (mirrors_whole h).tracks text.toList _ _ (stands_textBytes text)
  rw [read_eq_whole] at he
  generalize y.whole (textBytes text) 0 = out at hwhole
  generalize whole x text.toList = out' at hwhole he
  cases hwhole with
  | ok => cases he
  | @stopped fault j left suffix stands =>
    cases he
    obtain ⟨taken, htext⟩ := suffix
    have hoffset : byteLength text.toList - byteLength left = byteLength taken := by
      rw [← htext, ← length_bytesOf, bytesOf_append, List.length_append, length_bytesOf,
        length_bytesOf, Nat.add_sub_cancel]
    refine String.Pos.Raw.isValid_iff_exists_append.2
      ⟨String.ofList taken, String.ofList left, ?_, ?_⟩
    · rw [← String.ofList_append, htext, String.ofList_toList]
    · rw [hoffset, ← length_bytesOf, ← List.size_toByteArray, toByteArray_bytesOf,
        ← String.toByteArray_ofList]
      rfl

/-- What a text is rejected for. -/
theorem eq_of_read_eq_error {text : String} {e : SyntaxError} (h : grammar.read x text = .error e) :
    e.grammar = grammar ∧ e.text = text := by
  rw [read_eq_whole] at h
  split at h
  · cases h
  · cases h
    exact ⟨rfl, rfl⟩

/-- Behind the byte at which a text is rejected there may stand what will. -/
theorem read_of_take_eq (h : y.Mirrors x) {text text' : String} {e : SyntaxError}
    (he : grammar.read x text = .error e) (hlt : e.offset < (textBytes text).length)
    (htake : (textBytes text').take (e.offset + 1) = (textBytes text).take (e.offset + 1)) :
    grammar.read x text' = .error { e with text := text' } := by
  -- the reading of the bytes stops at the offset, and so for both texts
  have hstop : y.whole (textBytes text) 0 = .error (.stopped e.fault e.offset) := by
    have hrun := run_eq_read h grammar text
    rw [he, ByteReader.run] at hrun
    rcases hout : y.whole (textBytes text) 0 with halt | ⟨a, i⟩ <;> rw [hout] at hrun <;> cases hrun
    rfl
  have hblind := (mirrors_whole h).isLocal.blind ((textBytes text).take (e.offset + 1))
    ((textBytes text).drop (e.offset + 1)) ((textBytes text').drop (e.offset + 1)) 0
  rw [List.take_append_drop, hstop, ← htake, List.take_append_drop] at hblind
  have hstop' : y.whole (textBytes text') 0 = .error (.stopped e.fault e.offset) := by
    refine hblind ?_
    rw [htake, List.length_take]
    exact lt_min (Nat.lt_succ_self _) hlt
  have hrun' := run_eq_read h grammar text'
  rw [ByteReader.run, hstop'] at hrun'
  rcases hread : grammar.read x text' with e' | a <;> rw [hread] at hrun'
  · have hend := eq_of_read_eq_error he
    have hend' := eq_of_read_eq_error hread
    obtain ⟨g', t', k', f'⟩ := e'
    obtain ⟨g, t, k, f⟩ := e
    cases hrun'
    obtain ⟨rfl, -⟩ := hend
    obtain ⟨rfl, rfl⟩ := hend'
    rfl
  · cases hrun'

/-- **What it means that a parser is safe**, of which `y` is the reader of bytes. -/
structure IsSafe (parse : String → Except SyntaxError α) (y : ByteReader α) : Prop where
  /-- Reading the text byte by byte comes to the same end. -/
  run_eq : ∀ text, y.run text = (parse text).mapError fun e => .stopped e.fault e.offset
  /-- No name is cut out at positions that do not lie between characters. -/
  no_panic : ∀ text i j, y.run text ≠ .error (.panicked i j)
  /-- A text is rejected at a position between two of its characters. -/
  isValid : ∀ text e, parse text = .error e → e.offset ≤ text.utf8ByteSize ∧
    String.Pos.Raw.IsValid text ⟨e.offset⟩
  /-- What comes behind the byte at which a text is rejected has no part in it. -/
  isLocal : ∀ text text' e, parse text = .error e → e.offset < text.utf8ByteSize →
    (textBytes text').take (e.offset + 1) = (textBytes text).take (e.offset + 1) →
      parse text' = .error { e with text := text' }

theorem isSafe_read (grammar : Grammar) (h : y.Mirrors x) : IsSafe (grammar.read x) y where
  run_eq := run_eq_read h grammar
  no_panic text i j hpanic := by
    rw [run_eq_read h grammar] at hpanic
    cases hread : grammar.read x text <;> rw [hread] at hpanic <;> cases hpanic
  isValid text e he := ⟨(isValid_offset h he).le_utf8ByteSize, isValid_offset h he⟩
  isLocal text text' e he hlt htake := read_of_take_eq h he hlt htake

end Grammar

end JavaGenerics
