import JavaGenerics.Proofs.Reading

/-!
# Reading byte by byte

A text is also a row of bytes, and may be read with nothing but a position among them. A
`JavaGenerics.ByteReader` looks at the byte at its position, moves on by one byte, and makes a
name of the bytes between two positions. This is a risk: a position may lie inside a character, and
what is cut out there is no text. A reader that does so *panics*.

The file has the steps of such readers, and says of each how far it looks: no further than to the
byte at which it ends (`JavaGenerics.ByteReader.IsLocal`). So the bytes behind that one have no part
in what is read, and none in a text being rejected there.
-/

namespace JavaGenerics

/-! ### Characters as bytes -/

/-- The characters that are one byte, with the same number. -/
def IsAscii (c : Char) : Prop := c.toNat < 128

instance (c : Char) : Decidable (IsAscii c) := Nat.decLt _ _

/-- The bytes of some characters. -/
def bytesOf (cs : List Char) : List UInt8 := cs.flatMap String.utf8EncodeChar

/-- The bytes of a text. -/
def textBytes (text : String) : List UInt8 := text.toByteArray.data.toList

theorem bytesOf_cons (c : Char) (cs : List Char) :
    bytesOf (c :: cs) = String.utf8EncodeChar c ++ bytesOf cs := rfl

theorem bytesOf_append (cs ds : List Char) : bytesOf (cs ++ ds) = bytesOf cs ++ bytesOf ds :=
  List.flatMap_append

theorem length_bytesOf (cs : List Char) : (bytesOf cs).length = byteLength cs := by
  induction cs with
  | nil => rfl
  | cons c cs ih =>
    rw [bytesOf_cons, List.length_append, String.length_utf8EncodeChar, ih, byteLength]

theorem bytesOf_eq_nil {cs : List Char} : bytesOf cs = [] ↔ cs = [] := by
  rcases cs with _ | ⟨c, cs⟩
  · simp [bytesOf]
  · simp [bytesOf_cons]

theorem toByteArray_bytesOf (cs : List Char) : (bytesOf cs).toByteArray = cs.utf8Encode := by
  simp [bytesOf, List.utf8Encode]

theorem textBytes_eq (text : String) : textBytes text = bytesOf text.toList := by
  unfold textBytes
  rw [← String.utf8Encode_toList, ← toByteArray_bytesOf, List.toList_data_toByteArray]

/-- A suffix is shorter in bytes if it is shorter in characters. -/
theorem length_lt_iff_of_suffix {cs ds : List Char} (h : ds <:+ cs) :
    ds.length < cs.length ↔ byteLength ds < byteLength cs := by
  obtain ⟨taken, rfl⟩ := h
  rw [← length_bytesOf, ← length_bytesOf, bytesOf_append, List.length_append, List.length_append]
  have hpos : 0 < taken.length ↔ 0 < (bytesOf taken).length := by
    rw [List.length_pos_iff, List.length_pos_iff, ne_eq, ne_eq, bytesOf_eq_nil]
  omega

/-- The bytes of some characters are the text that is made of them. -/
theorem fromUTF8?_bytesOf (cs : List Char) :
    String.fromUTF8? (bytesOf cs).toByteArray = some (String.ofList cs) := by
  have hbytes : (bytesOf cs).toByteArray = (String.ofList cs).toByteArray := by
    rw [toByteArray_bytesOf, String.toByteArray_ofList]
  rw [hbytes, String.fromUTF8?, dif_pos (String.ofList cs).isValidUTF8]
  rfl

theorem toNat_ofUInt8 (b : UInt8) : (Char.ofUInt8 b).toNat = b.toNat := UInt8.toNat_toUInt32 b

/-- An ASCII character is its only byte. -/
theorem encodeChar_of_isAscii {c : Char} (h : IsAscii c) :
    ∃ b, String.utf8EncodeChar c = [b] ∧ Char.ofUInt8 b = c := by
  have hle : c.val.toNat ≤ 0x7f := Nat.le_of_lt_succ h
  refine ⟨UInt8.ofNat c.val.toNat, by rw [String.utf8EncodeChar]; exact if_pos hle, ?_⟩
  rw [← Char.toNat_inj, toNat_ofUInt8, UInt8.toNat_ofNat']
  exact Nat.mod_eq_of_lt (lt_of_lt_of_le h (by decide))

/-- No byte of another character is an ASCII character. -/
theorem not_isAscii_of_mem_encodeChar {c : Char} (h : ¬IsAscii c) {b : UInt8}
    (hb : b ∈ String.utf8EncodeChar c) : ¬IsAscii (Char.ofUInt8 b) := by
  have hle : ¬c.val.toNat ≤ 0x7f := fun hle => h (Nat.lt_succ_of_le hle)
  -- every byte is a sum of which one part is at least 128
  have hbyte : ∀ n m : Nat, 128 ≤ m → n + m < 256 → b = UInt8.ofNat (n + m) →
      ¬IsAscii (Char.ofUInt8 b) := by
    rintro n m hm hlt rfl
    rw [IsAscii, toNat_ofUInt8, UInt8.toNat_ofNat', Nat.mod_eq_of_lt hlt]
    omega
  simp only [String.utf8EncodeChar, if_neg hle] at hb
  split at hb
  · simp only [List.mem_cons, List.not_mem_nil, or_false] at hb
    rcases hb with hb | hb <;> refine hbyte _ _ ?_ ?_ hb <;> omega
  · split at hb
    · simp only [List.mem_cons, List.not_mem_nil, or_false] at hb
      rcases hb with hb | hb | hb <;> refine hbyte _ _ ?_ ?_ hb <;> omega
    · simp only [List.mem_cons, List.not_mem_nil, or_false] at hb
      rcases hb with hb | hb | hb | hb <;> refine hbyte _ _ ?_ ?_ hb <;> omega

/-- The bytes of a character begin with one that can begin a character. -/
theorem encodeChar_eq_cons (c : Char) :
    ∃ b bs, String.utf8EncodeChar c = b :: bs ∧ b.IsUTF8FirstByte ∧
      (IsAscii c → bs = [] ∧ Char.ofUInt8 b = c) ∧ (¬IsAscii c → ¬IsAscii (Char.ofUInt8 b)) := by
  obtain ⟨b, bs, hb⟩ := List.exists_cons_of_ne_nil (String.utf8EncodeChar_ne_nil (c := c))
  refine ⟨b, bs, hb, ?_, fun h => ?_, fun h => ?_⟩
  · simpa [hb] using UInt8.isUTF8FirstByte_getElem_zero_utf8EncodeChar (c := c)
  · obtain ⟨b', hb', hc⟩ := encodeChar_of_isAscii h
    rw [hb'] at hb
    cases hb
    exact ⟨rfl, hc⟩
  · exact not_isAscii_of_mem_encodeChar h (hb ▸ List.mem_cons_self)

/-- **A run is as long in bytes as it is in characters**, if it goes over everything that is not
ASCII. -/
theorem takeWhile_bytesOf {stops : Char → Bool} (h : ∀ c, stops c = true → IsAscii c)
    (cs : List Char) :
    (bytesOf cs).takeWhile (fun b => !stops (Char.ofUInt8 b)) =
      bytesOf (cs.takeWhile fun c => !stops c) := by
  induction cs with
  | nil => rfl
  | cons c cs ih =>
    rw [bytesOf_cons]
    by_cases hc : IsAscii c
    · obtain ⟨b, hb, rfl⟩ := encodeChar_of_isAscii hc
      rw [hb, List.singleton_append, List.takeWhile_cons, List.takeWhile_cons]
      cases stops (Char.ofUInt8 b)
      · simp [bytesOf_cons, hb, ih]
      · rfl
    · have hrun : ∀ b ∈ String.utf8EncodeChar c, (!stops (Char.ofUInt8 b)) = true := by
        intro b hb
        by_contra hstop
        exact not_isAscii_of_mem_encodeChar hc hb (h _ (by simpa using hstop))
      have hc' : (!stops c) = true := by
        by_contra hstop
        exact hc (h _ (by simpa using hstop))
      rw [List.takeWhile_append_of_pos hrun, ih, List.takeWhile_cons, if_pos hc', bytesOf_cons]

/-! ### Readers of bytes -/

/-- How a reading of bytes ends before its end. -/
inductive Halt where
  /-- The bytes between two positions were to be made a name, and are not a text. -/
  | panicked (start position : Nat)
  /-- The text was rejected at a position. -/
  | stopped (fault : Fault) (position : Nat)
deriving DecidableEq, Repr

/-- The position at which a reading ends before its end. -/
def Halt.position : Halt → Nat
  | panicked _ i => i
  | stopped _ i => i

/-- A reader of `α` that finds its way by a position among the bytes of a text. -/
abbrev ByteReader (α : Type) := ReaderT (List UInt8) (StateT Nat (Except Halt)) α

/-- Whether a position lies between two characters: at the end, or in front of a byte that can
begin a character. -/
def isBoundary (bytes : List UInt8) (i : Nat) : Bool :=
  i == bytes.length || (bytes[i]?).any (·.IsUTF8FirstByte)

/-- The text between two positions. They must come in order, and lie between characters. -/
def slice? (bytes : List UInt8) (start stop : Nat) : Option String :=
  if start ≤ stop ∧ isBoundary bytes start ∧ isBoundary bytes stop then
    String.fromUTF8? ((bytes.take stop).drop start).toByteArray
  else none

namespace ByteReader

variable {α β : Type}

/-- The next byte, left in place, as the character of this number. -/
def peek : ByteReader (Option Char) := fun bytes i => .ok ((bytes[i]?).map Char.ofUInt8, i)

/-- Moves on by a byte, if there is one. -/
def skip : ByteReader Unit := fun bytes i => .ok ((), if i < bytes.length then i + 1 else i)

/-- Moves on by a byte if it is `c`, and says whether it was. -/
def eat (c : Char) : ByteReader Bool := fun bytes i =>
  if (bytes[i]?).map Char.ofUInt8 = some c then .ok (true, i + 1) else .ok (false, i)

/-- Whether the bytes are used up. -/
def atEnd : ByteReader Bool := fun bytes i => .ok (decide (bytes.length ≤ i), i)

/-- Rejects the text here for the reason `fault`. -/
def stop (fault : Fault) : ByteReader α := fun _ i => .error (.stopped fault i)

/-- The position. -/
def position : ByteReader Nat := fun _ i => .ok (i, i)

/-- Moves on to the first byte at which `stops` holds. -/
def advance (stops : Char → Bool) : ByteReader Unit := fun bytes i =>
  .ok ((), i + ((bytes.drop i).takeWhile fun b => !stops (Char.ofUInt8 b)).length)

/-- The text from `start` up to here. -/
def slice (start : Nat) : ByteReader String := fun bytes i =>
  match slice? bytes start i with
  | some text => .ok (text, i)
  | none => .error (.panicked start i)

/-- Reads a name: the bytes before the first of `ends`, of which there must be some, and none of
`forbidden`. -/
def name (ends forbidden : List Char) (fault : Fault) : ByteReader String := do
  let start ← position
  advance fun c => ends.contains c || forbidden.contains c
  let c? ← peek
  let stop? ← position
  match c? with
  | some c => if ends.contains c && decide (start < stop?) then slice start else stop fault
  | none => stop fault

/-- Repeats `step` until it returns nothing, and lists what it returned. A round that did not
move on is the last one. -/
def collect (step : ByteReader (Option α)) (bytes : List UInt8) (i : Nat) :
    Except Halt (List α × Nat) :=
  match step bytes i with
  | .error e => .error e
  | .ok (none, j) => .ok ([], j)
  | .ok (some a, j) =>
    if bytes.length - j < bytes.length - i then
      match collect step bytes j with
      | .error e => .error e
      | .ok (as, k) => .ok (a :: as, k)
    else .ok ([a], j)
termination_by bytes.length - i

/-- `JavaGenerics.ByteReader.collect` as a reader. -/
def many (step : ByteReader (Option α)) : ByteReader (List α) := collect step

/-- Reads all bytes. -/
def whole (y : ByteReader α) : ByteReader α := do
  let a ← y
  if ← atEnd then pure a else stop .trailing

/-- Reads a text from its first byte to its last. -/
def run (y : ByteReader α) (text : String) : Except Halt α :=
  (y.whole (textBytes text) 0).map (·.1)

theorem bind_apply (y : ByteReader α) (g : α → ByteReader β) (bytes : List UInt8) (i : Nat) :
    (y >>= g) bytes i = match y bytes i with
      | .ok (a, j) => g a bytes j
      | .error h => .error h := by
  change (y bytes i >>= fun p => g p.1 bytes p.2) = _
  rcases y bytes i with _ | ⟨a, j⟩ <;> rfl

/-! ### How far a reader looks -/

/-- The position at which a reading ends. -/
def finalPos : Except Halt (α × Nat) → Nat
  | .ok (_, i) => i
  | .error h => h.position

/-- **A reader that does not look past the end of what it reads**: it moves onwards, and what comes
behind the byte at which it ends has no influence on it. -/
structure IsLocal (y : ByteReader α) : Prop where
  onwards : ∀ bytes i, i ≤ finalPos (y bytes i)
  blind : ∀ front tail tail' i, finalPos (y (front ++ tail) i) < front.length →
    y (front ++ tail') i = y (front ++ tail) i

theorem isLocal_pure (a : α) : IsLocal (pure a) := ⟨fun _ _ => le_rfl, fun _ _ _ _ _ => rfl⟩

theorem isLocal_stop (fault : Fault) : IsLocal (stop fault : ByteReader α) :=
  ⟨fun _ _ => le_rfl, fun _ _ _ _ _ => rfl⟩

theorem isLocal_position : IsLocal position := ⟨fun _ _ => le_rfl, fun _ _ _ _ _ => rfl⟩

theorem isLocal_peek : IsLocal peek where
  onwards _ _ := le_rfl
  blind front tail tail' i h := by
    change i < front.length at h
    unfold peek
    rw [List.getElem?_append_left h, List.getElem?_append_left h]

theorem isLocal_skip : IsLocal skip where
  onwards bytes i := by
    change i ≤ if i < bytes.length then i + 1 else i
    split <;> omega
  blind front tail tail' i h := by
    change (if i < (front ++ tail).length then i + 1 else i) < front.length at h
    have hi : i < front.length := by split at h <;> omega
    unfold skip
    rw [List.length_append, List.length_append, if_pos (by omega), if_pos (by omega)]

theorem isLocal_eat (c : Char) : IsLocal (eat c) where
  onwards bytes i := by
    unfold eat
    split <;> simp [finalPos]
  blind front tail tail' i h := by
    have hi : i < front.length := by
      unfold eat at h
      split at h <;> simp only [finalPos] at h <;> omega
    unfold eat
    rw [List.getElem?_append_left hi, List.getElem?_append_left hi]

theorem isLocal_atEnd : IsLocal atEnd where
  onwards _ _ := le_rfl
  blind front tail tail' i h := by
    change i < front.length at h
    unfold atEnd
    rw [List.length_append, List.length_append, decide_eq_false (by omega),
      decide_eq_false (by omega)]

/-- A run that ends before the end of a list does not depend on what comes behind. -/
theorem takeWhile_append_of_lt {p : α → Bool} {as bs : List α}
    (h : ((as ++ bs).takeWhile p).length < as.length) (bs' : List α) :
    (as ++ bs').takeWhile p = (as ++ bs).takeWhile p := by
  rw [List.takeWhile_append] at h
  split at h
  · rw [List.length_append] at h
    omega
  · rename_i hne
    rw [List.takeWhile_append, List.takeWhile_append, if_neg hne, if_neg hne]

theorem isLocal_advance (stops : Char → Bool) : IsLocal (advance stops) where
  onwards _ _ := Nat.le_add_right _ _
  blind front tail tail' i h := by
    change i + (((front ++ tail).drop i).takeWhile _).length < front.length at h
    have hi : i ≤ front.length := by omega
    rw [List.drop_append_of_le_length hi] at h
    have hlt : ((front.drop i ++ tail).takeWhile fun b => !stops (Char.ofUInt8 b)).length <
        (front.drop i).length := by
      rw [List.length_drop]
      omega
    unfold advance
    rw [List.drop_append_of_le_length hi, List.drop_append_of_le_length hi,
      takeWhile_append_of_lt hlt tail']

/-- Whether a position is a boundary shows at the byte behind it. -/
theorem isBoundary_append {front : List UInt8} {i : Nat} (h : i < front.length)
    (tail : List UInt8) : isBoundary (front ++ tail) i = isBoundary front i := by
  unfold isBoundary
  rw [List.getElem?_append_left h, List.length_append, beq_false_of_ne (by omega),
    beq_false_of_ne (by omega)]

theorem isLocal_slice (start : Nat) : IsLocal (slice start) where
  onwards bytes i := by
    unfold slice
    cases slice? bytes start i <;> exact le_rfl
  blind front tail tail' i h := by
    have hi : i < front.length := by
      unfold slice at h
      cases hs : slice? (front ++ tail) start i <;> rw [hs] at h <;> exact h
    have hslice : ∀ tail, slice? (front ++ tail) start i = slice? front start i := by
      intro tail
      unfold slice?
      by_cases hle : start ≤ i
      · rw [isBoundary_append hi, isBoundary_append (lt_of_le_of_lt hle hi),
          List.take_append_of_le_length hi.le]
      · rw [if_neg fun h => hle h.1, if_neg fun h => hle h.1]
    unfold slice
    rw [hslice, hslice]

theorem IsLocal.bind {y : ByteReader α} {g : α → ByteReader β} (hy : IsLocal y)
    (hg : ∀ a, IsLocal (g a)) : IsLocal (y >>= g) where
  onwards bytes i := by
    have hon := hy.onwards bytes i
    rw [bind_apply]
    rcases hout : y bytes i with e | ⟨a, j⟩ <;> rw [hout] at hon
    · exact hon
    · exact le_trans hon ((hg a).onwards bytes j)
  blind front tail tail' i h := by
    have hblind := hy.blind front tail tail' i
    rw [bind_apply] at h
    rw [bind_apply, bind_apply]
    rcases hout : y (front ++ tail) i with e | ⟨a, j⟩ <;> rw [hout] at h hblind
    · rw [hblind h]
    · have hj : j < front.length := lt_of_le_of_lt ((hg a).onwards _ j) h
      rw [hblind hj]
      exact (hg a).blind front tail tail' j h

theorem isLocal_name (ends forbidden : List Char) (fault : Fault) :
    IsLocal (name ends forbidden fault) := by
  refine isLocal_position.bind fun start => (isLocal_advance _).bind fun _ => isLocal_peek.bind
    fun c? => isLocal_position.bind fun stop? => ?_
  cases c? with
  | none => exact isLocal_stop fault
  | some c =>
    dsimp only
    split
    · exact isLocal_slice start
    · exact isLocal_stop fault

/-- A repetition only moves onwards. -/
theorem IsLocal.le_collect {step : ByteReader (Option α)} (h : IsLocal step) (bytes : List UInt8)
    (i : Nat) : i ≤ finalPos (collect step bytes i) := by
  induction hn : bytes.length - i using Nat.strong_induction_on generalizing i with
  | _ n ih =>
    have hstep := h.onwards bytes i
    rw [collect]
    rcases hout : step bytes i with e | ⟨_ | a, j⟩ <;> rw [hout] at hstep <;> dsimp only
    · exact hstep
    · exact hstep
    · split
      · rename_i hlt
        have hrest := ih _ (hn ▸ hlt) j rfl
        rcases hout' : collect step bytes j with e | ⟨as, k⟩ <;> rw [hout'] at hrest <;>
          exact le_trans hstep hrest
      · exact hstep

theorem IsLocal.many {step : ByteReader (Option α)} (h : IsLocal step) : IsLocal (many step) where
  onwards := h.le_collect
  blind front tail tail' i hfinal := by
    change finalPos (collect step (front ++ tail) i) < front.length at hfinal
    change collect step (front ++ tail') i = collect step (front ++ tail) i
    induction hn : front.length - i using Nat.strong_induction_on generalizing i with
    | _ n ih =>
      have hon := h.onwards (front ++ tail) i
      have hblind := h.blind front tail tail' i
      rw [collect] at hfinal
      rw [collect, collect]
      rcases hout : step (front ++ tail) i with e | ⟨_ | a, j⟩ <;>
        rw [hout] at hon hblind hfinal
      · rw [hblind hfinal]
      · rw [hblind hfinal]
      · change i ≤ j at hon
        dsimp only at hfinal
        have hrest := h.le_collect (front ++ tail) j
        have hj : j < front.length := by
          split at hfinal
          · rcases hout' : collect step (front ++ tail) j with e | ⟨as, k⟩ <;>
              rw [hout'] at hfinal hrest <;> exact lt_of_le_of_lt hrest hfinal
          · exact hfinal
        rw [hblind hj]
        simp only [List.length_append] at hfinal ⊢
        -- both repetitions go on, or both end here
        by_cases hij : i < j
        · rw [if_pos (by omega)] at hfinal
          rw [if_pos (by omega), if_pos (by omega)]
          have hlt : finalPos (collect step (front ++ tail) j) < front.length := by
            rcases hout' : collect step (front ++ tail) j with e | ⟨as, k⟩ <;>
              rw [hout'] at hfinal <;> exact hfinal
          rw [ih _ (by omega) j hlt rfl]
        · rw [if_neg (by omega), if_neg (by omega)]

end ByteReader

end JavaGenerics
