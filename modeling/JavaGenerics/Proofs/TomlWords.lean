import Mathlib.Algebra.Group.Nat.Defs
import JavaGenerics.Toml.Scalar

/-!
# Numbers and dates in a TOML document

The rules for words speak of digits. This file says what they mean for the numbers
behind the digits.

* An integer is a word exactly if it fits into 64 bits
  (`JavaGenerics.Toml.isInteger_toDigits`, `JavaGenerics.Toml.isInteger_neg_toDigits`).
* A float is refused exactly if it is too large for double precision
  (`JavaGenerics.Toml.overflows_iff`); that numbers which are far too small or too large
  are told by their length only saves the comparison.
* A date is a word exactly if it is in the calendar
  (`JavaGenerics.Toml.isMoment_dateWord`).
-/

namespace JavaGenerics

namespace Toml

/-! ### Digits and what they stand for -/

theorem digitValue_digitChar : ∀ d < 16, digitValue (Nat.digitChar d) = d := by decide

theorem valueIn_append_digit (base : Nat) (ds : List Char) {d : Nat} (hd : d < 16) :
    valueIn base (ds ++ [Nat.digitChar d]) = valueIn base ds * base + d := by
  rw [valueIn, List.foldl_append, List.foldl_cons, List.foldl_nil, digitValue_digitChar d hd,
    valueIn]

/-- The shortest way to write a number stands for it. -/
theorem valueIn_toDigits (n : Nat) : valueIn 10 (Nat.toDigits 10 n) = n := by
  induction n using Nat.strongRecOn with
  | ind n ih =>
    rw [Nat.toDigits_eq_if (by decide)]
    split
    · next hlt =>
      rw [← List.nil_append [_], valueIn_append_digit _ _ (by omega)]
      simp [valueIn]
    · next hge =>
      rw [valueIn_append_digit _ _ (by omega), ih (n / 10) (by omega)]
      omega

/-- A number in exactly `n` digits. -/
def fixedDigits (base : Nat) : (n : Nat) → Nat → List Char
  | 0, _ => []
  | n + 1, v => fixedDigits base n (v / base) ++ [Nat.digitChar (v % base)]

theorem length_fixedDigits (base n v : Nat) : (fixedDigits base n v).length = n := by
  induction n generalizing v with
  | zero => rfl
  | succ n ih => rw [fixedDigits, List.length_append, ih, List.length_singleton]

theorem exists_of_mem_fixedDigits {base n v : Nat} {c : Char} (hbase : 0 < base)
    (h : c ∈ fixedDigits base n v) : ∃ d < base, c = Nat.digitChar d := by
  induction n generalizing v with
  | zero => cases h
  | succ n ih =>
    rcases List.mem_append.1 h with h | h
    · exact ih h
    · exact ⟨v % base, Nat.mod_lt _ hbase, List.mem_singleton.1 h⟩

/-- A number in a fixed number of digits is read as itself. -/
theorem valueIn_fixedDigits {base n v : Nat} (hbase : 0 < base) (hdigit : base ≤ 16)
    (h : v < base ^ n) : valueIn base (fixedDigits base n v) = v := by
  induction n generalizing v with
  | zero =>
    obtain rfl : v = 0 := by simpa using h
    rfl
  | succ n ih =>
    have hhigh : v / base < base ^ n := Nat.div_lt_of_lt_mul (by rwa [Nat.pow_succ'] at h)
    have hlow : v % base < 16 := Nat.lt_of_lt_of_le (Nat.mod_lt _ hbase) hdigit
    rw [fixedDigits, valueIn_append_digit _ _ hlow, ih hhigh, Nat.mul_comm]
    exact Nat.div_add_mod v base

/-! ### Integers -/

/-- Digits without underscores are taken as they are. -/
theorem digits_of_all {isDigit : Char → Bool} (hunderscore : isDigit '_' = false) {cs : List Char}
    (hne : cs ≠ []) (h : ∀ c ∈ cs, isDigit c) : digits isDigit cs = some cs := by
  induction cs with
  | nil => exact absurd rfl hne
  | cons c cs ih =>
    obtain ⟨hc, hcs⟩ := List.forall_mem_cons.1 h
    cases cs with
    | nil => simp [digits, hc]
    | cons d cs =>
      have hd : d ≠ '_' := by
        rintro rfl
        simpa [hunderscore] using hcs _ (.head _)
      simp [digits, hc, ih (by simp) hcs]

theorem isDigit_of_mem_toDigits {n : Nat} {c : Char} (h : c ∈ Nat.toDigits 10 n) : c.isDigit :=
  Nat.isDigit_of_mem_toDigits (by decide) (by decide) h

/-- Only zero begins with a zero. -/
theorem head?_toDigits {n : Nat} (hn : 0 < n) : (Nat.toDigits 10 n).head? ≠ some '0' := by
  induction n using Nat.strongRecOn with
  | ind n ih =>
    rw [Nat.toDigits_eq_if (by decide)]
    split
    · next hlt =>
      have hdigit : ∀ d < 10, 0 < d → [Nat.digitChar d].head? ≠ some '0' := by decide
      exact hdigit n hlt hn
    · next hge =>
      have hne : Nat.toDigits 10 (n / 10) ≠ [] := Nat.toDigits_ne_nil
      obtain ⟨c, cs, hcs⟩ := List.exists_cons_of_ne_nil hne
      have := ih (n / 10) (by omega) (by omega)
      rw [hcs] at this ⊢
      exact this

theorem decimalDigits_toDigits (n : Nat) :
    decimalDigits (Nat.toDigits 10 n) = some (Nat.toDigits 10 n) := by
  have hdigits : digits Char.isDigit (Nat.toDigits 10 n) = some (Nat.toDigits 10 n) :=
    digits_of_all rfl Nat.toDigits_ne_nil fun _ => isDigit_of_mem_toDigits
  rw [decimalDigits, hdigits, Option.filter_some]
  by_cases hn : 0 < n
  · have := head?_toDigits hn
    simp [this]
  · obtain rfl : n = 0 := by omega
    rfl

theorem notMem_toDigits {n : Nat} {c : Char} (hc : c.isDigit = false) : c ∉ Nat.toDigits 10 n :=
  fun h => by simpa [hc] using isDigit_of_mem_toDigits h

/-- A word that names no other base is in base ten. -/
theorem isInteger_of_notMem {cs : List Char} (hhex : 'x' ∉ cs) (hoctal : 'o' ∉ cs)
    (hbinary : 'b' ∉ cs) :
    isInteger cs = (decimalDigits (splitSign cs).2).any fun ds =>
      decide (valueIn 10 ds < Nat.pow 2 63 + (splitSign cs).1.toNat) := by
  unfold isInteger
  split
  · exact absurd (by simp) hhex
  · exact absurd (by simp) hoctal
  · exact absurd (by simp) hbinary
  · rfl

theorem splitSign_toDigits (n : Nat) :
    splitSign (Nat.toDigits 10 n) = (false, Nat.toDigits 10 n) := by
  have hminus : '-' ∉ Nat.toDigits 10 n := notMem_toDigits rfl
  have hplus : '+' ∉ Nat.toDigits 10 n := notMem_toDigits rfl
  unfold splitSign
  split
  · next h => simp [h] at hminus
  · next h => simp [h] at hplus
  · rfl

/-- **An integer that is written in decimals is a word exactly if it fits into 64 bits.** -/
theorem isInteger_toDigits (n : Nat) : isInteger (Nat.toDigits 10 n) ↔ n < 2 ^ 63 := by
  rw [isInteger_of_notMem (notMem_toDigits rfl) (notMem_toDigits rfl) (notMem_toDigits rfl),
    splitSign_toDigits, decimalDigits_toDigits, Option.any_some, decide_eq_true_iff,
    valueIn_toDigits, Nat.pow_eq, Bool.toNat_false, Nat.add_zero]

theorem isInteger_neg_toDigits (n : Nat) : isInteger ('-' :: Nat.toDigits 10 n) ↔ n ≤ 2 ^ 63 := by
  have hnot : ∀ {c : Char}, c ≠ '-' → c.isDigit = false → c ∉ '-' :: Nat.toDigits 10 n :=
    fun hne hc => fun h => (List.mem_cons.1 h).elim hne (notMem_toDigits hc)
  have hsign : splitSign ('-' :: Nat.toDigits 10 n) = (true, Nat.toDigits 10 n) := rfl
  rw [isInteger_of_notMem (hnot (by decide) rfl) (hnot (by decide) rfl) (hnot (by decide) rfl),
    hsign, decimalDigits_toDigits, Option.any_some, decide_eq_true_iff, valueIn_toDigits,
    Nat.pow_eq, Bool.toNat_true, Nat.lt_add_one_iff]

/-! ### Floats -/

/-- The bound, in powers that are small enough to be multiplied out. -/
theorem doubleBound_eq : doubleBound =
    2 ^ 256 * 2 ^ 256 * 2 ^ 256 * 2 ^ 256 - 2 ^ 256 * 2 ^ 256 * 2 ^ 256 * 2 ^ 202 := by
  have hpow (a b c d : Nat) : Nat.pow 2 (a + b + c + d) = 2 ^ a * 2 ^ b * 2 ^ c * 2 ^ d := by
    rw [Nat.pow_eq, Nat.pow_add, Nat.pow_add, Nat.pow_add]
  have hbound : ∀ n k, n = 1024 → k = 970 → doubleBound = Nat.pow 2 n - Nat.pow 2 k := by
    intro n k hn hk
    rw [hn, hk, doubleBound]
  rw [hbound (256 + 256 + 256 + 256) (256 + 256 + 256 + 202) rfl rfl, hpow 256 256 256 256,
    hpow 256 256 256 202]

theorem doubleBound_bounds :
    10 ^ 154 * 10 ^ 154 ≤ doubleBound ∧ doubleBound ≤ 10 ^ 154 * 10 ^ 155 := by
  rw [doubleBound_eq]
  decide

theorem pow_add_le {n : Nat} (q : Nat) (h : n ≤ 308) : 10 ^ (n + q) ≤ doubleBound * 10 ^ q := by
  obtain ⟨a, b, rfl, ha, hb⟩ : ∃ a b, n = a + b ∧ a ≤ 154 ∧ b ≤ 154 :=
    ⟨min n 154, n - min n 154, by omega, by omega, by omega⟩
  rw [Nat.pow_add]
  refine Nat.mul_le_mul_right _ (Nat.le_trans ?_ doubleBound_bounds.1)
  rw [Nat.pow_add]
  exact Nat.mul_le_mul (Nat.pow_le_pow_right (by decide) ha) (Nat.pow_le_pow_right (by decide) hb)

theorem mul_le_pow_add {n : Nat} (q : Nat) (h : 309 ≤ n) : doubleBound * 10 ^ q ≤ 10 ^ (n + q) := by
  obtain ⟨a, b, rfl, ha, hb⟩ : ∃ a b, n = a + b ∧ 154 ≤ a ∧ 155 ≤ b :=
    ⟨154, n - 154, by omega, by omega, by omega⟩
  rw [Nat.pow_add]
  refine Nat.mul_le_mul_right _ (Nat.le_trans doubleBound_bounds.2 ?_)
  rw [Nat.pow_add]
  exact Nat.mul_le_mul (Nat.pow_le_pow_right (by decide) ha) (Nat.pow_le_pow_right (by decide) hb)

/-- The length of a number says between which powers of ten it lies. -/
theorem pow_length_toString {m len : Nat} (hm : 0 < m) (hlen : (toString m).length = len + 1) :
    10 ^ len ≤ m ∧ m < 10 ^ (len + 1) := by
  have hdigits : (Nat.toDigits 10 m).length = len + 1 := by
    rw [← hlen]
    change _ = (Nat.repr m).length
    rw [Nat.repr_eq_ofList_toDigits, String.length_ofList]
  refine ⟨?_, (Nat.length_toDigits_le_iff (by decide) (by omega)).1 (by omega)⟩
  cases len with
  | zero => exact hm
  | succ len =>
    rw [← Nat.not_lt, ← Nat.length_toDigits_le_iff (by decide) (by omega), hdigits]
    omega

/-- A number that is short for its exponent does not overflow. -/
theorem lt_of_short {m len p q : Nat} (hm : m < 10 ^ (len + 1)) (h : len + 1 + p ≤ 299 + q) :
    m * 10 ^ p < doubleBound * 10 ^ q := by
  calc m * 10 ^ p < 10 ^ (len + 1) * 10 ^ p :=
        Nat.mul_lt_mul_of_pos_right hm (Nat.pow_pos (by decide))
    _ = 10 ^ (len + 1 + p) := (Nat.pow_add ..).symm
    _ ≤ 10 ^ (299 + q) := Nat.pow_le_pow_right (by decide) h
    _ ≤ doubleBound * 10 ^ q := pow_add_le q (by decide)

/-- A number that is long for its exponent overflows. -/
theorem le_of_long {m len p q : Nat} (hm : 10 ^ len ≤ m) (h : 320 + q ≤ len + p) :
    doubleBound * 10 ^ q ≤ m * 10 ^ p := by
  calc doubleBound * 10 ^ q ≤ 10 ^ (320 + q) := mul_le_pow_add q (by decide)
    _ ≤ 10 ^ (len + p) := Nat.pow_le_pow_right (by decide) h
    _ = 10 ^ len * 10 ^ p := Nat.pow_add ..
    _ ≤ m * 10 ^ p := Nat.mul_le_mul_right _ hm

/-- **A number is refused exactly if it is too large for double precision.** -/
theorem overflows_iff (m : Nat) (e : Int) :
    overflows m e ↔ doubleBound * 10 ^ (-e).toNat ≤ m * 10 ^ e.toNat := by
  rcases Nat.eq_zero_or_pos m with rfl | hm
  · have hpos : 0 < doubleBound * 10 ^ (-e).toNat :=
      Nat.lt_of_lt_of_le (Nat.pow_pos (by decide)) (pow_add_le _ (Nat.zero_le 308))
    simp only [overflows, decide_true, Bool.true_or, if_true, Nat.zero_mul]
    simpa using Nat.ne_of_gt hpos
  · obtain ⟨len, hlen⟩ : ∃ len, (toString m).length = len + 1 :=
      Nat.exists_eq_succ_of_ne_zero fun h => by simpa using String.length_eq_zero_iff.1 h
    obtain ⟨hge, hlt⟩ := pow_length_toString hm hlen
    simp only [overflows, hlen]
    split
    case isTrue hsmall =>
      have hsize : ((len + 1 : Nat) : Int) + e < 300 := by simpa [Nat.ne_of_gt hm] using hsmall
      have := lt_of_short hlt (p := e.toNat) (q := (-e).toNat) (by omega)
      simpa using this
    case isFalse =>
      split
      case isTrue hlarge =>
        have := le_of_long hge (p := e.toNat) (q := (-e).toNat) (by omega)
        simpa using this
      case isFalse =>
        split
        · next he =>
          have hzero : (-e).toNat = 0 := by omega
          simp [hzero]
        · next he =>
          have hzero : e.toNat = 0 := by omega
          simp [hzero]

/-! ### Dates and times -/

theorem isDigit_of_mem_fixedDigits {n v : Nat} {c : Char} (h : c ∈ fixedDigits 10 n v) :
    c.isDigit := by
  obtain ⟨d, hd, rfl⟩ := exists_of_mem_fixedDigits (by decide) h
  rw [Nat.isDigit_digitChar]
  exact decide_eq_true hd

/-- A number in a fixed number of digits is read off the front of a word. -/
theorem fixed?_append {n v : Nat} (h : v < 10 ^ n) (rest : List Char) :
    fixed? n (fixedDigits 10 n v ++ rest) = some (v, rest) := by
  have hall : (fixedDigits 10 n v).all Char.isDigit :=
    List.all_eq_true.2 fun _ => isDigit_of_mem_fixedDigits
  simp only [fixed?, List.take_left' (length_fixedDigits 10 n v),
    List.drop_left' (length_fixedDigits 10 n v), length_fixedDigits, hall,
    valueIn_fixedDigits (by decide) (by decide) h]
  rfl

theorem after?_cons (c : Char) (cs : List Char) : after? c (c :: cs) = some cs := by
  rw [after?, if_pos rfl]

theorem after?_of_ne {c d : Char} (h : d ≠ c) (cs : List Char) : after? c (d :: cs) = none := by
  rw [after?, if_neg h]

/-- A date in words. -/
def dateWord (year month day : Nat) : List Char :=
  fixedDigits 10 4 year ++ '-' :: (fixedDigits 10 2 month ++ '-' :: fixedDigits 10 2 day)

/-- A time of the day in words. -/
def timeWord (hour minute second : Nat) : List Char :=
  fixedDigits 10 2 hour ++ ':' :: (fixedDigits 10 2 minute ++ ':' :: fixedDigits 10 2 second)

/-- Whether a date is in the calendar. -/
def InCalendar (year month day : Nat) : Prop :=
  1 ≤ month ∧ month ≤ 12 ∧ 1 ≤ day ∧ day ≤ daysIn year month

instance (year month day : Nat) : Decidable (InCalendar year month day) :=
  inferInstanceAs (Decidable (_ ∧ _))

theorem afterDate?_dateWord {year month day : Nat} (hyear : year < 10 ^ 4) (hmonth : month < 10 ^ 2)
    (hday : day < 10 ^ 2) (rest : List Char) :
    afterDate? (dateWord year month day ++ rest) =
      if InCalendar year month day then some rest else none := by
  rw [afterDate?, dateWord, List.append_assoc, fixed?_append hyear]
  simp [fixed?_append hmonth, fixed?_append hday, after?_cons, InCalendar]
  rfl

theorem afterTime?_timeWord {hour minute second : Nat} (hhour : hour < 10 ^ 2)
    (hminute : minute < 10 ^ 2) (hsecond : second < 10 ^ 2) :
    afterTime? (timeWord hour minute second) =
      if hour ≤ 23 ∧ minute ≤ 59 ∧ second ≤ 60 then some [] else none := by
  have hlast := fixed?_append hsecond []
  rw [List.append_nil] at hlast
  rw [afterTime?, timeWord, fixed?_append hhour]
  simp [fixed?_append hminute, hlast, after?_cons]

/-- No time begins like a date, and no date like a time. -/
theorem afterTime?_dateWord (year month day : Nat) :
    afterTime? (dateWord year month day) = none := by
  obtain ⟨a, b, c, d, hyear⟩ : ∃ a b c d, fixedDigits 10 4 year = [a, b, c, d] := ⟨_, _, _, _, rfl⟩
  have hdigit : ∀ x ∈ [a, b, c, d], x.isDigit :=
    fun x hx => isDigit_of_mem_fixedDigits (hyear ▸ hx)
  have hc : c ≠ ':' := by
    rintro rfl
    simpa using hdigit ':' (by simp)
  rw [afterTime?, dateWord, hyear]
  simp [fixed?, hdigit a, hdigit b, after?_of_ne hc]

theorem afterDate?_timeWord (hour minute second : Nat) :
    afterDate? (timeWord hour minute second) = none := by
  obtain ⟨a, b, hhour⟩ : ∃ a b, fixedDigits 10 2 hour = [a, b] := ⟨_, _, rfl⟩
  have hfront : fixed? 4 (timeWord hour minute second) = none := by
    simp [fixed?, timeWord, hhour]
  rw [afterDate?, hfront]
  rfl

/-- **A date is a word exactly if it is in the calendar.** -/
theorem isMoment_dateWord {year month day : Nat} (hyear : year < 10 ^ 4) (hmonth : month < 10 ^ 2)
    (hday : day < 10 ^ 2) : isMoment (dateWord year month day) ↔ InCalendar year month day := by
  have hdate := afterDate?_dateWord hyear hmonth hday []
  rw [List.append_nil] at hdate
  rw [isMoment, hdate, afterTime?_dateWord]
  by_cases h : InCalendar year month day <;> simp [h]

/-- **A time of the day is a word exactly if a clock can show it**, with a second that may
be inserted. -/
theorem isMoment_timeWord {hour minute second : Nat} (hhour : hour < 10 ^ 2)
    (hminute : minute < 10 ^ 2) (hsecond : second < 10 ^ 2) :
    isMoment (timeWord hour minute second) ↔ hour ≤ 23 ∧ minute ≤ 59 ∧ second ≤ 60 := by
  rw [isMoment, afterDate?_timeWord, afterTime?_timeWord hhour hminute hsecond]
  by_cases h : hour ≤ 23 ∧ minute ≤ 59 ∧ second ≤ 60 <;> simp [h]

end Toml

end JavaGenerics
