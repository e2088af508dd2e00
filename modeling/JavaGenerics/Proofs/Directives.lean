import JavaGenerics.LogFilter
import Mathlib.Data.List.TakeWhile

/-!
# Directives read back

A directive of a log filter is read from a text, and what it says is a text again. A
directive whose parts hold none of the characters that separate them
(`JavaGenerics.Directive.IsWritable`) is the directive that its text stands for
(`JavaGenerics.Directive.parse?_text`); and the directives that texts stand for are of
this kind, unless they begin with a blank
(`JavaGenerics.Directive.isWritable_of_parse?`).

Blanks count for directives, but not at the ends of the settings, which are trimmed
(`JavaGenerics.trim_eq_iff`). That no blank can begin a target is a fact about the two
tables of characters (`JavaGenerics.isBlank_of_isAlphanumeric`).
-/

namespace JavaGenerics

/-! ### Blanks -/

/-- Tables in which no two ranges meet have no character in common. -/
theorem inRanges_eq_false_of_apart {rs ss : List (Nat × Nat)} {c : Char}
    (hapart : rs.all fun r => ss.all fun s => r.2 < s.1 || s.2 < r.1) (h : inRanges rs c) :
    inRanges ss c = false := by
  obtain ⟨r, hr, hrlow, hrhigh⟩ := inRanges_iff.1 h
  rw [Bool.eq_false_iff]
  intro hc
  obtain ⟨s, hs, hslow, hshigh⟩ := inRanges_iff.1 hc
  have := List.all_eq_true.1 (List.all_eq_true.1 hapart r hr) s hs
  simp only [Bool.or_eq_true, decide_eq_true_eq] at this
  omega

/-- No letter and no digit is a blank. -/
theorem isBlank_of_isAlphanumeric {c : Char} (h : isAlphanumeric c) : isBlank c = false :=
  inRanges_eq_false_of_apart (by decide +kernel) h

/-- A target does not begin with a blank. -/
theorem Directive.isBlank_of_isTargetStart {c : Char} (h : isTargetStart c) :
    isBlank c = false := by
  simp only [isTargetStart, Bool.or_eq_true, beq_iff_eq] at h
  rcases h with ((h | rfl) | rfl) | rfl
  · exact isBlank_of_isAlphanumeric h
  all_goals decide

/-- Neither the first character nor the last is a blank. -/
def IsTrimmed (cs : List Char) : Prop :=
  cs.head?.any isBlank = false ∧ cs.getLast?.any isBlank = false

theorem dropWhile_of_head? {p : Char → Bool} {cs : List Char} (h : cs.head?.any p = false) :
    cs.dropWhile p = cs := by
  cases cs with
  | nil => rfl
  | cons c cs => exact List.dropWhile_cons_of_neg (by simpa using h)

theorem head?_dropWhile_any (p : Char → Bool) (cs : List Char) :
    (cs.dropWhile p).head?.any p = false := by
  have h := List.head?_dropWhile_not p cs
  cases hhead : (cs.dropWhile p).head? with
  | none => rfl
  | some c => simpa [hhead] using h

/-- **What trimming leaves**: the text between the blanks at both ends. -/
theorem trim_eq_iff {s t : String} :
    trim s = t ↔ ∃ front back, s.toList = front ++ t.toList ++ back ∧
      (∀ c ∈ front ++ back, isBlank c) ∧ IsTrimmed t.toList := by
  constructor
  · rintro rfl
    have hback := List.takeWhile_append_dropWhile (p := isBlank)
      (l := (s.toList.dropWhile isBlank).reverse)
    refine ⟨s.toList.takeWhile isBlank,
      ((s.toList.dropWhile isBlank).reverse.takeWhile isBlank).reverse, ?_, ?_, ?_, ?_⟩
    · rw [trim, String.toList_ofList, List.append_assoc, ← List.reverse_append, hback,
        List.reverse_reverse, List.takeWhile_append_dropWhile]
    · intro c hc
      rcases List.mem_append.1 hc with hc | hc
      · exact List.mem_takeWhile_imp hc
      · exact List.mem_takeWhile_imp (List.mem_reverse.1 hc)
    · rw [trim, String.toList_ofList]
      -- what is left is a front part of what remained behind the first blanks
      have hhead := head?_dropWhile_any isBlank s.toList
      generalize s.toList.dropWhile isBlank = cs at hhead hback ⊢
      rw [← List.reverse_inj, List.reverse_append, List.reverse_reverse] at hback
      cases hrest : (cs.reverse.dropWhile isBlank).reverse with
      | nil => rfl
      | cons c rest =>
        rw [hrest] at hback
        rw [← hback] at hhead
        simpa using hhead
    · rw [trim, String.toList_ofList, List.getLast?_reverse]
      exact head?_dropWhile_any isBlank _
  · rintro ⟨front, back, hs, hblank, hhead, hlast⟩
    have hfront : ∀ c ∈ front, isBlank c := fun c hc => hblank c (List.mem_append_left _ hc)
    have hback : ∀ c ∈ back.reverse, isBlank c :=
      fun c hc => hblank c (List.mem_append_right _ (List.mem_reverse.1 hc))
    have hrest : ((t.toList ++ back).dropWhile isBlank).reverse.dropWhile isBlank =
        t.toList.reverse := by
      cases hcs : t.toList with
      | nil =>
        rw [List.nil_append, List.dropWhile_eq_nil_iff.2 fun c hc =>
          hblank c (List.mem_append_right _ hc)]
        rfl
      | cons c cs =>
        rw [hcs] at hhead hlast
        have hkept : (c :: cs ++ back).dropWhile isBlank = c :: cs ++ back :=
          dropWhile_of_head? (by simpa using hhead)
        rw [hkept, List.reverse_append, List.dropWhile_append_of_pos hback]
        exact dropWhile_of_head? (by rwa [List.head?_reverse])
    rw [trim, hs, List.append_assoc, List.dropWhile_append_of_pos hfront, hrest,
      List.reverse_reverse, String.ofList_toList]

/-- Trimming twice is trimming once. -/
theorem trim_trim (s : String) : trim (trim s) = trim s := by
  obtain ⟨_, _, _, _, htrimmed⟩ := trim_eq_iff.1 (rfl : trim s = trim s)
  exact trim_eq_iff.2 ⟨[], [], by simp, by simp, htrimmed⟩

/-! ### Separators -/

/-- The pieces between the separators of a list. -/
theorem mem_splitOn {α : Type} [BEq α] [LawfulBEq α] {a : α} {xs l : List α}
    (h : l ∈ xs.splitOn a) : a ∉ l ∧ l ⊆ xs := by
  induction xs generalizing l with
  | nil =>
    rw [List.splitOn_nil, List.mem_singleton] at h
    subst h
    simp
  | cons x xs ih =>
    rw [List.splitOn_cons_eq_if_modifyHead] at h
    split at h
    case isTrue =>
      rcases List.mem_cons.1 h with rfl | h
      · simp
      · exact ⟨(ih h).1, fun c hc => .tail _ ((ih h).2 hc)⟩
    case isFalse hx =>
      obtain ⟨l', ls, hls⟩ := List.exists_cons_of_ne_nil (List.splitOn_ne_nil a xs)
      rw [hls] at ih
      rw [hls, List.modifyHead_cons] at h
      rcases List.mem_cons.1 h with rfl | h
      · obtain ⟨hnot, hsub⟩ := ih (.head _)
        refine ⟨?_, List.cons_subset_cons x hsub⟩
        intro hmem
        rcases List.mem_cons.1 hmem with rfl | hmem
        · simp at hx
        · exact hnot hmem
      · obtain ⟨hnot, hsub⟩ := ih (.tail _ h)
        exact ⟨hnot, fun c hc => .tail _ (hsub hc)⟩

/-- What stands in a list with separators. -/
theorem mem_intercalate {α : Type} {sep : List α} {ls : List (List α)} {a : α}
    (h : a ∈ sep.intercalate ls) : a ∈ sep ∨ ∃ l ∈ ls, a ∈ l := by
  induction ls with
  | nil => simp at h
  | cons l ls ih =>
    cases ls with
    | nil => exact .inr ⟨l, .head _, by simpa using h⟩
    | cons l' ls =>
      rw [List.intercalate_cons_cons, List.append_assoc] at h
      rcases List.mem_append.1 h with h | h
      · exact .inr ⟨l, .head _, h⟩
      · rcases List.mem_append.1 h with h | h
        · exact .inl h
        · rcases ih h with h | ⟨l'', hl, h⟩
          · exact .inl h
          · exact .inr ⟨l'', .tail _ hl, h⟩

theorem takeWhile_append_of_stop {p : Char → Bool} {cs : List Char} {c : Char} {rest : List Char}
    (hcs : ∀ d ∈ cs, p d) (hc : p c = false) : (cs ++ c :: rest).takeWhile p = cs := by
  rw [List.takeWhile_append_of_pos hcs, List.takeWhile_cons_of_neg (by simpa using hc),
    List.append_nil]

/-! ### Conditions on spans -/

namespace Threshold

/-- A threshold is named by its word. -/
theorem named?_word (t : Threshold) : named? t.word = some t := by
  rcases t with _ | level
  · decide +kernel
  · cases level <;> decide +kernel

end Threshold

namespace SpanCondition

/-- The conditions that can be written down in a list: a name holds no bracket that
would end it, a field no brace and at most one equals sign, and neither holds a comma. -/
structure IsWritable (s : SpanCondition) : Prop where
  name : ∀ n, s.name = some n → ∀ c ∈ n.toList, c ∉ [']', '{', ',']
  field : ∀ f, s.field = some f →
    f.toList ≠ [] ∧ fieldText f = f ∧ ∀ c ∈ f.toList, c ∉ ['}', ',']
  /-- Without a field there is a name, and next to a field there is none or one with
  characters. -/
  either : s.name ≠ none ∧ s.field = none ∨ s.name ≠ some "" ∧ s.field ≠ none

/-- What follows the opening bracket in the text of a condition. -/
def inside (s : SpanCondition) : List Char :=
  (s.name.getD "").toList ++ s.field.elim [] (fun f => '{' :: f.toList ++ ['}']) ++ [']']

theorem toList_text (s : SpanCondition) : s.text.toList = '[' :: s.inside := by
  rcases s with ⟨name, _ | field⟩ <;> simp [text, inside]

/-- A name ends where a bracket follows. -/
theorem takeWhile_name {name : List Char} (hname : ∀ c ∈ name, c ∉ [']', '{', ',']) {c : Char}
    (hc : c = ']' ∨ c = '{') (rest : List Char) :
    (name ++ c :: rest).takeWhile (fun c => c != ']' && c != '{') = name := by
  refine takeWhile_append_of_stop (fun d hd => ?_) (by rcases hc with rfl | rfl <;> rfl)
  have := hname d hd
  simp_all

/-- A field ends where a brace follows. -/
theorem takeWhile_field {field : List Char} (hfield : ∀ c ∈ field, c ∉ ['}', ','])
    (rest : List Char) : (field ++ '}' :: rest).takeWhile (· != '}') = field := by
  refine takeWhile_append_of_stop (fun d hd => ?_) rfl
  have := hfield d hd
  simp_all

theorem comma_notMem_inside {s : SpanCondition} (hs : s.IsWritable) : ',' ∉ s.inside := by
  obtain ⟨name, field⟩ := s
  have hname : ',' ∉ (name.getD "").toList := by
    cases name with
    | none => simp
    | some n => exact fun h => hs.name n rfl _ h (by simp)
  have hfield : ∀ f, field = some f → ',' ∉ f.toList :=
    fun f hf h => (hs.field f hf).2.2 _ h (by simp)
  cases field with
  | none => simpa [inside] using hname
  | some f => simpa [inside] using ⟨hname, hfield f rfl⟩

/-- **A condition that can be written down is read back**, whatever comes behind it. -/
theorem read?_inside {s : SpanCondition} (hs : s.IsWritable) (rest : List Char) :
    read? (s.inside ++ rest) = some (s, rest) := by
  obtain ⟨name, field⟩ := s
  cases field with
  | none =>
    obtain ⟨n, rfl⟩ : ∃ n, name = some n := by
      rcases hs.either with ⟨hsome, -⟩ | ⟨-, hfield⟩
      · exact Option.ne_none_iff_exists'.1 hsome
      · exact absurd rfl hfield
    have hread : inside ⟨some n, none⟩ ++ rest = n.toList ++ ']' :: rest := by simp [inside]
    simp [read?, hread, takeWhile_name (hs.name n rfl) (.inl rfl)]
  | some f =>
    obtain ⟨hne, htext, hbrace⟩ := hs.field f rfl
    cases name with
    | none =>
      have hread : inside ⟨none, some f⟩ ++ rest =
          [] ++ '{' :: (f.toList ++ '}' :: ']' :: rest) := by simp [inside]
      rw [read?, hread, takeWhile_name (by simp) (.inr rfl)]
      simp [takeWhile_field hbrace, htext, String.toList_eq_nil_iff.not.1 hne]
    | some n =>
      have hn : n ≠ "" := by
        rcases hs.either with ⟨-, habsent⟩ | ⟨hn, -⟩
        · cases habsent
        · simpa using hn
      have hread : inside ⟨some n, some f⟩ ++ rest =
          n.toList ++ '{' :: (f.toList ++ '}' :: ']' :: rest) := by simp [inside]
      rw [read?, hread, takeWhile_name (hs.name n rfl) (.inr rfl)]
      simp [takeWhile_field hbrace, htext, String.toList_eq_nil_iff.not.1 hne, hn]

/-- What is kept of a field condition is made of its pieces. -/
theorem mem_fieldText {written : String} {c : Char} (h : c ∈ (fieldText written).toList) :
    c = '=' ∨ c ∈ written.toList := by
  rw [fieldText, String.toList_ofList] at h
  rcases mem_intercalate h with hsep | ⟨l, hl, hc⟩
  · exact .inl (List.mem_singleton.1 hsep)
  · exact .inr ((mem_splitOn (List.mem_of_mem_take hl)).2 hc)

/-- A field condition is kept with at most one equals sign. -/
theorem fieldText_fieldText (written : String) :
    fieldText (fieldText written) = fieldText written := by
  have hpieces : ∀ l ∈ (written.toList.splitOn '=').take 2, '=' ∉ l :=
    fun l hl => (mem_splitOn (List.mem_of_mem_take hl)).1
  have hne : (written.toList.splitOn '=').take 2 ≠ [] := by
    simp [List.splitOn_ne_nil]
  have hsplit : (fieldText written).toList.splitOn '=' = (written.toList.splitOn '=').take 2 := by
    rw [fieldText, String.toList_ofList, List.splitOn_intercalate _ hpieces hne]
  rw [fieldText, hsplit, List.take_take, Nat.min_self, fieldText]

theorem fieldText_ne_nil {written : String} (h : written.toList ≠ []) :
    (fieldText written).toList ≠ [] := by
  rw [fieldText, String.toList_ofList]
  by_cases hsign : '=' ∈ written.toList
  · obtain ⟨pre, post, hsplit, hpre⟩ := List.eq_append_cons_of_mem hsign
    obtain ⟨l, ls, hrest⟩ := List.exists_cons_of_ne_nil (List.splitOn_ne_nil '=' post)
    rw [hsplit, List.splitOn_append_cons_self_of_not_mem hpre, hrest]
    simp [List.intercalate_cons_cons]
  · rw [List.splitOn_eq_singleton hsign]
    simpa using h

/-- What a condition that is read looks like: a name, or a name that may be missing and
a field. -/
theorem read?_cases {cs : List Char} {s : SpanCondition} {rest : List Char}
    (h : read? cs = some (s, rest)) :
    ∃ name : List Char, (∀ c ∈ name, c ≠ ']' ∧ c ≠ '{') ∧
      (cs = name ++ ']' :: rest ∧ s = ⟨some (String.ofList name), none⟩ ∨
        ∃ field : List Char, field ≠ [] ∧ '}' ∉ field ∧
          cs = name ++ '{' :: (field ++ '}' :: ']' :: rest) ∧
          s = ⟨if name.isEmpty then none else some (String.ofList name),
            some (fieldText (String.ofList field))⟩) := by
  have hname : ∀ c ∈ cs.takeWhile fun c => c != ']' && c != '{', c ≠ ']' ∧ c ≠ '{' :=
    fun c hc => by simpa using List.mem_takeWhile_imp hc
  refine ⟨_, hname, ?_⟩
  have hcs := List.prefix_iff_eq_append.1
    (List.takeWhile_prefix fun c => c != ']' && c != '{' : _ <+: cs)
  simp only [read?] at h
  generalize (cs.takeWhile fun c => c != ']' && c != '{') = name at h hcs ⊢
  split at h
  · next hdrop =>
    cases h
    exact .inl ⟨by rw [← hdrop, hcs], rfl⟩
  · next fs hdrop =>
    have hfield : '}' ∉ fs.takeWhile (· != '}') :=
      fun hmem => by simpa using List.mem_takeWhile_imp hmem
    have hfs := List.prefix_iff_eq_append.1 (List.takeWhile_prefix (· != '}') : _ <+: fs)
    generalize fs.takeWhile (· != '}') = field at h hfield hfs
    split at h
    · next htail =>
      split at h
      · cases h
      · next hne =>
        cases h
        exact .inr ⟨field, by simpa using hne, hfield, by rw [← htail, hfs, ← hdrop, hcs], rfl⟩
    · cases h
  · cases h

/-- **What is read is a condition that can be written down.** -/
theorem isWritable_of_read? {cs : List Char} {s : SpanCondition} {rest : List Char}
    (h : read? cs = some (s, rest)) (hcomma : ',' ∉ cs) : s.IsWritable := by
  obtain ⟨name, hname, ⟨rfl, rfl⟩ | ⟨field, hne, hbrace, rfl, rfl⟩⟩ := read?_cases h
  · refine ⟨?_, by simp, .inl ⟨by simp, rfl⟩⟩
    rintro n ⟨⟩ c hc
    rw [String.toList_ofList] at hc
    have hc' : c ≠ ',' := by rintro rfl; exact hcomma (by simp [hc])
    simpa using ⟨(hname c hc).1, (hname c hc).2, hc'⟩
  · refine ⟨?_, ?_, .inr ⟨?_, by simp⟩⟩
    · intro n hn c hc
      split at hn
      · cases hn
      · cases hn
        rw [String.toList_ofList] at hc
        have hc' : c ≠ ',' := by rintro rfl; exact hcomma (by simp [hc])
        simpa using ⟨(hname c hc).1, (hname c hc).2, hc'⟩
    · rintro f ⟨⟩
      refine ⟨fieldText_ne_nil (by simpa using hne), fieldText_fieldText _, ?_⟩
      intro c hc
      rcases mem_fieldText hc with rfl | hc
      · decide
      · rw [String.toList_ofList] at hc
        have hc' : c ≠ ',' := by rintro rfl; exact hcomma (by simp [hc])
        simpa using ⟨fun h => hbrace (h ▸ hc), hc'⟩
    · split
      · simp
      · next hname => simpa using hname

end SpanCondition

/-! ### Directives -/

namespace Directive

/-- The directives that can be written down in a list: a target begins as targets do,
and holds none of the characters that end it. -/
structure IsWritable (d : Directive) : Prop where
  target : ∀ t, d.target = some t →
    t.toList.head?.any isTargetStart ∧ ∀ c ∈ t.toList, c ∉ ['=', '[', ',']
  span : ∀ s, d.span = some s → s.IsWritable

/-- A target ends where something else of a directive follows. -/
theorem takeWhile_target {target : List Char} (htarget : ∀ c ∈ target, c ∉ ['=', '[', ','])
    {c : Char} (hc : c = '=' ∨ c = '[') (rest : List Char) :
    (target ++ c :: rest).takeWhile (fun c => c != '=' && c != '[') = target := by
  refine takeWhile_append_of_stop (fun d hd => ?_) (by rcases hc with rfl | rfl <;> rfl)
  have := htarget d hd
  simp_all

theorem threshold?_word (t : Threshold) : threshold? t.word.toList = some t := by
  have hne : t.word.toList.isEmpty = false := by
    rcases t with _ | level
    · rfl
    · cases level <;> rfl
  rw [threshold?, hne, String.ofList_toList]
  exact Threshold.named?_word t

/-- The target that a word in front of a directive names. -/
def wordTarget (word : List Char) : Option String :=
  if word.isEmpty then none else some (String.ofList word)

/-- A directive that goes on behind its first word is read by what comes there. -/
theorem parse?_append {word : List Char} (hword : ∀ c ∈ word, c ∉ ['=', '[', ',']) {c : Char}
    (hc : c = '=' ∨ c = '[') {rest : List Char}
    (hstart : (word ++ c :: rest).head?.any fun c => isTargetStart c || c == '[') :
    parse? (String.ofList (word ++ c :: rest)) =
      if c = '[' then readConfined? (wordTarget word) rest
      else (threshold? rest).map fun threshold => ⟨wordTarget word, threshold, none⟩ := by
  have hunblank : (word ++ c :: rest).dropWhile isBlank = word ++ c :: rest := by
    refine dropWhile_of_head? ?_
    cases hhead : (word ++ c :: rest).head? with
    | none => rfl
    | some d =>
      simp only [hhead, Option.any_some, Bool.or_eq_true, beq_iff_eq] at hstart
      rcases hstart with h | rfl
      · exact isBlank_of_isTargetStart h
      · decide
  simp only [parse?, String.toList_ofList, takeWhile_target hword hc, List.drop_left, hunblank,
    hstart, bne_self_eq_false]
  rcases hc with rfl | rfl <;> simp [wordTarget]

/-- The text of a directive with a target or a condition on spans. -/
theorem text_eq {target : Option String} {threshold : Threshold} {span : Option SpanCondition}
    (hplace : target.any (· ≠ "") ∨ span.isSome) :
    text ⟨target, threshold, span⟩ = String.ofList ((target.getD "").toList ++
      (span.elim [] (fun s => '[' :: s.inside) ++ '=' :: threshold.word.toList)) := by
  rw [← String.toList_inj, String.toList_ofList]
  rcases span with _ | s
  · rcases target with _ | t
    · simp at hplace
    · have hne : t ≠ "" := by simpa using hplace
      simp [text, hne]
  · have hne : s.text ≠ "" := by
      rw [Ne, ← String.toList_eq_nil_iff, SpanCondition.toList_text]
      exact List.cons_ne_nil _ _
    simp [text, hne, SpanCondition.toList_text]

/-- **A directive that can be written down is read back.** -/
theorem parse?_text {d : Directive} (hd : d.IsWritable) : parse? d.text = some d := by
  obtain ⟨target, threshold, span⟩ := d
  cases target with
  | none =>
    cases span with
    | none =>
      rcases threshold with _ | level
      · decide +kernel
      · cases level <;> decide +kernel
    | some s =>
      rw [text_eq (.inr rfl), Option.elim_some, List.cons_append,
        parse?_append (by simp) (.inr rfl) (by simp), if_pos rfl, readConfined?,
        SpanCondition.read?_inside (hd.span s rfl)]
      simp only [Option.bind_eq_bind, Option.bind_some, threshold?_word]
      rfl
  | some t =>
    obtain ⟨hstart, hword⟩ := hd.target t rfl
    have hne : t.toList ≠ [] := fun h => by simp [h] at hstart
    have htarget : wordTarget t.toList = some t := by
      simp [wordTarget, String.toList_eq_nil_iff.not.1 hne]
    have hhead : ∀ rest, (t.toList ++ rest).head?.any fun c => isTargetStart c || c == '[' := by
      intro rest
      obtain ⟨c, cs, hcs⟩ := List.exists_cons_of_ne_nil hne
      rw [hcs] at hstart ⊢
      have hstart : isTargetStart c := by simpa using hstart
      simp [hstart]
    have hplace : (some t).any (· ≠ "") := by simpa using hne
    rw [text_eq (.inl hplace), Option.getD_some]
    cases span with
    | none =>
      rw [Option.elim_none, List.nil_append, parse?_append hword (.inl rfl) (hhead _),
        if_neg (by decide), threshold?_word, htarget]
      rfl
    | some s =>
      rw [Option.elim_some, List.cons_append, parse?_append hword (.inr rfl) (hhead _), if_pos rfl,
        htarget, readConfined?, SpanCondition.read?_inside (hd.span s rfl)]
      simp only [Option.bind_eq_bind, Option.bind_some, threshold?_word]
      rfl

theorem comma_notMem_word (t : Threshold) : ',' ∉ t.word.toList := by
  rcases t with _ | level
  · decide
  · cases level <;> decide

theorem text_ne_empty (d : Directive) : d.text ≠ "" := by
  have hword : d.threshold.word ≠ "" := by
    rcases d.threshold with _ | level
    · decide
    · cases level <;> decide
  simp [text, hword]

theorem comma_notMem_text {d : Directive} (hd : d.IsWritable) : ',' ∉ d.text.toList := by
  obtain ⟨target, threshold, span⟩ := d
  have htarget : ',' ∉ (target.getD "").toList := by
    cases target with
    | none => simp
    | some t => exact fun h => (hd.target t rfl).2 _ h (by simp)
  have hspan : ',' ∉ (span.elim "" SpanCondition.text).toList := by
    cases span with
    | none => simp
    | some s =>
      simpa [SpanCondition.toList_text] using SpanCondition.comma_notMem_inside (hd.span s rfl)
  simp only [text]
  split
  · simpa using comma_notMem_word threshold
  · simpa [htarget, hspan] using comma_notMem_word threshold

theorem readConfined?_cases {target : Option String} {cs : List Char} {d : Directive}
    (h : readConfined? target cs = some d) : d.target = target ∧
      ∃ s rest, SpanCondition.read? cs = some (s, rest) ∧ d.span = some s := by
  obtain ⟨⟨s, rest⟩, hread, h⟩ := Option.bind_eq_some_iff.1 h
  refine (?_ : _ ∧ d.span = some s).imp_right fun hspan => ⟨s, rest, hread, hspan⟩
  dsimp only at h
  split at h
  · obtain ⟨t, -, h⟩ := Option.bind_eq_some_iff.1 h
    cases h
    exact ⟨rfl, rfl⟩
  · split at h
    · cases h
      exact ⟨rfl, rfl⟩
    · cases h

/-- What a directive that is read looks like: a level alone, or what a word in front of
it and the rest say. -/
theorem parse?_cases {text : String} {d : Directive} (h : parse? text = some d) :
    d.target = none ∧ d.span = none ∨
      (text.toList.dropWhile isBlank).head?.any (fun c => isTargetStart c || c == '[') ∧
      ∃ word rest, text.toList = word ++ rest ∧ (∀ c ∈ word, c ≠ '=' ∧ c ≠ '[') ∧
        d.target = wordTarget word ∧
        ∀ s, d.span = some s → ∃ cs rest', rest = '[' :: cs ∧
          SpanCondition.read? cs = some (s, rest') := by
  have hword : ∀ c ∈ text.toList.takeWhile fun c => c != '=' && c != '[', c ≠ '=' ∧ c ≠ '[' :=
    fun c hc => by simpa using List.mem_takeWhile_imp hc
  have htext := List.prefix_iff_eq_append.1
    (List.takeWhile_prefix fun c => c != '=' && c != '[' : _ <+: text.toList)
  simp only [parse?] at h
  generalize (text.toList.takeWhile fun c => c != '=' && c != '[') = word at h hword htext
  split at h
  · cases h
  · next hstart =>
    have hstart :
        (text.toList.dropWhile isBlank).head?.any fun c => isTargetStart c || c == '[' := by
      simp at hstart
      simp [hstart.1]
    split at h
    · next htail =>
      split at h
      · cases h
        exact .inl ⟨rfl, rfl⟩
      · cases h
        exact .inr ⟨hstart, word, _, htext.symm, hword, rfl, by simp⟩
    · next cs htail =>
      obtain ⟨htarget, s, rest, hread, hspan⟩ := readConfined?_cases h
      refine .inr ⟨hstart, word, _, htext.symm, hword, htarget, fun s' hs' => ?_⟩
      cases hspan.symm.trans hs'
      exact ⟨cs, rest, htail, hread⟩
    · obtain ⟨threshold, -, rfl⟩ := Option.map_eq_some_iff.1 h
      exact .inr ⟨hstart, word, _, htext.symm, hword, rfl, by simp⟩

/-- **What is read is a directive that can be written down**, unless its target begins
with a blank. -/
theorem isWritable_of_parse? {text : String} {d : Directive} (h : parse? text = some d)
    (hcomma : ',' ∉ text.toList)
    (hblank : ∀ t, d.target = some t → t.toList.head?.any isBlank = false) : d.IsWritable := by
  rcases parse?_cases h with ⟨htarget, hspan⟩ | ⟨hstart, word, rest, htext, hword, htarget, hspan⟩
  · exact ⟨by simp [htarget], by simp [hspan]⟩
  · rw [htext] at hcomma hstart
    refine ⟨?_, ?_⟩
    · intro t ht
      obtain ⟨c, cs, rfl⟩ : ∃ c cs, word = c :: cs := by
        refine List.exists_cons_of_ne_nil fun hnil => ?_
        simp [htarget, hnil, wordTarget] at ht
      obtain rfl : t = String.ofList (c :: cs) := by simpa [htarget, wordTarget, eq_comm] using ht
      have hc : isBlank c = false := by simpa using hblank _ ht
      have hnot : c ≠ '[' := (hword c (.head _)).2
      refine ⟨by simpa [hc, hnot] using hstart, fun d hd => ?_⟩
      rw [String.toList_ofList] at hd
      simpa using ⟨(hword d hd).1, (hword d hd).2,
        fun h => hcomma (List.mem_append_left _ (h ▸ hd))⟩
    · intro s hs
      obtain ⟨cs, rest', rfl, hread⟩ := hspan s hs
      exact SpanCondition.isWritable_of_read? hread fun h => hcomma (by simp [h])

end Directive

end JavaGenerics
