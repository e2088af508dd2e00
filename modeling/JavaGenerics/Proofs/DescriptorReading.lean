import JavaGenerics.Descriptor.Reading
import JavaGenerics.Proofs.Reading

/-!
# What is read as a descriptor

The readers of descriptors accept exactly the texts of the descriptors that are
*readable*: their classes have names without delimiters, and their arrays have at most
as many dimensions as a descriptor may have. A text is read as the one descriptor whose text
it is (`JavaGenerics.FieldType.parse_eq_ok`, `JavaGenerics.MethodDescriptor.parse_eq_ok`),
so that reading and writing undo each other (`JavaGenerics.Grammar.descriptors_round_trip`).

Descriptors are simpler than signatures: nothing nests but array dimensions, and the first
character of a type tells what it is. So each reader is followed in one step.
-/

namespace JavaGenerics

open Reader Grammar

variable {cs rest : List Char}

/-! ### Field types -/

/-- A name that a descriptor can hold: it is not empty and holds none of the characters that
delimit it. -/
def IsDescriptorName (name : String) : Prop :=
  name.toList ≠ [] ∧ ∀ c ∈ name.toList, c ∉ [';', '.', '[', '<', '>']

namespace FieldType

/-- A field type that can be read with `room` array dimensions to open. -/
structure Within (room : Nat) (t : FieldType) : Prop where
  name : ∀ name, t.innermost = .object name → IsDescriptorName name
  dimensions : t.dimensions ≤ room

/-- A field type whose text can be read. -/
def IsReadable (t : FieldType) : Prop := t.Within maxDimensions

theorem Within.mono {room room' : Nat} {t : FieldType} (h : t.Within room) (hle : room ≤ room') :
    t.Within room' := ⟨h.name, Nat.le_trans h.dimensions hle⟩

theorem within_array_iff {room : Nat} {elem : FieldType} :
    (array elem).Within (room + 1) ↔ elem.Within room :=
  ⟨fun h => ⟨h.name, Nat.le_of_succ_le_succ h.dimensions⟩,
    fun h => ⟨h.name, Nat.succ_le_succ h.dimensions⟩⟩

/-- A field type begins with one of ten characters. -/
theorem head?_spelling (t : FieldType) :
    ∃ c ∈ ['L', '[', 'B', 'C', 'D', 'F', 'I', 'J', 'S', 'Z'], t.spelling.head? = some c := by
  cases t with
  | base b => exact ⟨b.letter, by cases b <;> decide, rfl⟩
  | object name => exact ⟨'L', by simp, rfl⟩
  | array elem => exact ⟨'[', by simp, rfl⟩

theorem spelling_ne_nil (t : FieldType) : t.spelling ≠ [] := by
  obtain ⟨c, -, hhead⟩ := t.head?_spelling
  intro hnil
  rw [hnil] at hhead
  cases hhead

/-- A field type does not begin with any other character. -/
theorem head?_spelling_append_ne (t : FieldType) {c : Char}
    (hc : c ∉ ['L', '[', 'B', 'C', 'D', 'F', 'I', 'J', 'S', 'Z']) (rest : List Char) :
    (t.spelling ++ rest).head? ≠ some c := by
  obtain ⟨d, hd, hhead⟩ := t.head?_spelling
  rw [List.head?_append, hhead, Option.some_or]
  rintro ⟨⟩
  exact hc hd

/-- What is read as the name of a class, behind its first character. -/
theorem readName_eq_ok {t : FieldType} :
    (do
      let name ← Grammar.name [';'] ['.', '[', '<', '>'] .className
      skip
      pure (object name) : Reader Stop FieldType) cs = .ok (t, rest) ↔
      ∃ name, t = object name ∧ IsDescriptorName name ∧ cs = name.toList ++ ';' :: rest := by
  have hname : ∀ name : String, (name.toList ≠ [] ∧ ∀ c ∈ name.toList,
      c ∉ [';'] ∧ c ∉ ['.', '[', '<', '>']) ↔ IsDescriptorName name := fun name => by
    simp [IsDescriptorName]
  simp only [bind_eq_ok, name_eq_ok, hname]
  constructor
  · rintro ⟨name, mid, ⟨hn, rfl, c, hc, hhead⟩, ⟨⟩, mid', hskip, hpure⟩
    obtain rfl := List.mem_singleton.1 hc
    obtain ⟨tail, rfl⟩ := List.head?_eq_some_iff.1 hhead
    cases hskip
    cases hpure
    exact ⟨name, rfl, hn, rfl⟩
  · rintro ⟨name, rfl, hn, rfl⟩
    exact ⟨name, _, ⟨hn, rfl, ';', by simp, rfl⟩, (), rest, rfl, rfl⟩

/-- What is read as a field type that is no array. -/
theorem reads_readInnermost : Reads readInnermost (Within 0) spelling := by
  intro cs t rest
  rw [readInnermost, peek_bind]
  -- a first character that stands for no base type must open the name of a class
  rcases hletter : cs.head?.bind BaseType.ofLetter? with _ | b
  · dsimp only
    by_cases hopen : cs.head? = some 'L'
    · rw [if_pos hopen, skip_bind, readName_eq_ok]
      obtain ⟨cs, rfl⟩ := List.head?_eq_some_iff.1 hopen
      constructor
      · rintro ⟨name, rfl, hname, hcs⟩
        refine ⟨⟨?_, Nat.le_refl _⟩, ?_⟩
        · rintro _ ⟨⟩
          exact hname
        · simpa [spelling] using hcs
      · rintro ⟨hwithin, hcs⟩
        cases t with
        | base b => cases b <;> cases hcs
        | object name => exact ⟨name, rfl, hwithin.name name rfl, by simpa [spelling] using hcs⟩
        | array elem => cases hcs
    · rw [if_neg hopen]
      refine iff_of_false stop_ne_ok ?_
      rintro ⟨hwithin, rfl⟩
      cases t with
      | base b => simp [spelling] at hletter
      | object name => exact hopen rfl
      | array elem => exact absurd hwithin.dimensions (Nat.not_succ_le_zero _)
  · obtain ⟨c, hhead, hb⟩ := Option.bind_eq_some_iff.1 hletter
    obtain ⟨tail, rfl⟩ := List.head?_eq_some_iff.1 hhead
    obtain rfl := BaseType.ofLetter?_eq_some_iff.1 hb
    dsimp only
    rw [skip_bind, pure_eq_ok, List.tail_cons]
    constructor
    · rintro ⟨rfl, rfl⟩
      exact ⟨⟨fun _ => nofun, Nat.le_refl _⟩, rfl⟩
    · rintro ⟨-, hcs⟩
      rw [hcs] at hletter
      cases t with
      | base b' =>
        obtain rfl : b' = b := by simpa [spelling] using hletter
        exact ⟨rfl, (List.cons.inj hcs).2.symm⟩
      | object name => cases hletter
      | array elem => cases hletter

/-- **What is read as a field type** with `room` array dimensions to open. -/
theorem reads_readWithin (room : Nat) : Reads (readWithin room) (Within room) spelling := by
  induction room with
  | zero =>
    intro cs t rest
    rw [readWithin, eat_bind]
    by_cases hopen : cs.head? = some '['
    · rw [if_pos hopen]
      refine iff_of_false stop_ne_ok ?_
      rintro ⟨hwithin, rfl⟩
      cases t with
      | base b => cases b <;> cases hopen
      | object name => cases hopen
      | array elem => exact absurd hwithin.dimensions (Nat.not_succ_le_zero _)
    · rw [if_neg hopen]
      exact reads_readInnermost cs t rest
  | succ room ih =>
    intro cs t rest
    rw [readWithin, eat_bind]
    by_cases hopen : cs.head? = some '['
    · obtain ⟨cs, rfl⟩ := List.head?_eq_some_iff.1 hopen
      rw [if_pos hopen, List.tail_cons, map_eq_ok]
      constructor
      · rintro ⟨elem, hread, rfl⟩
        obtain ⟨hwithin, rfl⟩ := (ih _ _ _).1 hread
        exact ⟨within_array_iff.2 hwithin, rfl⟩
      · rintro ⟨hwithin, hcs⟩
        cases t with
        | base b => cases b <;> cases hcs
        | object name => cases hcs
        | array elem =>
          exact ⟨elem, (ih _ _ _).2 ⟨within_array_iff.1 hwithin, (List.cons.inj hcs).2⟩, rfl⟩
    · rw [if_neg hopen, reads_readInnermost]
      refine and_congr_left fun hcs => ⟨fun h => h.mono (Nat.zero_le _), fun h => ⟨h.name, ?_⟩⟩
      cases t with
      | base b => exact Nat.le_refl _
      | object name => exact Nat.le_refl _
      | array elem => exact absurd (by rw [hcs]; rfl) hopen

theorem reads_reader : Reads reader IsReadable spelling := reads_readWithin maxDimensions

/-- **What is read as a field descriptor**: exactly the texts of readable field types. -/
theorem parse_eq_ok {text : String} {t : FieldType} :
    FieldType.parse text = .ok t ↔ t.IsReadable ∧ t.spelling = text.toList := by
  rw [FieldType.parse, read_eq_ok, reads_reader, List.append_nil, eq_comm (a := text.toList)]

end FieldType

/-! ### Methods -/

namespace MethodDescriptor

/-- A method descriptor whose text can be read. -/
structure IsReadable (d : MethodDescriptor) : Prop where
  params : ∀ t ∈ d.params, t.IsReadable
  result : ∀ t, d.result = some t → t.IsReadable

/-- What is read as a parameter. -/
theorem repeats_readParam? :
    Repeats readParam? FieldType.IsReadable FieldType.spelling (fun _ _ => True)
      (fun cs rest => cs = ')' :: rest) where
  more cs t rest := by
    rw [readParam?, eat_bind]
    by_cases hclose : cs.head? = some ')'
    · rw [if_pos hclose]
      refine iff_of_false (fun hread => by cases hread) ?_
      rintro ⟨-, rfl, -⟩
      exact t.head?_spelling_append_ne (by decide) rest hclose
    · rw [if_neg hclose, atEnd_bind]
      rcases cs with _ | ⟨c, cs⟩
      · refine iff_of_false stop_ne_ok ?_
        rintro ⟨-, hcs, -⟩
        exact t.spelling_ne_nil (List.append_eq_nil_iff.1 hcs.symm).1
      · change (some <$> FieldType.reader) (c :: cs) = _ ↔ _
        rw [FieldType.reads_reader.map_some]
        simp
  done cs rest := by
    rw [readParam?, eat_bind]
    by_cases hclose : cs.head? = some ')'
    · obtain ⟨tail, rfl⟩ := List.head?_eq_some_iff.1 hclose
      rw [if_pos hclose, pure_eq_ok]
      simp [eq_comm]
    · rw [if_neg hclose, atEnd_bind]
      refine iff_of_false ?_ fun h => hclose (by rw [h]; rfl)
      rcases cs with _ | ⟨c, cs⟩
      · exact stop_ne_ok
      · change ¬(some <$> FieldType.reader) (c :: cs) = _
        rw [FieldType.reads_reader.map_some]
        simp
  spell_ne t _ := t.spelling_ne_nil

/-- What is read as a result. -/
theorem reads_readResult :
    Reads readResult (fun o => ∀ t, o = some t → t.IsReadable) resultSpelling := by
  intro cs o rest
  rw [readResult, eat_bind]
  by_cases hvoid : cs.head? = some 'V'
  · obtain ⟨tail, rfl⟩ := List.head?_eq_some_iff.1 hvoid
    rw [if_pos hvoid, pure_eq_ok, List.tail_cons]
    constructor
    · rintro ⟨rfl, rfl⟩
      exact ⟨fun _ => nofun, rfl⟩
    · rintro ⟨-, hcs⟩
      cases o with
      | none => exact ⟨rfl, (List.cons.inj hcs).2.symm⟩
      | some t =>
        rw [hcs] at hvoid
        exact absurd hvoid (t.head?_spelling_append_ne (by decide) rest)
  · rw [if_neg hvoid, FieldType.reads_reader.map_some]
    constructor
    · rintro ⟨t, rfl, ht, hcs, -⟩
      refine ⟨?_, hcs⟩
      rintro _ ⟨⟩
      exact ht
    · rintro ⟨ht, hcs⟩
      cases o with
      | none => exact absurd (by rw [hcs]; rfl) hvoid
      | some t => exact ⟨t, rfl, ht t rfl, hcs, trivial⟩

/-- **What is read as a method descriptor**: exactly the texts of readable descriptors. -/
theorem parse_eq_ok {text : String} {d : MethodDescriptor} :
    MethodDescriptor.parse text = .ok d ↔ d.IsReadable ∧ d.spelling = text.toList := by
  obtain ⟨params, result⟩ := d
  rw [MethodDescriptor.parse, read_eq_ok, reader, eat_bind]
  by_cases hopen : text.toList.head? = some '('
  · obtain ⟨cs, htext⟩ := List.head?_eq_some_iff.1 hopen
    rw [if_pos hopen, htext, List.tail_cons]
    simp only [bind_eq_ok, repeats_readParam?.many_eq_ok, reads_readResult _ _ _]
    constructor
    · rintro ⟨ps, mid, ⟨hps, left, rfl, rfl, -⟩, o, mid', ⟨ho, rfl⟩, hpure⟩
      cases hpure
      exact ⟨⟨hps, ho⟩, by simp [spelling]⟩
    · rintro ⟨⟨hps, ho⟩, hspell⟩
      refine ⟨params, resultSpelling result,
        ⟨hps, _, ?_, rfl, follows_of_forall fun _ _ => trivial⟩,
        result, [], ⟨ho, (List.append_nil _).symm⟩, rfl⟩
      simpa [spelling] using hspell.symm
  · rw [if_neg hopen]
    refine iff_of_false stop_ne_ok ?_
    rintro ⟨-, hspell⟩
    exact hopen (by rw [← hspell]; rfl)

end MethodDescriptor

/-! ### Reading back what was written -/

/-- To be undone by reading, and to undo it: a text is that of whatever is read from it,
what is `Writable` is read back from its text, and nothing else is read from any text. -/
structure RoundTrips {α : Type} (parse : String → Except SyntaxError α) (text : α → String)
    (Writable : α → Prop) : Prop where
  text_of_parse : ∀ s a, parse s = .ok a → text a = s
  parse_text : ∀ a, Writable a → parse (text a) = .ok a
  writable : ∀ s a, parse s = .ok a → Writable a

/-- A reader that is characterised by the characters of what it reads. -/
theorem RoundTrips.of_parse_eq_ok {α : Type} {parse : String → Except SyntaxError α}
    {spelling : α → List Char} {Writable : α → Prop}
    (h : ∀ {s a}, parse s = .ok a ↔ Writable a ∧ spelling a = s.toList) :
    RoundTrips parse (fun a => String.ofList (spelling a)) Writable where
  text_of_parse s a hparse := by
    rw [(h.1 hparse).2, String.ofList_toList]
  parse_text a ha := h.2 ⟨ha, String.toList_ofList.symm⟩
  writable s a hparse := (h.1 hparse).1

/-- **Descriptors round-trip**, those of fields and those of methods. The names in them may
be any that no delimiter ends early, and an array may have every dimension that a
descriptor may have. -/
theorem Grammar.descriptors_round_trip :
    RoundTrips FieldType.parse FieldType.text FieldType.IsReadable ∧
      RoundTrips MethodDescriptor.parse MethodDescriptor.text MethodDescriptor.IsReadable :=
  ⟨.of_parse_eq_ok FieldType.parse_eq_ok, .of_parse_eq_ok MethodDescriptor.parse_eq_ok⟩

end JavaGenerics
