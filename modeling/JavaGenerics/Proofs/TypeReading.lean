import JavaGenerics.Proofs.Grammatical
import JavaGenerics.Proofs.Reading
import JavaGenerics.Signature.Reading

/-!
# What is read as a type

The readers of types accept exactly the types of the grammar, nested as deep as they are
told, and return the type whose text it was (`JavaGenerics.TypeSig.reads_readWithin`).

The proof follows the readers. Each is shown to read what the grammar has for it, given
that the reader for what is nested inside does (`JavaGenerics.TypeSig.Nests`); the knot is
tied by induction on the levels left. Wherever something may be left out, the next
character decides, and the statement says which characters may come next.
-/

namespace JavaGenerics

open Reader Grammar

variable {cs rest : List Char}

/-! ### Names -/

theorem name_eq_ok_iff_isName {ends : List Char} (hends : ∀ c ∈ ends, c ∈ TypeSig.nameForbidden)
    {fault : Fault} {name : String} :
    Grammar.name ends TypeSig.nameForbidden fault cs = .ok (name, rest) ↔
      IsName name ∧ cs = name.toList ++ rest ∧ ∃ c ∈ ends, rest.head? = some c := by
  rw [name_eq_ok]
  refine and_congr_left fun _ => and_congr_right fun _ => forall₂_congr fun c _ => ?_
  exact and_iff_right_of_imp fun hc he => hc (hends c he)

/-- Components joined by slashes begin with what the first component begins with. -/
theorem intercalate_slash_cons (c : Char) (part : List Char) (parts : List (List Char)) :
    ['/'].intercalate ((c :: part) :: parts) = c :: ['/'].intercalate (part :: parts) := by
  rcases parts with _ | ⟨next, parts⟩
  · rw [List.intercalate_singleton, List.intercalate_singleton]
  · rw [List.intercalate_cons_cons, List.intercalate_cons_cons]
    rfl

/-- The characters of components joined by slashes are slashes and those of the
components. -/
theorem mem_intercalate_slash {parts : List (List Char)} {c : Char}
    (h : c ∈ ['/'].intercalate parts) : c = '/' ∨ ∃ part ∈ parts, c ∈ part := by
  induction parts with
  | nil => simp at h
  | cons part parts ih =>
    rcases parts with _ | ⟨next, parts⟩
    · rw [List.intercalate_singleton] at h
      exact .inr ⟨part, by simp, h⟩
    · rw [List.intercalate_cons_cons, List.mem_append, List.mem_append, List.mem_singleton] at h
      rcases h with (h | h) | h
      · exact .inr ⟨part, by simp, h⟩
      · exact .inl h
      · rcases ih h with h | ⟨p, hp, hc⟩
        · exact .inl h
        · exact .inr ⟨p, List.mem_cons_of_mem _ hp, hc⟩

theorem mem_intercalate_slash_of_mem {parts : List (List Char)} {part : List Char} {c : Char}
    (hpart : part ∈ parts) (hc : c ∈ part) : c ∈ ['/'].intercalate parts := by
  induction parts with
  | nil => cases hpart
  | cons first parts ih =>
    rcases parts with _ | ⟨next, parts⟩
    · rw [List.mem_singleton] at hpart
      rwa [List.intercalate_singleton, ← hpart]
    · rw [List.intercalate_cons_cons, List.mem_append, List.mem_append]
      rcases List.mem_cons.1 hpart with rfl | hpart
      · exact .inl (.inl hc)
      · exact .inr (ih hpart)

/-- The check of slashes finds out whether a run of characters is components joined by
slashes of which none is empty – save that the first may be, if it has begun already. -/
theorem componentsFilled_iff {fresh : Bool} {cs : List Char} :
    TypeSig.componentsFilled fresh cs = true ↔ ∃ part parts,
      cs = ['/'].intercalate (part :: parts) ∧ '/' ∉ part ∧ (fresh = true → part ≠ []) ∧
        ∀ p ∈ parts, '/' ∉ p ∧ p ≠ [] := by
  induction cs generalizing fresh with
  | nil =>
    rw [TypeSig.componentsFilled, Bool.not_eq_true']
    constructor
    · intro hfresh
      exact ⟨[], [], by simp [hfresh]⟩
    · rintro ⟨part, parts, hcs, -, hpart, -⟩
      rcases part with _ | ⟨c, part⟩
      · exact Bool.eq_false_iff.2 fun h => hpart h rfl
      · rw [intercalate_slash_cons] at hcs
        cases hcs
  | cons c cs ih =>
    rw [TypeSig.componentsFilled]
    by_cases hc : c = '/'
    · subst hc
      rw [if_pos rfl, Bool.and_eq_true, Bool.not_eq_true', ih]
      constructor
      · rintro ⟨hfresh, part, parts, rfl, hslash, hpart, hparts⟩
        refine ⟨[], part :: parts, ?_, by simp, by simp [hfresh],
          List.forall_mem_cons.2 ⟨⟨hslash, hpart rfl⟩, hparts⟩⟩
        rw [List.intercalate_cons_cons]
        rfl
      · rintro ⟨part, parts, hcs, hslash, hpart, hparts⟩
        rcases part with _ | ⟨d, part⟩
        · rcases parts with _ | ⟨next, parts⟩
          · simp at hcs
          · rw [List.intercalate_cons_cons] at hcs
            obtain ⟨hnext, hparts⟩ := List.forall_mem_cons.1 hparts
            exact ⟨by simpa using hpart, next, parts, (List.cons.inj hcs).2, hnext.1,
              fun _ => hnext.2, hparts⟩
        · rw [intercalate_slash_cons] at hcs
          exact absurd ((List.cons.inj hcs).1 ▸ List.mem_cons_self) hslash
    · rw [if_neg hc, ih]
      constructor
      · rintro ⟨part, parts, rfl, hslash, -, hparts⟩
        refine ⟨c :: part, parts, (intercalate_slash_cons c part parts).symm, ?_, by simp, hparts⟩
        rw [List.mem_cons, not_or]
        exact ⟨Ne.symm hc, hslash⟩
      · rintro ⟨part, parts, hcs, hslash, -, hparts⟩
        rcases part with _ | ⟨d, part⟩
        · rcases parts with _ | ⟨next, parts⟩
          · simp at hcs
          · rw [List.intercalate_cons_cons] at hcs
            exact absurd (List.cons.inj hcs).1 hc
        · rw [intercalate_slash_cons] at hcs
          exact ⟨part, parts, (List.cons.inj hcs).2, fun h => hslash (List.mem_cons_of_mem _ h),
            by simp, hparts⟩

/-- A class name is a run of characters that delimit nothing, with single slashes
inside. -/
theorem isClassName_iff {name : String} :
    IsClassName name ↔ (name.toList ≠ [] ∧ ∀ c ∈ name.toList,
      c ∉ ['<', '.', ';'] ∧ c ∉ ['[', '>', ':']) ∧
        TypeSig.componentsFilled true name.toList = true := by
  rw [componentsFilled_iff]
  constructor
  · rintro ⟨parts, hne, hparts, rfl⟩
    obtain ⟨part, parts, rfl⟩ := List.exists_cons_of_ne_nil hne
    have hslash : ∀ p ∈ part :: parts, '/' ∉ p.toList ∧ p.toList ≠ [] := fun p hp =>
      ⟨fun h => (hparts p hp).2 _ h (by simp), (hparts p hp).1⟩
    rw [String.toList_intercalate]
    refine ⟨⟨?_, fun c hc => ?_⟩, part.toList, parts.map String.toList, rfl,
      (hslash part (by simp)).1, fun _ => (hslash part (by simp)).2, ?_⟩
    · obtain ⟨c, cs, hpart⟩ := List.exists_cons_of_ne_nil (hslash part (by simp)).2
      exact List.ne_nil_of_mem (mem_intercalate_slash_of_mem
        (List.mem_map_of_mem List.mem_cons_self) (hpart ▸ List.mem_cons_self))
    · rcases mem_intercalate_slash hc with rfl | ⟨p, hp, hcp⟩
      · decide
      · obtain ⟨q, hq, rfl⟩ := List.mem_map.1 hp
        have hchar := (hparts q hq).2 c hcp
        simp only [List.mem_cons, List.not_mem_nil, or_false, not_or] at hchar ⊢
        tauto
    · intro p hp
      obtain ⟨q, hq, rfl⟩ := List.mem_map.1 hp
      exact hslash q (List.mem_cons_of_mem _ hq)
  · rintro ⟨⟨-, hchars⟩, part, parts, hname, hslash, hpart, hparts⟩
    have hall : ∀ p ∈ part :: parts, '/' ∉ p ∧ p ≠ [] :=
      List.forall_mem_cons.2 ⟨⟨hslash, hpart rfl⟩, hparts⟩
    refine ⟨(part :: parts).map String.ofList, by simp, ?_, ?_⟩
    · intro q hq
      obtain ⟨p, hp, rfl⟩ := List.mem_map.1 hq
      rw [IsName, String.toList_ofList]
      refine ⟨(hall p hp).2, fun c hc => ?_⟩
      have hchar := hchars c (hname ▸ mem_intercalate_slash_of_mem hp hc)
      have hc' : c ≠ '/' := fun h => (hall p hp).1 (h ▸ hc)
      simp only [List.mem_cons, List.not_mem_nil, or_false, not_or] at hchar ⊢
      tauto
    · rw [← String.toList_inj, String.toList_intercalate, List.map_map, hname]
      congr 1
      simp [Function.comp_def]

/-! ### How trees begin -/

/-- The characters of a type argument list, which is left out when it is empty. -/
def TypeArg.spellList (args : List TypeArg) : List Char :=
  if args.isEmpty then [] else '<' :: args.flatMap TypeArg.spelling ++ ['>']

theorem TypeArg.spellAll_eq_flatMap (args : List TypeArg) :
    TypeArg.spellAll args = args.flatMap TypeArg.spelling := by
  induction args with
  | nil => rfl
  | cons a args ih => rw [TypeArg.spellAll, ih, List.flatMap_cons]

theorem Segment.spelling_mk (name : String) (args : List TypeArg) :
    (Segment.mk name args).spelling = name.toList ++ TypeArg.spellList args := by
  rcases args with _ | ⟨a, args⟩
  · simp [Segment.spelling, TypeArg.spellList]
  · simp [Segment.spelling, TypeArg.spellList, TypeArg.spellAll_eq_flatMap]

theorem Segment.spellInner_eq_flatMap (ss : List Segment) :
    Segment.spellInner ss = ss.flatMap fun s => '.' :: s.spelling := by
  induction ss with
  | nil => rfl
  | cons s ss ih => rw [Segment.spellInner, ih, List.flatMap_cons]

theorem TypeSig.spelling_ofClass (name : String) (args : List TypeArg) (inner : List Segment) :
    (TypeSig.ofClass (.mk name args) inner).spelling = 'L' :: (name.toList ++
      (TypeArg.spellList args ++ (inner.flatMap (fun s => '.' :: s.spelling) ++ [';']))) := by
  rw [TypeSig.spelling, Segment.spelling_mk, Segment.spellInner_eq_flatMap]
  simp only [List.cons_append, List.append_assoc]

theorem TypeSig.IsClass.head?_spelling {t : TypeSig} (h : t.IsClass) :
    t.spelling.head? = some 'L' := by
  cases h
  rw [TypeSig.spelling_ofClass]
  rfl

/-- A reference type begins with one of three characters. -/
theorem TypeSig.IsReference.head?_spelling {t : TypeSig} (h : t.IsReference) :
    ∃ c ∈ ['L', 'T', '['], t.spelling.head? = some c := by
  cases h with
  | ofClass h => exact ⟨'L', by simp, h.head?_spelling⟩
  | var h => exact ⟨'T', by simp, rfl⟩
  | array h => exact ⟨'[', by simp, rfl⟩

/-- A type begins with one of eleven characters. -/
theorem TypeSig.IsValue.head?_spelling {t : TypeSig} (h : t.IsValue) :
    ∃ c ∈ ['L', 'T', '[', 'B', 'C', 'D', 'F', 'I', 'J', 'S', 'Z'], t.spelling.head? = some c := by
  cases h with
  | base b => exact ⟨b.letter, by cases b <;> decide, rfl⟩
  | reference h =>
    obtain ⟨c, hc, hhead⟩ := h.head?_spelling
    refine ⟨c, ?_, hhead⟩
    simp only [List.mem_cons, List.not_mem_nil, or_false] at hc ⊢
    tauto

/-- A type does not begin with any other character. -/
theorem TypeSig.IsValue.head?_spelling_append_ne {t : TypeSig} (h : t.IsValue) {c : Char}
    (hc : c ∉ ['L', 'T', '[', 'B', 'C', 'D', 'F', 'I', 'J', 'S', 'Z']) (rest : List Char) :
    (t.spelling ++ rest).head? ≠ some c := by
  obtain ⟨d, hd, hhead⟩ := h.head?_spelling
  rw [List.head?_append, hhead, Option.some_or]
  rintro ⟨⟩
  exact hc hd

/-- A name begins with a character that delimits nothing. -/
theorem IsName.head? {name : String} (h : IsName name) :
    ∃ c, name.toList.head? = some c ∧ c ∉ TypeSig.nameForbidden := by
  obtain ⟨c, cs, hname⟩ := List.exists_cons_of_ne_nil h.1
  exact ⟨c, by rw [hname]; rfl, h.2 c (hname ▸ List.mem_cons_self)⟩

/-! ### Types -/

namespace TypeSig

/-- A reference type that nests at most `room` levels deep. -/
structure Within (room : Nat) (t : TypeSig) : Prop where
  reference : t.IsReference
  nesting : t.nesting ≤ room

/-- `nested` reads what may be nested inside a type that itself may nest `room` levels
deep. -/
inductive Nests : Nat → Option (Reader Stop TypeSig) → Prop where
  | none : Nests 0 none
  | some {room : Nat} {reader : Reader Stop TypeSig}
      (h : Reads reader (Within room) TypeSig.spelling) : Nests (room + 1) (some reader)

variable {room : Nat} {nested : Option (Reader Stop TypeSig)}

theorem varEnds_forbidden : ∀ c ∈ [';'], c ∈ nameForbidden := by
  simp [nameForbidden]

/-- What is read as a type variable, behind its first character. -/
theorem readVar_eq_ok {t : TypeSig} :
    readVar ('T' :: cs) = .ok (t, rest) ↔
      (∃ name, IsName name ∧ t = .var name) ∧ 'T' :: cs = t.spelling ++ rest := by
  rw [readVar, skip_bind, bind_eq_ok]
  constructor
  · rintro ⟨name, mid, hread, hvar⟩
    obtain ⟨hname, htail, c, hc, hhead⟩ := (name_eq_ok_iff_isName varEnds_forbidden).1 hread
    obtain rfl := List.mem_singleton.1 hc
    obtain ⟨tail, rfl⟩ := List.head?_eq_some_iff.1 hhead
    obtain ⟨rfl, rfl⟩ := pure_eq_ok.1 hvar
    refine ⟨⟨name, hname, rfl⟩, ?_⟩
    rw [List.tail_cons] at htail
    simp [TypeSig.spelling, htail]
  · rintro ⟨⟨name, hname, rfl⟩, hcs⟩
    have hcs' : cs = name.toList ++ ';' :: rest := by simpa [TypeSig.spelling] using hcs
    exact ⟨name, ';' :: rest, (name_eq_ok_iff_isName varEnds_forbidden).2
      ⟨hname, hcs', ';', by simp, rfl⟩, rfl⟩

theorem TypeArg.spelling_ne_nil {a : TypeArg} (h : a.IsArgument) : a.spelling ≠ [] := by
  cases h with
  | unbounded => simp [TypeArg.spelling]
  | bounded v h =>
    obtain ⟨c, -, hhead⟩ := h.head?_spelling
    intro hnil
    rw [TypeArg.spelling, List.append_eq_nil_iff] at hnil
    rw [hnil.2] at hhead
    cases hhead

section Nested

variable {reader : Reader Stop TypeSig}

/-- What is read as the type in a type argument. -/
theorem readBounded_eq_ok (h : Reads reader (Within room) TypeSig.spelling) {v : Variance}
    {o : Option TypeArg} :
    (do return some (.bounded v (← reader)) : Reader Stop (Option TypeArg)) cs = .ok (o, rest) ↔
      ∃ t, o = some (.bounded v t) ∧ Within room t ∧ cs = t.spelling ++ rest := by
  rw [bind_eq_ok]
  constructor
  · rintro ⟨t, mid, ht, hpure⟩
    obtain ⟨rfl, rfl⟩ := pure_eq_ok.1 hpure
    exact ⟨t, rfl, (h _ _ _).1 ht⟩
  · rintro ⟨t, rfl, ht⟩
    exact ⟨t, rest, (h _ _ _).2 ht, rfl⟩

/-- An argument that is read is one of the grammar. -/
theorem isArgument_of_readArg? (h : Reads reader (Within room) TypeSig.spelling) {a : TypeArg}
    (hread : readArg? reader cs = .ok (some a, rest)) :
    (a.IsArgument ∧ a.nesting ≤ room) ∧ cs = a.spelling ++ rest := by
  have hbounded : ∀ {v : Variance} {t : TypeSig}, Within room t →
      TypeArg.IsArgument (.bounded v t) ∧ (TypeArg.bounded v t).nesting ≤ room :=
    fun ht => ⟨.bounded _ ht.reference, ht.nesting⟩
  rw [readArg?, peek_bind] at hread
  generalize hhead : cs.head? = o at hread
  split at hread
  case h_1 => cases hread
  case h_2 hhead =>
    obtain ⟨tail, rfl⟩ := List.head?_eq_some_iff.1 hhead
    cases hread
    exact ⟨⟨.unbounded, Nat.zero_le _⟩, rfl⟩
  case h_3 hhead =>
    obtain ⟨tail, rfl⟩ := List.head?_eq_some_iff.1 hhead
    obtain ⟨t, hta, ht, rfl⟩ := (readBounded_eq_ok h).1 hread
    cases hta
    exact ⟨hbounded ht, rfl⟩
  case h_4 hhead =>
    obtain ⟨tail, rfl⟩ := List.head?_eq_some_iff.1 hhead
    obtain ⟨t, hta, ht, rfl⟩ := (readBounded_eq_ok h).1 hread
    cases hta
    exact ⟨hbounded ht, rfl⟩
  case h_5 =>
    obtain ⟨t, hta, ht, rfl⟩ := (readBounded_eq_ok h).1 hread
    cases hta
    exact ⟨hbounded ht, rfl⟩
  case h_6 => exact absurd hread stop_ne_ok

/-- Every argument of the grammar that does not nest too deep is read. -/
theorem readArg?_of_isArgument (h : Reads reader (Within room) TypeSig.spelling) {a : TypeArg}
    (harg : a.IsArgument) (hnesting : a.nesting ≤ room) :
    readArg? reader (a.spelling ++ rest) = .ok (some a, rest) := by
  rw [readArg?, peek_bind]
  cases harg with
  | unbounded => rfl
  | @bounded t v ht =>
    have hread : ∀ {v}, (do return some (.bounded v (← reader)) :
        Reader Stop (Option TypeArg)) (t.spelling ++ rest) = .ok (some (.bounded v t), rest) :=
      (readBounded_eq_ok h).2 ⟨t, rfl, ⟨ht, hnesting⟩, rfl⟩
    cases v with
    | upper => exact hread
    | lower => exact hread
    | exact =>
      -- no reference type begins with a character that makes it another argument
      obtain ⟨c, hc, hhead⟩ := ht.head?_spelling
      obtain ⟨tail, hspell⟩ := List.head?_eq_some_iff.1 hhead
      have hspell' : (TypeArg.bounded .exact t).spelling ++ rest = c :: (tail ++ rest) := by
        simp [TypeArg.spelling, Variance.spelling, hspell]
      rw [hspell']
      rw [hspell] at hread
      simp only [List.mem_cons, List.not_mem_nil, or_false] at hc
      rcases hc with rfl | rfl | rfl <;> exact hread

/-- The list ends at the bracket that closes it, and nowhere else. -/
theorem readArg?_eq_none (h : Reads reader (Within room) TypeSig.spelling) :
    readArg? reader cs = .ok (none, rest) ↔ cs = '>' :: rest := by
  rw [readArg?, peek_bind]
  constructor
  · intro hread
    generalize hhead : cs.head? = o at hread
    split at hread
    case h_1 hhead =>
      obtain ⟨tail, rfl⟩ := List.head?_eq_some_iff.1 hhead
      cases hread
      rfl
    case h_2 => cases hread
    case h_6 => exact absurd hread stop_ne_ok
    all_goals
      obtain ⟨t, hta, -⟩ := (readBounded_eq_ok h).1 hread
      cases hta
  · rintro rfl
    rfl

/-- What is read as a type argument: an argument of the grammar, or the bracket that
closes the list. -/
theorem repeats_readArg? (h : Reads reader (Within room) TypeSig.spelling) :
    Repeats (readArg? reader) (fun a => TypeArg.IsArgument a ∧ a.nesting ≤ room) TypeArg.spelling
      (fun _ _ => True) (fun cs rest => cs = '>' :: rest) where
  more cs a rest := by
    constructor
    · intro hread
      obtain ⟨harg, hcs⟩ := isArgument_of_readArg? h hread
      exact ⟨harg, hcs, trivial⟩
    · rintro ⟨⟨harg, hnesting⟩, rfl, -⟩
      exact readArg?_of_isArgument h harg hnesting
  done cs rest := readArg?_eq_none h
  spell_ne a ha := TypeArg.spelling_ne_nil ha.1

/-- What is read behind the bracket that opens a type argument list: at least one argument,
and then the bracket that closes the list. -/
theorem readOpenArgs_eq_ok (h : Reads reader (Within room) TypeSig.spelling)
    {args : List TypeArg} :
    (if cs.head? = some '>' then stop .noTypeArgs else many (readArg? reader) :
        Reader Stop (List TypeArg)) cs = .ok (args, rest) ↔
      (∀ a ∈ args, TypeArg.IsArgument a ∧ a.nesting ≤ room) ∧ args ≠ [] ∧
        cs = args.flatMap TypeArg.spelling ++ '>' :: rest := by
  by_cases hempty : cs.head? = some '>'
  · rw [if_pos hempty]
    obtain ⟨tail, rfl⟩ := List.head?_eq_some_iff.1 hempty
    refine iff_of_false stop_ne_ok ?_
    rintro ⟨hargs, hne, hcs⟩
    obtain ⟨a, args, rfl⟩ := List.exists_cons_of_ne_nil hne
    rw [List.flatMap_cons, List.append_assoc] at hcs
    exact (repeats_readArg? h).not_end (hargs a List.mem_cons_self) trivial hcs.symm
  · rw [if_neg hempty, (repeats_readArg? h).many_eq_ok]
    constructor
    · rintro ⟨hargs, left, rfl, rfl, -⟩
      refine ⟨hargs, ?_, rfl⟩
      rintro rfl
      exact hempty rfl
    · rintro ⟨hargs, -, hcs⟩
      exact ⟨hargs, _, hcs, rfl, follows_of_forall fun _ _ => trivial⟩

end Nested

/-- What is read as a type argument list, or as the lack of one. -/
theorem readArgs_eq_ok (h : Nests room nested) {args : List TypeArg} :
    readArgs nested cs = .ok (args, rest) ↔
      ((∀ a ∈ args, TypeArg.IsArgument a) ∧ TypeArg.listNesting args ≤ room) ∧
        cs = TypeArg.spellList args ++ rest ∧ (args = [] → rest.head? ≠ some '<') := by
  unfold readArgs
  rw [peek_bind]
  by_cases hopen : cs.head? = some '<'
  · rw [if_pos hopen]
    obtain ⟨cs, rfl⟩ := List.head?_eq_some_iff.1 hopen
    cases h with
    | none =>
      refine iff_of_false stop_ne_ok ?_
      rintro ⟨⟨-, hnesting⟩, hcs, hclosed⟩
      obtain rfl := TypeArg.listNesting_le_zero_iff.1 hnesting
      exact hclosed rfl (by rw [← hopen, hcs]; rfl)
    | @some room reader h =>
      rw [TypeArg.listNesting_le_succ_iff, ← forall₂_and]
      refine (readOpenArgs_eq_ok h).trans (and_congr_right fun _ => ?_)
      rcases args with _ | ⟨a, args⟩
      · refine iff_of_false (fun hread => hread.1 rfl) ?_
        rintro ⟨hcs, hclosed⟩
        exact hclosed rfl (by rw [← hopen, hcs]; rfl)
      · simp [TypeArg.spellList]
  · rw [if_neg hopen, pure_eq_ok]
    constructor
    · rintro ⟨rfl, rfl⟩
      exact ⟨⟨by simp, Nat.zero_le _⟩, rfl, fun _ => hopen⟩
    · rintro ⟨-, hcs, -⟩
      rcases args with _ | ⟨a, args⟩
      · exact ⟨rfl, hcs.symm⟩
      · exact absurd (by rw [hcs]; rfl) hopen

/-- What may come behind a segment: without type arguments, its name must end there. -/
def Closes (args : List TypeArg) (rest : List Char) : Prop :=
  args = [] → rest.head? = some '.' ∨ rest.head? = some ';'

/-- What is read as a type argument list behind the name of a segment. -/
theorem readArgs_eq_ok_of_name (h : Nests room nested) {args : List TypeArg} {mid : List Char} :
    (∃ c ∈ ['<', '.', ';'], mid.head? = some c) ∧ readArgs nested mid = .ok (args, rest) ↔
      ((∀ a ∈ args, TypeArg.IsArgument a) ∧ TypeArg.listNesting args ≤ room) ∧
        mid = TypeArg.spellList args ++ rest ∧ Closes args rest := by
  rw [readArgs_eq_ok h]
  rcases args with _ | ⟨a, args⟩
  · constructor
    · rintro ⟨⟨c, hc, hhead⟩, hargs, hmid, hclosed⟩
      have hrest : mid = rest := hmid
      have hc' : c ≠ '<' := fun h => hclosed rfl (by rw [← hrest, hhead, h])
      simp only [List.mem_cons, List.not_mem_nil, or_false] at hc
      refine ⟨hargs, hmid, fun _ => ?_⟩
      rw [← hrest, hhead]
      rcases hc with rfl | rfl | rfl
      · exact absurd rfl hc'
      · exact .inl rfl
      · exact .inr rfl
    · rintro ⟨hargs, hmid, hcloses⟩
      have hrest : mid = rest := hmid
      rcases hcloses rfl with hhead | hhead
      · exact ⟨⟨'.', by simp, by rw [hrest, hhead]⟩, hargs, hmid, fun _ => by simp [hhead]⟩
      · exact ⟨⟨';', by simp, by rw [hrest, hhead]⟩, hargs, hmid, fun _ => by simp [hhead]⟩
  · constructor
    · rintro ⟨-, hargs, hmid, -⟩
      exact ⟨hargs, hmid, by simp [Closes]⟩
    · rintro ⟨hargs, hmid, -⟩
      exact ⟨⟨'<', by simp, by rw [hmid]; rfl⟩, hargs, hmid, by simp⟩

theorem segmentEnds_forbidden : ∀ c ∈ ['<', '.', ';'], c ∈ nameForbidden := by
  simp [nameForbidden]

/-- What is read as a step to a member class. -/
theorem repeats_readInner? (h : Nests room nested) :
    Repeats (readInner? nested) (fun s => Segment.IsMember s ∧ s.nesting ≤ room)
      (fun s => '.' :: s.spelling) (fun s rest => Closes s.args rest)
      (fun cs rest => rest = cs ∧ cs.head? ≠ some '.') := by
  refine repeats_eat ?_
  intro cs o rest
  simp only [bind_eq_ok, name_eq_ok_iff_isName segmentEnds_forbidden]
  constructor
  · rintro ⟨name, mid, ⟨hname, rfl, hend⟩, args, mid', hread, hpure⟩
    cases hpure
    obtain ⟨hargs, rfl, hcloses⟩ := (readArgs_eq_ok_of_name h).1 ⟨hend, hread⟩
    refine ⟨.mk name args, rfl, ⟨.mk hname hargs.1, ?_⟩, ?_, hcloses⟩
    · rw [Segment.nesting_mk]
      exact hargs.2
    · rw [Segment.spelling_mk, List.append_assoc]
  · rintro ⟨⟨name, args⟩, rfl, ⟨hmember, hnesting⟩, rfl, hcloses⟩
    obtain ⟨hname, hargs⟩ := hmember
    rw [Segment.nesting_mk] at hnesting
    obtain ⟨hend, hread⟩ := (readArgs_eq_ok_of_name h).2 ⟨⟨hargs, hnesting⟩, rfl, hcloses⟩
    refine ⟨name, _, ⟨hname, ?_, hend⟩, args, rest, hread, rfl⟩
    rw [Segment.spelling_mk, List.append_assoc]

/-- Behind a segment come the dot of the next one or the semicolon that closes the class
type. -/
theorem closes_spellInner (args : List TypeArg) (inner : List Segment) (rest : List Char) :
    Closes args (inner.flatMap (fun s => '.' :: s.spelling) ++ ';' :: rest) := by
  intro _
  rcases inner with _ | ⟨next, inner⟩
  · exact .inr rfl
  · exact .inl rfl

/-- What is read as the steps to member classes of a class type that is closed then. -/
theorem readInners_eq_ok (h : Nests room nested) {inner : List Segment} :
    many (readInner? nested) cs = .ok (inner, ';' :: rest) ↔
      (∀ s ∈ inner, Segment.IsMember s ∧ s.nesting ≤ room) ∧
        cs = inner.flatMap (fun s => '.' :: s.spelling) ++ ';' :: rest := by
  have hfollows : ∀ inner : List Segment, Follows (fun s => '.' :: s.spelling)
      (fun s rest => Closes s.args rest) inner (';' :: rest) := by
    intro inner
    induction inner with
    | nil => trivial
    | cons s inner ih => exact ⟨closes_spellInner s.args inner rest, ih⟩
  rw [(repeats_readInner? h).many_eq_ok]
  refine and_congr_right fun _ => ?_
  constructor
  · rintro ⟨left, rfl, ⟨rfl, -⟩, -⟩
    rfl
  · rintro rfl
    exact ⟨';' :: rest, rfl, ⟨rfl, by simp⟩, hfollows inner⟩

/-- What is read as a class type. -/
theorem reads_readClassWith (h : Nests room nested) :
    Reads (readClassWith nested) (fun t => t.IsClass ∧ t.nesting ≤ room) TypeSig.spelling := by
  intro cs t rest
  rw [readClassWith, eat_bind]
  by_cases hopen : cs.head? = some 'L'
  · rw [if_pos hopen]
    obtain ⟨cs, rfl⟩ := List.head?_eq_some_iff.1 hopen
    rw [List.tail_cons, bind_eq_ok]
    constructor
    · rintro ⟨name, mid, hname, hread⟩
      split at hread
      case isFalse => exact absurd hread stop_ne_ok
      case isTrue hslashes =>
        simp only [bind_eq_ok] at hread
        obtain ⟨args, mid', hreadArgs, inner, mid'', hreadInner, hclose⟩ := hread
        obtain ⟨rfl, rfl⟩ := eat_pure_eq_ok.1 (bind_eq_ok.2 hclose)
        obtain ⟨hrun, rfl, hend⟩ := name_eq_ok.1 hname
        obtain ⟨hargs, rfl, -⟩ := (readArgs_eq_ok_of_name h).1 ⟨hend, hreadArgs⟩
        obtain ⟨hinner, rfl⟩ := (readInners_eq_ok h).1 hreadInner
        refine ⟨⟨.mk (isClassName_iff.2 ⟨hrun, hslashes⟩) hargs.1 fun s hs => (hinner s hs).1,
          nesting_ofClass_le_iff.2 ⟨?_, fun s hs => (hinner s hs).2⟩⟩, ?_⟩
        · rw [Segment.nesting_mk]
          exact hargs.2
        · rw [spelling_ofClass]
          simp
    · rintro ⟨⟨hclass, hnesting⟩, hcs⟩
      obtain @⟨name, args, inner, hname, hargs, hinner⟩ := hclass
      rw [nesting_ofClass_le_iff, Segment.nesting_mk] at hnesting
      obtain ⟨hrun, hslashes⟩ := isClassName_iff.1 hname
      obtain ⟨hend, hreadArgs⟩ := (readArgs_eq_ok_of_name h).2
        ⟨⟨hargs, hnesting.1⟩, rfl, closes_spellInner args inner rest⟩
      have hreadInner : many (readInner? nested)
          (inner.flatMap (fun s => '.' :: s.spelling) ++ ';' :: rest) = .ok (inner, ';' :: rest) :=
        (readInners_eq_ok h).2 ⟨fun s hs => ⟨hinner s hs, hnesting.2 s hs⟩, rfl⟩
      refine ⟨name, _, name_eq_ok.2 ⟨hrun, ?_, hend⟩, ?_⟩
      · rw [spelling_ofClass] at hcs
        simpa using hcs
      · rw [if_pos hslashes]
        simp only [bind_eq_ok]
        exact ⟨args, _, hreadArgs, inner, _, hreadInner,
          bind_eq_ok.1 (eat_pure_eq_ok.2 ⟨rfl, rfl⟩)⟩
  · rw [if_neg hopen]
    refine iff_of_false stop_ne_ok ?_
    rintro ⟨⟨hclass, -⟩, rfl⟩
    exact hopen (by rw [List.head?_append, hclass.head?_spelling, Option.some_or])

/-- What is read where any type may stand. -/
theorem reads_readAnyWith {reader : Reader Stop TypeSig}
    (h : Reads reader (Within room) TypeSig.spelling) :
    Reads (readAnyWith reader) (fun t => t.IsValue ∧ t.nesting ≤ room) TypeSig.spelling := by
  intro cs t rest
  rw [readAnyWith, peek_bind]
  have hreference : ∀ {t : TypeSig}, t.IsReference →
      (t.spelling ++ rest).head?.bind BaseType.ofLetter? = none := by
    intro t ht
    obtain ⟨c, hc, hhead⟩ := ht.head?_spelling
    simp only [List.mem_cons, List.not_mem_nil, or_false] at hc
    rw [List.head?_append, hhead, Option.some_or]
    rcases hc with rfl | rfl | rfl <;> rfl
  rcases hletter : cs.head?.bind BaseType.ofLetter? with _ | b
  · change reader cs = _ ↔ _
    rw [h]
    constructor
    · rintro ⟨ht, rfl⟩
      exact ⟨⟨.reference ht.reference, ht.nesting⟩, rfl⟩
    · rintro ⟨⟨hvalue, hnesting⟩, rfl⟩
      cases hvalue with
      | base b => simp [TypeSig.spelling] at hletter
      | reference ht => exact ⟨⟨ht, hnesting⟩, rfl⟩
  · obtain ⟨c, hhead, hb⟩ := Option.bind_eq_some_iff.1 hletter
    obtain ⟨tail, rfl⟩ := List.head?_eq_some_iff.1 hhead
    obtain rfl := BaseType.ofLetter?_eq_some_iff.1 hb
    change Except.ok (base b, tail) = _ ↔ _
    constructor
    · intro hread
      cases hread
      exact ⟨⟨.base b, Nat.zero_le _⟩, rfl⟩
    · rintro ⟨⟨hvalue, -⟩, hcs⟩
      rw [hcs] at hletter
      cases hvalue with
      | base b' =>
        obtain rfl : b' = b := by simpa [TypeSig.spelling] using hletter
        cases hcs
        rfl
      | reference ht =>
        rw [hreference ht] at hletter
        cases hletter

/-- What is read as a reference type. -/
theorem reads_readWith (h : Nests room nested) :
    Reads (readWith nested) (Within room) TypeSig.spelling := by
  intro cs t rest
  unfold readWith
  rw [peek_bind]
  constructor
  · intro hread
    generalize hhead : cs.head? = o at hread
    split at hread
    case h_1 =>
      obtain ⟨⟨hclass, hnesting⟩, hcs⟩ := (reads_readClassWith h _ _ _).1 hread
      exact ⟨⟨.ofClass hclass, hnesting⟩, hcs⟩
    case h_2 =>
      obtain ⟨tail, rfl⟩ := List.head?_eq_some_iff.1 hhead
      obtain ⟨⟨name, hname, rfl⟩, hcs⟩ := readVar_eq_ok.1 hread
      exact ⟨⟨.var hname, Nat.zero_le _⟩, hcs⟩
    case h_3 =>
      obtain ⟨tail, rfl⟩ := List.head?_eq_some_iff.1 hhead
      cases h with
      | none => exact absurd hread stop_ne_ok
      | some h =>
        obtain ⟨elem, helem, rfl⟩ := map_eq_ok.1 hread
        obtain ⟨⟨hvalue, hnesting⟩, htail⟩ := (reads_readAnyWith h _ _ _).1 helem
        refine ⟨⟨.array hvalue, Nat.succ_le_succ hnesting⟩, ?_⟩
        rw [TypeSig.spelling, List.cons_append]
        exact congrArg _ htail
    case h_4 => exact absurd hread stop_ne_ok
  · rintro ⟨⟨ht, hnesting⟩, rfl⟩
    cases ht with
    | ofClass hclass =>
      rw [List.head?_append, hclass.head?_spelling, Option.some_or]
      exact (reads_readClassWith h _ _ _).2 ⟨⟨hclass, hnesting⟩, rfl⟩
    | var hname => exact readVar_eq_ok.2 ⟨⟨_, hname, rfl⟩, rfl⟩
    | @array elem hvalue =>
      cases h with
      | none => exact absurd hnesting (Nat.not_succ_le_zero _)
      | some h =>
        have helem := (reads_readAnyWith h (elem.spelling ++ rest) elem rest).2
          ⟨⟨hvalue, Nat.le_of_succ_le_succ hnesting⟩, rfl⟩
        exact map_eq_ok.2 ⟨elem, helem, rfl⟩

/-- **What is read as a reference type** with `room` levels left: a reference type of the
grammar that nests at most so deep. -/
theorem reads_readWithin (room : Nat) :
    Reads (readWithin room) (Within room) TypeSig.spelling := by
  induction room with
  | zero => exact reads_readWith .none
  | succ room ih => exact reads_readWith (.some ih)

theorem nests_nestedWithin (room : Nat) : Nests room (nestedWithin room) := by
  cases room with
  | zero => exact .none
  | succ room => exact .some (reads_readWithin room)

theorem reads_reader : Reads reader (Within maxNesting) TypeSig.spelling :=
  reads_readWithin maxNesting

theorem reads_classReader :
    Reads classReader (fun t => t.IsClass ∧ t.nesting ≤ maxNesting) TypeSig.spelling :=
  reads_readClassWith (nests_nestedWithin maxNesting)

theorem reads_anyReader :
    Reads anyReader (fun t => t.IsValue ∧ t.nesting ≤ maxNesting) TypeSig.spelling :=
  reads_readAnyWith reads_reader

/-- **What is read as a field signature**: exactly the texts of readable types. -/
theorem parse_eq_ok {text : String} {t : TypeSig} :
    TypeSig.parse text = .ok t ↔ t.IsReadable ∧ t.spelling = text.toList := by
  rw [TypeSig.parse, read_eq_ok, reads_reader, List.append_nil]
  constructor
  · rintro ⟨⟨href, hnesting⟩, htext⟩
    exact ⟨⟨href, hnesting⟩, htext.symm⟩
  · rintro ⟨⟨href, hnesting⟩, htext⟩
    exact ⟨⟨href, hnesting⟩, htext.symm⟩

end TypeSig

end JavaGenerics
