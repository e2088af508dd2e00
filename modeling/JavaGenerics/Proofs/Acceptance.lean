import JavaGenerics.Proofs.TypeReading

/-!
# What signature readers accept

The readers of class, method and field signatures accept exactly the texts of the
readable trees, and return the tree (`JavaGenerics.ClassSig.parse_eq_ok`,
`JavaGenerics.MethodSig.parse_eq_ok`, `JavaGenerics.TypeSig.parse_eq_ok`). Handed on as
events, the tree is not lost (`JavaGenerics.Grammar.accepts_exactly_signatures`).

The one place where the grammar and the readers part is behind a type parameter without
bounds. Its class bound may be left out, and the reader decides by one character whether
it is; a name that begins with that character is then taken for a bound
(`JavaGenerics.TypeParamSig.follows_iff_separated`).
-/

namespace JavaGenerics

open Reader Grammar

variable {cs rest : List Char}

/-! ### Type parameters -/

namespace TypeParamSig

/-- Whether a text goes on with a character that a bound can begin with. -/
def Bounded (cs : List Char) : Prop := ∃ c ∈ ['L', 'T', '['], cs.head? = some c

theorem readClassBound_of_bounded (h : Bounded cs) :
    readClassBound cs = (some <$> TypeSig.reader) cs := by
  obtain ⟨c, hc, hhead⟩ := h
  simp only [List.mem_cons, List.not_mem_nil, or_false] at hc
  rw [readClassBound, peek_bind, hhead]
  rcases hc with rfl | rfl | rfl <;> rfl

theorem readClassBound_of_not_bounded (h : ¬Bounded cs) : readClassBound cs = .ok (none, cs) := by
  rw [readClassBound, peek_bind]
  generalize hhead : cs.head? = o
  split
  case h_4 => rfl
  all_goals exact absurd ⟨_, by simp, hhead⟩ h

/-- What is read as a class bound, or as the lack of one. -/
theorem readClassBound_eq_ok {bound : Option TypeSig} :
    readClassBound cs = .ok (bound, rest) ↔
      (∀ t ∈ bound, TypeSig.Within TypeSig.maxNesting t) ∧
        cs = bound.elim [] TypeSig.spelling ++ rest ∧ (bound = none → ¬Bounded rest) := by
  by_cases hopen : Bounded cs
  · rw [readClassBound_of_bounded hopen, map_eq_ok]
    constructor
    · rintro ⟨t, hread, rfl⟩
      obtain ⟨ht, hcs⟩ := (TypeSig.reads_reader _ _ _).1 hread
      exact ⟨by simpa using ht, hcs, by simp⟩
    · rintro ⟨hbound, hcs, hclosed⟩
      rcases bound with _ | t
      · have hrest : cs = rest := hcs
        exact absurd (hrest ▸ hopen) (hclosed rfl)
      · exact ⟨t, (TypeSig.reads_reader _ _ _).2 ⟨hbound t rfl, hcs⟩, rfl⟩
  · rw [readClassBound_of_not_bounded hopen]
    constructor
    · intro hread
      cases hread
      exact ⟨by simp, rfl, fun _ => hopen⟩
    · rintro ⟨hbound, hcs, -⟩
      rcases bound with _ | t
      · have hrest : cs = rest := hcs
        rw [hrest]
      · obtain ⟨c, hc, hhead⟩ := (hbound t rfl).reference.head?_spelling
        refine absurd ⟨c, hc, ?_⟩ hopen
        rw [hcs, Option.elim_some, List.head?_append, hhead, Option.some_or]

/-- What is read as an interface bound. -/
theorem repeats_readInterfaceBound? :
    Repeats readInterfaceBound? (TypeSig.Within TypeSig.maxNesting) (fun t => ':' :: t.spelling)
      (fun _ _ => True) (fun cs rest => rest = cs ∧ cs.head? ≠ some ':') :=
  repeats_eat TypeSig.reads_reader.map_some

/-- A type parameter of the grammar whose bounds do not nest too deep. -/
structure Within (p : TypeParamSig) : Prop where
  name : IsName p.name
  bounds : ∀ t ∈ p.bounds, TypeSig.Within TypeSig.maxNesting t

/-- What may come behind a type parameter: nothing that would be read as a further
bound. -/
def Closes (p : TypeParamSig) (rest : List Char) : Prop :=
  rest.head? ≠ some ':' ∧ (p.bounds = [] → ¬Bounded rest)

theorem spelling_mk (name : String) (classBound : Option TypeSig) (interfaceBounds : List TypeSig)
    (rest : List Char) :
    (TypeParamSig.mk name classBound interfaceBounds).spelling ++ rest =
      name.toList ++ ':' :: (classBound.elim [] TypeSig.spelling ++
        (interfaceBounds.flatMap (fun t => ':' :: t.spelling) ++ rest)) := by
  simp [TypeParamSig.spelling]

/-- What is read as the bounds of a type parameter, and behind them. -/
theorem readBounds_eq_ok {classBound : Option TypeSig} {interfaceBounds : List TypeSig} :
    (∃ mid, readClassBound cs = .ok (classBound, mid) ∧
        many readInterfaceBound? mid = .ok (interfaceBounds, rest)) ↔
      (∀ t ∈ classBound.toList ++ interfaceBounds, TypeSig.Within TypeSig.maxNesting t) ∧
        cs = classBound.elim [] TypeSig.spelling ++
          (interfaceBounds.flatMap (fun t => ':' :: t.spelling) ++ rest) ∧
        rest.head? ≠ some ':' ∧ (classBound.toList ++ interfaceBounds = [] → ¬Bounded rest) := by
  have hafter : (classBound = none → ¬Bounded
      (interfaceBounds.flatMap (fun t => ':' :: t.spelling) ++ rest)) ↔
        (classBound.toList ++ interfaceBounds = [] → ¬Bounded rest) := by
    rcases classBound with _ | t
    · rcases interfaceBounds with _ | ⟨t, ts⟩
      · simp
      · simp [Bounded]
    · simp
  simp only [readClassBound_eq_ok, repeats_readInterfaceBound?.many_eq_ok]
  constructor
  · rintro ⟨mid, ⟨hclass, rfl, hclosed⟩, hinterfaces, left, rfl, ⟨rfl, hcolon⟩, -⟩
    refine ⟨?_, rfl, hcolon, hafter.1 hclosed⟩
    intro t ht
    rw [List.mem_append, Option.mem_toList] at ht
    exact ht.elim (hclass t) (hinterfaces t)
  · rintro ⟨hbounds, rfl, hcolon, hclosed⟩
    refine ⟨_, ⟨fun t ht => hbounds t ?_, rfl, hafter.2 hclosed⟩, fun t ht => hbounds t ?_, rest,
      rfl, ⟨rfl, hcolon⟩, follows_of_forall fun _ _ => trivial⟩
    · exact List.mem_append_left _ (Option.mem_toList.2 ht)
    · exact List.mem_append_right _ ht

/-- What is read as a type parameter: one of the grammar, or the bracket that closes the
list. -/
theorem repeats_read? :
    Repeats read? Within TypeParamSig.spelling Closes (fun cs rest => cs = '>' :: rest) where
  more cs p rest := by
    obtain ⟨name, classBound, interfaceBounds⟩ := p
    rw [read?, eat_bind, spelling_mk]
    have hends : ∀ c ∈ [':'], c ∈ TypeSig.nameForbidden := by
      simp [TypeSig.nameForbidden]
    by_cases hclose : cs.head? = some '>'
    · rw [if_pos hclose]
      refine iff_of_false (fun hread => by cases hread) ?_
      rintro ⟨⟨hname, -⟩, rfl, -⟩
      obtain ⟨c, hhead, hc⟩ := IsName.head? hname
      rw [List.head?_append, hhead, Option.some_or] at hclose
      cases hclose
      exact hc (by decide)
    · rw [if_neg hclose]
      simp only [bind_eq_ok, skip_bind, name_eq_ok_iff_isName hends]
      constructor
      · rintro ⟨name', mid, ⟨hname, rfl, c, hc, hhead⟩, bound, mid', hclass, bounds, mid'',
          hinterfaces, hpure⟩
        cases hpure
        obtain rfl := List.mem_singleton.1 hc
        obtain ⟨tail, rfl⟩ := List.head?_eq_some_iff.1 hhead
        obtain ⟨hbounds, rfl, hcloses⟩ := readBounds_eq_ok.1 ⟨mid', hclass, hinterfaces⟩
        exact ⟨⟨hname, hbounds⟩, rfl, hcloses⟩
      · rintro ⟨⟨hname, hbounds⟩, rfl, hcloses⟩
        obtain ⟨mid, hclass, hinterfaces⟩ := readBounds_eq_ok.2 ⟨hbounds, rfl, hcloses⟩
        exact ⟨name, _, ⟨hname, rfl, ':', by simp, rfl⟩, classBound, mid, hclass,
          interfaceBounds, rest, hinterfaces, rfl⟩
  done cs rest := by
    rw [read?, eat_bind]
    by_cases hclose : cs.head? = some '>'
    · obtain ⟨tail, rfl⟩ := List.head?_eq_some_iff.1 hclose
      rw [if_pos hclose, pure_eq_ok]
      simp [eq_comm]
    · rw [if_neg hclose]
      simp only [bind_eq_ok, skip_bind]
      refine iff_of_false ?_ fun h => hclose (by rw [h]; rfl)
      rintro ⟨name, mid, -, bound, mid', -, bounds, mid'', -, hpure⟩
      cases hpure
  spell_ne p _ := by simp [TypeParamSig.spelling]

/-- In a list that is closed then, each type parameter is followed by what may follow it
exactly if they are separated. -/
theorem follows_iff_separated {ps : List TypeParamSig} (h : ∀ p ∈ ps, Within p) :
    Follows TypeParamSig.spelling Closes ps ('>' :: rest) ↔ Separated ps := by
  induction ps with
  | nil => simp [Follows, Separated]
  | cons p ps ih =>
    obtain ⟨-, hps⟩ := List.forall_mem_cons.1 h
    rw [Follows, ih hps]
    rcases ps with _ | ⟨q, qs⟩
    · simp [Separated, Closes, Bounded]
    · obtain ⟨c, hhead, hc⟩ := (hps q (by simp)).name.head?
      have hnext : ((q :: qs).flatMap TypeParamSig.spelling ++ '>' :: rest).head? = some c := by
        obtain ⟨name, classBound, interfaceBounds⟩ := q
        rw [List.flatMap_cons, List.append_assoc, spelling_mk, List.head?_append, hhead,
          Option.some_or]
      have hcolon : c ≠ ':' := fun h => hc (by rw [h]; decide)
      have hbracket : c ≠ '[' := fun h => hc (by rw [h]; decide)
      unfold Separated
      rw [List.isChain_cons_cons, Closes, Bounded, hnext, hhead]
      refine and_congr_left fun _ => ?_
      simp [hcolon, hbracket]

/-- What is read as a type parameter list, or as the lack of one. -/
theorem listReader_eq_ok {ps : List TypeParamSig} :
    listReader cs = .ok (ps, rest) ↔ ((∀ p ∈ ps, Within p) ∧ Separated ps) ∧
      cs = spellAll ps ++ rest ∧ (ps = [] → rest.head? ≠ some '<') := by
  rw [listReader, eat_bind]
  by_cases hopen : cs.head? = some '<'
  · obtain ⟨cs, rfl⟩ := List.head?_eq_some_iff.1 hopen
    rw [if_pos hopen, peek_bind, List.tail_cons]
    have hlist : ∀ {p ps}, spellAll (p :: ps) ++ rest =
        '<' :: ((p :: ps).flatMap TypeParamSig.spelling ++ '>' :: rest) := by
      intro p ps
      simp [spellAll]
    have hnil : ps = [] →
        ¬('<' :: cs = spellAll ps ++ rest ∧ (ps = [] → rest.head? ≠ some '<')) := by
      rintro rfl ⟨hcs, hclosed⟩
      exact hclosed rfl (by rw [← hopen, hcs]; rfl)
    by_cases hempty : cs.head? = some '>'
    · rw [if_pos hempty]
      obtain ⟨tail, rfl⟩ := List.head?_eq_some_iff.1 hempty
      refine iff_of_false stop_ne_ok ?_
      rintro ⟨⟨hps, hsep⟩, hcs⟩
      rcases ps with _ | ⟨p, ps⟩
      · exact hnil rfl hcs
      · have hfollows : Follows TypeParamSig.spelling Closes (p :: ps) ('>' :: rest) :=
          (follows_iff_separated hps).2 hsep
        have htail := (List.cons.inj (hcs.1.trans hlist)).2
        rw [List.flatMap_cons, List.append_assoc] at htail
        exact repeats_read?.not_end (hps p (by simp)) hfollows.1 htail.symm
    · rw [if_neg hempty, repeats_read?.many_eq_ok]
      constructor
      · rintro ⟨hps, left, rfl, rfl, hfollows⟩
        rcases ps with _ | ⟨p, ps⟩
        · exact absurd rfl hempty
        · exact ⟨⟨hps, (follows_iff_separated hps).1 hfollows⟩, hlist.symm, by simp⟩
      · rintro ⟨⟨hps, hsep⟩, hcs⟩
        rcases ps with _ | ⟨p, ps⟩
        · exact absurd hcs (hnil rfl)
        · exact ⟨hps, _, (List.cons.inj (hcs.1.trans hlist)).2, rfl,
            (follows_iff_separated hps).2 hsep⟩
  · rw [if_neg hopen, pure_eq_ok]
    constructor
    · rintro ⟨rfl, rfl⟩
      exact ⟨⟨by simp, by simp [Separated]⟩, rfl, fun _ => hopen⟩
    · rintro ⟨-, hcs, -⟩
      rcases ps with _ | ⟨p, ps⟩
      · exact ⟨rfl, hcs.symm⟩
      · exact absurd (by rw [hcs]; rfl) hopen

/-- Type parameters follow the grammar and do not nest too deep if and only if all their
bounds do neither. -/
theorem forall_within_iff {ps : List TypeParamSig} :
    (∀ p ∈ ps, Within p) ↔ (∀ p ∈ ps, p.IsGrammatical) ∧
      ∀ t ∈ allBounds ps, t.nesting ≤ TypeSig.maxNesting := by
  simp only [allBounds, List.mem_flatMap]
  constructor
  · intro h
    refine ⟨fun p hp => ⟨(h p hp).name, fun t ht => ((h p hp).bounds t ht).reference⟩, ?_⟩
    rintro t ⟨p, hp, ht⟩
    exact ((h p hp).bounds t ht).nesting
  · rintro ⟨hgrammatical, hnesting⟩ p hp
    exact ⟨(hgrammatical p hp).name, fun t ht =>
      ⟨(hgrammatical p hp).bounds t ht, hnesting t ⟨p, hp, ht⟩⟩⟩

end TypeParamSig

/-! ### Signatures -/

namespace ClassSig

/-- What is read as an interface of a class. -/
theorem repeats_readInterface? :
    Repeats readInterface? (fun t => t.IsClass ∧ t.nesting ≤ TypeSig.maxNesting) TypeSig.spelling
      (fun _ _ => True) (fun cs rest => cs = [] ∧ rest = []) where
  more cs t rest := by
    rw [readInterface?, atEnd_bind]
    rcases cs with _ | ⟨c, cs⟩
    · refine iff_of_false (fun hread => by cases hread) ?_
      rintro ⟨⟨hclass, -⟩, hcs, -⟩
      have hhead := hclass.head?_spelling
      rw [(List.append_eq_nil_iff.1 hcs.symm).1] at hhead
      cases hhead
    · change (some <$> TypeSig.classReader) (c :: cs) = _ ↔ _
      rw [TypeSig.reads_classReader.map_some]
      simp
  done cs rest := by
    rw [readInterface?, atEnd_bind]
    rcases cs with _ | ⟨c, cs⟩
    · exact pure_eq_ok.trans (by simp)
    · change (some <$> TypeSig.classReader) (c :: cs) = _ ↔ _
      rw [TypeSig.reads_classReader.map_some]
      simp
  spell_ne t ht := by
    intro hnil
    have hhead := ht.1.head?_spelling
    rw [hnil] at hhead
    cases hhead

/-- **What is read as a class signature**: exactly the texts of readable trees. -/
theorem parse_eq_ok {text : String} {s : ClassSig} :
    ClassSig.parse text = .ok s ↔ s.IsReadable ∧ s.spelling = text.toList := by
  obtain ⟨typeParams, superclass, interfaces⟩ := s
  rw [ClassSig.parse, read_eq_ok, ClassSig.reader]
  simp only [bind_eq_ok, TypeParamSig.listReader_eq_ok, TypeSig.reads_classReader _ _ _,
    repeats_readInterface?.many_eq_ok, TypeParamSig.forall_within_iff]
  constructor
  · rintro ⟨ps, mid, ⟨⟨⟨hps, hbounds⟩, hsep⟩, htext, -⟩, t, mid', ⟨⟨ht, hnesting⟩, rfl⟩, ts, mid'',
      ⟨hts, left, rfl, ⟨rfl, rfl⟩, -⟩, hpure⟩
    cases hpure
    refine ⟨⟨hps, ht, fun u hu => (hts u hu).1, ?_, hsep⟩, ?_⟩
    · simp only [List.forall_mem_append, List.forall_mem_cons]
      exact ⟨hbounds, hnesting, fun u hu => (hts u hu).2⟩
    · simp [ClassSig.spelling, htext]
  · rintro ⟨⟨hps, ht, hts, hnesting, hsep⟩, htext⟩
    simp only [List.forall_mem_append, List.forall_mem_cons] at hnesting
    obtain ⟨hbounds, hsuper, hinterfaces⟩ := hnesting
    refine ⟨typeParams, _, ⟨⟨⟨hps, hbounds⟩, hsep⟩, ?_, fun _ => ?_⟩, superclass, _,
      ⟨⟨ht, hsuper⟩, rfl⟩, interfaces, [], ⟨fun u hu => ⟨hts u hu, hinterfaces u hu⟩, [], rfl,
        ⟨rfl, rfl⟩, follows_of_forall fun _ _ => trivial⟩, rfl⟩
    · rw [← htext]
      simp [ClassSig.spelling]
    · rw [List.head?_append, ht.head?_spelling]
      simp

end ClassSig

namespace MethodSig

/-- What is read as a parameter of a method. -/
theorem repeats_readParam? :
    Repeats readParam? (fun t => t.IsValue ∧ t.nesting ≤ TypeSig.maxNesting) TypeSig.spelling
      (fun _ _ => True) (fun cs rest => cs = ')' :: rest) where
  more cs t rest := by
    rw [readParam?, eat_bind]
    by_cases hclose : cs.head? = some ')'
    · rw [if_pos hclose]
      refine iff_of_false (fun hread => by cases hread) ?_
      rintro ⟨⟨hvalue, -⟩, rfl, -⟩
      exact hvalue.head?_spelling_append_ne (by decide) rest hclose
    · rw [if_neg hclose, atEnd_bind]
      rcases cs with _ | ⟨c, cs⟩
      · refine iff_of_false stop_ne_ok ?_
        rintro ⟨⟨hvalue, -⟩, hcs, -⟩
        obtain ⟨c, -, hhead⟩ := hvalue.head?_spelling
        rw [(List.append_eq_nil_iff.1 hcs.symm).1] at hhead
        cases hhead
      · change (some <$> TypeSig.anyReader) (c :: cs) = _ ↔ _
        rw [TypeSig.reads_anyReader.map_some]
        simp
  done cs rest := by
    rw [readParam?, eat_bind]
    by_cases hclose : cs.head? = some ')'
    · obtain ⟨tail, rfl⟩ := List.head?_eq_some_iff.1 hclose
      rw [if_pos hclose, pure_eq_ok]
      simp [eq_comm]
    · rw [if_neg hclose, atEnd_bind]
      refine iff_of_false ?_ fun h => hclose (by rw [h]; rfl)
      rcases cs with _ | ⟨c, cs⟩
      · exact stop_ne_ok
      · change ¬(some <$> TypeSig.anyReader) (c :: cs) = _
        rw [TypeSig.reads_anyReader.map_some]
        simp
  spell_ne t ht := by
    obtain ⟨c, -, hhead⟩ := ht.1.head?_spelling
    intro hnil
    rw [hnil] at hhead
    cases hhead

/-- What is read as a result. -/
theorem reads_readResult :
    Reads readResult (fun t => t.IsResult ∧ t.nesting ≤ TypeSig.maxNesting) TypeSig.spelling := by
  intro cs t rest
  rw [readResult, eat_bind]
  by_cases hvoid : cs.head? = some 'V'
  · rw [if_pos hvoid]
    obtain ⟨tail, rfl⟩ := List.head?_eq_some_iff.1 hvoid
    rw [pure_eq_ok, List.tail_cons]
    constructor
    · rintro ⟨rfl, rfl⟩
      exact ⟨⟨.void, Nat.zero_le _⟩, rfl⟩
    · rintro ⟨⟨hresult, -⟩, hcs⟩
      cases hresult with
      | void => exact ⟨rfl, (List.cons.inj hcs).2.symm⟩
      | value hvalue =>
        rw [hcs] at hvoid
        exact absurd hvoid (hvalue.head?_spelling_append_ne (by decide) rest)
  · rw [if_neg hvoid, TypeSig.reads_anyReader]
    constructor
    · rintro ⟨⟨hvalue, hnesting⟩, hcs⟩
      exact ⟨⟨.value hvalue, hnesting⟩, hcs⟩
    · rintro ⟨⟨hresult, hnesting⟩, hcs⟩
      cases hresult with
      | void => exact absurd (by rw [hcs]; rfl) hvoid
      | value hvalue => exact ⟨⟨hvalue, hnesting⟩, hcs⟩

/-- What is read as an exception of a method. -/
theorem repeats_readThrown? :
    Repeats readThrown? (fun t => t.IsThrown ∧ t.nesting ≤ TypeSig.maxNesting)
      (fun t => '^' :: t.spelling) (fun _ _ => True)
      (fun cs rest => rest = cs ∧ cs.head? ≠ some '^') := by
  refine repeats_eat ?_
  intro cs o rest
  rw [peek_bind]
  constructor
  · intro hread
    generalize hhead : cs.head? = c at hread
    split at hread
    case h_1 =>
      obtain ⟨t, rfl, ⟨hclass, hnesting⟩, hcs⟩ :=
        (TypeSig.reads_classReader.map_some _ _ _).1 hread
      exact ⟨t, rfl, ⟨.ofClass hclass, hnesting⟩, hcs⟩
    case h_2 =>
      obtain ⟨tail, rfl⟩ := List.head?_eq_some_iff.1 hhead
      obtain ⟨t, hvar, rfl⟩ := map_eq_ok.1 hread
      obtain ⟨⟨name, hname, rfl⟩, hcs⟩ := TypeSig.readVar_eq_ok.1 hvar
      exact ⟨_, rfl, ⟨.var hname, Nat.zero_le _⟩, hcs, trivial⟩
    case h_3 => exact absurd hread stop_ne_ok
  · rintro ⟨t, rfl, ⟨hthrown, hnesting⟩, rfl, -⟩
    cases hthrown with
    | ofClass hclass =>
      rw [List.head?_append, hclass.head?_spelling, Option.some_or]
      exact (TypeSig.reads_classReader.map_some _ _ _).2
        ⟨t, rfl, ⟨hclass, hnesting⟩, rfl, trivial⟩
    | var hname => exact map_eq_ok.2 ⟨_, TypeSig.readVar_eq_ok.2 ⟨⟨_, hname, rfl⟩, rfl⟩, rfl⟩

/-- What is read behind the parenthesis that opens the parameter list of a method. -/
theorem readBody_eq_ok {params throws : List TypeSig} {result : TypeSig} :
    (∃ mid, many readParam? cs = .ok (params, mid) ∧
        ∃ mid', readResult mid = .ok (result, mid') ∧ many readThrown? mid' = .ok (throws, [])) ↔
      ((∀ t ∈ params, t.IsValue) ∧ result.IsResult ∧ ∀ t ∈ throws, t.IsThrown) ∧
        (∀ t ∈ params ++ result :: throws, t.nesting ≤ TypeSig.maxNesting) ∧
        cs = params.flatMap TypeSig.spelling ++ ')' :: (result.spelling ++
          throws.flatMap fun t => '^' :: t.spelling) := by
  simp only [repeats_readParam?.many_eq_ok, reads_readResult _ _ _,
    repeats_readThrown?.many_eq_ok, List.forall_mem_append, List.forall_mem_cons]
  constructor
  · rintro ⟨mid, ⟨hparams, left, rfl, rfl, -⟩, mid', ⟨⟨hresult, hnesting⟩, rfl⟩, hthrows, end', rfl,
      ⟨rfl, -⟩, -⟩
    exact ⟨⟨fun t ht => (hparams t ht).1, hresult, fun t ht => (hthrows t ht).1⟩,
      ⟨fun t ht => (hparams t ht).2, hnesting, fun t ht => (hthrows t ht).2⟩, by simp⟩
  · rintro ⟨⟨hparams, hresult, hthrows⟩, ⟨hnestingParams, hnesting, hnestingThrows⟩, rfl⟩
    exact ⟨_, ⟨fun t ht => ⟨hparams t ht, hnestingParams t ht⟩, _, rfl, rfl,
      follows_of_forall fun _ _ => trivial⟩, _, ⟨⟨hresult, hnesting⟩, rfl⟩,
      fun t ht => ⟨hthrows t ht, hnestingThrows t ht⟩, [], by simp, by simp,
      follows_of_forall fun _ _ => trivial⟩

/-- **What is read as a method signature**: exactly the texts of readable trees. -/
theorem parse_eq_ok {text : String} {s : MethodSig} :
    MethodSig.parse text = .ok s ↔ s.IsReadable ∧ s.spelling = text.toList := by
  obtain ⟨typeParams, params, result, throws⟩ := s
  have hnesting : (∀ t ∈ TypeParamSig.allBounds typeParams ++ params ++ result :: throws,
      t.nesting ≤ TypeSig.maxNesting) ↔
        (∀ t ∈ TypeParamSig.allBounds typeParams, t.nesting ≤ TypeSig.maxNesting) ∧
          ∀ t ∈ params ++ result :: throws, t.nesting ≤ TypeSig.maxNesting := by
    rw [List.append_assoc, List.forall_mem_append]
  rw [MethodSig.parse, read_eq_ok, MethodSig.reader, bind_eq_ok]
  constructor
  · rintro ⟨ps, mid, hps, hread⟩
    rw [TypeParamSig.listReader_eq_ok, TypeParamSig.forall_within_iff] at hps
    obtain ⟨⟨⟨hps, hbounds⟩, hsep⟩, htext, -⟩ := hps
    rw [eat_bind] at hread
    split at hread
    case isFalse => exact absurd hread stop_ne_ok
    case isTrue hopen =>
      obtain ⟨body, rfl⟩ := List.head?_eq_some_iff.1 hopen
      simp only [bind_eq_ok, List.tail_cons] at hread
      obtain ⟨us, afterParams, hreadParams, t, afterResult, hreadResult, ts, left, hreadThrows,
        hpure⟩ := hread
      cases hpure
      obtain ⟨⟨hparams, hresult, hthrows⟩, hdeep, rfl⟩ :=
        readBody_eq_ok.1 ⟨afterParams, hreadParams, afterResult, hreadResult, hreadThrows⟩
      refine ⟨⟨hps, hparams, hresult, hthrows, hnesting.2 ⟨hbounds, hdeep⟩, hsep⟩, ?_⟩
      simp [MethodSig.spelling, htext]
  · rintro ⟨⟨hps, hparams, hresult, hthrows, hdeep, hsep⟩, htext⟩
    obtain ⟨hbounds, hbody⟩ := hnesting.1 hdeep
    obtain ⟨afterParams, hreadParams, afterResult, hreadResult, hreadThrows⟩ :=
      readBody_eq_ok.2 ⟨⟨hparams, hresult, hthrows⟩, hbody, rfl⟩
    refine ⟨typeParams, '(' :: (params.flatMap TypeSig.spelling ++ ')' :: (result.spelling ++
      throws.flatMap fun t => '^' :: t.spelling)), TypeParamSig.listReader_eq_ok.2
        ⟨⟨TypeParamSig.forall_within_iff.2 ⟨hps, hbounds⟩, hsep⟩, ?_, fun _ => by simp⟩, ?_⟩
    · rw [← htext]
      simp [MethodSig.spelling]
    · rw [eat_bind, if_pos List.head?_cons]
      simp only [bind_eq_ok, List.tail_cons]
      exact ⟨params, afterParams, hreadParams, result, afterResult, hreadResult, throws, [],
        hreadThrows, rfl⟩

end MethodSig

/-! ### Signatures as events -/

/-- To accept a grammar exactly and to lose nothing: a text is read, and `es` are the
events of what was read, if and only if the text has a tree in the grammar, just one, and
`es` are the events of that tree; and the events tell which tree it was. -/
structure AcceptsExactly {σ : Type} (parse : String → Except SyntaxError σ)
    (events : σ → List Event) (Readable : σ → Prop) (spelling : σ → List Char) : Prop where
  accepts : ∀ text es, (parse text).map events = .ok es ↔
    ∃ s, (Readable s ∧ spelling s = text.toList) ∧
      (∀ s', Readable s' ∧ spelling s' = text.toList → s' = s) ∧ es = events s
  lossless : Function.Injective events

theorem AcceptsExactly.of_parse_eq_ok {σ : Type} {parse : String → Except SyntaxError σ}
    {events : σ → List Event} {Readable : σ → Prop} {spelling : σ → List Char}
    (h : ∀ {text s}, parse text = .ok s ↔ Readable s ∧ spelling s = text.toList)
    (hevents : Function.Injective events) : AcceptsExactly parse events Readable spelling where
  accepts text es := by
    constructor
    · intro hparse
      rcases hs : parse text with e | s
      · rw [hs] at hparse
        cases hparse
      · rw [hs] at hparse
        refine ⟨s, h.1 hs, fun s' hs' => ?_, (Except.ok.inj hparse).symm⟩
        exact Except.ok.inj ((h.2 hs').symm.trans hs)
    · rintro ⟨s, hs, -, rfl⟩
      rw [h.2 hs]
      rfl
  lossless := hevents

/-- **The readers of signatures accept exactly their grammar, and the events lose
nothing**, for classes, methods and fields. -/
theorem Grammar.accepts_exactly_signatures :
    AcceptsExactly ClassSig.parse ClassSig.events ClassSig.IsReadable ClassSig.spelling ∧
      AcceptsExactly MethodSig.parse MethodSig.events MethodSig.IsReadable MethodSig.spelling ∧
      AcceptsExactly TypeSig.parse TypeSig.events TypeSig.IsReadable TypeSig.spelling :=
  ⟨.of_parse_eq_ok ClassSig.parse_eq_ok ClassSig.events_injective,
    .of_parse_eq_ok MethodSig.parse_eq_ok MethodSig.events_injective,
    .of_parse_eq_ok TypeSig.parse_eq_ok TypeSig.events_injective⟩

end JavaGenerics
