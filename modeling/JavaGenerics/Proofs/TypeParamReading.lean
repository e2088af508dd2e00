import JavaGenerics.Proofs.DescriptorSignature

/-!
# Lists of type parameters and the one character looked at

In the grammar of signatures all bounds of a type parameter may be left out, the class
bound as well as those that follow. The grammar stays unambiguous without them
(`JavaGenerics.TypeParamSig.spellAll_append_inj`): behind the colon of a type parameter
without bounds comes the closing bracket or a further name, and the first delimiter behind
a name is a colon, while in a bound it is anything else.

The reader does not look that far. It takes for a bound whatever begins with a character that
a bound can begin with, and `L` and `T` can begin a name as well. So of the lists that the
grammar allows it accepts those that are separated, and no others
(`JavaGenerics.Grammar.typeParams_accepted_iff_separated`).
-/

namespace JavaGenerics

open Reader Grammar

variable {xs ys : List Char}

/-! ### Bounds and names -/

namespace TypeSig

/-- The characters that delimit a name which a bound or a type parameter begins with. -/
def delimiters : List Char := [':', ';', '<', '.', '[']

/-- The first delimiter in a reference type is no colon. -/
theorem IsReference.exists_delimiter {t : TypeSig} (h : t.IsReference) :
    ∃ lead d tail, t.spelling = lead ++ d :: tail ∧ (∀ c ∈ lead, c ∉ delimiters) ∧
      d ∈ delimiters ∧ d ≠ ':' := by
  cases h with
  | ofClass h =>
    obtain @⟨name, args, inner, hname, -, -⟩ := h
    have hlead : ∀ c ∈ 'L' :: name.toList, c ∉ delimiters := by
      refine List.forall_mem_cons.2 ⟨by decide, fun c hc => ?_⟩
      have hchar := (isClassName_iff.1 hname).1.2 c hc
      simp only [delimiters, List.mem_cons, List.not_mem_nil, or_false, not_or] at hchar ⊢
      tauto
    rw [spelling_ofClass]
    -- behind the name come type arguments, a member class or the end
    rcases args with _ | ⟨a, args⟩
    · rcases inner with _ | ⟨s, inner⟩
      · exact ⟨_, ';', [], rfl, hlead, by decide, by decide⟩
      · exact ⟨_, '.', _, rfl, hlead, by decide, by decide⟩
    · exact ⟨_, '<', _, rfl, hlead, by decide, by decide⟩
  | @var name hname =>
    refine ⟨'T' :: name.toList, ';', [], rfl, List.forall_mem_cons.2 ⟨by decide, fun c hc => ?_⟩,
      by decide, by decide⟩
    have hchar := hname.2 c hc
    simp only [delimiters, List.mem_cons, List.not_mem_nil, or_false, not_or] at hchar ⊢
    tauto
  | array => exact ⟨[], '[', _, rfl, by simp, by decide, by decide⟩

/-- A name with a colon behind it does not begin like a bound. -/
theorem IsReference.spelling_append_ne {t : TypeSig} (h : t.IsReference) {name : String}
    (hname : IsName name) : t.spelling ++ xs ≠ name.toList ++ ':' :: ys := by
  intro heq
  obtain ⟨lead, d, tail, hspell, hlead, hd, hcolon⟩ := h.exists_delimiter
  have hchars : ∀ c ∈ name.toList, c ∉ delimiters := by
    intro c hc
    have hchar := hname.2 c hc
    simp only [delimiters, List.mem_cons, List.not_mem_nil, or_false, not_or] at hchar ⊢
    tauto
  rw [hspell, List.append_assoc, List.cons_append] at heq
  exact hcolon (append_inj_of_delimited hlead hchars hd (by decide) heq).2.1

/-- The text of a reference type tells the type, and where it ends. -/
theorem Within.spelling_append_inj {room : Nat} {t u : TypeSig} (ht : Within room t)
    (hu : Within room u) (h : t.spelling ++ xs = u.spelling ++ ys) : t = u ∧ xs = ys := by
  have hread := (reads_readWithin room (t.spelling ++ xs) t xs).2 ⟨ht, rfl⟩
  rw [(reads_readWithin room _ _ _).2 ⟨hu, h⟩] at hread
  cases hread
  exact ⟨rfl, rfl⟩

end TypeSig

/-! ### The grammar is unambiguous -/

namespace TypeParamSig

/-- What may come behind a type parameter in a list: the end of the list, or a further one. -/
def GoesOn (cs : List Char) : Prop :=
  cs.head? = some '>' ∨ ∃ name tail, IsName name ∧ cs = name.toList ++ ':' :: tail

theorem goesOn_flatMap {ps : List TypeParamSig} (h : ∀ p ∈ ps, Within p) :
    GoesOn (ps.flatMap TypeParamSig.spelling ++ '>' :: xs) := by
  rcases ps with _ | ⟨⟨name, classBound, interfaceBounds⟩, ps⟩
  · exact .inl rfl
  · rw [List.flatMap_cons, List.append_assoc, spelling_mk]
    exact .inr ⟨name, _, (h _ List.mem_cons_self).name, rfl⟩

theorem GoesOn.head?_ne (h : GoesOn xs) : xs.head? ≠ some ':' := by
  rcases h with hclose | ⟨name, tail, hname, rfl⟩
  · rw [hclose]
    decide
  · obtain ⟨c, hhead, hc⟩ := hname.head?
    rw [List.head?_append, hhead, Option.some_or]
    rintro ⟨⟩
    exact hc (by decide)

/-- What comes behind a type parameter does not begin like a bound. -/
theorem GoesOn.spelling_append_ne (h : GoesOn xs) {t : TypeSig} (ht : t.IsReference) :
    t.spelling ++ ys ≠ xs := by
  rintro rfl
  rcases h with hclose | ⟨name, tail, hname, heq⟩
  · obtain ⟨c, hc, hhead⟩ := ht.head?_spelling
    rw [List.head?_append, hhead, Option.some_or] at hclose
    cases hclose
    exact absurd hc (by decide)
  · exact ht.spelling_append_ne hname heq

/-- A name is a type parameter without bounds. -/
theorem Within.of_isName {name : String} (h : IsName name) : Within ⟨name, none, []⟩ :=
  ⟨h, List.forall_mem_nil _⟩

/-- The text of interface bounds. -/
def spellBounds (ts : List TypeSig) : List Char := ts.flatMap fun t => ':' :: t.spelling

/-- Interface bounds tell where they end, if no further one follows. -/
theorem spellBounds_append_inj {ts us : List TypeSig}
    (hts : ∀ t ∈ ts, TypeSig.Within TypeSig.maxNesting t)
    (hus : ∀ u ∈ us, TypeSig.Within TypeSig.maxNesting u) (hx : xs.head? ≠ some ':')
    (hy : ys.head? ≠ some ':') (h : spellBounds ts ++ xs = spellBounds us ++ ys) :
    ts = us ∧ xs = ys := by
  have hread : ∀ {ts : List TypeSig} {cs : List Char},
      (∀ t ∈ ts, TypeSig.Within TypeSig.maxNesting t) → cs.head? ≠ some ':' →
        many readInterfaceBound? (spellBounds ts ++ cs) = .ok (ts, cs) := fun hts hcs =>
    repeats_readInterfaceBound?.many_eq_ok.2
      ⟨hts, _, rfl, ⟨rfl, hcs⟩, follows_of_forall fun _ _ => trivial⟩
  have hsame := hread hts hx
  rw [h, hread hus hy] at hsame
  cases hsame
  exact ⟨rfl, rfl⟩

/-- A class bound cannot be mistaken for the lack of one. -/
theorem spelling_append_ne_spellBounds {t : TypeSig} (ht : t.IsReference) {us : List TypeSig}
    (hy : GoesOn ys) : t.spelling ++ xs ≠ spellBounds us ++ ys := by
  rcases us with _ | ⟨u, us⟩
  · exact hy.spelling_append_ne ht
  · intro heq
    obtain ⟨c, hc, hhead⟩ := ht.head?_spelling
    have hcolon : (t.spelling ++ xs).head? = some ':' := by rw [heq]; rfl
    rw [List.head?_append, hhead, Option.some_or] at hcolon
    cases hcolon
    exact absurd hc (by decide)

/-- The text of a type parameter tells the type parameter, and where it ends. -/
theorem spelling_append_inj {p q : TypeParamSig} (hp : Within p) (hq : Within q)
    (hx : GoesOn xs) (hy : GoesOn ys) (h : p.spelling ++ xs = q.spelling ++ ys) :
    p = q ∧ xs = ys := by
  obtain ⟨name, classBound, interfaceBounds⟩ := p
  obtain ⟨name', classBound', interfaceBounds'⟩ := q
  have hchars : ∀ {name : String}, IsName name → ∀ c ∈ name.toList, c ∉ [':'] := by
    intro name hname c hc hcolon
    obtain rfl := List.mem_singleton.1 hcolon
    exact hname.2 _ hc (by decide)
  rw [spelling_mk, spelling_mk] at h
  obtain ⟨hnames, -, hbounds⟩ :=
    append_inj_of_delimited (hchars hp.name) (hchars hq.name) (by decide) (by decide) h
  obtain rfl := String.toList_inj.1 hnames
  have hinterfaces : ∀ {o : Option TypeSig} {ts : List TypeSig},
      (∀ t ∈ o.toList ++ ts, TypeSig.Within TypeSig.maxNesting t) →
        ∀ t ∈ ts, TypeSig.Within TypeSig.maxNesting t :=
    fun hall t ht => hall t (List.mem_append_right _ ht)
  have htail := spellBounds_append_inj (hinterfaces hp.bounds) (hinterfaces hq.bounds)
    hx.head?_ne hy.head?_ne
  rcases classBound with _ | t <;> rcases classBound' with _ | u
  · obtain ⟨rfl, rfl⟩ := htail hbounds
    exact ⟨rfl, rfl⟩
  · have hu := hq.bounds u List.mem_cons_self
    exact absurd hbounds.symm (spelling_append_ne_spellBounds hu.reference hx)
  · have ht := hp.bounds t List.mem_cons_self
    exact absurd hbounds (spelling_append_ne_spellBounds ht.reference hy)
  · obtain ⟨rfl, hrest⟩ := (hp.bounds t List.mem_cons_self).spelling_append_inj
      (hq.bounds u List.mem_cons_self) hbounds
    obtain ⟨rfl, rfl⟩ := htail hrest
    exact ⟨rfl, rfl⟩

theorem flatMap_spelling_append_inj {ps qs : List TypeParamSig} (hps : ∀ p ∈ ps, Within p)
    (hqs : ∀ q ∈ qs, Within q) (h : ps.flatMap TypeParamSig.spelling ++ '>' :: xs =
      qs.flatMap TypeParamSig.spelling ++ '>' :: ys) : ps = qs ∧ xs = ys := by
  -- a list that has ended cannot go on with a name
  have hend : ∀ {p : TypeParamSig} {xs ys : List Char}, Within p →
      '>' :: xs ≠ p.spelling ++ ys := by
    intro p xs ys hp heq
    obtain ⟨c, hhead, hc⟩ := hp.name.head?
    have hclose := congrArg List.head? heq
    obtain ⟨name, classBound, interfaceBounds⟩ := p
    rw [spelling_mk, List.head?_append, hhead, Option.some_or] at hclose
    cases hclose
    exact hc (by decide)
  induction ps generalizing qs with
  | nil =>
    rcases qs with _ | ⟨q, qs⟩
    · exact ⟨rfl, (List.cons.inj h).2⟩
    · rw [List.flatMap_cons, List.append_assoc] at h
      exact absurd h (hend (hqs q List.mem_cons_self))
  | cons p ps ih =>
    obtain ⟨hp, hps⟩ := List.forall_mem_cons.1 hps
    rcases qs with _ | ⟨q, qs⟩
    · rw [List.flatMap_cons, List.append_assoc] at h
      exact absurd h.symm (hend hp)
    · obtain ⟨hq, hqs'⟩ := List.forall_mem_cons.1 hqs
      rw [List.flatMap_cons, List.flatMap_cons, List.append_assoc, List.append_assoc] at h
      obtain ⟨rfl, hrest⟩ :=
        spelling_append_inj hp hq (goesOn_flatMap hps) (goesOn_flatMap hqs') h
      obtain ⟨rfl, rfl⟩ := ih hps hqs' hrest
      exact ⟨rfl, rfl⟩

/-- **The grammar of type parameter lists is unambiguous**: the text of a list tells the
list, whichever bounds are left out, and where it ends. -/
theorem spellAll_append_inj {ps qs : List TypeParamSig} (hps : ∀ p ∈ ps, Within p)
    (hqs : ∀ q ∈ qs, Within q) (hx : xs.head? ≠ some '<') (hy : ys.head? ≠ some '<')
    (h : spellAll ps ++ xs = spellAll qs ++ ys) : ps = qs ∧ xs = ys := by
  have hopen : ∀ p ps, ∀ cs : List Char, spellAll (p :: ps) ++ cs =
      '<' :: ((p :: ps).flatMap TypeParamSig.spelling ++ '>' :: cs) := by
    intro p ps cs
    simp [spellAll]
  rcases ps with _ | ⟨p, ps⟩ <;> rcases qs with _ | ⟨q, qs⟩
  · exact ⟨rfl, h⟩
  · rw [hopen] at h
    exact absurd (congrArg List.head? h) hx
  · rw [hopen] at h
    exact absurd (congrArg List.head? h).symm hy
  · rw [hopen, hopen] at h
    exact flatMap_spelling_append_inj hps hqs (List.cons.inj h).2

/-- A list that was read is separated, and it is the only list with its text. -/
theorem separated_of_spellAll {ps qs : List TypeParamSig} (hps : ∀ p ∈ ps, Within p)
    (hqs : (∀ q ∈ qs, Within q) ∧ Separated qs) (hx : xs.head? ≠ some '<')
    (hy : ys.head? ≠ some '<') (h : spellAll qs ++ ys = spellAll ps ++ xs) : Separated ps :=
  (spellAll_append_inj hqs.1 hps hy hx h).1 ▸ hqs.2

end TypeParamSig

namespace ClassSig

/-- A name is the signature of a class that extends the class so named and is not generic. -/
theorem IsReadable.of_isName {name : String} (h : IsName name) :
    IsReadable ⟨[], .ofClass (.mk name []) [], []⟩ where
  typeParams := List.forall_mem_nil _
  superclass := .mk ⟨[name], List.cons_ne_nil _ _, List.forall_mem_singleton.2 h, by simp⟩
    (List.forall_mem_nil _) (List.forall_mem_nil _)
  interfaces := List.forall_mem_nil _
  nesting := List.forall_mem_singleton.2 (Nat.zero_le _)
  separated := .nil

theorem spelling_mk (ps : List TypeParamSig) (superclass : TypeSig) (interfaces : List TypeSig) :
    spelling ⟨ps, superclass, interfaces⟩ = TypeParamSig.spellAll ps ++
      (superclass.spelling ++ interfaces.flatMap TypeSig.spelling) := by
  simp [spelling]

/-- A class signature is readable if what stands behind its type parameters is, and they are
separated and do not nest too deep. -/
theorem isReadable_mk_iff {ps : List TypeParamSig} {superclass : TypeSig}
    {interfaces : List TypeSig} : IsReadable ⟨ps, superclass, interfaces⟩ ↔
      IsReadable ⟨[], superclass, interfaces⟩ ∧ (∀ p ∈ ps, p.Within) ∧
        TypeParamSig.Separated ps := by
  rw [TypeParamSig.forall_within_iff]
  constructor
  · rintro ⟨hps, hsuper, hinterfaces, hnesting, hsep⟩
    rw [List.forall_mem_append] at hnesting
    exact ⟨⟨by simp, hsuper, hinterfaces, hnesting.2, by simp [TypeParamSig.Separated]⟩,
      ⟨hps, hnesting.1⟩, hsep⟩
  · rintro ⟨⟨-, hsuper, hinterfaces, hnesting, -⟩, ⟨hps, hbounds⟩, hsep⟩
    exact ⟨hps, hsuper, hinterfaces, List.forall_mem_append.2 ⟨hbounds, hnesting⟩, hsep⟩

/-- A class signature whose text is read has separated type parameters. -/
theorem separated_of_parse {ps : List TypeParamSig} {superclass : TypeSig}
    {interfaces : List TypeSig} (hps : ∀ p ∈ ps, p.Within) (hsuper : superclass.IsClass)
    {s : ClassSig}
    (h : ClassSig.parse (String.ofList (spelling ⟨ps, superclass, interfaces⟩)) = .ok s) :
    TypeParamSig.Separated ps := by
  have hopen : ∀ {t : TypeSig} {cs : List Char}, t.IsClass →
      (t.spelling ++ cs).head? ≠ some '<' := by
    intro t cs ht
    simp [List.head?_append, ht.head?_spelling]
  obtain ⟨qs, superclass', interfaces'⟩ := s
  obtain ⟨hreadable, hspell⟩ := parse_eq_ok.1 h
  rw [String.toList_ofList, spelling_mk, spelling_mk] at hspell
  exact TypeParamSig.separated_of_spellAll hps (isReadable_mk_iff.1 hreadable).2 (hopen hsuper)
    (hopen hreadable.superclass) hspell

end ClassSig

namespace MethodSig

theorem spelling_mk (ps : List TypeParamSig) (params : List TypeSig) (result : TypeSig)
    (throws : List TypeSig) : spelling ⟨ps, params, result, throws⟩ = TypeParamSig.spellAll ps ++
      '(' :: (params.flatMap TypeSig.spelling ++ ')' :: (result.spelling ++
        throws.flatMap fun t => '^' :: t.spelling)) := by
  simp [spelling]

/-- A method signature is readable if what stands behind its type parameters is, and they are
separated and do not nest too deep. -/
theorem isReadable_mk_iff {ps : List TypeParamSig} {params throws : List TypeSig}
    {result : TypeSig} : IsReadable ⟨ps, params, result, throws⟩ ↔
      IsReadable ⟨[], params, result, throws⟩ ∧ (∀ p ∈ ps, p.Within) ∧
        TypeParamSig.Separated ps := by
  rw [TypeParamSig.forall_within_iff]
  constructor
  · rintro ⟨hps, hparams, hresult, hthrows, hnesting, hsep⟩
    rw [List.append_assoc, List.forall_mem_append] at hnesting
    exact ⟨⟨by simp, hparams, hresult, hthrows, hnesting.2, by simp [TypeParamSig.Separated]⟩,
      ⟨hps, hnesting.1⟩, hsep⟩
  · rintro ⟨⟨-, hparams, hresult, hthrows, hnesting, -⟩, ⟨hps, hbounds⟩, hsep⟩
    refine ⟨hps, hparams, hresult, hthrows, ?_, hsep⟩
    rw [List.append_assoc, List.forall_mem_append]
    exact ⟨hbounds, hnesting⟩

/-- A method signature whose text is read has separated type parameters. -/
theorem separated_of_parse {ps : List TypeParamSig} {params throws : List TypeSig}
    {result : TypeSig} (hps : ∀ p ∈ ps, p.Within) {s : MethodSig}
    (h : MethodSig.parse (String.ofList (spelling ⟨ps, params, result, throws⟩)) = .ok s) :
    TypeParamSig.Separated ps := by
  obtain ⟨qs, params', result', throws'⟩ := s
  obtain ⟨hreadable, hspell⟩ := parse_eq_ok.1 h
  rw [String.toList_ofList, spelling_mk, spelling_mk] at hspell
  exact TypeParamSig.separated_of_spellAll hps (isReadable_mk_iff.1 hreadable).2 (by simp)
    (by simp) hspell

end MethodSig

/-! ### What a list of events declares -/

namespace Event

/-- Whether an event belongs to a type or announces a bound. The others declare a type
parameter or begin a section of another kind. -/
def inBounds : Event → Bool
  | formalTypeParameter _ => false
  | superclass => false
  | interface => false
  | parameterType => false
  | returnType => false
  | exceptionType => false
  | _ => true

/-- The type parameters that a list of events declares, each with the events of its bounds. -/
def declarations : List Event → List (String × List Event)
  | [] => []
  | formalTypeParameter name :: es => (name, es.takeWhile inBounds) :: declarations es
  | _ :: es => declarations es

/-- Events that declare nothing. -/
theorem declarations_append {es fs : List Event}
    (h : ∀ e ∈ es, ∀ name, e ≠ formalTypeParameter name) :
    declarations (es ++ fs) = declarations fs := by
  induction es with
  | nil => rfl
  | cons e es ih =>
    obtain ⟨he, hes⟩ := List.forall_mem_cons.1 h
    rw [List.cons_append, ← ih hes]
    cases e
    case formalTypeParameter name => exact absurd rfl (he name)
    all_goals rfl

end Event

mutual

/-- The events of a type neither declare anything nor begin a section. -/
theorem TypeSig.inBounds_events : ∀ (t : TypeSig), ∀ e ∈ t.events, e.inBounds = true
  | .base b => by simp [TypeSig.events, Event.inBounds]
  | .void => by simp [TypeSig.events, Event.inBounds]
  | .var name => by simp [TypeSig.events, Event.inBounds]
  | .array elem => List.forall_mem_cons.2 ⟨rfl, TypeSig.inBounds_events elem⟩
  | .ofClass (.mk name args) inner => by
    rw [TypeSig.events, Segment.eventsFrom, List.forall_mem_append, List.forall_mem_append]
    exact ⟨⟨List.forall_mem_cons.2 ⟨rfl, TypeArg.inBounds_allEvents args⟩,
      Segment.inBounds_innerEvents inner⟩, by simp [Event.inBounds]⟩

theorem Segment.inBounds_innerEvents :
    ∀ (ss : List Segment), ∀ e ∈ Segment.innerEvents ss, e.inBounds = true
  | [] => by simp [Segment.innerEvents]
  | .mk name args :: ss => by
    rw [Segment.innerEvents, Segment.eventsFrom, List.forall_mem_append]
    exact ⟨List.forall_mem_cons.2 ⟨rfl, TypeArg.inBounds_allEvents args⟩,
      Segment.inBounds_innerEvents ss⟩

theorem TypeArg.inBounds_allEvents :
    ∀ (args : List TypeArg), ∀ e ∈ TypeArg.allEvents args, e.inBounds = true
  | [] => by simp [TypeArg.allEvents]
  | .unbounded :: args => by
    rw [TypeArg.allEvents, TypeArg.events]
    exact List.forall_mem_cons.2 ⟨rfl, TypeArg.inBounds_allEvents args⟩
  | .bounded v t :: args => by
    rw [TypeArg.allEvents, TypeArg.events, List.forall_mem_append]
    exact ⟨List.forall_mem_cons.2 ⟨rfl, TypeSig.inBounds_events t⟩,
      TypeArg.inBounds_allEvents args⟩

end

/-- The events of types that are each announced by `m` declare nothing. -/
theorem TypeSig.flatMap_events_ne_formalTypeParameter {m : Event} {ts : List TypeSig}
    (hm : ∀ name, m ≠ .formalTypeParameter name) :
    ∀ e ∈ ts.flatMap (fun t => m :: t.events), ∀ name, e ≠ .formalTypeParameter name := by
  intro e he name
  obtain ⟨t, -, ht⟩ := List.mem_flatMap.1 he
  rcases List.mem_cons.1 ht with rfl | ht
  · exact hm name
  · rintro rfl
    exact absurd (t.inBounds_events _ ht) (by simp [Event.inBounds])

namespace TypeParamSig

/-- The events of the bounds of a type parameter: each bound behind a marker that tells
whether it is the class bound. -/
def boundEvents (p : TypeParamSig) : List Event :=
  p.classBound.toList.flatMap (fun t => .classBound :: t.events) ++
    p.interfaceBounds.flatMap fun t => .interfaceBound :: t.events

theorem events_eq (p : TypeParamSig) : p.events = .formalTypeParameter p.name :: p.boundEvents := by
  obtain ⟨name, classBound, interfaceBounds⟩ := p
  rcases classBound with _ | t <;> simp [events, boundEvents]

theorem inBounds_boundEvents (p : TypeParamSig) : ∀ e ∈ p.boundEvents, e.inBounds = true := by
  have hmarked : ∀ {m : Event} {ts : List TypeSig}, m.inBounds = true →
      ∀ e ∈ ts.flatMap (fun t => m :: t.events), e.inBounds = true := by
    intro m ts hm e he
    obtain ⟨t, -, ht⟩ := List.mem_flatMap.1 he
    rcases List.mem_cons.1 ht with rfl | ht
    · exact hm
    · exact t.inBounds_events e ht
  exact List.forall_mem_append.2 ⟨hmarked rfl, hmarked rfl⟩

/-- **The events of type parameters declare just these**, in their order, with their names
and their bounds. -/
theorem declarations_flatMap_events {ps : List TypeParamSig} {e : Event} {es : List Event}
    (hsection : e.inBounds = false)
    (hnone : ∀ e' ∈ e :: es, ∀ name, e' ≠ .formalTypeParameter name) :
    Event.declarations (ps.flatMap events ++ e :: es) =
      ps.map fun p => (p.name, p.boundEvents) := by
  -- the bounds of a type parameter end where the next one or another section begins
  have hnext : ∀ ps : List TypeParamSig,
      (ps.flatMap events ++ e :: es).takeWhile Event.inBounds = [] := by
    rintro (_ | ⟨p, ps⟩)
    · exact List.takeWhile_cons_of_neg (by simp [hsection])
    · rw [List.flatMap_cons, events_eq]
      rfl
  induction ps with
  | nil => simpa [Event.declarations] using @Event.declarations_append (e :: es) [] hnone
  | cons p ps ih =>
    have hbounds : ∀ e ∈ p.boundEvents, ∀ name, e ≠ .formalTypeParameter name := by
      rintro _ he name rfl
      exact absurd (p.inBounds_boundEvents _ he) (by simp [Event.inBounds])
    rw [List.flatMap_cons, events_eq, List.append_assoc, List.cons_append, Event.declarations,
      List.takeWhile_append_of_pos p.inBounds_boundEvents, hnext, List.append_nil,
      Event.declarations_append hbounds, ih, List.map_cons]

end TypeParamSig

theorem ClassSig.declarations_events (s : ClassSig) :
    Event.declarations s.events = s.typeParams.map fun p => (p.name, p.boundEvents) := by
  rw [ClassSig.events, List.append_assoc, List.cons_append]
  refine TypeParamSig.declarations_flatMap_events rfl (List.forall_mem_cons.2 ⟨by simp, ?_⟩)
  refine List.forall_mem_append.2 ⟨?_, TypeSig.flatMap_events_ne_formalTypeParameter (by simp)⟩
  rintro _ he name rfl
  exact absurd (s.superclass.inBounds_events _ he) (by simp [Event.inBounds])

theorem MethodSig.declarations_events (s : MethodSig) :
    Event.declarations s.events = s.typeParams.map fun p => (p.name, p.boundEvents) := by
  have hparams : ∀ e ∈ s.params.flatMap fun t => Event.parameterType :: t.events, ∀ name,
      e ≠ .formalTypeParameter name := TypeSig.flatMap_events_ne_formalTypeParameter (by simp)
  have hresult : ∀ e ∈ .returnType :: s.result.events ++ s.throws.flatMap fun t =>
      Event.exceptionType :: t.events, ∀ name, e ≠ .formalTypeParameter name := by
    refine List.forall_mem_cons.2 ⟨by simp, List.forall_mem_append.2
      ⟨?_, TypeSig.flatMap_events_ne_formalTypeParameter (by simp)⟩⟩
    rintro _ he name rfl
    exact absurd (s.result.inBounds_events _ he) (by simp [Event.inBounds])
  have hrest := List.forall_mem_append.2 ⟨hparams, hresult⟩
  rw [MethodSig.events, List.append_assoc, List.append_assoc]
  -- the section that follows is that of the parameters, or that of the result
  rcases hps : s.params with _ | ⟨t, ts⟩
  · rw [hps] at hrest
    exact TypeParamSig.declarations_flatMap_events rfl hrest
  · rw [hps] at hrest
    exact TypeParamSig.declarations_flatMap_events rfl hrest

/-! ### Which lists are accepted -/

/-- What becomes of the text of the signature `s`, which begins with the type parameters `ps`:
it is accepted exactly if these are separated, and is then handed on as events that declare
just these. -/
structure TypeParamSig.AcceptedIfSeparated {σ : Type} (parse : String → Except SyntaxError σ)
    (events : σ → List Event) (spelling : σ → List Char) (ps : List TypeParamSig) (s : σ) :
    Prop where
  accepted_iff : (∃ s', parse (String.ofList (spelling s)) = .ok s') ↔ Separated ps
  declared : Separated ps → ∃ es, (parse (String.ofList (spelling s))).map events = .ok es ∧
    Event.declarations es = ps.map fun p => (p.name, p.boundEvents)

/-- A reader that returns the signature whose text it reads, if its type parameters are
separated. -/
theorem TypeParamSig.AcceptedIfSeparated.of_parse {σ : Type}
    {parse : String → Except SyntaxError σ} {events : σ → List Event} {spelling : σ → List Char}
    {ps : List TypeParamSig} {s : σ}
    (hread : Separated ps → parse (String.ofList (spelling s)) = .ok s)
    (hsep : ∀ {s'}, parse (String.ofList (spelling s)) = .ok s' → Separated ps)
    (hdecl : Event.declarations (events s) = ps.map fun p => (p.name, p.boundEvents)) :
    AcceptedIfSeparated parse events spelling ps s where
  accepted_iff := ⟨fun ⟨_, h⟩ => hsep h, fun h => ⟨s, hread h⟩⟩
  declared h := ⟨events s, by rw [hread h]; rfl, hdecl⟩

/-- **Of the type parameter lists of the grammar the readers accept those that are
separated**, and no others, in front of whatever may follow in the signature of a class or of
a method. Each type parameter of a list that is accepted is declared once, in its place, and
followed by its bounds. -/
theorem Grammar.typeParams_accepted_iff_separated {ps : List TypeParamSig}
    (hps : ∀ p ∈ ps, p.Within) :
    (∀ superclass interfaces, ClassSig.IsReadable ⟨[], superclass, interfaces⟩ →
      TypeParamSig.AcceptedIfSeparated ClassSig.parse ClassSig.events ClassSig.spelling ps
        ⟨ps, superclass, interfaces⟩) ∧
    ∀ params result throws, MethodSig.IsReadable ⟨[], params, result, throws⟩ →
      TypeParamSig.AcceptedIfSeparated MethodSig.parse MethodSig.events MethodSig.spelling ps
        ⟨ps, params, result, throws⟩ := by
  constructor
  · intro superclass interfaces hrest
    refine .of_parse (fun hsep => ClassSig.parse_eq_ok.2 ⟨?_, String.toList_ofList.symm⟩)
      (ClassSig.separated_of_parse hps hrest.superclass) (ClassSig.declarations_events _)
    exact ClassSig.isReadable_mk_iff.2 ⟨hrest, hps, hsep⟩
  · intro params result throws hrest
    refine .of_parse (fun hsep => MethodSig.parse_eq_ok.2 ⟨?_, String.toList_ofList.symm⟩)
      (MethodSig.separated_of_parse hps) (MethodSig.declarations_events _)
    exact MethodSig.isReadable_mk_iff.2 ⟨hrest, hps, hsep⟩

/-- A name that begins like a bound may follow a type parameter that has a bound. -/
theorem Grammar.typeParams_accepted_of_separated :
    let ps : List TypeParamSig := [⟨"A", none, []⟩, ⟨"B", none, [.var "A", .array (.base .int)]⟩,
      ⟨"T", some (.var "B"), []⟩]
    let o : TypeSig := .ofClass (.mk "O" []) []
    let declared : List (String × List Event) :=
      [("A", []), ("B", [.interfaceBound, .typeVariable "A", .interfaceBound, .arrayType,
        .baseType .int]), ("T", [.classBound, .typeVariable "B"])]
    (∀ p ∈ ps, p.Within) ∧ ClassSig.IsReadable ⟨[], o, []⟩ ∧
      MethodSig.IsReadable ⟨[], [.var "T"], .void, [.var "T"]⟩ ∧
      (∃ es, (ClassSig.parse "<A:B::TA;:[IT:TB;>LO;").map ClassSig.events = .ok es ∧
        Event.declarations es = declared) ∧
      ∃ es, (MethodSig.parse "<A:B::TA;:[IT:TB;>(TT;)V^TT;").map MethodSig.events = .ok es ∧
        Event.declarations es = declared := by
  intro ps o declared
  have ha : IsName "A" := by simp [IsName]
  have hb : IsName "B" := by simp [IsName]
  have ht : IsName "T" := by simp [IsName]
  have hbounds : ∀ t ∈ [TypeSig.var "A", .array (.base .int)], TypeSig.Within 255 t :=
    List.forall_mem_cons.2 ⟨⟨.var ha, by decide⟩,
      List.forall_mem_singleton.2 ⟨.array (.base .int), by decide⟩⟩
  have hps : ∀ p ∈ ps, p.Within := List.forall_mem_cons.2 ⟨.of_isName ha, List.forall_mem_cons.2
    ⟨⟨hb, hbounds⟩, List.forall_mem_singleton.2
      ⟨ht, List.forall_mem_singleton.2 ⟨.var hb, by decide⟩⟩⟩⟩
  have hsep : TypeParamSig.Separated ps := by
    unfold TypeParamSig.Separated
    decide +kernel
  have hclass : ClassSig.IsReadable ⟨[], o, []⟩ := .of_isName (by simp [IsName])
  have hmethod : MethodSig.IsReadable ⟨[], [.var "T"], .void, [.var "T"]⟩ :=
    { typeParams := List.forall_mem_nil _
      params := List.forall_mem_singleton.2 (.reference (.var ht))
      result := .void
      throws := List.forall_mem_singleton.2 (.var ht)
      nesting := by decide +kernel
      separated := .nil }
  have hread := typeParams_accepted_iff_separated hps
  exact ⟨hps, hclass, hmethod, (hread.1 o [] hclass).declared hsep,
    (hread.2 [.var "T"] .void [.var "T"] hmethod).declared hsep⟩

/-- Where a type parameter has no bounds at all, such a name is taken for one of them, and
the list is refused. -/
theorem Grammar.typeParams_refused :
    let ps : List TypeParamSig := [⟨"A", none, []⟩, ⟨"T", none, []⟩]
    let o : TypeSig := .ofClass (.mk "O" []) []
    (∀ p ∈ ps, p.Within) ∧ ClassSig.IsReadable ⟨[], o, []⟩ ∧
      ClassSig.spelling ⟨ps, o, []⟩ = "<A:T:>LO;".toList ∧
      (ClassSig.parse "<A:T:>LO;").isOk = false := by
  intro ps o
  have hps : ∀ p ∈ ps, p.Within := List.forall_mem_cons.2 ⟨.of_isName (by simp [IsName]),
    List.forall_mem_singleton.2 (.of_isName (by simp [IsName]))⟩
  exact ⟨hps, .of_isName (by simp [IsName]), by decide +kernel, by decide +kernel⟩

end JavaGenerics
