import JavaGenerics.Proofs.Acceptance
import JavaGenerics.Proofs.DescriptorReading

/-!
# Descriptors as signatures

A descriptor is written in the letters of a signature, so its text may be taken for one. The
signature is then the descriptor itself, without type parameters, type arguments or
exceptions (`JavaGenerics.FieldType.toSig`, `JavaGenerics.MethodDescriptor.toSig`): that is
the one way to read it (`JavaGenerics.MethodSig.eq_toSig_of_parse`).

This needs the names of classes to be internal (`JavaGenerics.FieldType.IsInternal`), as they
are in every descriptor that was read. In a signature a name ends at a dot or at an opening
bracket as well as at a semicolon; a name that held one of these would be cut there.
-/

namespace JavaGenerics

/-! ### Signatures without generics -/

/-- A field type as a type of a signature. -/
def FieldType.toSig : FieldType → TypeSig
  | base b => .base b
  | object name => .ofClass (.mk name []) []
  | array elem => .array elem.toSig

namespace MethodDescriptor

/-- The result in a descriptor as the result in a signature. -/
def resultSig : Option FieldType → TypeSig
  | none => .void
  | some t => t.toSig

/-- A method descriptor as a signature. -/
def toSig (d : MethodDescriptor) : MethodSig where
  typeParams := []
  params := d.params.map FieldType.toSig
  result := resultSig d.result
  throws := []

end MethodDescriptor

/-! ### Internal names -/

/-- Whether the class in a field type, if there is one, has an internal name: no character
in it ends the name of a class in a signature. -/
def FieldType.IsInternal (t : FieldType) : Prop :=
  ∀ name, t.innermost = .object name → ∀ c ∈ name.toList, c ∉ ['<', '.', ';']

/-- Whether all classes in a descriptor have internal names. -/
structure MethodDescriptor.IsInternal (d : MethodDescriptor) : Prop where
  params : ∀ t ∈ d.params, t.IsInternal
  result : ∀ t, d.result = some t → t.IsInternal

/-- The classes in a field type that was read have internal names. -/
theorem FieldType.IsReadable.isInternal {t : FieldType} (h : t.IsReadable) : t.IsInternal := by
  intro name hname c hc
  have hchar := (h.name name hname).2 c hc
  simp only [List.mem_cons, List.not_mem_nil, or_false, not_or] at hchar ⊢
  tauto

theorem FieldType.isInternal_of_parse {text : String} {t : FieldType}
    (h : FieldType.parse text = .ok t) : t.IsInternal := (FieldType.parse_eq_ok.1 h).1.isInternal

/-- The classes in a descriptor that was read have internal names. -/
theorem MethodDescriptor.isInternal_of_parse {text : String} {d : MethodDescriptor}
    (h : MethodDescriptor.parse text = .ok d) : d.IsInternal := by
  have hreadable := (MethodDescriptor.parse_eq_ok.1 h).1
  exact ⟨fun t ht => (hreadable.params t ht).isInternal,
    fun t ht => (hreadable.result t ht).isInternal⟩

/-! ### The one way to read a descriptor as a signature -/

/-- Two texts that begin with names and go on with delimiters are the same only if the names
are. -/
theorem append_inj_of_delimited {ends xs ys as bs : List Char} {a b : Char}
    (hxs : ∀ c ∈ xs, c ∉ ends) (hys : ∀ c ∈ ys, c ∉ ends) (ha : a ∈ ends) (hb : b ∈ ends)
    (h : xs ++ a :: as = ys ++ b :: bs) : xs = ys ∧ a = b ∧ as = bs := by
  -- where only one of the names goes on, its next character would be a delimiter
  induction xs generalizing ys with
  | nil =>
    cases ys with
    | nil =>
      obtain ⟨rfl, rfl⟩ := List.cons.inj h
      exact ⟨rfl, rfl, rfl⟩
    | cons y ys => exact absurd ((List.cons.inj h).1 ▸ ha) (hys y List.mem_cons_self)
  | cons x xs ih =>
    cases ys with
    | nil => exact absurd ((List.cons.inj h).1 ▸ hb) (hxs x List.mem_cons_self)
    | cons y ys =>
      obtain ⟨rfl, htail⟩ := List.cons.inj h
      obtain ⟨rfl, hrest⟩ := ih (fun c hc => hxs c (List.mem_cons_of_mem _ hc))
        (fun c hc => hys c (List.mem_cons_of_mem _ hc)) htail
      exact ⟨rfl, hrest⟩

/-- A class type of a signature that is written like a class in a descriptor. -/
theorem TypeSig.IsClass.eq_of_spelling {t : TypeSig} (ht : t.IsClass) {name : String}
    (hname : ∀ c ∈ name.toList, c ∉ ['<', '.', ';']) {xs ys : List Char}
    (h : t.spelling ++ xs = 'L' :: (name.toList ++ ';' :: ys)) :
    t = .ofClass (.mk name []) [] ∧ xs = ys := by
  obtain @⟨name', args, inner, hname', -, -⟩ := ht
  have hname'' : ∀ c ∈ name'.toList, c ∉ ['<', '.', ';'] := fun c hc =>
    ((isClassName_iff.1 hname').1.2 c hc).1
  rw [TypeSig.spelling_ofClass] at h
  -- behind the name come type arguments, a member class or the end
  rcases args with _ | ⟨a, args⟩
  · rcases inner with _ | ⟨s, inner⟩
    · have h' : name'.toList ++ ';' :: xs = name.toList ++ ';' :: ys := by
        simpa [TypeArg.spellList] using h
      obtain ⟨hsame, -, rfl⟩ := append_inj_of_delimited hname'' hname (by simp) (by simp) h'
      rw [String.toList_inj.1 hsame]
      exact ⟨rfl, rfl⟩
    · have h' : name'.toList ++ '.' :: (s.spelling ++ (inner.flatMap (fun s => '.' :: s.spelling)
          ++ ';' :: xs)) = name.toList ++ ';' :: ys := by
        simpa [TypeArg.spellList] using h
      obtain ⟨-, hdelimiter, -⟩ := append_inj_of_delimited hname'' hname (by simp) (by simp) h'
      exact absurd hdelimiter (by decide)
  · have h' : name'.toList ++ '<' :: ((a :: args).flatMap TypeArg.spelling ++ '>' ::
        (inner.flatMap (fun s => '.' :: s.spelling) ++ ';' :: xs)) = name.toList ++ ';' :: ys := by
      simpa [TypeArg.spellList] using h
    obtain ⟨-, hdelimiter, -⟩ := append_inj_of_delimited hname'' hname (by simp) (by simp) h'
    exact absurd hdelimiter (by decide)

theorem BaseType.letter_injective : Function.Injective BaseType.letter := by
  intro b b' h
  have hsome := (BaseType.ofLetter?_letter b).symm.trans (h ▸ BaseType.ofLetter?_letter b')
  exact Option.some.inj hsome

/-- **A type of a signature that is written like a field type** is that field type, and ends
where it ends. -/
theorem TypeSig.IsValue.eq_toSig {t : TypeSig} (ht : t.IsValue) {e : FieldType}
    (he : e.IsInternal) {xs ys : List Char} (h : t.spelling ++ xs = e.spelling ++ ys) :
    t = e.toSig ∧ xs = ys := by
  -- the first character of a type tells its kind, and the two types have it in common
  induction e generalizing t with
  | base b =>
    cases ht with
    | base b' =>
      obtain ⟨hletter, rfl⟩ := List.cons.inj h
      rw [BaseType.letter_injective hletter]
      exact ⟨rfl, rfl⟩
    | reference href =>
      obtain ⟨c, hc, hhead⟩ := href.head?_spelling
      obtain ⟨tail, htail⟩ := List.head?_eq_some_iff.1 hhead
      rw [htail] at h
      obtain rfl : c = b.letter := (List.cons.inj h).1
      cases b <;> exact absurd hc (by decide)
  | object name =>
    have hinternal := he name rfl
    have h' : t.spelling ++ xs = 'L' :: (name.toList ++ ';' :: ys) := by
      simpa [FieldType.spelling] using h
    cases ht with
    | base b => cases b <;> cases h'
    | reference href =>
      cases href with
      | ofClass hclass => exact hclass.eq_of_spelling hinternal h'
      | var _ => cases h'
      | array _ => cases h'
  | array elem ih =>
    cases ht with
    | base b => cases b <;> cases h
    | reference href =>
      cases href with
      | ofClass hclass =>
        cases hclass
        rw [TypeSig.spelling_ofClass] at h
        cases h
      | var _ => cases h
      | array hvalue =>
        obtain ⟨rfl, hrest⟩ := ih hvalue he (List.cons.inj h).2
        exact ⟨rfl, hrest⟩

/-- Parameters of a signature that are written like those of a descriptor. -/
theorem TypeSig.eq_map_toSig {ts : List TypeSig} (hts : ∀ t ∈ ts, t.IsValue)
    {es : List FieldType} (hes : ∀ e ∈ es, e.IsInternal) {xs ys : List Char}
    (h : ts.flatMap TypeSig.spelling ++ ')' :: xs = es.flatMap FieldType.spelling ++ ')' :: ys) :
    ts = es.map FieldType.toSig ∧ xs = ys := by
  induction es generalizing ts with
  | nil =>
    cases ts with
    | nil => exact ⟨rfl, (List.cons.inj h).2⟩
    | cons t ts =>
      rw [List.flatMap_cons, List.append_assoc] at h
      have hvalue := hts t List.mem_cons_self
      exact absurd (by rw [h]; rfl) (hvalue.head?_spelling_append_ne (c := ')') (by decide) _)
  | cons e es ih =>
    cases ts with
    | nil =>
      rw [List.flatMap_cons, List.append_assoc] at h
      exact absurd (by rw [← h]; rfl) (e.head?_spelling_append_ne (c := ')') (by decide) _)
    | cons t ts =>
      rw [List.flatMap_cons, List.flatMap_cons, List.append_assoc, List.append_assoc] at h
      obtain ⟨rfl, hrest⟩ := (hts t List.mem_cons_self).eq_toSig (hes e List.mem_cons_self) h
      obtain ⟨rfl, rfl⟩ := ih (fun t ht => hts t (List.mem_cons_of_mem _ ht))
        (fun e he => hes e (List.mem_cons_of_mem _ he)) hrest
      exact ⟨rfl, rfl⟩

/-- The result of a signature, with what is thrown behind it, that is written like the
result of a descriptor. -/
theorem TypeSig.IsResult.eq_resultSig {t : TypeSig} (ht : t.IsResult) {o : Option FieldType}
    (ho : ∀ e, o = some e → e.IsInternal) {xs : List Char}
    (h : t.spelling ++ xs = MethodDescriptor.resultSpelling o) :
    t = MethodDescriptor.resultSig o ∧ xs = [] := by
  cases o with
  | none =>
    cases ht with
    | void => exact ⟨rfl, (List.cons.inj h).2⟩
    | value hvalue =>
      exact absurd (by rw [h]; rfl) (hvalue.head?_spelling_append_ne (c := 'V') (by decide) xs)
  | some e =>
    cases ht with
    | void =>
      have hhead := e.head?_spelling_append_ne (c := 'V') (by decide) []
      exact absurd (by rw [List.append_nil]; exact (congrArg List.head? h).symm) hhead
    | value hvalue =>
      have h' : t.spelling ++ xs = e.spelling ++ [] := by rw [List.append_nil]; exact h
      exact hvalue.eq_toSig (ho e rfl) h'

/-- **The text of a field type is read as the field type**, if it is read as a field
signature at all. -/
theorem TypeSig.eq_toSig_of_parse {e : FieldType} (he : e.IsInternal) {t : TypeSig}
    (h : TypeSig.parse e.text = .ok t) : t = e.toSig := by
  obtain ⟨hreadable, hspell⟩ := TypeSig.parse_eq_ok.1 h
  rw [FieldType.text, String.toList_ofList] at hspell
  have hvalue : t.IsValue := .reference hreadable.reference
  exact (hvalue.eq_toSig he (congrArg (· ++ []) hspell)).1

/-- **The text of a descriptor is read as the descriptor**, if it is read as a method
signature at all. -/
theorem MethodSig.eq_toSig_of_parse {d : MethodDescriptor} (hd : d.IsInternal) {s : MethodSig}
    (h : MethodSig.parse d.text = .ok s) : s = d.toSig := by
  obtain ⟨hreadable, hspell⟩ := MethodSig.parse_eq_ok.1 h
  obtain ⟨typeParams, params, result, throws⟩ := s
  rw [MethodDescriptor.text, String.toList_ofList, MethodSig.spelling,
    MethodDescriptor.spelling] at hspell
  obtain rfl : typeParams = [] := by
    cases typeParams with
    | nil => rfl
    | cons p ps => cases hspell
  have hparams : params.flatMap TypeSig.spelling ++ ')' :: (result.spelling ++
      throws.flatMap fun t => '^' :: t.spelling) = d.params.flatMap FieldType.spelling ++
        ')' :: MethodDescriptor.resultSpelling d.result := by
    simpa [TypeParamSig.spellAll] using hspell
  obtain ⟨rfl, hrest⟩ := TypeSig.eq_map_toSig hreadable.params hd.params hparams
  obtain ⟨rfl, hend⟩ := hreadable.result.eq_resultSig hd.result hrest
  obtain rfl : throws = [] := by
    cases throws with
    | nil => rfl
    | cons t ts => cases hend
  rfl

end JavaGenerics
