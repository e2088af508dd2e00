import JavaGenerics.Proofs.DescriptorSignature
import JavaGenerics.Proofs.Meaning
import JavaGenerics.Signature.Event

/-!
# The events of a descriptor

The text of a descriptor can be handed to the reader of signatures. What it comes to is the
descriptor again: one event for each array dimension, and then the primitive type, or the
class with nothing inside (`JavaGenerics.FieldType.events`). The two readers count array
dimensions in different ways, and agree on how many there may be.

They do not agree on the names of classes. The reader of signatures takes the components of
a name apart and wants none of them empty, and no colon in any; the reader of descriptors
only asks for the end of the name. So a descriptor is read as a signature exactly if its
classes have the names of classes (`JavaGenerics.Grammar.descriptors_are_signatures`).
-/

namespace JavaGenerics

/-! ### Events -/

namespace FieldType

/-- The events of a field type: one for each dimension, and what the dimensions are of. -/
def events (t : FieldType) : List Event :=
  List.replicate t.dimensions .arrayType ++ match t.innermost with
    | base b => [.baseType b]
    | object name => [.classType name, .close]
    | array _ => []

/-- The events of a field type are those of the signature that is written like it. -/
theorem events_toSig (t : FieldType) : t.toSig.events = t.events := by
  induction t with
  | base b => rfl
  | object name => rfl
  | array elem ih =>
    rw [toSig, TypeSig.events, ih]
    rfl

/-- A field type and the signature for it are written alike. -/
theorem spelling_toSig (t : FieldType) : t.toSig.spelling = t.spelling := by
  induction t with
  | base b => rfl
  | object name => simp [toSig, TypeSig.spelling, Segment.spelling, Segment.spellInner, spelling]
  | array elem ih => rw [toSig, TypeSig.spelling, ih, spelling]

end FieldType

namespace MethodDescriptor

/-- The events of a descriptor: the parameters, each announced, and then the result. -/
def events (d : MethodDescriptor) : List Event :=
  d.params.flatMap (fun t => .parameterType :: t.events) ++
    .returnType :: d.result.elim [.voidType] FieldType.events

theorem events_toSig (d : MethodDescriptor) : d.toSig.events = d.events := by
  have hresult : (resultSig d.result).events = d.result.elim [.voidType] FieldType.events := by
    cases d.result with
    | none => rfl
    | some t => exact t.events_toSig
  simp only [toSig, MethodSig.events, events, hresult, List.flatMap_nil, List.nil_append,
    List.append_nil, List.flatMap_map, FieldType.events_toSig]

theorem spelling_toSig (d : MethodDescriptor) : d.toSig.spelling = d.spelling := by
  have hresult : (resultSig d.result).spelling = resultSpelling d.result := by
    cases d.result with
    | none => rfl
    | some t => exact t.spelling_toSig
  have hparams : (d.params.map FieldType.toSig).flatMap TypeSig.spelling =
      d.params.flatMap FieldType.spelling := by
    rw [List.flatMap_map]
    exact congrArg (List.flatMap · d.params) (funext FieldType.spelling_toSig)
  simp [toSig, MethodSig.spelling, spelling, hresult, hparams, TypeParamSig.spellAll]

end MethodDescriptor

/-! ### Names of classes -/

/-- Whether the class in a field type, if there is one, has the name of a class: components
joined by slashes, as a signature has it. -/
def FieldType.HasClassName (t : FieldType) : Prop :=
  ∀ name, t.innermost = .object name → IsClassName name

/-- Whether all classes in a descriptor have the names of classes. -/
structure MethodDescriptor.HasClassNames (d : MethodDescriptor) : Prop where
  params : ∀ t ∈ d.params, t.HasClassName
  result : ∀ t, d.result = some t → t.HasClassName

theorem IsClassName.isDescriptorName {name : String} (h : IsClassName name) :
    IsDescriptorName name := by
  obtain ⟨⟨hne, hchars⟩, -⟩ := isClassName_iff.1 h
  refine ⟨hne, fun c hc => ?_⟩
  have hchar := hchars c hc
  simp only [List.mem_cons, List.not_mem_nil, or_false, not_or] at hchar ⊢
  tauto

/-- **What the reader of descriptors does not ask of a name**: that it has no colon, and no
empty component. -/
theorem IsDescriptorName.isClassName_iff {name : String} (h : IsDescriptorName name) :
    IsClassName name ↔
      ':' ∉ name.toList ∧ TypeSig.componentsFilled true name.toList = true := by
  rw [JavaGenerics.isClassName_iff]
  refine and_congr_left fun _ => ⟨fun hchars hc => ?_, fun hcolon => ⟨h.1, fun c hc => ?_⟩⟩
  · exact (hchars.2 ':' hc).2 (by simp)
  · have hchar := h.2 c hc
    have hne : c ≠ ':' := fun e => hcolon (e ▸ hc)
    simp only [List.mem_cons, List.not_mem_nil, or_false, not_or] at hchar ⊢
    tauto

/-! ### Readable signatures -/

namespace FieldType

theorem nesting_toSig (t : FieldType) : t.toSig.nesting = t.dimensions := by
  induction t with
  | base b => rfl
  | object name => rfl
  | array elem ih => rw [toSig, TypeSig.nesting, ih, dimensions]

theorem HasClassName.isValue_toSig {t : FieldType} (h : t.HasClassName) : t.toSig.IsValue := by
  induction t with
  | base b => exact .base b
  | object name =>
    exact .reference (.ofClass (.mk (h name rfl) (List.forall_mem_nil _) (List.forall_mem_nil _)))
  | array elem ih => exact .reference (.array (ih h))

/-- A field type whose signature is grammatical has the name of a class. -/
theorem hasClassName_of_isValue {t : FieldType} (h : t.toSig.IsValue) : t.HasClassName := by
  induction t with
  | base b => exact fun _ => nofun
  | object name =>
    obtain _ | ⟨⟨⟨hname, -, -⟩⟩⟩ := h
    rintro _ ⟨⟩
    exact hname
  | array elem ih =>
    cases h with
    | reference href =>
      cases href with
      | ofClass hclass => cases hclass
      | array helem => exact ih helem

/-- **Readable as a signature** is what is readable as a descriptor, if its class has the
name of a class. -/
theorem isValue_toSig_iff {t : FieldType} :
    t.toSig.IsValue ∧ t.toSig.nesting ≤ 255 ↔ t.IsReadable ∧ t.HasClassName := by
  rw [nesting_toSig]
  constructor
  · rintro ⟨hvalue, hle⟩
    have hname := hasClassName_of_isValue hvalue
    exact ⟨⟨fun name h => (hname name h).isDescriptorName, hle⟩, hname⟩
  · rintro ⟨hreadable, hname⟩
    exact ⟨hname.isValue_toSig, hreadable.dimensions⟩

end FieldType

/-! ### Reading descriptors as signatures -/

/-- The reference types among the field types; of the others there are no field
signatures. -/
theorem FieldType.isReference_toSig_iff {t : FieldType} (ht : ∀ b, t ≠ .base b) :
    t.toSig.IsReference ↔ t.toSig.IsValue := by
  refine ⟨.reference, fun h => ?_⟩
  cases t with
  | base b => exact absurd rfl (ht b)
  | object name =>
    cases h with
    | reference href => exact href
  | array elem =>
    cases h with
    | reference href => exact href

/-- **A field type is read as a field signature** exactly from the texts from which it is read
as a descriptor, if its class has the name of a class. -/
theorem TypeSig.parse_eq_toSig_iff {text : String} {t : FieldType} (ht : ∀ b, t ≠ .base b) :
    TypeSig.parse text = .ok t.toSig ↔ FieldType.parse text = .ok t ∧ t.HasClassName := by
  have hreadable : t.toSig.IsReadable ↔ t.IsReadable ∧ t.HasClassName := by
    rw [← FieldType.isValue_toSig_iff, ← FieldType.isReference_toSig_iff ht]
    exact ⟨fun h => ⟨h.reference, h.nesting⟩, fun h => ⟨h.1, h.2⟩⟩
  rw [TypeSig.parse_eq_ok, FieldType.parse_eq_ok, hreadable, FieldType.spelling_toSig]
  tauto

theorem FieldType.isResult_toSig_iff {t : FieldType} : t.toSig.IsResult ↔ t.toSig.IsValue := by
  refine ⟨fun h => ?_, .value⟩
  generalize hs : t.toSig = s at h
  cases h with
  | void => cases t <;> cases hs
  | value hvalue => exact hvalue

/-- A method descriptor is readable as a signature if it is readable, and all its classes have
the names of classes. -/
theorem MethodDescriptor.isReadable_toSig_iff {d : MethodDescriptor} :
    d.toSig.IsReadable ↔ d.IsReadable ∧ d.HasClassNames := by
  have hresult : (resultSig d.result).IsResult ∧ (resultSig d.result).nesting ≤ 255 ↔
      ∀ t, d.result = some t → t.IsReadable ∧ t.HasClassName := by
    cases d.result with
    | none => exact iff_of_true ⟨.void, Nat.zero_le _⟩ fun _ => nofun
    | some t =>
      simp only [Option.some.injEq, forall_eq', ← FieldType.isValue_toSig_iff, resultSig,
        FieldType.isResult_toSig_iff]
  have hparams : (∀ s ∈ d.params.map FieldType.toSig, s.IsValue ∧ s.nesting ≤ 255) ↔
      ∀ t ∈ d.params, t.IsReadable ∧ t.HasClassName := by
    simp only [List.forall_mem_map, FieldType.isValue_toSig_iff]
  constructor
  · intro h
    have hnesting : ∀ s ∈ d.toSig.params ++ [d.toSig.result], s.nesting ≤ 255 := h.nesting
    have hps := hparams.1 fun s hs => ⟨h.params s hs, hnesting s (List.mem_append_left _ hs)⟩
    have hr := hresult.1 ⟨h.result, hnesting _ (by simp [toSig])⟩
    exact ⟨⟨fun t ht => (hps t ht).1, fun t ht => (hr t ht).1⟩,
      ⟨fun t ht => (hps t ht).2, fun t ht => (hr t ht).2⟩⟩
  · rintro ⟨hreadable, hnames⟩
    have hps := hparams.2 fun t ht => ⟨hreadable.params t ht, hnames.params t ht⟩
    have hr := hresult.2 fun t ht => ⟨hreadable.result t ht, hnames.result t ht⟩
    have hnesting : ∀ s ∈ d.params.map FieldType.toSig ++ [resultSig d.result],
        s.nesting ≤ 255 := by
      intro s hs
      rcases List.mem_append.1 hs with hs | hs
      · exact (hps s hs).2
      · rw [List.mem_singleton.1 hs]
        exact hr.2
    exact ⟨List.forall_mem_nil _, fun s hs => (hps s hs).1, hr.1, List.forall_mem_nil _, hnesting,
      .nil⟩

/-- **A method descriptor is read as a method signature** exactly from the texts from which it
is read as a descriptor, if its classes have the names of classes. -/
theorem MethodSig.parse_eq_toSig_iff {text : String} {d : MethodDescriptor} :
    MethodSig.parse text = .ok d.toSig ↔ MethodDescriptor.parse text = .ok d ∧
      d.HasClassNames := by
  rw [MethodSig.parse_eq_ok, MethodDescriptor.parse_eq_ok, MethodDescriptor.isReadable_toSig_iff,
    MethodDescriptor.spelling_toSig]
  tauto

/-- What is read from the text of a field descriptor as a signature is the descriptor. -/
theorem FieldType.eq_toSig_of_parse {text : String} {t : FieldType}
    (h : FieldType.parse text = .ok t) {s : TypeSig} (hs : TypeSig.parse text = .ok s) :
    s = t.toSig := by
  have htext : t.text = text := by
    rw [FieldType.text, (FieldType.parse_eq_ok.1 h).2, String.ofList_toList]
  exact TypeSig.eq_toSig_of_parse (FieldType.isInternal_of_parse h) (htext ▸ hs)

/-- What is read from the text of a method descriptor as a signature is the descriptor. -/
theorem MethodDescriptor.eq_toSig_of_parse {text : String} {d : MethodDescriptor}
    (h : MethodDescriptor.parse text = .ok d) {s : MethodSig} (hs : MethodSig.parse text = .ok s) :
    s = d.toSig := by
  have htext : d.text = text := by
    rw [MethodDescriptor.text, (MethodDescriptor.parse_eq_ok.1 h).2, String.ofList_toList]
  exact MethodSig.eq_toSig_of_parse (MethodDescriptor.isInternal_of_parse h) (htext ▸ hs)

/-- **Descriptors are signatures, as far as their classes have the names of classes.** The text
of a field descriptor that is no primitive type is accepted as a field signature, and that of a
method descriptor as a method signature, if and only if the name of every class in it is made
of components of which none is empty, without a colon; and the events are then those of the
descriptor. Array dimensions make no difference: the two readers allow equally many. -/
theorem Grammar.descriptors_are_signatures (text : String) :
    (∀ t, FieldType.parse text = .ok t → (∀ b, t ≠ .base b) →
      ((TypeSig.parse text).isOk = true ↔ t.HasClassName) ∧
      (t.HasClassName → (TypeSig.parse text).map TypeSig.events = .ok t.events)) ∧
    (∀ d, MethodDescriptor.parse text = .ok d →
      ((MethodSig.parse text).isOk = true ↔ d.HasClassNames) ∧
      (d.HasClassNames → (MethodSig.parse text).map MethodSig.events = .ok d.events)) ∧
    (∀ t : FieldType, (∀ b, t ≠ .base b) → TypeSig.parse text = .ok t.toSig →
      FieldType.parse text = .ok t) ∧
    ∀ name, IsDescriptorName name → (IsClassName name ↔
      ':' ∉ name.toList ∧ TypeSig.componentsFilled true name.toList = true) := by
  refine ⟨fun t h ht => ⟨⟨fun hok => ?_, fun hname => ?_⟩, fun hname => ?_⟩,
    fun d h => ⟨⟨fun hok => ?_, fun hnames => ?_⟩, fun hnames => ?_⟩,
    fun t ht h => ((TypeSig.parse_eq_toSig_iff ht).1 h).1, fun name h => h.isClassName_iff⟩
  · obtain ⟨s, hs⟩ := isOk_iff_exists.1 hok
    rw [FieldType.eq_toSig_of_parse h hs] at hs
    exact ((TypeSig.parse_eq_toSig_iff ht).1 hs).2
  · exact isOk_iff_exists.2 ⟨_, (TypeSig.parse_eq_toSig_iff ht).2 ⟨h, hname⟩⟩
  · rw [(TypeSig.parse_eq_toSig_iff ht).2 ⟨h, hname⟩, Except.map, FieldType.events_toSig]
  · obtain ⟨s, hs⟩ := isOk_iff_exists.1 hok
    rw [MethodDescriptor.eq_toSig_of_parse h hs] at hs
    exact (MethodSig.parse_eq_toSig_iff.1 hs).2
  · exact isOk_iff_exists.2 ⟨_, MethodSig.parse_eq_toSig_iff.2 ⟨h, hnames⟩⟩
  · rw [MethodSig.parse_eq_toSig_iff.2 ⟨h, hnames⟩, Except.map, MethodDescriptor.events_toSig]

/-- An array of strings is read as a signature, whichever reader takes it. -/
theorem Grammar.descriptors_are_signatures_of_string :
    let t : FieldType := .array (.object "java/lang/String")
    FieldType.parse "[Ljava/lang/String;" = .ok t ∧ (∀ b, t ≠ .base b) ∧ t.HasClassName ∧
      (TypeSig.parse "[Ljava/lang/String;").map TypeSig.events =
        .ok [.arrayType, .classType "java/lang/String", .close] := by
  intro t
  have hparse : FieldType.parse "[Ljava/lang/String;" = .ok t := by decide +kernel
  have hbase : ∀ b, t ≠ .base b := fun b => nofun
  have hname : t.HasClassName := by
    rintro _ ⟨⟩
    refine ⟨["java", "lang", "String"], List.cons_ne_nil _ _, ?_, by decide +kernel⟩
    simp [IsName]
  exact ⟨hparse, hbase, hname, ((descriptors_are_signatures _).1 t hparse hbase).2 hname⟩

/-- A name with an empty component, or with a colon, is taken in a descriptor and refused in a
signature. -/
theorem Grammar.descriptors_beyond_signatures :
    FieldType.parse "L/a;" = .ok (.object "/a") ∧ (TypeSig.parse "L/a;").isOk = false ∧
      FieldType.parse "[La:b;" = .ok (.array (.object "a:b")) ∧
      (TypeSig.parse "[La:b;").isOk = false ∧
      MethodDescriptor.parse "(La//b;)V" = .ok ⟨[.object "a//b"], none⟩ ∧
      (MethodSig.parse "(La//b;)V").isOk = false := by
  decide +kernel

end JavaGenerics
