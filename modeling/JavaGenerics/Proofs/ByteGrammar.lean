import JavaGenerics.Descriptor.Reading
import JavaGenerics.Proofs.Mirroring
import JavaGenerics.Signature.Reading

/-!
# Descriptors and signatures, byte by byte

The grammars of this library may be read with a position among the bytes of a text in place of the
characters still to come. Here are the readers that do so, each put together as the reader of
characters of its part, and the proof that it mirrors that one. Every character a grammar asks for
is ASCII, and so is every character at which a name ends.

It follows that all parsers are safe (`JavaGenerics.Grammar.parsers_are_safe`).
-/

namespace JavaGenerics

open ByteReader

/-! ### Characters that are told apart -/

/-- A character that is not ASCII is none of those that a grammar asks for. -/
theorem some_ne_of_isAscii {c d : Char} (hc : ¬IsAscii c) (hd : IsAscii d) : some c ≠ some d :=
  fun heq => hc (Option.some.inj heq ▸ hd)

theorem BaseType.isAscii_of_ofLetter? {c : Char} {b : BaseType} (h : ofLetter? c = some b) :
    IsAscii c := by
  obtain rfl := ofLetter?_eq_some_iff.1 h
  cases b <;> decide

theorem BaseType.ofLetter?_eq_none {c : Char} (h : ¬IsAscii c) : ofLetter? c = none :=
  Option.eq_none_iff_forall_ne_some.2 fun _ hb => h (isAscii_of_ofLetter? hb)

/-! ### Field types -/

namespace FieldType

/-- `JavaGenerics.FieldType.readInnermost` on bytes. -/
def scanInnermost : ByteReader FieldType := do
  let c ← peek
  match c.bind BaseType.ofLetter? with
  | some b =>
    skip
    pure (base b)
  | none =>
    if c = some 'L' then
      skip
      let name ← ByteReader.name [';'] ['.', '[', '<', '>'] .className
      skip
      pure (object name)
    else stop .noFieldType

/-- `JavaGenerics.FieldType.readWithin` on bytes. -/
def scanWithin : (room : Nat) → ByteReader FieldType
  | 0 => do if ← eat '[' then stop .tooManyDimensions else scanInnermost
  | room + 1 => do if ← eat '[' then array <$> scanWithin room else scanInnermost

/-- Reads a field type byte by byte. -/
def scanner : ByteReader FieldType := scanWithin maxDimensions

theorem mirrors_scanInnermost : scanInnermost.Mirrors readInnermost := by
  refine mirrors_peek_bind (stop .noFieldType) (fun c hc => ?_) fun c? => ?_
  · rw [Option.bind_some, BaseType.ofLetter?_eq_none hc]
    exact if_neg (some_ne_of_isAscii hc (by decide))
  · cases hb : c?.bind BaseType.ofLetter? with
    | some b =>
      obtain ⟨c, rfl, hc⟩ := Option.bind_eq_some_iff.1 hb
      exact mirrorsAt_skip_bind (BaseType.isAscii_of_ofLetter? hc) (mirrors_pure (base b))
    | none =>
      by_cases hc : c? = some 'L'
      · subst hc
        exact mirrorsAt_skip_bind (by decide) <| mirrors_name_bind_skip (by decide) (by decide) _
          fun name => mirrors_pure (object name)
      · simp only [hc, if_false]
        exact mirrors_stop _ c?

theorem mirrors_scanWithin (room : Nat) : (scanWithin room).Mirrors (readWithin room) := by
  induction room with
  | zero => exact mirrors_eat_bind (by decide) (mirrors_stop _) mirrors_scanInnermost
  | succ room ih => exact mirrors_eat_bind (by decide) (ih.map array) mirrors_scanInnermost

theorem mirrors_scanner : scanner.Mirrors reader := mirrors_scanWithin maxDimensions

end FieldType

/-! ### Method descriptors -/

namespace MethodDescriptor

/-- `JavaGenerics.MethodDescriptor.readParam?` on bytes. -/
def scanParam? : ByteReader (Option FieldType) := do
  if ← eat ')' then pure none
  else if ← atEnd then stop .openParams
  else some <$> FieldType.scanner

/-- `JavaGenerics.MethodDescriptor.readResult` on bytes. -/
def scanResult : ByteReader (Option FieldType) := do
  if ← eat 'V' then pure none else some <$> FieldType.scanner

/-- Reads a method descriptor byte by byte. -/
def scanner : ByteReader MethodDescriptor := do
  if ← eat '(' then
    let params ← many scanParam?
    let result ← scanResult
    pure ⟨params, result⟩
  else stop .descriptorStart

theorem mirrors_scanParam? : scanParam?.Mirrors readParam? :=
  mirrors_eat_bind (by decide) (mirrors_pure none) <| mirrors_atEnd_bind (mirrors_stop _)
    (FieldType.mirrors_scanner.map some)

theorem mirrors_scanResult : scanResult.Mirrors readResult :=
  mirrors_eat_bind (by decide) (mirrors_pure none) (FieldType.mirrors_scanner.map some)

theorem mirrors_scanner : scanner.Mirrors reader := by
  refine mirrors_eat_bind (by decide) ?_ (mirrors_stop _)
  exact mirrors_scanParam?.many.bind fun params => mirrors_scanResult.bind fun result =>
    mirrors_pure (MethodDescriptor.mk params result)

end MethodDescriptor

/-! ### Types in signatures -/

namespace TypeSig

/-- `JavaGenerics.TypeSig.readVar` on bytes. -/
def scanVar : ByteReader TypeSig := do
  skip
  let name ← ByteReader.name [';'] nameForbidden .typeVarName
  skip
  pure (var name)

/-- `JavaGenerics.TypeSig.readArg?` on bytes. -/
def scanArg? (nested : ByteReader TypeSig) : ByteReader (Option TypeArg) := do
  let c? ← peek
  if c? = some '>' then
    skip
    pure none
  else if c? = some '*' then
    skip
    pure (some .unbounded)
  else if c? = some '+' then
    skip
    return some (.bounded .upper (← nested))
  else if c? = some '-' then
    skip
    return some (.bounded .lower (← nested))
  else if c? = none then stop .openTypeArgs
  else return some (.bounded .exact (← nested))

/-- `JavaGenerics.TypeSig.readArgs` on bytes. -/
def scanArgs (nested : Option (ByteReader TypeSig)) : ByteReader (List TypeArg) := do
  if (← peek) = some '<' then
    match nested with
    | none => stop .tooDeep
    | some nested =>
      skip
      if (← peek) = some '>' then stop .noTypeArgs else many (scanArg? nested)
  else pure []

/-- `JavaGenerics.TypeSig.readInner?` on bytes. -/
def scanInner? (nested : Option (ByteReader TypeSig)) : ByteReader (Option Segment) := do
  if ← eat '.' then
    let name ← ByteReader.name ['<', '.', ';'] nameForbidden .memberName
    let args ← scanArgs nested
    pure (some (.mk name args))
  else pure none

/-- `JavaGenerics.TypeSig.readClassWith` on bytes. -/
def scanClassWith (nested : Option (ByteReader TypeSig)) : ByteReader TypeSig := do
  if ← eat 'L' then
    let name ← ByteReader.name ['<', '.', ';'] ['[', '>', ':'] .className
    if componentsFilled true name.toList then
      let args ← scanArgs nested
      let inner ← many (scanInner? nested)
      if ← eat ';' then pure (ofClass (.mk name args) inner) else stop .openClassType
    else stop .className
  else stop .noClassType

/-- `JavaGenerics.TypeSig.readAnyWith` on bytes. -/
def scanAnyWith (reference : ByteReader TypeSig) : ByteReader TypeSig := do
  match (← peek).bind BaseType.ofLetter? with
  | some b =>
    skip
    pure (base b)
  | none => reference

/-- `JavaGenerics.TypeSig.readWith` on bytes. -/
def scanWith (nested : Option (ByteReader TypeSig)) : ByteReader TypeSig := do
  let c? ← peek
  if c? = some 'L' then scanClassWith nested
  else if c? = some 'T' then scanVar
  else if c? = some '[' then
    match nested with
    | none => stop .tooDeep
    | some nested =>
      skip
      array <$> scanAnyWith nested
  else stop .noReference

/-- `JavaGenerics.TypeSig.readWithin` on bytes. -/
def scanWithin : (room : Nat) → ByteReader TypeSig
  | 0 => scanWith none
  | room + 1 => scanWith (some (scanWithin room))

/-- `JavaGenerics.TypeSig.nestedWithin` on bytes. -/
def scanNestedWithin : (room : Nat) → Option (ByteReader TypeSig)
  | 0 => none
  | room + 1 => some (scanWithin room)

/-- Reads a reference type byte by byte. -/
def scanner : ByteReader TypeSig := scanWithin maxNesting

/-- Reads a class type byte by byte. -/
def classScanner : ByteReader TypeSig := scanClassWith (scanNestedWithin maxNesting)

/-- Reads a primitive or reference type byte by byte. -/
def anyScanner : ByteReader TypeSig := scanAnyWith scanner

/-- What may be nested, if anything, is read by one as by the other. -/
abbrev NestedMirrors : Option (ByteReader TypeSig) → Option (Reader Stop TypeSig) → Prop :=
  Option.Rel Mirrors

variable {y? : Option (ByteReader TypeSig)} {x? : Option (Reader Stop TypeSig)}

theorem all_isAscii_nameForbidden : nameForbidden.all fun c => IsAscii c := by decide

/-- A type variable is only read where one begins. -/
theorem mirrorsAt_scanVar : scanVar.MirrorsAt (some 'T') readVar :=
  mirrorsAt_skip_bind (by decide) <| mirrors_name_bind_skip (by decide)
    all_isAscii_nameForbidden _ fun name => mirrors_pure (var name)

theorem mirrors_scanArg? {y : ByteReader TypeSig} {x : Reader Stop TypeSig} (h : y.Mirrors x) :
    (scanArg? y).Mirrors (readArg? x) := by
  refine mirrors_peek_bind (y >>= fun t => pure (some (.bounded .exact t))) (fun c hc => ?_)
    fun c? => ?_
  · rw [if_neg (some_ne_of_isAscii hc (d := '>') (by decide)),
      if_neg (some_ne_of_isAscii hc (d := '*') (by decide)),
      if_neg (some_ne_of_isAscii hc (d := '+') (by decide)),
      if_neg (some_ne_of_isAscii hc (d := '-') (by decide)), if_neg (Option.some_ne_none c)]
  · by_cases hclose : c? = some '>'
    · subst hclose
      exact mirrorsAt_skip_bind (by decide) (mirrors_pure none)
    by_cases hany : c? = some '*'
    · subst hany
      exact mirrorsAt_skip_bind (by decide) (mirrors_pure _)
    by_cases hupper : c? = some '+'
    · subst hupper
      exact mirrorsAt_skip_bind (by decide) (h.bind fun t => mirrors_pure _)
    by_cases hlower : c? = some '-'
    · subst hlower
      exact mirrorsAt_skip_bind (by decide) (h.bind fun t => mirrors_pure _)
    rw [if_neg hclose, if_neg hany, if_neg hupper, if_neg hlower]
    cases c? with
    | none => exact mirrors_stop _ _
    | some c =>
      rw [if_neg (Option.some_ne_none c)]
      split
      · exact absurd ‹_› hclose
      · exact absurd ‹_› hany
      · exact absurd ‹_› hupper
      · exact absurd ‹_› hlower
      · exact (h.bind fun t => mirrors_pure _) (some c)
      · exact absurd ‹_› (Option.some_ne_none c)

theorem mirrors_scanArgs (h : NestedMirrors y? x?) : (scanArgs y?).Mirrors (readArgs x?) := by
  refine mirrors_peek_eq_bind (by decide) ?_ (mirrors_pure [])
  cases h with
  | none => exact mirrors_stop _ _
  | some h =>
    exact mirrorsAt_skip_bind (by decide) <|
      mirrors_peek_eq_bind (by decide) (mirrors_stop _ _) (mirrors_scanArg? h).many

theorem mirrors_scanInner? (h : NestedMirrors y? x?) :
    (scanInner? y?).Mirrors (readInner? x?) := by
  refine mirrors_eat_bind (by decide) ?_ (mirrors_pure none)
  exact (mirrors_name (by decide) all_isAscii_nameForbidden _).bind fun name =>
    (mirrors_scanArgs h).bind fun args => mirrors_pure (some (Segment.mk name args))

theorem mirrors_scanClassWith (h : NestedMirrors y? x?) :
    (scanClassWith y?).Mirrors (readClassWith x?) := by
  refine mirrors_eat_bind (by decide) ?_ (mirrors_stop _)
  refine (mirrors_name (by decide) (by decide) _).bind fun name => ?_
  split
  · exact (mirrors_scanArgs h).bind fun args => (mirrors_scanInner? h).many.bind fun inner =>
      mirrors_eat_bind (by decide) (mirrors_pure _) (mirrors_stop _)
  · exact mirrors_stop _

theorem mirrors_scanAnyWith {y : ByteReader TypeSig} {x : Reader Stop TypeSig} (h : y.Mirrors x) :
    (scanAnyWith y).Mirrors (readAnyWith x) := by
  refine mirrors_peek_bind y (fun c hc => ?_) fun c? => ?_
  · rw [Option.bind_some, BaseType.ofLetter?_eq_none hc]
  · cases hb : c?.bind BaseType.ofLetter? with
    | some b =>
      obtain ⟨c, rfl, hc⟩ := Option.bind_eq_some_iff.1 hb
      exact mirrorsAt_skip_bind (BaseType.isAscii_of_ofLetter? hc) (mirrors_pure (base b))
    | none => exact h c?

theorem mirrors_scanWith (h : NestedMirrors y? x?) :
    (scanWith y?).Mirrors (readWith x?) := by
  refine mirrors_peek_bind (stop .noReference) (fun c hc => ?_) fun c? => ?_
  · rw [if_neg, if_neg, if_neg] <;> exact some_ne_of_isAscii hc (by decide)
  · by_cases hclass : c? = some 'L'
    · subst hclass
      exact mirrors_scanClassWith h _
    by_cases hvar : c? = some 'T'
    · subst hvar
      exact mirrorsAt_scanVar
    by_cases harray : c? = some '['
    · subst harray
      cases h with
      | none => exact mirrors_stop _ _
      | some h => exact mirrorsAt_skip_bind (by decide) ((mirrors_scanAnyWith h).map array)
    rw [if_neg hclass, if_neg hvar, if_neg harray]
    split
    · exact absurd rfl hclass
    · exact absurd rfl hvar
    · exact absurd rfl harray
    · exact mirrors_stop _ _

theorem mirrors_scanWithin (room : Nat) : (scanWithin room).Mirrors (readWithin room) := by
  induction room with
  | zero => exact mirrors_scanWith .none
  | succ room ih => exact mirrors_scanWith (.some ih)

theorem mirrors_scanNestedWithin (room : Nat) :
    NestedMirrors (scanNestedWithin room) (nestedWithin room) := by
  cases room with
  | zero => exact .none
  | succ room => exact .some (mirrors_scanWithin room)

theorem mirrors_scanner : scanner.Mirrors reader := mirrors_scanWithin maxNesting

theorem mirrors_classScanner : classScanner.Mirrors classReader :=
  mirrors_scanClassWith (mirrors_scanNestedWithin maxNesting)

theorem mirrors_anyScanner : anyScanner.Mirrors anyReader := mirrors_scanAnyWith mirrors_scanner

end TypeSig

/-! ### Type parameters -/

namespace TypeParamSig

/-- `JavaGenerics.TypeParamSig.readClassBound` on bytes. -/
def scanClassBound : ByteReader (Option TypeSig) := do
  let c? ← peek
  if c? = some 'L' ∨ c? = some 'T' ∨ c? = some '[' then some <$> TypeSig.scanner else pure none

/-- `JavaGenerics.TypeParamSig.readInterfaceBound?` on bytes. -/
def scanInterfaceBound? : ByteReader (Option TypeSig) := do
  if ← eat ':' then some <$> TypeSig.scanner else pure none

/-- `JavaGenerics.TypeParamSig.read?` on bytes. -/
def scan? : ByteReader (Option TypeParamSig) := do
  if ← eat '>' then pure none
  else
    let name ← ByteReader.name [':'] TypeSig.nameForbidden .typeParamName
    skip
    let classBound ← scanClassBound
    let interfaceBounds ← many scanInterfaceBound?
    pure (some ⟨name, classBound, interfaceBounds⟩)

/-- Reads the type parameters that may open a signature byte by byte. -/
def listScanner : ByteReader (List TypeParamSig) := do
  if ← eat '<' then
    if (← peek) = some '>' then stop .noTypeParams else many scan?
  else pure []

theorem mirrors_scanClassBound : scanClassBound.Mirrors readClassBound := by
  have hbound := TypeSig.mirrors_scanner.map some
  refine mirrors_peek_bind (pure none) (fun c hc => if_neg ?_) fun c? => ?_
  · rintro (heq | heq | heq) <;> exact some_ne_of_isAscii hc (by decide) heq
  · split
    · rename_i hc
      rcases hc with rfl | rfl | rfl <;> exact hbound _
    · rename_i hc
      split
      · exact absurd (.inl rfl) hc
      · exact absurd (.inr (.inl rfl)) hc
      · exact absurd (.inr (.inr rfl)) hc
      · exact mirrors_pure none _

theorem mirrors_scanInterfaceBound? : scanInterfaceBound?.Mirrors readInterfaceBound? :=
  mirrors_eat_bind (by decide) (TypeSig.mirrors_scanner.map some) (mirrors_pure none)

theorem mirrors_scan? : scan?.Mirrors read? := by
  refine mirrors_eat_bind (by decide) (mirrors_pure none) ?_
  exact mirrors_name_bind_skip (by decide) TypeSig.all_isAscii_nameForbidden _ fun name =>
    mirrors_scanClassBound.bind fun classBound => mirrors_scanInterfaceBound?.many.bind
      fun interfaceBounds => mirrors_pure (some (TypeParamSig.mk name classBound interfaceBounds))

theorem mirrors_listScanner : listScanner.Mirrors listReader :=
  mirrors_eat_bind (by decide)
    (mirrors_peek_eq_bind (by decide) (mirrors_stop _ _) mirrors_scan?.many) (mirrors_pure [])

end TypeParamSig

/-! ### Classes and methods -/

namespace ClassSig

/-- `JavaGenerics.ClassSig.readInterface?` on bytes. -/
def scanInterface? : ByteReader (Option TypeSig) := do
  if ← atEnd then pure none else some <$> TypeSig.classScanner

/-- Reads a class signature byte by byte. -/
def scanner : ByteReader ClassSig := do
  let typeParams ← TypeParamSig.listScanner
  let superclass ← TypeSig.classScanner
  let interfaces ← many scanInterface?
  pure ⟨typeParams, superclass, interfaces⟩

theorem mirrors_scanInterface? : scanInterface?.Mirrors readInterface? :=
  mirrors_atEnd_bind (mirrors_pure none) (TypeSig.mirrors_classScanner.map some)

theorem mirrors_scanner : scanner.Mirrors reader :=
  TypeParamSig.mirrors_listScanner.bind fun typeParams =>
    TypeSig.mirrors_classScanner.bind fun superclass =>
      mirrors_scanInterface?.many.bind fun interfaces =>
        mirrors_pure (ClassSig.mk typeParams superclass interfaces)

end ClassSig

namespace MethodSig

/-- `JavaGenerics.MethodSig.readParam?` on bytes. -/
def scanParam? : ByteReader (Option TypeSig) := do
  if ← eat ')' then pure none
  else if ← atEnd then stop .openParams
  else some <$> TypeSig.anyScanner

/-- `JavaGenerics.MethodSig.readResult` on bytes. -/
def scanResult : ByteReader TypeSig := do
  if ← eat 'V' then pure .void else TypeSig.anyScanner

/-- `JavaGenerics.MethodSig.readThrown?` on bytes. -/
def scanThrown? : ByteReader (Option TypeSig) := do
  if ← eat '^' then
    let c? ← peek
    if c? = some 'L' then some <$> TypeSig.classScanner
    else if c? = some 'T' then some <$> TypeSig.scanVar
    else stop .noThrown
  else pure none

/-- Reads a method signature byte by byte. -/
def scanner : ByteReader MethodSig := do
  let typeParams ← TypeParamSig.listScanner
  if ← eat '(' then
    let params ← many scanParam?
    let result ← scanResult
    let throws ← many scanThrown?
    pure ⟨typeParams, params, result, throws⟩
  else stop .noParams

theorem mirrors_scanParam? : scanParam?.Mirrors readParam? :=
  mirrors_eat_bind (by decide) (mirrors_pure none) <| mirrors_atEnd_bind (mirrors_stop _)
    (TypeSig.mirrors_anyScanner.map some)

theorem mirrors_scanResult : scanResult.Mirrors readResult :=
  mirrors_eat_bind (by decide) (mirrors_pure TypeSig.void) TypeSig.mirrors_anyScanner

theorem mirrors_scanThrown? : scanThrown?.Mirrors readThrown? := by
  refine mirrors_eat_bind (by decide) ?_ (mirrors_pure none)
  refine mirrors_peek_bind (stop .noThrown) (fun c hc => ?_) fun c? => ?_
  · rw [if_neg, if_neg] <;> exact some_ne_of_isAscii hc (by decide)
  · by_cases hclass : c? = some 'L'
    · subst hclass
      exact TypeSig.mirrors_classScanner.map some _
    by_cases hvar : c? = some 'T'
    · subst hvar
      exact TypeSig.mirrorsAt_scanVar.map some
    rw [if_neg hclass, if_neg hvar]
    split
    · exact absurd rfl hclass
    · exact absurd rfl hvar
    · exact mirrors_stop _ _

theorem mirrors_scanner : scanner.Mirrors reader := by
  refine TypeParamSig.mirrors_listScanner.bind fun typeParams => ?_
  refine mirrors_eat_bind (by decide) ?_ (mirrors_stop _)
  exact mirrors_scanParam?.many.bind fun params => mirrors_scanResult.bind fun result =>
    mirrors_scanThrown?.many.bind fun throws =>
      mirrors_pure (MethodSig.mk typeParams params result throws)

end MethodSig

/-! ### The parsers -/

namespace Grammar

/-- **All parsers are safe.** Reading descriptors and signatures byte by byte never cuts a name out
of the middle of a character. The position at which a text is rejected lies between two characters,
and whatever comes behind the byte that stands there, the text is rejected alike. -/
theorem parsers_are_safe :
    IsSafe FieldType.parse FieldType.scanner ∧
      IsSafe MethodDescriptor.parse MethodDescriptor.scanner ∧
      IsSafe ClassSig.parse ClassSig.scanner ∧
      IsSafe MethodSig.parse MethodSig.scanner ∧
      IsSafe TypeSig.parse TypeSig.scanner :=
  ⟨isSafe_read .descriptor FieldType.mirrors_scanner,
    isSafe_read .descriptor MethodDescriptor.mirrors_scanner,
    isSafe_read .signature ClassSig.mirrors_scanner,
    isSafe_read .signature MethodSig.mirrors_scanner,
    isSafe_read .signature TypeSig.mirrors_scanner⟩

/-- A name is rejected behind its one character of three bytes, and what follows does not count. -/
theorem parsers_are_safe_behind_three_bytes :
    FieldType.parse "L漢[;" = .error ⟨.descriptor, "L漢[;", 4, .className⟩ ∧
      FieldType.parse "L漢[字字" = .error ⟨.descriptor, "L漢[字字", 4, .className⟩ := by
  have hreject : FieldType.parse "L漢[;" = .error ⟨.descriptor, "L漢[;", 4, .className⟩ := by
    decide +kernel
  refine ⟨hreject, parsers_are_safe.1.isLocal _ _ _ hreject (by decide) ?_⟩
  rw [textBytes_eq, textBytes_eq]
  decide

end Grammar

end JavaGenerics
