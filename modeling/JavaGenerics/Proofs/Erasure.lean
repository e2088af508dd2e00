import JavaGenerics.Proofs.Meaning

/-!
# Agreement with a descriptor

What a signature says of a member has to agree with the descriptor that the class file
records besides. This file says what agreement is, without a word about how it is
checked, and then that the checks find out just that
(`JavaGenerics.Registry.checkErasure_eq_ok`,
`JavaGenerics.Registry.checkDescriptor_eq_ok`).

Of a type, erasure leaves the number of array dimensions and what stands behind them
(`JavaGenerics.Erasure`). For a type variable that is some class: which one depends on
bounds, and any class is taken to do.

A constructor may have parameters in front that its signature leaves out. Which these can
be is settled by the class around it (`JavaGenerics.Registry.MayOpen`), and nothing else
may be left out.
-/

namespace JavaGenerics

/-! ### What erasure leaves -/

/-- What stands behind the array dimensions of a type. -/
inductive Erasure.Core where
  | base (b : BaseType)
  | void
  /-- A class, by its binary name. -/
  | ofClass (name : String)
  /-- A type variable, which may stand for any class. -/
  | var
  /-- Nothing that a descriptor could describe: a wildcard, or a class that is not
  registered. -/
  | nothing
deriving DecidableEq, Repr

/-- What a class erases to, if it is registered. -/
def Erasure.Core.ofEntry : Option ClassEntry → Erasure.Core
  | some entry => .ofClass entry.name
  | none => .nothing

/-- What erasure leaves of a type. -/
structure Erasure where
  dimensions : Nat
  core : Erasure.Core
deriving DecidableEq, Repr

namespace Erasure

/-- What erasure leaves of an array of such a type. -/
def array (e : Erasure) : Erasure := ⟨e.dimensions + 1, e.core⟩

theorem array_injective {e e' : Erasure} (h : e.array = e'.array) : e = e' := by
  cases e
  cases e'
  simpa [array] using h

/-- **Agreement with an erased type**: as many array dimensions, and behind them the same
primitive type or class; a type variable agrees with any class. -/
def Fits (e : Erasure) (d : FieldType) : Prop :=
  e.dimensions = d.dimensions ∧
    match d.innermost with
    | .base b => e.core = .base b
    | .object name => e.core = .ofClass (internalToBinary name) ∨ e.core = .var
    | .array _ => False

/-- Agreement with an erased result. -/
def FitsResult (e : Erasure) : Option FieldType → Prop
  | some d => e.Fits d
  | none => e = ⟨0, .void⟩

theorem fits_array_iff {e : Erasure} {d : FieldType} :
    e.Fits (.array d) ↔ ∃ e', e = array e' ∧ e'.Fits d := by
  obtain ⟨dimensions, core⟩ := e
  unfold Fits array
  constructor
  · rintro ⟨hdim, hcore⟩
    exact ⟨⟨d.dimensions, core⟩, by rw [show dimensions = d.dimensions + 1 from hdim], rfl, hcore⟩
  · rintro ⟨⟨dimensions', core'⟩, he, hdim, hcore⟩
    cases he
    exact ⟨congrArg (· + 1) hdim, hcore⟩

end Erasure

namespace Registry

/-- What erasure leaves of a resolved type. -/
def erasure (r : Registry) : ResolvedType → Erasure
  | .base b => ⟨0, .base b⟩
  | .void => ⟨0, .void⟩
  | .raw c => ⟨0, .ofEntry (r.classAt? c)⟩
  | .parameterized c _ => ⟨0, .ofEntry (r.classAt? c)⟩
  | .member _ c _ => ⟨0, .ofEntry (r.classAt? c)⟩
  | .var _ => ⟨0, .var⟩
  | .array elem => (r.erasure elem).array
  | .unbounded => ⟨0, .nothing⟩
  | .upper _ => ⟨0, .nothing⟩
  | .lower _ => ⟨0, .nothing⟩

/-- Erasure depends on the classes alone. -/
theorem erasure_congr {r r' : Registry} (h : ∀ c, r'.classAt? c = r.classAt? c) :
    ∀ t, r'.erasure t = r.erasure t
  | .base _ => rfl
  | .void => rfl
  | .raw c => by rw [erasure, erasure, h]
  | .parameterized c args => by rw [erasure, erasure, h]
  | .member outer c args => by rw [erasure, erasure, h]
  | .var _ => rfl
  | .array elem => by rw [erasure, erasure, erasure_congr h elem]
  | .unbounded => rfl
  | .upper _ => rfl
  | .lower _ => rfl

variable {r : Registry}

/-- A class type erases to its class. -/
theorem erasure_of_class? {t : ResolvedType} {c : ClassId} (h : t.class? = some c) :
    r.erasure t = ⟨0, .ofEntry (r.classAt? c)⟩ := by
  cases t with
  | raw c' | parameterized c' args | member outer c' args =>
    cases h
    rfl
  | _ => cases h

theorem erasure_isVoid {t : ResolvedType} : t.isVoid = true ↔ r.erasure t = ⟨0, .void⟩ := by
  have hclass : ∀ entry : Option ClassEntry, Erasure.Core.ofEntry entry ≠ .void := by
    intro entry
    cases entry <;> simp [Erasure.Core.ofEntry]
  cases t <;> simp [ResolvedType.isVoid, erasure, Erasure.array, hclass]

/-- A class agrees with a descriptor by its name. -/
theorem ofEntry_fits_iff {entry : Option ClassEntry} {name : String} :
    (Erasure.Core.ofEntry entry = .ofClass name ∨ Erasure.Core.ofEntry entry = .var) ↔
      entry.any (·.name == name) = true := by
  cases entry <;> simp [Erasure.Core.ofEntry]

theorem ofEntry_ne_base (entry : Option ClassEntry) (b : BaseType) :
    Erasure.Core.ofEntry entry ≠ .base b := by
  cases entry <;> simp [Erasure.Core.ofEntry]

/-- A check by a condition succeeds if the condition is met. -/
theorem ite_eq_ok_iff {p : Prop} [Decidable p] {e : ResolveError} :
    (if p then .ok () else .error e : Except ResolveError Unit) = .ok () ↔ p := by
  by_cases h : p <;> simp [h]

/-- A class type is checked by the name of its class. -/
theorem checkErasure_object_eq_ok {name : String} {t : ResolvedType} {c : ClassId}
    (h : t.class? = some c) : r.checkErasure (.object name) t = .ok () ↔
      (r.classAt? c).any (·.name == internalToBinary name) = true := by
  cases t with
  | raw c' | parameterized c' args | member outer c' args =>
    obtain rfl := Option.some.inj h
    exact ite_eq_ok_iff
  | _ => cases h

/-- **The check of a type finds out whether it agrees with the erased type.** -/
theorem checkErasure_eq_ok {d : FieldType} {t : ResolvedType} :
    r.checkErasure d t = .ok () ↔ (r.erasure t).Fits d := by
  induction d generalizing t with
  | base b =>
    cases t with
    | base b' =>
      rw [checkErasure, ite_eq_ok_iff, beq_iff_eq]
      simp [erasure, Erasure.Fits, FieldType.dimensions, FieldType.innermost, eq_comm]
    | _ =>
      simp [checkErasure, erasure, Erasure.Fits, Erasure.array, FieldType.dimensions,
        FieldType.innermost, ofEntry_ne_base]
  | object name =>
    cases t with
    | raw c | parameterized c args | member outer c args =>
      rw [checkErasure_object_eq_ok rfl, ← ofEntry_fits_iff]
      simp [erasure, Erasure.Fits, FieldType.dimensions, FieldType.innermost]
    | _ =>
      simp [checkErasure, erasure, Erasure.Fits, Erasure.array, FieldType.dimensions,
        FieldType.innermost, ResolvedType.class?]
  | array d ih =>
    rw [Erasure.fits_array_iff]
    cases t with
    | array elem =>
      rw [checkErasure, ih, erasure]
      constructor
      · exact fun h => ⟨_, rfl, h⟩
      · rintro ⟨e, he, hfits⟩
        rwa [Erasure.array_injective he]
    | _ => simp [checkErasure, erasure, Erasure.array]

/-- The only complaint of the check of a type is a mismatch. -/
theorem checkErasure_eq_error {d : FieldType} {t : ResolvedType} {e : ResolveError}
    (h : r.checkErasure d t = .error e) : ∃ cause, e = .mismatch cause := by
  fun_induction r.checkErasure d t with
  | case1 d t ih => exact ih h
  | case2 => cases h
  | case3 =>
    cases h
    exact ⟨_, rfl⟩

theorem checkResultErasure_eq_ok {d : Option FieldType} {t : ResolvedType} :
    r.checkResultErasure d t = .ok () ↔ (r.erasure t).FitsResult d := by
  cases d with
  | some d => exact checkErasure_eq_ok
  | none =>
    unfold checkResultErasure Erasure.FitsResult
    rw [← erasure_isVoid]
    cases t.isVoid <;> simp

theorem checkResultErasure_eq_error {d : Option FieldType} {t : ResolvedType} {e : ResolveError}
    (h : r.checkResultErasure d t = .error e) : ∃ cause, e = .mismatch cause := by
  cases d with
  | some d => exact checkErasure_eq_error h
  | none =>
    rcases hv : t.isVoid with _ | _ <;> simp only [checkResultErasure, hv] at h <;> cases h
    exact ⟨_, rfl⟩

/-- Checks one after the other succeed if each of them does. -/
theorem bind_unit_eq_ok {x : Except ResolveError Unit} {y : Except ResolveError Unit} :
    (x >>= fun _ => y) = .ok () ↔ x = .ok () ∧ y = .ok () := by
  rcases x with _ | ⟨⟨⟩⟩ <;> simp [bind, Except.bind]

/-- The complaint of checks one after the other is a complaint of one of them. -/
theorem bind_unit_eq_error {x : Except ResolveError Unit} {y : Except ResolveError Unit}
    {e : ResolveError} (h : (x >>= fun _ => y) = .error e) : x = .error e ∨ y = .error e := by
  rcases x with _ | ⟨⟨⟩⟩
  · exact .inl h
  · exact .inr h

/-- The check of parameters finds out whether each agrees with its fellow. -/
theorem checkParams_eq_ok {ds : List FieldType} {ts : List ResolvedType}
    (h : ds.length = ts.length) :
    r.checkParams ds ts = .ok () ↔ List.Forall₂ (fun d t => (r.erasure t).Fits d) ds ts := by
  induction ds generalizing ts with
  | nil =>
    obtain rfl := List.length_eq_zero_iff.1 h.symm
    simp [checkParams]
  | cons d ds ih =>
    cases ts with
    | nil => cases h
    | cons t ts =>
      rw [checkParams, bind_unit_eq_ok, checkErasure_eq_ok, ih (by simpa using h),
        List.forall₂_cons]

theorem checkParams_eq_error {ds : List FieldType} {ts : List ResolvedType} {e : ResolveError}
    (h : r.checkParams ds ts = .error e) : ∃ cause, e = .mismatch cause := by
  fun_induction r.checkParams ds ts with
  | case1 d ds t ts ih => exact (bind_unit_eq_error h).elim checkErasure_eq_error ih
  | case2 => cases h

/-! ### Methods -/

/-- **Which parameters a method may open with that its signature leaves out**: none; or,
if it is a constructor, the name and the position of a constant where its class is an
enumeration, and otherwise an instance of the class around its class. -/
def MayOpen (r : Registry) (m : MethodEntry) (leading : List FieldType) : Prop :=
  leading = [] ∨ m.isConstructor = true ∧ ∃ owner, r.classAt? m.owner = some owner ∧
    if owner.erasedSuper = some "java.lang.Enum" then
      leading = [.object "java/lang/String", .base .int]
    else ∃ outer name, owner.enclosing = some outer ∧ leading = [.object name] ∧
      internalToBinary name = r.className outer

/-- **Agreement of a method with its descriptor**: behind the parameters that a signature
may leave out, each parameter agrees with its fellow; and so does the result, of a method
that is not a constructor. -/
def MethodAgrees (r : Registry) (m : MethodEntry) (params : List Erasure) (result : Erasure) :
    Prop :=
  (∃ leading own, m.descriptor.params = leading ++ own ∧ r.MayOpen m leading ∧
    List.Forall₂ (fun d e => Erasure.Fits e d) own params) ∧
  (m.isConstructor = false → result.FitsResult m.descriptor.result)

theorem areSynthetic_iff {owner : ClassEntry} {leading : List FieldType} :
    r.areSynthetic owner leading = true ↔
      if owner.erasedSuper = some "java.lang.Enum" then
        leading = [.object "java/lang/String", .base .int]
      else ∃ outer name, owner.enclosing = some outer ∧ leading = [.object name] ∧
        internalToBinary name = r.className outer := by
  unfold areSynthetic
  split
  · exact beq_iff_eq
  · rcases owner.enclosing with _ | outer
    · simp
    · rcases leading with _ | ⟨_ | name | _, _ | ⟨_, _⟩⟩ <;> simp

/-- How many parameters are left out is found out by their number. -/
theorem syntheticCount_eq {m : MethodEntry} {leading own : List FieldType}
    (h : m.descriptor.params = leading ++ own) (hopen : r.MayOpen m leading) :
    r.syntheticCount m own.length = leading.length := by
  have hsurplus : m.descriptor.params.length - own.length = leading.length := by
    rw [h, List.length_append]
    omega
  have htake : m.descriptor.params.take leading.length = leading := by
    rw [h, List.take_left']
    rfl
  unfold syntheticCount
  dsimp only
  rw [hsurplus, htake]
  rcases hopen with rfl | ⟨hctor, owner, howner, hleading⟩
  · exact ite_self _
  · have hany : (r.classAt? m.owner).any (r.areSynthetic · leading) = true := by
      rw [howner]
      exact areSynthetic_iff.2 hleading
    rw [hctor, hany]
    rfl

/-- Only what may be left out is left out. -/
theorem mayOpen_syntheticCount (r : Registry) (m : MethodEntry) (declared : Nat) :
    r.MayOpen m (m.descriptor.params.take (r.syntheticCount m declared)) := by
  unfold syntheticCount
  dsimp only
  split
  · rename_i hleading
    rw [Bool.and_eq_true] at hleading
    rcases howner : r.classAt? m.owner with _ | owner
    · simp [howner] at hleading
    · rw [howner] at hleading
      exact .inr ⟨hleading.1, owner, howner, areSynthetic_iff.1 hleading.2⟩
  · exact .inl (List.take_zero)

/-- The check of a method counts parameters first. -/
theorem checkDescriptor_eq (r : Registry) (m : MethodEntry) (synthetic : Nat)
    (params : List ResolvedType) (result : ResolvedType) :
    r.checkDescriptor m synthetic params result =
      if m.descriptor.params.length = params.length + synthetic then
        r.checkParams (m.descriptor.params.drop synthetic) params >>= fun _ =>
          if m.isConstructor then pure () else r.checkResultErasure m.descriptor.result result
      else .error (.mismatch (.paramCount params.length m.descriptor)) := by
  unfold checkDescriptor
  by_cases hlength : m.descriptor.params.length = params.length + synthetic
  · rcases hc : m.isConstructor with _ | _ <;> simp [hlength]
  · rcases hc : m.isConstructor with _ | _ <;> simp [hlength] <;> rfl

/-- **The check of a method finds out whether it agrees with its descriptor.** -/
theorem checkDescriptor_eq_ok {m : MethodEntry} {params : List ResolvedType}
    {result : ResolvedType} :
    r.checkDescriptor m (r.syntheticCount m params.length) params result = .ok () ↔
      r.MethodAgrees m (params.map r.erasure) (r.erasure result) := by
  have hcheck : r.checkDescriptor m (r.syntheticCount m params.length) params result = .ok () ↔
      m.descriptor.params.length = params.length + r.syntheticCount m params.length ∧
        r.checkParams (m.descriptor.params.drop (r.syntheticCount m params.length)) params = .ok ()
        ∧ (m.isConstructor = false → (r.erasure result).FitsResult m.descriptor.result) := by
    rw [checkDescriptor_eq]
    by_cases hlength : m.descriptor.params.length =
        params.length + r.syntheticCount m params.length
    · rw [if_pos hlength, bind_unit_eq_ok, and_iff_right hlength]
      refine and_congr_right fun _ => ?_
      rcases m.isConstructor with _ | _
      · simpa using checkResultErasure_eq_ok
      · simp [pure, Except.pure]
    · simp [hlength]
  rw [hcheck]
  constructor
  · rintro ⟨hlength, hparams, hresult⟩
    refine ⟨⟨_, _, (List.take_append_drop _ _).symm, r.mayOpen_syntheticCount m params.length,
      ?_⟩, hresult⟩
    rw [checkParams_eq_ok (by rw [List.length_drop]; omega)] at hparams
    exact List.forall₂_map_right_iff.2 hparams
  · rintro ⟨⟨leading, own, hsplit, hopen, hfits⟩, hresult⟩
    rw [List.forall₂_map_right_iff] at hfits
    have hcount := syntheticCount_eq hsplit hopen
    rw [hfits.length_eq] at hcount
    rw [hcount]
    refine ⟨?_, ?_, hresult⟩
    · rw [hsplit, List.length_append, hfits.length_eq, Nat.add_comm]
    · rw [hsplit, List.drop_left]
      exact (checkParams_eq_ok hfits.length_eq).2 hfits

/-- The only complaint of the check of a method is a mismatch. -/
theorem checkDescriptor_eq_error {m : MethodEntry} {synthetic : Nat} {params : List ResolvedType}
    {result : ResolvedType} {e : ResolveError}
    (h : r.checkDescriptor m synthetic params result = .error e) :
    ∃ cause, e = .mismatch cause := by
  rw [checkDescriptor_eq] at h
  split at h
  · rcases bind_unit_eq_error h with h | h
    · exact checkParams_eq_error h
    · split at h
      · cases h
      · exact checkResultErasure_eq_error h
  · cases h
    exact ⟨_, rfl⟩

/-! ### Classes -/

/-- **The check of a class finds out whether it erases to its header**, where that records a
superclass. -/
theorem checkHeader_eq_ok {c : ClassId} {entry : ClassEntry} (hc : r.classAt? c = some entry)
    {superclass : ResolvedType} {interfaces : List ResolvedType} :
    r.checkHeader c superclass interfaces = .ok () ↔ ∀ erased, entry.erasedSuper = some erased →
      r.erasedName? superclass = some erased ∧
        interfaces.filterMap r.erasedName? = entry.erasedInterfaces := by
  unfold checkHeader
  rw [hc]
  dsimp only
  cases entry.erasedSuper with
  | none => simp
  | some erased =>
    dsimp only
    split
    · rename_i hsuper
      simp [hsuper]
    · rename_i hsuper
      split
      · rename_i hinterfaces
        simp [hinterfaces]
      · simp_all

/-- The only complaint of the check of a class is a mismatch. -/
theorem checkHeader_eq_error {c : ClassId} {superclass : ResolvedType}
    {interfaces : List ResolvedType} {e : ResolveError}
    (h : r.checkHeader c superclass interfaces = .error e) : ∃ cause, e = .mismatch cause := by
  unfold checkHeader at h
  split at h
  · cases h
  · split at h
    · cases h
    · dsimp only at h
      split at h
      · cases h
        exact ⟨_, rfl⟩
      · split at h
        · cases h
          exact ⟨_, rfl⟩
        · cases h

end Registry

end JavaGenerics
