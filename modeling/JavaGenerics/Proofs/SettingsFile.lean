import JavaGenerics.Proofs.TomlReading
import JavaGenerics.Proofs.TomlSpelling
import JavaGenerics.Settings

/-!
# Settings in a file

* **What settings a file gives** (`JavaGenerics.Settings.parse_eq_ok_iff`): a file is
  accepted exactly if it is a TOML document in which all keys are known and have values of
  their types, and then each setting is what is written under its key, or its default. So
  it does not matter in which order and in which of the many ways of TOML the settings are
  written.
* **What an unknown key is** (`JavaGenerics.Settings.key_of_parse_eq_unknownKey`): the error
  names a key that is written in the file and is not among those that it lists.
* **All settings can be written down** (`JavaGenerics.Settings.parse_render`).
-/

namespace JavaGenerics

namespace Settings

open Toml (Entries Line SpellsLine DistinctKeys)

/-! ### Writing settings down -/

/-- The word for a boolean. -/
def booleanWord (b : Bool) : List Char := if b then "true".toList else "false".toList

/-- Settings as the lines of a document, each with its spelling. -/
def lines (s : Settings) : List (Line × List Char) :=
  [header "resolve",
    pair "verify_erased_descriptors" (.boolean s.resolve.verifyErasure)
      (booleanWord s.resolve.verifyErasure),
    pair "resolve_referenced_classes" (.boolean s.resolve.resolveReferenced)
      (booleanWord s.resolve.resolveReferenced),
    pair "warn_on_type_argument_arity" (.boolean s.resolve.warnArity)
      (booleanWord s.resolve.warnArity),
    header "logging",
    pair "level" (.text s.logging.level) (Toml.quote s.logging.level),
    pair "json" (.boolean s.logging.json) (booleanWord s.logging.json)]
where
  header (key : String) : Line × List Char :=
    (.header [] key, '[' :: (Toml.spellKey [] key ++ [']', '\n']))
  pair (key : String) (value : Toml) (w : List Char) : Line × List Char :=
    (.pair ⟨[], key, value⟩, Toml.spellPair ⟨[], key, value⟩ w ++ ['\n'])

/-- Settings as a file. -/
def render (s : Settings) : String := String.ofList (s.lines.flatMap Prod.snd)

theorem spellsWithin_booleanWord (b : Bool) :
    Toml.SpellsWithin Toml.maxDepth (.boolean b) (booleanWord b) := by
  cases b with
  | true => exact .word (by decide) (List.all_eq_true.1 rfl) rfl
  | false => exact .word (by decide) (List.all_eq_true.1 rfl) rfl

theorem spellsLine_of_mem_lines {s : Settings} {l : Line × List Char} (h : l ∈ s.lines) :
    SpellsLine l.1 l.2 := by
  have hheader : ∀ key, SpellsLine (lines.header key).1 (lines.header key).2 :=
    fun key => .header key (by decide)
  have hpair : ∀ key {value w}, Toml.SpellsWithin Toml.maxDepth value w →
      SpellsLine (lines.pair key value w).1 (lines.pair key value w).2 :=
    fun _ _ _ hw => .pair (Nat.succ_pos 78) hw
  simp only [lines, List.mem_cons, List.not_mem_nil, or_false] at h
  rcases h with rfl | rfl | rfl | rfl | rfl | rfl | rfl
  · exact hheader _
  · exact hpair _ (spellsWithin_booleanWord _)
  · exact hpair _ (spellsWithin_booleanWord _)
  · exact hpair _ (spellsWithin_booleanWord _)
  · exact hheader _
  · exact hpair _ (.quoted _)
  · exact hpair _ (spellsWithin_booleanWord _)

/-- **All settings can be written down**: what they are rendered as is read as them. -/
theorem parse_render (s : Settings) : parse s.render = .ok s := by
  rw [parse, render, Toml.parse?_spells fun l hl => spellsLine_of_mem_lines hl]
  rfl

/-! ### Reading a group -/

/-- What is written under a key, as `read` understands it, or a default. -/
def setting {α : Type} (read : Toml → Except SettingsError α) (es : Entries) (key : String)
    (default : α) : α :=
  match es.lookup key with
  | some t => (read t).toOption.getD default
  | none => default

/-- The options of resolution that a group sets, over those that hold without it. -/
def optionsOf (options : Options) (es : Entries) : Options where
  verifyErasure := setting boolean es "verify_erased_descriptors" options.verifyErasure
  resolveReferenced := setting boolean es "resolve_referenced_classes" options.resolveReferenced
  warnArity := setting boolean es "warn_on_type_argument_arity" options.warnArity

/-- The settings of the log that a group sets, over those that hold without it. -/
def loggingOf (logging : LogSettings) (es : Entries) : LogSettings where
  level := setting text es "level" logging.level
  json := setting boolean es "json" logging.json

/-- An entry that sets an option of resolution. -/
def IsOption (e : String × Toml) : Prop := e.1 ∈ optionKeys ∧ ∃ b, e.2 = .boolean b

/-- An entry that sets one of the settings of the log. -/
def IsLogging (e : String × Toml) : Prop :=
  e.1 = "level" ∧ (∃ s, e.2 = .text s) ∨ e.1 = "json" ∧ ∃ b, e.2 = .boolean b

theorem setting_self {α : Type} {read : Toml → Except SettingsError α} {t : Toml} {a : α}
    (h : read t = .ok a) (k : String) (default : α) : setting read [(k, t)] k default = a := by
  simp [setting, h, Except.toOption]

theorem setting_of_ne {α : Type} {k key : String} (h : key ≠ k)
    (read : Toml → Except SettingsError α) (t : Toml) (default : α) :
    setting read [(k, t)] key default = default := by
  simp [setting, List.lookup_cons, beq_false_of_ne h]

/-- What the first entry sets is kept by the others, unless they have the same key. -/
theorem setting_cons {α : Type} {read : Toml → Except SettingsError α} {e : String × Toml}
    {es : Entries} {key : String} (hnew : e.1 ∉ es.map Prod.fst) (default : α) :
    setting read es key (setting read [e] key default) = setting read (e :: es) key default := by
  obtain ⟨k, t⟩ := e
  by_cases hk : key = k
  · subst hk
    simp [setting, Toml.lookup_eq_none.2 hnew]
  · simp [setting, List.lookup_cons, beq_false_of_ne hk]

theorem optionsOf_cons {e : String × Toml} {es : Entries} (hnew : e.1 ∉ es.map Prod.fst)
    (options : Options) : optionsOf (optionsOf options [e]) es = optionsOf options (e :: es) := by
  simp only [optionsOf, setting_cons hnew]

theorem loggingOf_cons {e : String × Toml} {es : Entries} (hnew : e.1 ∉ es.map Prod.fst)
    (logging : LogSettings) :
    loggingOf (loggingOf logging [e]) es = loggingOf logging (e :: es) := by
  simp only [loggingOf, setting_cons hnew]

theorem setOption_eq_ok_iff {options options' : Options} {e : String × Toml} :
    setOption options e = .ok options' ↔ IsOption e ∧ options' = optionsOf options [e] := by
  obtain ⟨k, t⟩ := e
  simp only [setOption, IsOption]
  split
  case h_4 hfirst hsecond hthird =>
    have hk : k ∉ optionKeys := by simpa [optionKeys] using ⟨hfirst, hsecond, hthird⟩
    exact ⟨nofun, fun h => absurd h.1.1 hk⟩
  all_goals
    cases t with
    | boolean b =>
      constructor
      · rintro ⟨⟩
        exact ⟨⟨by simp [optionKeys], b, rfl⟩, rfl⟩
      · rintro ⟨-, rfl⟩
        rfl
    | _ =>
      constructor
      · rintro ⟨⟩
      · rintro ⟨⟨-, b, ⟨⟩⟩, -⟩

theorem setLogging_eq_ok_iff {logging logging' : LogSettings} {e : String × Toml} :
    setLogging logging e = .ok logging' ↔ IsLogging e ∧ logging' = loggingOf logging [e] := by
  obtain ⟨k, t⟩ := e
  simp only [setLogging, IsLogging]
  split
  case h_1 =>
    cases t with
    | text s =>
      constructor
      · rintro ⟨⟩
        exact ⟨.inl ⟨rfl, s, rfl⟩, rfl⟩
      · rintro ⟨-, rfl⟩
        rfl
    | _ =>
      constructor
      · rintro ⟨⟩
      · rintro ⟨⟨-, s, ⟨⟩⟩ | ⟨hk, -⟩, -⟩
        simp at hk
  case h_2 =>
    cases t with
    | boolean b =>
      constructor
      · rintro ⟨⟩
        exact ⟨.inr ⟨rfl, b, rfl⟩, rfl⟩
      · rintro ⟨-, rfl⟩
        rfl
    | _ =>
      constructor
      · rintro ⟨⟩
      · rintro ⟨⟨hk, -⟩ | ⟨-, b, ⟨⟩⟩, -⟩
        simp at hk
  case h_3 hlevel hjson =>
    constructor
    · rintro ⟨⟩
    · rintro ⟨⟨hk, -⟩ | ⟨hk, -⟩, -⟩
      · exact (hlevel hk).elim
      · exact (hjson hk).elim

/-- Entries that are taken in one after the other: each must be sound, and what they set
adds up. For each group there is one `set`, with its own `P` and `added`. -/
theorem foldlM_eq_ok_iff {σ : Type} {set : σ → String × Toml → Except SettingsError σ}
    {P : String × Toml → Prop} {added : σ → Entries → σ}
    (hset : ∀ {s s' e}, set s e = .ok s' ↔ P e ∧ s' = added s [e]) (hnil : ∀ s, added s [] = s)
    (hcons : ∀ {e : String × Toml} {es : Entries}, e.1 ∉ es.map Prod.fst →
      ∀ s, added (added s [e]) es = added s (e :: es))
    {es : Entries} (hkeys : (es.map Prod.fst).Nodup) {s s' : σ} :
    es.foldlM set s = .ok s' ↔ (∀ e ∈ es, P e) ∧ s' = added s es := by
  induction es generalizing s with
  | nil => simp [hnil, pure, Except.pure, eq_comm]
  | cons e es ih =>
    obtain ⟨hnew, hkeys⟩ := List.nodup_cons.1 hkeys
    rw [List.foldlM_cons, List.forall_mem_cons]
    constructor
    · intro h
      cases hfirst : set s e with
      | error x =>
        rw [hfirst] at h
        cases h
      | ok s₁ =>
        rw [hfirst] at h
        obtain ⟨he, rfl⟩ := hset.1 hfirst
        obtain ⟨hes, rfl⟩ := (ih hkeys).1 h
        exact ⟨⟨he, hes⟩, hcons hnew s⟩
    · rintro ⟨⟨he, hes⟩, rfl⟩
      rw [hset.2 ⟨he, rfl⟩]
      exact (ih hkeys).2 ⟨hes, (hcons hnew s).symm⟩

/-- **What options a group sets**: all its keys must be known, with booleans under them;
each option is then what is written under its key. -/
theorem foldlM_setOption_eq_ok_iff {es : Entries} (hkeys : (es.map Prod.fst).Nodup)
    {options options' : Options} :
    es.foldlM setOption options = .ok options' ↔
      (∀ e ∈ es, IsOption e) ∧ options' = optionsOf options es :=
  foldlM_eq_ok_iff setOption_eq_ok_iff (fun _ => rfl) optionsOf_cons hkeys

/-- The same for the settings of the log. -/
theorem foldlM_setLogging_eq_ok_iff {es : Entries} (hkeys : (es.map Prod.fst).Nodup)
    {logging logging' : LogSettings} :
    es.foldlM setLogging logging = .ok logging' ↔
      (∀ e ∈ es, IsLogging e) ∧ logging' = loggingOf logging es :=
  foldlM_eq_ok_iff setLogging_eq_ok_iff (fun _ => rfl) loggingOf_cons hkeys

/-! ### Reading a file -/

theorem map_fst_zip_sublist {α β : Type} (as : List α) (bs : List β) :
    ((as.zip bs).map Prod.fst).Sublist as := by
  induction as generalizing bs with
  | nil => exact .slnil
  | cons a as ih =>
    cases bs with
    | nil => exact List.nil_sublist _
    | cons b bs => exact (ih bs).cons_cons a

/-- A group has no key twice either, in whatever form it is written. -/
theorem nodup_groupEntries {keys : List String} (hkeys : keys.Nodup) {t : Toml} (ht : t.Distinct)
    {es : Entries} (h : groupEntries keys t = .ok es) : (es.map Prod.fst).Nodup := by
  have hzip : ∀ elems : List Toml, ((keys.zip elems).map Prod.fst).Nodup :=
    fun elems => hkeys.sublist (map_fst_zip_sublist keys elems)
  cases t with
  | table kind entries =>
    cases h
    exact (Toml.distinct_table_iff.1 ht).keys
  | array elems =>
    cases h
    exact hzip elems
  | tables elems =>
    cases h
    exact hzip _
  | moment written =>
    cases h
    exact List.pairwise_singleton _ _
  | text => cases h
  | boolean => cases h
  | number => cases h

/-- Reads a group whose entries `set` takes in. -/
def readGroup {σ : Type} (keys : List String) (set : σ → String × Toml → Except SettingsError σ)
    (s : σ) (t : Toml) : Except SettingsError σ := do
  (← groupEntries keys t).foldlM set s

/-- The settings that the groups of a file set, over those that hold without it. -/
def groupsOf (s : Settings) (es : Entries) : Settings where
  resolve := setting (readGroup optionKeys setOption {}) es "resolve" s.resolve
  logging := setting (readGroup loggingKeys setLogging {}) es "logging" s.logging

/-- An entry of a file that is one of the two groups. -/
def IsGroup (e : String × Toml) : Prop :=
  e.1 = "resolve" ∧ (∃ options, readGroup optionKeys setOption {} e.2 = .ok options) ∨
    e.1 = "logging" ∧ ∃ logging, readGroup loggingKeys setLogging {} e.2 = .ok logging

theorem groupsOf_cons {e : String × Toml} {es : Entries} (hnew : e.1 ∉ es.map Prod.fst)
    (s : Settings) : groupsOf (groupsOf s [e]) es = groupsOf s (e :: es) := by
  simp only [groupsOf, setting_cons hnew]

theorem setGroup_resolve (s : Settings) (t : Toml) : setGroup s ("resolve", t) =
    (readGroup optionKeys setOption {} t).map fun options => { s with resolve := options } := by
  simp only [setGroup, readGroup]
  cases groupEntries optionKeys t with
  | error x => rfl
  | ok es =>
    change (es.foldlM setOption {} >>= _) = (es.foldlM setOption {}).map _
    cases es.foldlM setOption {} <;> rfl

theorem setGroup_logging (s : Settings) (t : Toml) : setGroup s ("logging", t) =
    (readGroup loggingKeys setLogging {} t).map fun logging => { s with logging := logging } := by
  simp only [setGroup, readGroup]
  cases groupEntries loggingKeys t with
  | error x => rfl
  | ok es =>
    change (es.foldlM setLogging {} >>= _) = (es.foldlM setLogging {}).map _
    cases es.foldlM setLogging {} <;> rfl

theorem setGroup_eq_ok_iff {s s' : Settings} {e : String × Toml} :
    setGroup s e = .ok s' ↔ IsGroup e ∧ s' = groupsOf s [e] := by
  obtain ⟨k, t⟩ := e
  by_cases hresolve : k = "resolve"
  · subst hresolve
    rw [setGroup_resolve]
    cases hread : readGroup optionKeys setOption {} t with
    | error x => simp [IsGroup, hread, Except.map]
    | ok options =>
      rw [groupsOf, setting_self hread, setting_of_ne (by decide)]
      simp [IsGroup, hread, Except.map, eq_comm]
  · by_cases hlogging : k = "logging"
    · subst hlogging
      rw [setGroup_logging]
      cases hread : readGroup loggingKeys setLogging {} t with
      | error x => simp [IsGroup, hread, Except.map]
      | ok logging =>
        rw [groupsOf, setting_self hread, setting_of_ne (by decide)]
        simp [IsGroup, hread, Except.map, eq_comm]
    · have hunknown : setGroup s (k, t) = .error (.unknownKey k groupKeys) := by
        simp only [setGroup]
      simp [hunknown, IsGroup, hresolve, hlogging]

/-- The entries of a group, none if the group is not there. -/
def group (keys : List String) (es : Entries) (name : String) : Entries :=
  setting (groupEntries keys) es name []

/-- **What a group gives**, if no key is repeated in it. -/
theorem readGroup_eq_ok_iff {σ : Type} {keys : List String}
    {set : σ → String × Toml → Except SettingsError σ} {P : String × Toml → Prop}
    {added : σ → Entries → σ} (hkeys : keys.Nodup)
    (hset : ∀ {es : Entries}, (es.map Prod.fst).Nodup → ∀ {s s' : σ},
      es.foldlM set s = .ok s' ↔ (∀ e ∈ es, P e) ∧ s' = added s es)
    {t : Toml} (ht : t.Distinct) {s s' : σ} :
    readGroup keys set s t = .ok s' ↔
      ∃ es, groupEntries keys t = .ok es ∧ (∀ e ∈ es, P e) ∧ s' = added s es := by
  rw [readGroup]
  cases hes : groupEntries keys t with
  | error x => simp [bind, Except.bind]
  | ok es =>
    change es.foldlM set s = _ ↔ _
    rw [hset (nodup_groupEntries hkeys ht hes)]
    simp

theorem readGroup_options {t : Toml} (ht : t.Distinct) {options : Options} :
    readGroup optionKeys setOption {} t = .ok options ↔
      ∃ es, groupEntries optionKeys t = .ok es ∧ (∀ e ∈ es, IsOption e) ∧
        options = optionsOf {} es :=
  readGroup_eq_ok_iff (by decide) foldlM_setOption_eq_ok_iff ht

theorem readGroup_logging {t : Toml} (ht : t.Distinct) {logging : LogSettings} :
    readGroup loggingKeys setLogging {} t = .ok logging ↔
      ∃ es, groupEntries loggingKeys t = .ok es ∧ (∀ e ∈ es, IsLogging e) ∧
        logging = loggingOf {} es :=
  readGroup_eq_ok_iff (by decide) foldlM_setLogging_eq_ok_iff ht

/-- An entry that is one of the two groups, with known keys and values of their types. -/
def IsSound (e : String × Toml) : Prop :=
  e.1 = "resolve" ∧ (∃ es, groupEntries optionKeys e.2 = .ok es ∧ ∀ x ∈ es, IsOption x) ∨
    e.1 = "logging" ∧ ∃ es, groupEntries loggingKeys e.2 = .ok es ∧ ∀ x ∈ es, IsLogging x

theorem isGroup_iff_isSound {e : String × Toml} (he : e.2.Distinct) : IsGroup e ↔ IsSound e := by
  constructor
  · rintro (⟨hk, options, h⟩ | ⟨hk, logging, h⟩)
    · obtain ⟨es, hes, hall, -⟩ := (readGroup_options he).1 h
      exact .inl ⟨hk, es, hes, hall⟩
    · obtain ⟨es, hes, hall, -⟩ := (readGroup_logging he).1 h
      exact .inr ⟨hk, es, hes, hall⟩
  · rintro (⟨hk, es, hes, hall⟩ | ⟨hk, es, hes, hall⟩)
    · exact .inl ⟨hk, _, (readGroup_options he).2 ⟨es, hes, hall, rfl⟩⟩
    · exact .inr ⟨hk, _, (readGroup_logging he).2 ⟨es, hes, hall, rfl⟩⟩

/-- The settings of a file whose entries are sound. -/
theorem groupsOf_of_isSound {es : Entries} (hes : DistinctKeys es) (hsound : ∀ e ∈ es, IsSound e) :
    groupsOf {} es = ⟨optionsOf {} (group optionKeys es "resolve"),
      loggingOf {} (group loggingKeys es "logging")⟩ := by
  have hresolve : setting (readGroup optionKeys setOption {}) es "resolve" {} =
      optionsOf {} (group optionKeys es "resolve") := by
    rw [setting, group, setting]
    cases hk : es.lookup "resolve" with
    | none => rfl
    | some t =>
      have hmem := (Toml.lookup_eq_some hes.keys).1 hk
      rcases hsound _ hmem with ⟨-, inner, hinner, hall⟩ | ⟨hne, -⟩
      · have hread := (readGroup_options (hes.lookup hk)).2 ⟨inner, hinner, hall, rfl⟩
        simp [hread, hinner, Except.toOption]
      · simp at hne
  have hlogging : setting (readGroup loggingKeys setLogging {}) es "logging" {} =
      loggingOf {} (group loggingKeys es "logging") := by
    rw [setting, group, setting]
    cases hk : es.lookup "logging" with
    | none => rfl
    | some t =>
      have hmem := (Toml.lookup_eq_some hes.keys).1 hk
      rcases hsound _ hmem with ⟨hne, -⟩ | ⟨-, inner, hinner, hall⟩
      · simp at hne
      · have hread := (readGroup_logging (hes.lookup hk)).2 ⟨inner, hinner, hall, rfl⟩
        simp [hread, hinner, Except.toOption]
  rw [groupsOf, hresolve, hlogging]

/-- **What settings a file gives.** It is accepted exactly if it is a document of the two
groups, with known keys and values of their types, and then each setting is what is
written under its key in its group, or its default. -/
theorem parse_eq_ok_iff {source : String} {s : Settings} :
    parse source = .ok s ↔ ∃ es, Toml.parse? source = some es ∧ (∀ e ∈ es, IsSound e) ∧
      s = ⟨optionsOf {} (group optionKeys es "resolve"),
        loggingOf {} (group loggingKeys es "logging")⟩ := by
  rw [parse]
  cases hread : Toml.parse? source with
  | none => simp
  | some es =>
    obtain ⟨-, -, -, -, -, hes, -⟩ := Toml.exists_lines_of_parse? hread
    have hsound : (∀ e ∈ es, IsGroup e) ↔ ∀ e ∈ es, IsSound e :=
      forall₂_congr fun e he => isGroup_iff_isSound (hes.values e he)
    dsimp only
    rw [foldlM_eq_ok_iff setGroup_eq_ok_iff (fun _ => rfl) groupsOf_cons hes.keys, hsound]
    constructor
    · rintro ⟨h, rfl⟩
      exact ⟨es, rfl, h, groupsOf_of_isSound hes h⟩
    · rintro ⟨_, ⟨⟩, h, rfl⟩
      exact ⟨h, (groupsOf_of_isSound hes h).symm⟩

/-! ### Unknown keys -/

/-- An error on the way comes from one of the entries. -/
theorem exists_of_foldlM_eq_error {σ : Type} {set : σ → String × Toml → Except SettingsError σ}
    {es : Entries} {s : σ} {x : SettingsError} (h : es.foldlM set s = .error x) :
    ∃ e ∈ es, ∃ s', set s' e = .error x := by
  induction es generalizing s with
  | nil => cases h
  | cons e es ih =>
    rw [List.foldlM_cons] at h
    cases hfirst : set s e with
    | error y =>
      rw [hfirst] at h
      cases h
      exact ⟨e, .head _, s, hfirst⟩
    | ok s₁ =>
      rw [hfirst] at h
      obtain ⟨e', he', hset⟩ := ih h
      exact ⟨e', .tail _ he', hset⟩

/-- What `set` says of a key that is not among `keys`. -/
def Refuses {σ : Type} (keys : List String)
    (set : σ → String × Toml → Except SettingsError σ) : Prop :=
  ∀ s e key known, set s e = .error (.unknownKey key known) → key = e.1 ∧ known = keys ∧ key ∉ known

theorem refuses_setOption : Refuses optionKeys setOption := by
  intro options e key known h
  obtain ⟨k, t⟩ := e
  simp only [setOption] at h
  split at h
  case h_4 hfirst hsecond hthird =>
    cases h
    exact ⟨rfl, rfl, by simpa [optionKeys] using ⟨hfirst, hsecond, hthird⟩⟩
  all_goals cases t <;> cases h

theorem refuses_setLogging : Refuses loggingKeys setLogging := by
  intro logging e key known h
  obtain ⟨k, t⟩ := e
  simp only [setLogging] at h
  split at h
  case h_3 hlevel hjson =>
    cases h
    exact ⟨rfl, rfl, by simpa [loggingKeys] using ⟨hlevel, hjson⟩⟩
  all_goals cases t <;> cases h

/-- An unknown key in a group is written in the group. -/
theorem key_of_readGroup_eq_unknownKey {σ : Type} {keys : List String}
    {set : σ → String × Toml → Except SettingsError σ} (hset : Refuses keys set) {s : σ} {t : Toml}
    {key : String} {known : List String}
    (h : readGroup keys set s t = .error (.unknownKey key known)) :
    known = keys ∧ key ∉ known ∧ ∃ es, groupEntries known t = .ok es ∧ key ∈ es.map Prod.fst := by
  rw [readGroup] at h
  cases hes : groupEntries keys t with
  | error x =>
    -- what is no group at all is refused for its type
    rw [hes] at h
    cases h
    cases t <;> cases hes
  | ok es =>
    rw [hes] at h
    obtain ⟨e, he, s', hs'⟩ := exists_of_foldlM_eq_error h
    obtain ⟨rfl, rfl, hnot⟩ := hset _ _ _ _ hs'
    exact ⟨rfl, hnot, es, hes, List.mem_map_of_mem he⟩

/-- **The error for an unknown key names a key that is written in the file**, on the
outside or in one of the groups, and lists the keys that are known there. -/
theorem key_of_parse_eq_unknownKey {source key : String} {known : List String}
    (h : parse source = .error (.unknownKey key known)) :
    key ∉ known ∧ ∃ es, Toml.parse? source = some es ∧
      (known = groupKeys ∧ key ∈ es.map Prod.fst ∨
        ∃ name t inner, (name, t) ∈ es ∧ groupEntries known t = .ok inner ∧
          key ∈ inner.map Prod.fst ∧
          (name = "resolve" ∧ known = optionKeys ∨ name = "logging" ∧ known = loggingKeys)) := by
  rw [parse] at h
  cases hread : Toml.parse? source with
  | none =>
    rw [hread] at h
    cases h
  | some es =>
    rw [hread] at h
    obtain ⟨⟨k, t⟩, he, s', hs'⟩ := exists_of_foldlM_eq_error h
    by_cases hresolve : k = "resolve"
    · subst hresolve
      rw [setGroup_resolve] at hs'
      cases hgroup : readGroup optionKeys setOption {} t with
      | ok options =>
        rw [hgroup] at hs'
        cases hs'
      | error x =>
        rw [hgroup] at hs'
        cases hs'
        obtain ⟨rfl, hnot, inner, hinner, hkey⟩ :=
          key_of_readGroup_eq_unknownKey refuses_setOption hgroup
        exact ⟨hnot, es, rfl, .inr ⟨_, t, inner, he, hinner, hkey, .inl ⟨rfl, rfl⟩⟩⟩
    · by_cases hlogging : k = "logging"
      · subst hlogging
        rw [setGroup_logging] at hs'
        cases hgroup : readGroup loggingKeys setLogging {} t with
        | ok logging =>
          rw [hgroup] at hs'
          cases hs'
        | error x =>
          rw [hgroup] at hs'
          cases hs'
          obtain ⟨rfl, hnot, inner, hinner, hkey⟩ :=
            key_of_readGroup_eq_unknownKey refuses_setLogging hgroup
          exact ⟨hnot, es, rfl, .inr ⟨_, t, inner, he, hinner, hkey, .inr ⟨rfl, rfl⟩⟩⟩
      · have hunknown : setGroup s' (k, t) = .error (.unknownKey k groupKeys) := by
          simp only [setGroup]
        cases hunknown.symm.trans hs'
        exact ⟨by simpa [groupKeys] using ⟨hresolve, hlogging⟩, es, rfl,
          .inl ⟨rfl, List.mem_map_of_mem he⟩⟩

end Settings

end JavaGenerics
