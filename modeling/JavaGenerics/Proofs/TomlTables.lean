import JavaGenerics.Toml

/-!
# What a TOML document contains

The lines of a document build up a tree of tables one after the other, and a line may
go on where another has left off: under a header, behind a dot, in the last table of an
array. The rules that forbid some of these ways are there for one reason: that no line
can undo another.

This file proves that they achieve it. A value *lies* in a document under the keys that
lead to it (`JavaGenerics.Toml.LiesIn`), and

* what a document contains is what its lines say, no less and no more
  (`JavaGenerics.Toml.liesAmong_ofLines_iff`);
* no table has a key twice (`JavaGenerics.Toml.Distinct`).

Both are shown together, because a change finds its place by looking for a key: it is
certain to meet everything under that key only if the key stands there once. The notion
that carries the proof is that of a change that *adds* something
(`JavaGenerics.Toml.Adds`); there is one lemma for each way of changing a document.
-/

namespace JavaGenerics

namespace Toml

/-! ### Values and where they lie -/

/-- A value that no other line can go on with. -/
def IsComplete : Toml → Prop
  | .table kind _ => kind = .inline
  | .tables _ => False
  | _ => True

/-- A complete value lies in a tree under the keys that lead to it. In an array of
tables it may lie in any of them. -/
inductive LiesIn (v : Toml) : Toml → List String → Prop where
  | here (hv : v.IsComplete) : LiesIn v v []
  | table {kind : TableKind} {es : Entries} {k : String} {t : Toml} {ks : List String}
      (hkind : kind ≠ .inline) (hmem : (k, t) ∈ es) (h : LiesIn v t ks) :
      LiesIn v (.table kind es) (k :: ks)
  | tables {elems : List Entries} {es : Entries} {k : String} {t : Toml} {ks : List String}
      (helem : es ∈ elems) (hmem : (k, t) ∈ es) (h : LiesIn v t ks) :
      LiesIn v (.tables elems) (k :: ks)

/-- A complete value lies in a table under the keys that lead to it. -/
def LiesAmong (v : Toml) (es : Entries) (ks : List String) : Prop :=
  ∃ k t ks', (k, t) ∈ es ∧ ks = k :: ks' ∧ LiesIn v t ks'

variable {v t : Toml} {es es' : Entries} {k : String} {ks : List String}

theorem liesIn_iff_of_isComplete (ht : t.IsComplete) : LiesIn v t ks ↔ ks = [] ∧ v = t := by
  constructor
  · rintro (hv | ⟨hkind, -, -⟩ | ⟨-, -, -⟩)
    · exact ⟨rfl, rfl⟩
    · exact absurd ht hkind
    · cases ht
  · rintro ⟨rfl, rfl⟩
    exact .here ht

theorem liesIn_table_iff {kind : TableKind} (hkind : kind ≠ .inline) :
    LiesIn v (.table kind es) ks ↔ LiesAmong v es ks := by
  constructor
  · rintro (hv | ⟨-, hmem, h⟩ | _)
    · exact absurd hv hkind
    · exact ⟨_, _, _, hmem, rfl, h⟩
  · rintro ⟨k, t, ks', hmem, rfl, h⟩
    exact .table hkind hmem h

theorem liesIn_tables_iff {elems : List Entries} :
    LiesIn v (.tables elems) ks ↔ ∃ es ∈ elems, LiesAmong v es ks := by
  constructor
  · rintro (hv | _ | ⟨helem, hmem, h⟩)
    · cases hv
    · exact ⟨_, helem, _, _, _, hmem, rfl, h⟩
  · rintro ⟨es, helem, k, t, ks', hmem, rfl, h⟩
    exact .tables helem hmem h

theorem liesAmong_append :
    LiesAmong v (es ++ es') ks ↔ LiesAmong v es ks ∨ LiesAmong v es' ks := by
  simp only [LiesAmong, List.mem_append, or_and_right, exists_or]

theorem liesAmong_singleton : LiesAmong v [(k, t)] ks ↔ ∃ ks', ks = k :: ks' ∧ LiesIn v t ks' := by
  constructor
  · rintro ⟨_, _, ks', hmem, rfl, h⟩
    cases List.mem_singleton.1 hmem
    exact ⟨ks', rfl, h⟩
  · rintro ⟨ks', rfl, h⟩
    exact ⟨k, t, ks', .head _, rfl, h⟩

/-! ### Keys that stand once -/

/-- No table in a tree has a key twice. -/
inductive Distinct : Toml → Prop where
  | text (s : String) : Distinct (.text s)
  | boolean (b : Bool) : Distinct (.boolean b)
  | number (written : String) : Distinct (.number written)
  | moment (written : String) : Distinct (.moment written)
  | array {elems : List Toml} (h : ∀ t ∈ elems, Distinct t) : Distinct (.array elems)
  | table {kind : TableKind} {es : Entries} (hkeys : (es.map Prod.fst).Nodup)
      (h : ∀ e ∈ es, Distinct e.2) : Distinct (.table kind es)
  | tables {elems : List Entries} (hkeys : ∀ es ∈ elems, (es.map Prod.fst).Nodup)
      (h : ∀ es ∈ elems, ∀ e ∈ es, Distinct e.2) : Distinct (.tables elems)

/-- Neither a table nor any table in it has a key twice. -/
structure DistinctKeys (es : Entries) : Prop where
  keys : (es.map Prod.fst).Nodup
  values : ∀ e ∈ es, Distinct e.2

theorem distinct_table_iff {kind : TableKind} : Distinct (.table kind es) ↔ DistinctKeys es :=
  ⟨fun | .table hkeys h => ⟨hkeys, h⟩, fun h => .table h.keys h.values⟩

theorem distinct_tables_iff {elems : List Entries} :
    Distinct (.tables elems) ↔ ∀ es ∈ elems, DistinctKeys es :=
  ⟨fun | .tables hkeys h => fun es hes => ⟨hkeys es hes, h es hes⟩,
    fun h => .tables (fun es hes => (h es hes).keys) fun es hes => (h es hes).values⟩

theorem distinctKeys_nil : DistinctKeys [] := ⟨.nil, by simp⟩

theorem lookup_eq_some (hes : (es.map Prod.fst).Nodup) : es.lookup k = some t ↔ (k, t) ∈ es := by
  induction es with
  | nil => simp
  | cons e es ih =>
    obtain ⟨k', t'⟩ := e
    rw [List.map_cons, List.nodup_cons] at hes
    by_cases hk : k = k'
    · subst hk
      have hnot : (k, t) ∉ es := fun h => hes.1 (List.mem_map.2 ⟨_, h, rfl⟩)
      simp [hnot, eq_comm]
    · rw [List.lookup_cons, beq_false_of_ne hk, ih hes.2]
      simp [hk]

theorem lookup_eq_none : es.lookup k = none ↔ k ∉ es.map Prod.fst := by
  rw [List.lookup_eq_none_iff, List.mem_map]
  constructor
  · rintro h ⟨e, he, rfl⟩
    simpa using h e he
  · intro h e he
    simpa using fun hk => h ⟨e, he, hk.symm⟩

/-- A table with a new key may be put behind the others. -/
theorem DistinctKeys.append_singleton (hes : DistinctKeys es) (hk : k ∉ es.map Prod.fst)
    (ht : Distinct t) : DistinctKeys (es ++ [(k, t)]) := by
  refine ⟨?_, ?_⟩
  · rw [List.map_append, List.nodup_append]
    refine ⟨hes.keys, List.pairwise_singleton _ _, ?_⟩
    rintro a ha b hb rfl
    cases List.mem_singleton.1 hb
    exact hk ha
  · intro e he
    rcases List.mem_append.1 he with he | he
    · exact hes.values e he
    · cases List.mem_singleton.1 he
      exact ht

/-! ### Putting a value in the place of another -/

theorem map_fst_replace : (replace k t es).map Prod.fst = es.map Prod.fst := by
  rw [replace, List.map_map]
  refine List.map_congr_left fun e _ => ?_
  by_cases hk : e.1 = k <;> simp [hk]

theorem mem_replace {e : String × Toml} :
    e ∈ replace k t es ↔ e ∈ es ∧ e.1 ≠ k ∨ e = (k, t) ∧ k ∈ es.map Prod.fst := by
  rw [replace, List.mem_map, List.mem_map]
  constructor
  · rintro ⟨e', he', rfl⟩
    by_cases hk : e'.1 = k
    · exact .inr ⟨by simp [hk], e', he', hk⟩
    · exact .inl ⟨by simpa [hk] using he', by simp [hk]⟩
  · rintro (⟨he, hk⟩ | ⟨rfl, e', he', hk⟩)
    · exact ⟨e, he, by simp [hk]⟩
    · exact ⟨e', he', by simp [hk]⟩

theorem distinctKeys_replace (hes : DistinctKeys es) (ht : Distinct t) :
    DistinctKeys (replace k t es) := by
  refine ⟨by rw [map_fst_replace]; exact hes.keys, fun e he => ?_⟩
  rcases mem_replace.1 he with ⟨he, -⟩ | ⟨rfl, -⟩
  · exact hes.values e he
  · exact ht

/-- What lies in a table after a value has grown in its place. -/
theorem liesAmong_replace {old : Toml} (hes : DistinctKeys es) (hk : es.lookup k = some old)
    {W : List String → Prop} (ht : ∀ ks, LiesIn v t ks ↔ LiesIn v old ks ∨ W ks) :
    LiesAmong v (replace k t es) ks ↔ LiesAmong v es ks ∨ ∃ ks', ks = k :: ks' ∧ W ks' := by
  have hold : (k, old) ∈ es := (lookup_eq_some hes.keys).1 hk
  have hkey : k ∈ es.map Prod.fst := List.mem_map_of_mem hold
  constructor
  · rintro ⟨k', t', ks', hmem, rfl, h⟩
    rcases mem_replace.1 hmem with ⟨hmem, -⟩ | ⟨heq, -⟩
    · exact .inl ⟨k', t', ks', hmem, rfl, h⟩
    · cases heq
      rcases (ht ks').1 h with h | h
      · exact .inl ⟨k, old, ks', hold, rfl, h⟩
      · exact .inr ⟨ks', rfl, h⟩
  · rintro (⟨k', t', ks', hmem, rfl, h⟩ | ⟨ks', rfl, h⟩)
    · by_cases hk' : k' = k
      · subst hk'
        cases hk.symm.trans ((lookup_eq_some hes.keys).2 hmem)
        exact ⟨k', t, ks', mem_replace.2 (.inr ⟨rfl, hkey⟩), rfl, (ht ks').2 (.inl h)⟩
      · exact ⟨k', t', ks', mem_replace.2 (.inl ⟨hmem, hk'⟩), rfl, h⟩
    · exact ⟨k, t, ks', mem_replace.2 (.inr ⟨rfl, hkey⟩), rfl, (ht ks').2 (.inr h)⟩

/-! ### Changes that add something -/

/-- The values that are added under keys, as a change adds them. -/
abbrev Addition := List String → Toml → Prop

/-- The same addition further down. -/
def Addition.under (path : List String) (W : Addition) : Addition :=
  fun ks v => ∃ ks', ks = path ++ ks' ∧ W ks' v

/-- **What a table gains**: no key is repeated in it or further down, and what lies in it
is what lay there before and what is added. -/
def Gains (W : Addition) (es es' : Entries) : Prop :=
  DistinctKeys es' ∧ ∀ v ks, LiesAmong v es' ks ↔ LiesAmong v es ks ∨ W ks v

/-- The same for a value. -/
def GainsIn (W : Addition) (t t' : Toml) : Prop :=
  Distinct t' ∧ ∀ v ks, LiesIn v t' ks ↔ LiesIn v t ks ∨ W ks v

/-- A change that adds something to every table without a repeated key. -/
def Adds (f : Entries → Option Entries) (W : Addition) : Prop :=
  ∀ es es', DistinctKeys es → f es = some es' → Gains W es es'

section Gains

variable {W : Addition}

theorem Gains.table {kind kind' : TableKind} (hkind : kind ≠ .inline) (hkind' : kind' ≠ .inline)
    (h : Gains W es es') : GainsIn W (.table kind es) (.table kind' es') := by
  refine ⟨distinct_table_iff.2 h.1, fun v ks => ?_⟩
  rw [liesIn_table_iff hkind, liesIn_table_iff hkind', h.2]

/-- In an array of tables the last one may grow. -/
theorem Gains.last {elems : List Entries} (hlast : elems.getLast? = some es)
    (helems : ∀ es ∈ elems, DistinctKeys es) (h : Gains W es es') :
    GainsIn W (.tables elems) (.tables (elems.dropLast ++ [es'])) := by
  obtain ⟨front, rfl⟩ := List.getLast?_eq_some_iff.1 hlast
  rw [List.dropLast_concat]
  refine ⟨distinct_tables_iff.2 fun es'' hes'' => ?_, fun v ks => ?_⟩
  · rcases List.mem_append.1 hes'' with hes'' | hes''
    · exact helems es'' (List.mem_append_left _ hes'')
    · cases List.mem_singleton.1 hes''
      exact h.1
  · rw [liesIn_tables_iff, liesIn_tables_iff]
    simp only [List.mem_append, List.mem_singleton, or_and_right, exists_or, exists_eq_left, h.2,
      or_assoc]

/-- A table under a new key. -/
theorem gains_new (hes : DistinctKeys es) (hk : es.lookup k = none) (ht : Distinct t)
    (hW : ∀ v ks, LiesIn v t ks ↔ W ks v) : Gains (W.under [k]) es (es ++ [(k, t)]) := by
  refine ⟨hes.append_singleton (lookup_eq_none.1 hk) ht, fun v ks => ?_⟩
  simp only [liesAmong_append, liesAmong_singleton, hW, Addition.under, List.singleton_append]

/-- A value that grows in its place. -/
theorem GainsIn.replace {old : Toml} (hes : DistinctKeys es) (hk : es.lookup k = some old)
    (h : GainsIn W old t) : Gains (W.under [k]) es (Toml.replace k t es) :=
  ⟨distinctKeys_replace hes h.1, fun v _ => liesAmong_replace hes hk (h.2 v)⟩

/-- A value that grows and moves behind the others. -/
theorem GainsIn.move {old : Toml} (hes : DistinctKeys es) (hk : es.lookup k = some old)
    (h : GainsIn W old t) : Gains (W.under [k]) es (es.filter (·.1 != k) ++ [(k, t)]) := by
  have hkey : k ∈ es.map Prod.fst :=
    List.mem_map.2 ⟨_, (lookup_eq_some hes.keys).1 hk, rfl⟩
  have hsame : ∀ e, e ∈ es.filter (·.1 != k) ++ [(k, t)] ↔ e ∈ Toml.replace k t es := by
    intro e
    rw [mem_replace, and_iff_left hkey, List.mem_append, List.mem_filter, List.mem_singleton,
      bne_iff_ne]
  have hrest : DistinctKeys (es.filter (·.1 != k)) :=
    ⟨hes.keys.sublist (List.filter_sublist.map _),
      fun e he => hes.values e (List.mem_filter.1 he).1⟩
  have hnot : k ∉ (es.filter (·.1 != k)).map Prod.fst := by
    rintro hmem
    obtain ⟨e, he, rfl⟩ := List.mem_map.1 hmem
    simpa using (List.mem_filter.1 he).2
  refine ⟨hrest.append_singleton hnot h.1, fun v ks => ?_⟩
  rw [← (h.replace hes hk).2 v ks]
  simp only [LiesAmong, hsame]

end Gains

theorem not_liesAmong_nil : ¬LiesAmong v [] ks := by
  rintro ⟨_, _, _, hmem, -⟩
  cases hmem

/-- What a new table is filled with lies in it. -/
theorem Gains.liesIn_table {W : Addition} {kind : TableKind} (hkind : kind ≠ .inline)
    (h : Gains W [] es) (v : Toml) (ks : List String) : LiesIn v (.table kind es) ks ↔ W ks v := by
  rw [liesIn_table_iff hkind, h.2, or_iff_right not_liesAmong_nil]

/-- What lies under a key that is found has no repeated key. -/
theorem DistinctKeys.lookup (hes : DistinctKeys es) (hk : es.lookup k = some t) : Distinct t :=
  hes.values _ ((lookup_eq_some hes.keys).1 hk)

theorem Addition.under_under (W : Addition) (here path : List String) :
    (W.under path).under here = W.under (here ++ path) := by
  funext ks v
  refine propext ⟨?_, ?_⟩
  · rintro ⟨_, rfl, ks', rfl, h⟩
    exact ⟨ks', (List.append_assoc ..).symm, h⟩
  · rintro ⟨ks', rfl, h⟩
    exact ⟨_, List.append_assoc .., ks', rfl, h⟩

theorem Addition.under_nil (W : Addition) : W.under [] = W := by
  funext ks v
  simp [Addition.under]

section Adds

variable {f : Entries → Option Entries} {W : Addition} {inner inner' : Entries}
  {kind kind' : TableKind}

/-- What a table under a new key is filled with. -/
theorem Adds.new (hf : Adds f W) (hkind : kind ≠ .inline) (hes : DistinctKeys es)
    (hk : es.lookup k = none) (hinner : f [] = some inner) :
    Gains (W.under [k]) es (es ++ [(k, .table kind inner)]) := by
  have hgains := hf [] inner distinctKeys_nil hinner
  exact gains_new hes hk (distinct_table_iff.2 hgains.1) (hgains.liesIn_table hkind)

/-- A table that is gone on with. -/
theorem Adds.table (hf : Adds f W) (hkind : kind ≠ .inline) (hkind' : kind' ≠ .inline)
    (ht : Distinct (.table kind inner)) (hinner : f inner = some inner') :
    GainsIn W (.table kind inner) (.table kind' inner') :=
  (hf inner inner' (distinct_table_iff.1 ht) hinner).table hkind hkind'

/-- An array of tables is gone on with in the last one. -/
theorem Adds.last (hf : Adds f W) {elems : List Entries} (ht : Distinct (.tables elems))
    (hlast : elems.getLast? = some inner) (hinner : f inner = some inner') :
    GainsIn W (.tables elems) (.tables (elems.dropLast ++ [inner'])) := by
  have helems := distinct_tables_iff.1 ht
  exact (hf inner inner' (helems _ (List.mem_of_mem_getLast? hlast)) hinner).last hlast helems

/-- An array of tables gets another one. -/
theorem Adds.snoc (hf : Adds f W) {elems : List Entries}
    (helems : ∀ es ∈ elems, DistinctKeys es) (hinner : f [] = some inner) :
    GainsIn W (.tables elems) (.tables (elems ++ [inner])) := by
  have hgains := hf [] inner distinctKeys_nil hinner
  refine ⟨distinct_tables_iff.2 fun es hes => ?_, fun v ks => ?_⟩
  · rcases List.mem_append.1 hes with hes | hes
    · exact helems es hes
    · cases List.mem_singleton.1 hes
      exact hgains.1
  · simp [liesIn_tables_iff, or_and_right, exists_or, hgains.2, not_liesAmong_nil]

end Adds

/-! ### The ways of changing a document -/

/-- A value under a key. -/
def Addition.single (path : List String) (value : Toml) : Addition :=
  fun ks v => ks = path ∧ v = value

theorem Addition.under_single (here path : List String) (value : Toml) :
    (Addition.single path value).under here = Addition.single (here ++ path) value := by
  funext ks v
  refine propext ⟨?_, ?_⟩
  · rintro ⟨_, rfl, rfl, rfl⟩
    exact ⟨rfl, rfl⟩
  · rintro ⟨rfl, rfl⟩
    exact ⟨_, rfl, rfl, rfl⟩

theorem adds_insertAt {value : Toml} (hcomplete : value.IsComplete) (hdistinct : value.Distinct)
    (key : String) (path : List String) :
    Adds (insertAt value key path) (Addition.single (path ++ [key]) value) := by
  induction path with
  | nil =>
    intro es es' hes h
    rw [insertAt] at h
    split at h
    · cases h
    · next hnone =>
      cases h
      rw [List.nil_append, ← List.append_nil [key], ← Addition.under_single]
      exact gains_new hes (Option.not_isSome_iff_eq_none.1 hnone) hdistinct fun v ks =>
        liesIn_iff_of_isComplete hcomplete
  | cons k path ih =>
    intro es es' hes h
    rw [List.cons_append, ← List.singleton_append, ← Addition.under_single]
    rw [insertAt] at h
    split at h
    case h_1 hk =>
      obtain ⟨inner, hinner, ⟨⟩⟩ := Option.bind_eq_some_iff.1 h
      exact ih.new (by decide) hes hk hinner
    case h_2 kind inner hk =>
      -- a dotted key goes on with dotted tables, and leads through implied ones
      split at h
      case isTrue hkind =>
        have hkind : kind ≠ .inline := by
          rintro rfl
          simp at hkind
        obtain ⟨inner', hinner, ⟨⟩⟩ := Option.bind_eq_some_iff.1 h
        exact (ih.table hkind hkind (hes.lookup hk) hinner).replace hes hk
      case isFalse => cases h
    case h_3 elems hk =>
      split at h
      case h_1 last hlast =>
        obtain ⟨last', hlast', ⟨⟩⟩ := Option.bind_eq_some_iff.1 h
        exact (ih.last (hes.lookup hk) hlast hlast').replace hes hk
      case h_2 => cases h
    case h_4 => cases h

theorem adds_updateAt {f : Entries → Option Entries} {W : Addition} (hf : Adds f W)
    (path : List String) : Adds (updateAt f path) (W.under path) := by
  induction path with
  | nil =>
    rw [Addition.under_nil]
    exact hf
  | cons k path ih =>
    intro es es' hes h
    rw [← List.singleton_append, ← Addition.under_under]
    rw [updateAt] at h
    split at h
    case h_1 hk =>
      obtain ⟨inner, hinner, ⟨⟩⟩ := Option.bind_eq_some_iff.1 h
      exact ih.new (by decide) hes hk hinner
    case h_2 => cases h
    case h_3 kind inner hkind hk =>
      obtain ⟨inner', hinner, ⟨⟩⟩ := Option.bind_eq_some_iff.1 h
      exact (ih.table hkind hkind (hes.lookup hk) hinner).replace hes hk
    case h_4 elems hk =>
      split at h
      case h_1 last hlast =>
        obtain ⟨last', hlast', ⟨⟩⟩ := Option.bind_eq_some_iff.1 h
        exact (ih.last (hes.lookup hk) hlast hlast').replace hes hk
      case h_2 => cases h
    case h_5 => cases h

theorem adds_define {body : Entries → Option Entries} {W : Addition} (hbody : Adds body W)
    (key : String) : Adds (define key body) (W.under [key]) := by
  intro es es' hes h
  rw [define] at h
  split at h
  case h_1 hk =>
    obtain ⟨inner, hinner, ⟨⟩⟩ := Option.bind_eq_some_iff.1 h
    exact hbody.new (by decide) hes hk hinner
  case h_2 inner hk =>
    -- a table that was only implied so far is now at the place of its header
    obtain ⟨inner', hinner, ⟨⟩⟩ := Option.bind_eq_some_iff.1 h
    exact (hbody.table (by decide) (by decide) (hes.lookup hk) hinner).move hes hk
  case h_3 => cases h

theorem adds_append {body : Entries → Option Entries} {W : Addition} (hbody : Adds body W)
    (key : String) : Adds (append key body) (W.under [key]) := by
  intro es es' hes h
  rw [append] at h
  split at h
  case h_1 hk =>
    -- the first table of an array: nothing lies in the array without it
    obtain ⟨inner, hinner, ⟨⟩⟩ := Option.bind_eq_some_iff.1 h
    have hgains : GainsIn W (.tables []) (.tables ([] ++ [inner])) :=
      hbody.snoc (by simp) hinner
    refine gains_new hes hk hgains.1 fun v ks => ?_
    rw [← List.nil_append [inner], hgains.2, or_iff_right]
    simp [liesIn_tables_iff]
  case h_2 elems hk =>
    obtain ⟨inner, hinner, ⟨⟩⟩ := Option.bind_eq_some_iff.1 h
    exact (hbody.snoc (distinct_tables_iff.1 (hes.lookup hk)) hinner).replace hes hk
  case h_3 => cases h

/-! ### Documents -/

/-- Something that is added after something else. -/
def Addition.or (W W' : Addition) : Addition := fun ks v => W ks v ∨ W' ks v

theorem Addition.under_or (W W' : Addition) (here : List String) :
    (W.or W').under here = (W.under here).or (W'.under here) := by
  funext ks v
  simp only [Addition.under, Addition.or, and_or_left, exists_or]

theorem Adds.bind {f g : Entries → Option Entries} {W W' : Addition} (hf : Adds f W)
    (hg : Adds g W') : Adds (fun es => f es >>= g) (W.or W') := by
  intro es es'' hes h
  obtain ⟨es', hes', h⟩ := Option.bind_eq_some_iff.1 h
  have hfirst := hf es es' hes hes'
  have hsecond := hg es' es'' hfirst.1 h
  refine ⟨hsecond.1, fun v ks => ?_⟩
  rw [hsecond.2, hfirst.2, Addition.or, or_assoc]

/-- A pair whose value is complete and has no repeated keys. -/
structure Pair.IsSound (p : Pair) : Prop where
  complete : p.value.IsComplete
  distinct : p.value.Distinct

/-- What pairs say: the value of each lies under its keys. -/
def saidBy (pairs : List Pair) : Addition :=
  fun ks v => ∃ p ∈ pairs, ks = p.path ++ [p.key] ∧ v = p.value

theorem saidBy_cons (p : Pair) (pairs : List Pair) : saidBy (p :: pairs) =
    (Addition.single (p.path ++ [p.key]) p.value).or (saidBy pairs) := by
  funext ks v
  simp [saidBy, Addition.or, Addition.single]

theorem adds_insertAll {pairs : List Pair} (hpairs : ∀ p ∈ pairs, p.IsSound) :
    Adds (insertAll pairs) (saidBy pairs) := by
  induction pairs with
  | nil =>
    rintro es _ hes ⟨⟩
    exact ⟨hes, by simp [saidBy]⟩
  | cons p pairs ih =>
    obtain ⟨hp, hpairs⟩ := List.forall_mem_cons.1 hpairs
    rw [saidBy_cons]
    exact (adds_insertAt hp.complete hp.distinct p.key p.path).bind (ih hpairs)

/-- What some lines say, of which the first stand under the header `here`: each pair says
that its value lies under its keys, behind those of the header. -/
def statements (here : List String) : List Line → List (List String × Toml)
  | [] => []
  | .blank :: lines => statements here lines
  | .pair p :: lines => (here ++ (p.path ++ [p.key]), p.value) :: statements here lines
  | .header path key :: lines => statements (path ++ [key]) lines
  | .arrayHeader path key :: lines => statements (path ++ [key]) lines

/-- The change that a header makes adds the pairs behind it, and the lines up to the next
header say the same. -/
theorem adds_section {change : (Entries → Option Entries) → Entries → Option Entries}
    {path : List String} {key : String} {lines : List Line} {W : Addition}
    (hchange : ∀ {body W}, Adds body W → Adds (change body) (W.under [key]))
    (hleading : ∀ p ∈ leadingPairs lines, p.IsSound) (hlines : Adds (addSections lines) W) :
    Adds (fun es => updateAt (change (insertAll (leadingPairs lines))) path es >>=
        addSections lines)
      (((saidBy (leadingPairs lines)).under (path ++ [key])).or W) := by
  rw [← Addition.under_under]
  exact (adds_updateAt (hchange (adds_insertAll hleading)) path).bind hlines

theorem isSound_of_leadingPairs {lines : List Line} (hlines : ∀ p, .pair p ∈ lines → p.IsSound) :
    ∀ p ∈ leadingPairs lines, p.IsSound := by
  induction lines with
  | nil => simp [leadingPairs]
  | cons line lines ih =>
    have hrest := ih fun p hp => hlines p (.tail _ hp)
    cases line with
    | blank => exact hrest
    | pair p => exact List.forall_mem_cons.2 ⟨hlines p (.head _), hrest⟩
    | header => simp [leadingPairs]
    | arrayHeader => simp [leadingPairs]

/-- Behind a header nothing is said under the one before it. -/
theorem or_of_leadingPairs {lines : List Line} (h : leadingPairs lines = []) (here : List String)
    (W : Addition) : ((saidBy (leadingPairs lines)).under here).or W = W := by
  funext ks v
  simp [h, saidBy, Addition.or, Addition.under]

/-- What lines say is what the pairs before the next header say, and what the headers
add. -/
theorem adds_addSections {lines : List Line} (hlines : ∀ p, .pair p ∈ lines → p.IsSound) :
    ∃ W, Adds (addSections lines) W ∧ ∀ here ks v, (ks, v) ∈ statements here lines ↔
      ((saidBy (leadingPairs lines)).under here).or W ks v := by
  induction lines with
  | nil =>
    refine ⟨fun _ _ => False, ?_, ?_⟩
    · rintro es _ hes ⟨⟩
      exact ⟨hes, by simp⟩
    · simp [statements, leadingPairs, saidBy, Addition.or, Addition.under]
  | cons line lines ih =>
    obtain ⟨W, hW, hsay⟩ := ih fun p hp => hlines p (.tail _ hp)
    have hleading := isSound_of_leadingPairs fun p hp => hlines p (.tail _ hp)
    cases line with
    | blank => exact ⟨W, hW, hsay⟩
    | pair p =>
      refine ⟨W, hW, fun here ks v => ?_⟩
      rw [statements, List.mem_cons, hsay]
      simp only [leadingPairs, saidBy_cons, Addition.or, Addition.under_or, Addition.under_single,
        Addition.single, Prod.mk.injEq, or_assoc]
    | header path key =>
      have hnone : leadingPairs (.header path key :: lines) = [] := rfl
      refine ⟨_, adds_section (fun h => adds_define h key) hleading hW, fun here ks v => ?_⟩
      rw [statements, hsay, or_of_leadingPairs hnone]
    | arrayHeader path key =>
      have hnone : leadingPairs (.arrayHeader path key :: lines) = [] := rfl
      refine ⟨_, adds_section (fun h => adds_append h key) hleading hW, fun here ks v => ?_⟩
      rw [statements, hsay, or_of_leadingPairs hnone]

/-- **A document contains what its lines say**, no less and no more, and has no key
twice. -/
theorem liesAmong_ofLines_iff {lines : List Line} {es : Entries}
    (hlines : ∀ p, .pair p ∈ lines → p.IsSound) (h : ofLines lines = some es) :
    DistinctKeys es ∧ ∀ v ks, LiesAmong v es ks ↔ (ks, v) ∈ statements [] lines := by
  obtain ⟨W, hW, hsay⟩ := adds_addSections hlines
  have hadds := (adds_insertAll (isSound_of_leadingPairs hlines)).bind hW
  obtain ⟨hkeys, hlies⟩ := hadds [] es distinctKeys_nil h
  refine ⟨hkeys, fun v ks => ?_⟩
  rw [hlies, hsay, Addition.under_nil, or_iff_right not_liesAmong_nil]

end Toml

end JavaGenerics
