import JavaGenerics.Proofs.Reading
import JavaGenerics.Proofs.TomlTables
import JavaGenerics.Toml.Reading

/-!
# What is read from a TOML document

The values that the grammar returns are complete – nothing can be added to them any more
– and have no key twice (`JavaGenerics.Toml.yields_readValueWithin`): an inline table is
put together by the rules for pairs, and those keep keys distinct. This is what the
theorem about lines asks for, so that it holds of every document that can be read: it
contains what its lines say, no less and no more
(`JavaGenerics.Toml.exists_lines_of_parse?`).

To say that a reader returns nothing but values of a kind is to say what it *yields*
(`JavaGenerics.Reader.Yields`), which needs no account of what the values look like in the
text.
-/

namespace JavaGenerics

namespace Reader

variable {ε α β : Type}

/-- Whatever a reader returns is a `P`. -/
def Yields (x : Reader ε α) (P : α → Prop) : Prop :=
  ∀ cs a rest, x cs = .ok (a, rest) → P a

theorem yields_true (x : Reader ε α) : Yields x fun _ => True := fun _ _ _ _ => trivial

theorem Yields.bind {x : Reader ε α} {f : α → Reader ε β} {P : α → Prop} {Q : β → Prop}
    (hx : Yields x P) (hf : ∀ a, P a → Yields (f a) Q) : Yields (x >>= f) Q := by
  intro cs b rest h
  obtain ⟨a, mid, ha, hb⟩ := bind_eq_ok.1 h
  exact hf a (hx cs a mid ha) mid b rest hb

/-- A step of which nothing needs to be known. -/
theorem yields_after {x : Reader ε α} {f : α → Reader ε β} {Q : β → Prop}
    (hf : ∀ a, Yields (f a) Q) : Yields (x >>= f) Q :=
  (yields_true x).bind fun a _ => hf a

theorem yields_pure {P : α → Prop} {a : α} (ha : P a) : Yields (pure a : Reader ε α) P := by
  intro cs b rest h
  rw [(pure_eq_ok.1 h).1]
  exact ha

theorem Yields.map {x : Reader ε α} {f : α → β} {P : α → Prop} {Q : β → Prop} (hx : Yields x P)
    (hf : ∀ a, P a → Q (f a)) : Yields (f <$> x) Q := by
  rw [map_eq_pure_bind]
  exact hx.bind fun a ha => yields_pure (hf a ha)

/-- A repetition yields what its rounds yield. -/
theorem yields_many {step : Reader ε (Option α)} {P : α → Prop}
    (hstep : Yields step fun o => ∀ a ∈ o, P a) : Yields (many step) fun as => ∀ a ∈ as, P a := by
  intro cs as rest h
  change collect step cs = _ at h
  induction cs using collect.induct step generalizing as rest with
  | case1 cs e he =>
    rw [collect, he] at h
    cases h
  | case2 cs mid hd =>
    rw [collect, hd] at h
    cases h
    simp
  | case3 cs a mid ha hlt e he =>
    rw [collect, ha] at h
    simp only [hlt, if_true, he] at h
    cases h
  | case4 cs a mid ha hlt as' rest' hc ih =>
    rw [collect, ha] at h
    simp only [hlt, if_true, hc] at h
    cases h
    exact List.forall_mem_cons.2 ⟨hstep _ _ _ ha a rfl, ih _ _ hc⟩
  | case5 cs a mid ha hlt =>
    rw [collect, ha] at h
    simp only [hlt, if_false] at h
    cases h
    simpa using hstep _ _ _ ha a rfl

end Reader

namespace Toml

open Reader

/-- A value that no other line can go on with, and without repeated keys. -/
structure IsSound (t : Toml) : Prop where
  complete : t.IsComplete
  distinct : t.Distinct

theorem yields_malformed {α : Type} {P : α → Prop} : Yields (malformed : Reading α) P :=
  fun _ _ _ h => by cases h

theorem isSound_ofWord? {word : List Char} {t : Toml} (h : ofWord? word = some t) : t.IsSound := by
  unfold ofWord? at h
  split at h
  · cases h
    exact ⟨trivial, .boolean _⟩
  split at h
  · cases h
    exact ⟨trivial, .boolean _⟩
  split at h
  · cases h
    exact ⟨trivial, .moment _⟩
  split at h
  · cases h
    exact ⟨trivial, .number _⟩
  · cases h

theorem yields_ofWord? (word : List Char) :
    Yields (match ofWord? word with
      | some value => pure value
      | none => malformed : Reading Toml) IsSound := by
  split
  · next h => exact yields_pure (isSound_ofWord? h)
  · exact yields_malformed

theorem yields_readWord : Yields readWord IsSound := by
  refine yields_after fun word => yields_after fun rest => ?_
  dsimp only
  split
  · split
    · exact yields_after fun _ => yields_after fun _ => yields_after yields_ofWord?
    · exact yields_after yields_ofWord?
  · exact yields_after yields_ofWord?

variable {value : Reading Toml}

theorem yields_readPair (hvalue : Yields value IsSound) : Yields (readPair value) Pair.IsSound :=
  yields_after fun _ => yields_after fun _ => yields_after fun _ => yields_after fun _ =>
    hvalue.bind fun _ ht => yields_after fun _ => yields_pure ⟨ht.complete, ht.distinct⟩

theorem yields_readElement? (hvalue : Yields value IsSound) :
    Yields (readElement? value) fun o => ∀ t ∈ o, IsSound t := by
  refine yields_after fun _ => yields_after fun closed => ?_
  split
  · exact yields_pure (by simp)
  · refine hvalue.bind fun t ht => yields_after fun _ => yields_after fun comma => ?_
    have hend : Yields (pure (some t) : Reading (Option Toml)) fun o => ∀ t ∈ o, IsSound t :=
      yields_pure (by simpa using ht)
    dsimp only
    split
    · exact yields_after fun _ => yields_after fun _ => hend
    · exact hend

theorem yields_readInline (hvalue : Yields value IsSound) : Yields (readInline value) IsSound := by
  refine yields_after fun _ => yields_after fun closed => ?_
  split
  · exact yields_pure ⟨rfl, .table .nil (by simp)⟩
  · refine (yields_readPair hvalue).bind fun first hfirst => ?_
    have hstep : Yields (do
        if ← eat ',' then some <$> readPair value else pure none : Reading (Option Pair))
        fun o => ∀ p ∈ o, p.IsSound := by
      refine yields_after fun comma => ?_
      split
      · exact (yields_readPair hvalue).map fun p hp => by simpa using hp
      · exact yields_pure (by simp)
    refine (yields_many hstep).bind fun more hmore => yields_after fun _ => yields_after fun _ => ?_
    split
    · next entries h =>
      have hsound := adds_insertAll (List.forall_mem_cons.2 ⟨hfirst, hmore⟩) [] entries
        distinctKeys_nil h
      exact yields_pure ⟨rfl, distinct_table_iff.2 hsound.1⟩
    · exact yields_malformed

theorem yields_readValueWith {nested : Option (Reading Toml)}
    (hnested : ∀ value ∈ nested, Yields value IsSound) : Yields (readValueWith nested) IsSound := by
  refine yields_after fun c => ?_
  split
  · exact (yields_true _).map fun s _ => ⟨trivial, .text s⟩
  · exact (yields_true _).map fun s _ => ⟨trivial, .text s⟩
  · exact yields_after fun _ => (yields_many (yields_readElement? (hnested _ rfl))).map
      fun ts hts => ⟨trivial, .array fun t ht => (hts t ht).distinct⟩
  · exact yields_after fun _ => yields_readInline (hnested _ rfl)
  · exact yields_readWord
  · exact yields_malformed

/-- **Every value that is read is complete, and has no repeated keys.** The induction is
on the room for nesting. -/
theorem yields_readValueWithin (room : Nat) : Yields (readValueWithin room) IsSound := by
  induction room with
  | zero => exact yields_readValueWith (by simp)
  | succ room ih => exact yields_readValueWith (by simpa using ih)

/-- A header is no pair. -/
theorem yields_readHeader : Yields readHeader fun line => ∀ p, line ≠ .pair p := by
  refine yields_after fun double => ?_
  split
  · exact yields_after fun _ => yields_after fun _ => yields_after fun _ => yields_after fun _ =>
      yields_pure (by simp)
  · exact yields_after fun _ => yields_after fun _ => yields_after fun _ => yields_pure (by simp)

theorem yields_readLine? :
    Yields readLine? fun o => ∀ line ∈ o, ∀ p, line = .pair p → p.IsSound := by
  refine yields_after fun _ => yields_after fun ended => ?_
  split
  · exact yields_pure (by simp)
  · have hend : ∀ {line : Line}, (∀ p, line = .pair p → p.IsSound) →
        Yields (do readLineEnd; pure (some line))
          fun o => ∀ line ∈ o, ∀ p, line = .pair p → p.IsSound :=
      fun hline => yields_after fun _ => yields_pure (by simpa using hline)
    refine yields_after fun c => yields_after fun bracket => ?_
    split
    · exact (yields_pure (P := fun line => ∀ p, line ≠ .pair p) (by simp)).bind
        fun line hline => hend fun p hp => (hline p hp).elim
    · split
      · exact yields_readHeader.bind fun line hline => hend fun p hp => (hline p hp).elim
      · refine ((yields_readPair (yields_readValueWithin maxDepth)).map fun p hp => ?_).bind
          fun line hline => hend hline
        rintro _ ⟨⟩
        exact hp

/-- **A document that is read contains what its lines say**, no less and no more, and has
no key twice. -/
theorem exists_lines_of_parse? {source : String} {es : Entries} (h : parse? source = some es) :
    ∃ cs lines, (source.toList = cs ∨ source.toList = '\ufeff' :: cs) ∧
      many readLine? cs = .ok (lines, []) ∧ ofLines lines = some es ∧ DistinctKeys es ∧
      ∀ v ks, LiesAmong v es ks ↔ (ks, v) ∈ statements [] lines := by
  simp only [parse?] at h
  split at h
  · next lines hread =>
    refine ⟨_, lines, ?_, hread, h, liesAmong_ofLines_iff (fun p hp => ?_) h⟩
    · split
      · next hcs => exact .inr hcs
      · exact .inl rfl
    · exact yields_many yields_readLine? _ _ _ hread _ hp p rfl
  · cases h

end Toml

end JavaGenerics
