import Mathlib
import JavaGenerics.Proofs.Directives

/-!
# Rules of a log filter

The rules of a filter are added one by one, and a later rule takes the place of an earlier
one for the same target and the same spans
(`JavaGenerics.LogFilter.threshold?_foldl_add`). So there is at most one rule for each
place, and a filter is the same as what it says for every place
(`JavaGenerics.LogFilter.perm_of_threshold?`). Three things follow.

* The text of a filter that was read stands for the same rules, in another order perhaps
  (`JavaGenerics.LogFilter.parse?_text_of_parse?`).
* Where both the settings and the environment have a rule, the environment wins; and if it
  makes no sense, it is left out as a whole (`JavaGenerics.LogSettings.filter_threshold?`,
  `JavaGenerics.LogSettings.filter_of_parse?_eq_none`).
* A level can be given by its name, in upper and lower case and with blanks around it
  (`JavaGenerics.LogSettings.filter_of_name`).
-/

namespace JavaGenerics

/-! ### One rule for each place -/

/-- Whether a directive is for a target and a condition on spans. -/
def Directive.isFor (target : Option String) (span : Option SpanCondition) (d : Directive) : Bool :=
  d.target == target && d.span == span

theorem Directive.isFor_iff {target : Option String} {span : Option SpanCondition} {d : Directive} :
    d.isFor target span ↔ d.target = target ∧ d.span = span := by
  simp [isFor]

namespace LogFilter

open Directive (isFor_iff)

/-- The threshold that a filter sets for a target and a condition on spans. -/
def threshold? (f : LogFilter) (target : Option String) (span : Option SpanCondition) :
    Option Threshold :=
  (f.directives.find? (·.isFor target span)).map (·.threshold)

/-- No two rules of a filter are for the same target and the same spans. -/
def OnePerPlace (f : LogFilter) : Prop :=
  f.directives.Pairwise fun d e => ¬d.isFor e.target e.span

theorem directives_add (f : LogFilter) (d : Directive) :
    (f.add d).directives = f.directives.filter (!·.isFor d.target d.span) ++ [d] := by
  simp only [add, Directive.isFor, Bool.not_and]
  rfl

/-- A rule takes the place of an earlier one, and leaves all others as they are. -/
theorem threshold?_add (f : LogFilter) (d : Directive) (target : Option String)
    (span : Option SpanCondition) :
    (f.add d).threshold? target span =
      if d.isFor target span then some d.threshold else f.threshold? target span := by
  rw [threshold?, directives_add, List.find?_append]
  by_cases hd : d.isFor target span
  · obtain ⟨rfl, rfl⟩ := isFor_iff.1 hd
    have hnone : (f.directives.filter (!·.isFor d.target d.span)).find?
        (·.isFor d.target d.span) = none :=
      List.find?_eq_none.2 fun e he => by simpa using (List.mem_filter.1 he).2
    rw [hnone, Option.none_or, List.find?_cons_of_pos hd, if_pos hd]
    rfl
  · -- what is for another place has not been taken away
    have hkept : (f.directives.filter (!·.isFor d.target d.span)).find? (·.isFor target span) =
        f.directives.find? (·.isFor target span) := by
      rw [List.find?_filter]
      congr 1
      funext e
      rw [Bool.eq_iff_iff, decide_eq_true_iff, and_iff_right_iff_imp]
      intro he
      obtain ⟨rfl, rfl⟩ := isFor_iff.1 he
      have hother : ¬e.isFor d.target d.span :=
        fun h => hd (isFor_iff.2 ((isFor_iff.1 h).imp Eq.symm Eq.symm))
      simpa using hother
    rw [hkept, List.find?_cons_of_neg hd, List.find?_nil, Option.or_none, if_neg hd, threshold?]

theorem onePerPlace_add {f : LogFilter} (hf : f.OnePerPlace) (d : Directive) :
    (f.add d).OnePerPlace := by
  rw [OnePerPlace, directives_add, List.pairwise_append]
  refine ⟨hf.filter _, List.pairwise_singleton _ _, ?_⟩
  intro e he e' he'
  rw [List.mem_singleton] at he'
  subst he'
  simpa using (List.mem_filter.1 he).2

/-- **The last rule for a place counts.** -/
theorem threshold?_foldl_add (ds : List Directive) (f : LogFilter) (target : Option String)
    (span : Option SpanCondition) :
    (ds.foldl add f).threshold? target span =
      ((ds.reverse.find? (·.isFor target span)).map (·.threshold)).or
        (f.threshold? target span) := by
  induction ds generalizing f with
  | nil => rfl
  | cons d ds ih =>
    rw [List.foldl_cons, ih, threshold?_add, List.reverse_cons, List.find?_append]
    cases ds.reverse.find? (·.isFor target span) with
    | some e => rfl
    | none => split <;> simp [*]

theorem mem_of_mem_foldl_add {ds : List Directive} {f : LogFilter} {d : Directive}
    (h : d ∈ (ds.foldl add f).directives) : d ∈ ds ∨ d ∈ f.directives := by
  induction ds generalizing f with
  | nil => exact .inr h
  | cons e ds ih =>
    rcases ih h with h | h
    · exact .inl (.tail _ h)
    · rw [directives_add, List.mem_append, List.mem_singleton] at h
      rcases h with h | rfl
      · exact .inr (List.mem_filter.1 h).1
      · exact .inl (.head _)

theorem onePerPlace_foldl_add (ds : List Directive) {f : LogFilter} (hf : f.OnePerPlace) :
    (ds.foldl add f).OnePerPlace := by
  induction ds generalizing f with
  | nil => exact hf
  | cons d ds ih => exact ih (onePerPlace_add hf d)

/-- A rule of a filter is found under its place. -/
theorem find?_of_mem {ds : List Directive} (hds : ds.Pairwise fun d e => ¬d.isFor e.target e.span)
    {d : Directive} (hd : d ∈ ds) : ds.find? (·.isFor d.target d.span) = some d := by
  induction hds with
  | nil => cases hd
  | cons hfirst _ ih =>
    rcases List.mem_cons.1 hd with rfl | hd
    · exact List.find?_cons_of_pos (isFor_iff.2 ⟨rfl, rfl⟩)
    · rw [List.find?_cons_of_neg (hfirst d hd), ih hd]

theorem mem_iff_threshold? {f : LogFilter} (hf : f.OnePerPlace) {d : Directive} :
    d ∈ f.directives ↔ f.threshold? d.target d.span = some d.threshold := by
  constructor
  · intro hd
    rw [threshold?, find?_of_mem hf hd]
    rfl
  · intro hd
    obtain ⟨e, he, hthreshold⟩ := Option.map_eq_some_iff.1 hd
    obtain ⟨htarget, hspan⟩ := isFor_iff.1 (List.find?_some he)
    obtain rfl : e = d := by
      cases e
      cases d
      simp_all
    exact List.mem_of_find?_eq_some he

theorem OnePerPlace.nodup {f : LogFilter} (hf : f.OnePerPlace) : f.directives.Nodup :=
  hf.imp fun hplace => by
    rintro rfl
    exact hplace (isFor_iff.2 ⟨rfl, rfl⟩)

/-- Filters that say the same for every place have the same rules. -/
theorem perm_of_threshold? {f g : LogFilter} (hf : f.OnePerPlace) (hg : g.OnePerPlace)
    (h : ∀ target span, f.threshold? target span = g.threshold? target span) :
    f.directives.Perm g.directives :=
  (List.perm_ext_iff_of_nodup hf.nodup hg.nodup).2 fun _ => by
    rw [mem_iff_threshold? hf, mem_iff_threshold? hg, h]

/-! ### Reading a filter back -/

/-- A filter that is read has one rule for each place. -/
theorem onePerPlace_of_parse? {text : String} {f : LogFilter} (h : parse? text = some f) :
    f.OnePerPlace := by
  obtain ⟨ds, -, rfl⟩ := Option.map_eq_some_iff.1 h
  exact onePerPlace_foldl_add ds List.Pairwise.nil

/-- Directives from the same rules, perhaps several times, make up the same filter. -/
theorem perm_foldl_add {f : LogFilter} (hf : f.OnePerPlace) {ds : List Directive}
    (hds : ∀ d, d ∈ ds ↔ d ∈ f.directives) : (ds.foldl add {}).directives.Perm f.directives := by
  refine perm_of_threshold? (onePerPlace_foldl_add ds List.Pairwise.nil) hf fun target span => ?_
  rw [threshold?_foldl_add]
  cases hfind : ds.reverse.find? (·.isFor target span) with
  | some d =>
    obtain ⟨rfl, rfl⟩ := isFor_iff.1 (List.find?_some hfind)
    have hd : d ∈ f.directives :=
      (hds d).1 (List.mem_reverse.1 (List.mem_of_find?_eq_some hfind))
    rw [(mem_iff_threshold? hf).1 hd]
    rfl
  | none =>
    have hnone : f.directives.find? (·.isFor target span) = none :=
      List.find?_eq_none.2 fun d hd =>
        List.find?_eq_none.1 hfind d (List.mem_reverse.2 ((hds d).2 hd))
    exact (congrArg (Option.map (·.threshold)) hnone).symm

theorem pieces_intercalate {texts : List String}
    (htexts : ∀ s ∈ texts, s ≠ "" ∧ ',' ∉ s.toList) : pieces (",".intercalate texts) = texts := by
  rw [pieces, String.toList_intercalate]
  cases texts with
  | nil => rfl
  | cons s texts =>
    have hcomma : ∀ l ∈ (s :: texts).map String.toList, ',' ∉ l := by
      simpa using ⟨(htexts s (.head _)).2, fun t ht => (htexts t (.tail _ ht)).2⟩
    have hne : ((s :: texts).map String.toList).filter (!·.isEmpty) =
        (s :: texts).map String.toList := by
      rw [List.filter_eq_self]
      intro l hl
      obtain ⟨t, ht, rfl⟩ := List.mem_map.1 hl
      simpa using (htexts t ht).1
    rw [show ",".toList = [','] from rfl, List.splitOn_intercalate _ hcomma (by simp), hne,
      List.map_map]
    simp

/-- Every text of a filter is the text of one of its rules. -/
theorem mem_texts {f : LogFilter} {s : String} :
    s ∈ f.texts ↔ ∃ d ∈ f.directives, d.text = s := by
  rw [texts, List.mem_mergeSort, List.mem_flatMap]
  refine exists_congr fun d => and_congr_right fun _ => ?_
  rw [Directive.texts]
  split <;> simp [eq_comm]

/-- A list of texts that can all be read is read text by text. -/
theorem mapM_eq_filterMap {α β : Type} {g : α → Option β} {as : List α}
    (h : ∀ a ∈ as, (g a).isSome) : as.mapM g = some (as.filterMap g) := by
  induction as with
  | nil => rfl
  | cons a as ih =>
    obtain ⟨b, hb⟩ := Option.isSome_iff_exists.1 (h a (.head _))
    rw [List.mapM_cons, hb, ih fun a ha => h a (.tail _ ha), List.filterMap_cons_some hb]
    rfl

theorem exists_of_mem_mapM {α β : Type} {g : α → Option β} {as : List α} {bs : List β}
    (h : as.mapM g = some bs) {b : β} (hb : b ∈ bs) : ∃ a ∈ as, g a = some b := by
  induction as generalizing bs with
  | nil =>
    cases h
    cases hb
  | cons a as ih =>
    rw [List.mapM_cons] at h
    obtain ⟨b', hb', h⟩ := Option.bind_eq_some_iff.1 h
    obtain ⟨bs', hbs', h⟩ := Option.bind_eq_some_iff.1 h
    cases h
    rcases List.mem_cons.1 hb with rfl | hb
    · exact ⟨a, .head _, hb'⟩
    · obtain ⟨a', ha', hg⟩ := ih hbs' hb
      exact ⟨a', .tail _ ha', hg⟩

/-- What a filter says of itself, directive by directive. -/
theorem parse?_text {f : LogFilter} (hone : f.OnePerPlace)
    (hf : ∀ d ∈ f.directives, d.IsWritable) :
    ∃ g, parse? f.text = some g ∧ g.directives.Perm f.directives := by
  have hread : ∀ s ∈ f.texts, (Directive.parse? s).isSome := by
    intro s hs
    obtain ⟨d, hd, rfl⟩ := mem_texts.1 hs
    rw [Directive.parse?_text (hf d hd)]
    rfl
  have hpieces : pieces f.text = f.texts := by
    refine pieces_intercalate fun s hs => ?_
    obtain ⟨d, hd, rfl⟩ := mem_texts.1 hs
    exact ⟨d.text_ne_empty, Directive.comma_notMem_text (hf d hd)⟩
  refine ⟨_, by rw [parse?, hpieces, mapM_eq_filterMap hread]; rfl, perm_foldl_add hone fun d => ?_⟩
  rw [List.mem_filterMap]
  constructor
  · rintro ⟨s, hs, hd⟩
    obtain ⟨e, he, rfl⟩ := mem_texts.1 hs
    cases (Directive.parse?_text (hf e he)).symm.trans hd
    exact he
  · intro hd
    exact ⟨d.text, mem_texts.2 ⟨d, hd, rfl⟩, Directive.parse?_text (hf d hd)⟩

/-- **The text of a filter that was read stands for the same rules**, unless one of its
targets begins with a blank. -/
theorem parse?_text_of_parse? {text : String} {f : LogFilter} (h : parse? text = some f)
    (hblank : ∀ d ∈ f.directives, ∀ t, d.target = some t → t.toList.head?.any isBlank = false) :
    ∃ g, parse? f.text = some g ∧ g.directives.Perm f.directives := by
  refine parse?_text (onePerPlace_of_parse? h) fun d hd => ?_
  obtain ⟨ds, hds, rfl⟩ := Option.map_eq_some_iff.1 h
  rcases mem_of_mem_foldl_add hd with hmem | hmem
  · obtain ⟨piece, hpiece, hread⟩ := exists_of_mem_mapM hds hmem
    obtain ⟨cs, hcs, rfl⟩ := List.mem_map.1 hpiece
    refine Directive.isWritable_of_parse? hread ?_ (hblank d hd)
    rw [String.toList_ofList]
    exact (mem_splitOn (List.mem_filter.1 hcs).1).1
  · cases hmem

end LogFilter

/-! ### The filter in force -/

namespace LogFilter

theorem pieces_append (text extra : String) :
    pieces (text ++ "," ++ extra) = pieces text ++ pieces extra := by
  simp [pieces, List.splitOn_append_cons_self]

/-- Directives that are written behind others are added to the filter of the others. -/
theorem parse?_append {text extra : String} {f : LogFilter} {ds : List Directive}
    (hf : parse? text = some f) (hds : (pieces extra).mapM Directive.parse? = some ds) :
    parse? (text ++ "," ++ extra) = some (ds.foldl add f) := by
  obtain ⟨ds', hds', rfl⟩ := Option.map_eq_some_iff.1 hf
  rw [parse?, pieces_append, List.mapM_append, hds', hds]
  simp

theorem parse?_append_eq_none (text : String) {extra : String} (h : parse? extra = none) :
    parse? (text ++ "," ++ extra) = none := by
  have hnone : (pieces extra).mapM Directive.parse? = none := Option.map_eq_none_iff.1 h
  rw [parse?, pieces_append, List.mapM_append, hnone]
  cases (pieces text).mapM Directive.parse? <;> rfl

end LogFilter

namespace LogSettings

/-- **The environment wins over the settings** where both have a rule. -/
theorem filter_threshold? (s : LogSettings) {extra : String} {f g : LogFilter}
    (hf : LogFilter.parse? (s.directives none) = some f)
    (hg : LogFilter.parse? (trim extra) = some g) (target : Option String)
    (span : Option SpanCondition) :
    (s.filter (some extra)).threshold? target span =
      (g.threshold? target span).or (f.threshold? target span) := by
  obtain ⟨ds, hds, rfl⟩ := Option.map_eq_some_iff.1 hg
  by_cases hempty : trim extra = ""
  · rw [hempty] at hds
    cases hds
    have hsame : s.directives (some extra) = s.directives none := by simp [directives, hempty]
    rw [filter, hsame, hf]
    rfl
  · have hboth : s.directives (some extra) = s.directives none ++ "," ++ trim extra := by
      simp [directives, hempty]
    have hnone : LogFilter.threshold? {} target span = none := rfl
    rw [filter, hboth, LogFilter.parse?_append hf hds]
    simp only [LogFilter.threshold?_foldl_add, hnone, Option.or_none]

/-- **An environment that makes no sense is left out as a whole.** -/
theorem filter_of_parse?_eq_none (s : LogSettings) {extra : String}
    (h : LogFilter.parse? (trim extra) = none) : s.filter (some extra) = s.filter none := by
  have hne : trim extra ≠ "" := by
    intro hempty
    rw [hempty] at h
    cases h
  have hboth : s.directives (some extra) = s.directives none ++ "," ++ trim extra := by
    simp [directives, hne]
  rw [filter, hboth, LogFilter.parse?_append_eq_none _ h]
  cases hparse : LogFilter.parse? (s.directives none) <;> simp [filter, hparse]

/-- A character that is a small letter in lower case is a letter. -/
theorem isAlphanum_of_isLower_toLower {c : Char} (h : c.toLower.isLower) : c.isAlphanum := by
  by_cases hupper : c.isUpper
  · simp [Char.isAlphanum, Char.isAlpha, hupper]
  · rw [Char.toLower_eq_of_not_isUpper hupper] at h
    simp [Char.isAlphanum, Char.isAlpha, h]

/-- **A level can be given by its name**, in upper and lower case and with blanks around
it. -/
theorem filter_of_name {s : LogSettings} {level : LogLevel} {front name back : List Char}
    (hlevel : s.level.toList = front ++ name ++ back) (hblank : ∀ c ∈ front ++ back, isBlank c)
    (hname : name.map Char.toLower = level.word.toList) :
    (s.filter none).directives =
      [⟨none, .from .warn, none⟩, ⟨some resolveTarget, .from level, none⟩] := by
  have hword : ∀ c ∈ level.word.toList, c.isLower := by
    cases level <;> simp [LogLevel.word]
  have hletter : ∀ c ∈ name, isBlank c = false := by
    intro c hc
    have : c.toLower ∈ name.map Char.toLower := List.mem_map_of_mem hc
    exact isBlank_of_isAlphanumeric (isAlphanumeric_of_isAlphanum
      (isAlphanum_of_isLower_toLower (hword _ (hname ▸ this))))
  have hends : ∀ o : Option Char, (∀ c, o = some c → c ∈ name) → o.any isBlank = false := by
    rintro (_ | c) h
    · rfl
    · exact hletter c (h c rfl)
  have htrim : trim s.level = String.ofList name := by
    refine trim_eq_iff.2 ⟨front, back, by rw [hlevel, String.toList_ofList], hblank, ?_, ?_⟩ <;>
      rw [String.toList_ofList]
    · exact hends _ fun c => List.mem_of_mem_head?
    · exact hends _ fun c => List.mem_of_mem_getLast?
  have hlower : (trim s.level).toLower = level.word := by
    rw [htrim, String.toLower, ← String.toList_inj, String.toList_map, String.toList_ofList, hname]
  have hdirectives : s.directives none = "warn," ++ resolveTarget ++ "=" ++ level.word := by
    rw [directives, Option.map_none]
    simp only [levelDirectives, hlower]
    cases level <;> rfl
  have hparse : LogFilter.parse? ("warn," ++ resolveTarget ++ "=" ++ level.word) =
      some ⟨[⟨none, .from .warn, none⟩, ⟨some resolveTarget, .from level, none⟩]⟩ := by
    cases level <;> decide +kernel
  rw [filter, hdirectives, hparse]

end LogSettings

end JavaGenerics
