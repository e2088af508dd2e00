import JavaGenerics.Proofs.Reading
import JavaGenerics.Proofs.TomlWords
import JavaGenerics.Toml.Reading
import Mathlib.Data.List.TakeWhile

/-!
# TOML documents read back

There are many ways to write a value. This file says of a choice of them that they are
read as what they are meant to be: texts in every kind of quotes, with escapes where one
is needed (`JavaGenerics.Toml.readQuoted_quote`), words, arrays and inline tables as deep
as they may be nested (`JavaGenerics.Toml.readsBack_readValueWithin`), dotted keys with
any parts (`JavaGenerics.Toml.readKey_spellKey`), and the lines of a document
(`JavaGenerics.Toml.parse?_spells`). The choice is rich enough for every text, every key
and every tree of values of the depth that is allowed.

What is written is read off the front of a longer text, and where it ends depends on what
comes behind it. So each statement says what may follow – for a value, a comma, a closing
bracket or brace, or the end of its line – and each thing that is written inside another
one is followed by such a character there.
-/

namespace JavaGenerics

namespace Reader

variable {ε α β : Type} {cs mid rest : List Char}

/-- A step that ends well is followed by the next. -/
theorem bind_of_ok {x : Reader ε α} {a : α} (h : x cs = .ok (a, mid)) (f : α → Reader ε β) :
    (x >>= f) cs = f a mid := by
  rw [bind_apply, h]

theorem map_of_ok {x : Reader ε α} {a : α} (h : x cs = .ok (a, mid)) (f : α → β) :
    (f <$> x) cs = .ok (f a, mid) :=
  map_eq_ok.2 ⟨a, h, rfl⟩

theorem eat_self (c : Char) (cs : List Char) :
    (eat c : Reader ε Bool) (c :: cs) = .ok (true, cs) := by
  rw [eat, if_pos rfl]

theorem eat_of_ne {c : Char} (h : cs.head? ≠ some c) :
    (eat c : Reader ε Bool) cs = .ok (false, cs) := by
  cases cs with
  | nil => rfl
  | cons d cs => rw [eat, if_neg (by simpa using h)]

theorem eat_bind_self (c : Char) (x y : Reader ε β) (cs : List Char) :
    (eat c >>= fun taken => if taken = true then x else y) (c :: cs) = x cs := by
  rw [bind_of_ok (eat_self c cs), if_pos rfl]

theorem eat_bind_of_ne {c : Char} (h : cs.head? ≠ some c) (x y : Reader ε β) :
    (eat c >>= fun taken => if taken = true then x else y) cs = y cs := by
  rw [bind_of_ok (eat_of_ne h), if_neg (by decide)]

/-- A run ends where something else comes next. -/
theorem takeRun_append {p : Char → Bool} (hcs : ∀ c ∈ cs, p c) (hrest : rest.head?.any p = false) :
    (takeRun p : Reader ε (List Char)) (cs ++ rest) = .ok (cs, rest) := by
  rw [takeRun, List.takeWhile_append_of_pos hcs, List.dropWhile_append_of_pos hcs]
  cases rest with
  | nil => simp
  | cons c rest =>
    have hc : p c = false := by simpa using hrest
    simp [hc]

/-- A repetition whose first round is the last one. -/
theorem many_of_done {step : Reader ε (Option α)} (h : step cs = .ok (none, rest)) :
    many step cs = .ok ([], rest) := by
  change collect step cs = .ok ([], rest)
  rw [collect, h]

/-- **Things that are written one after the other are read one after the other**, up to
what ends them, if each may be followed by what comes behind it. What is read is the
`value` of what is written. -/
theorem many_map_of_follows {γ : Type} {step : Reader ε (Option α)} (value : γ → α)
    {spell : γ → List Char} {F : List Char → Prop} {as : List γ} {stop : List Char}
    (hstep : ∀ a ∈ as, ∀ tail, F tail → step (spell a ++ tail) = .ok (some (value a), tail))
    (hne : ∀ a ∈ as, spell a ≠ []) (hfollow : ∀ a ∈ as, ∀ tail, F (spell a ++ tail))
    (hend : F stop) (hstop : step stop = .ok (none, rest)) :
    many step (as.flatMap spell ++ stop) = .ok (as.map value, rest) := by
  induction as with
  | nil => exact many_of_done hstop
  | cons a as ih =>
    obtain ⟨hfirst, hsteps⟩ := List.forall_mem_cons.1 hstep
    obtain ⟨hpos, hne⟩ := List.forall_mem_cons.1 hne
    obtain ⟨-, hfollow⟩ := List.forall_mem_cons.1 hfollow
    -- a repetition goes on only if the round has taken something
    have hlt : (as.flatMap spell ++ stop).length <
        (spell a ++ (as.flatMap spell ++ stop)).length := by
      have := List.length_pos_iff.2 hpos
      simp only [List.length_append]
      omega
    have htail : F (as.flatMap spell ++ stop) := by
      cases as with
      | nil => exact hend
      | cons a' as =>
        rw [List.flatMap_cons, List.append_assoc]
        exact hfollow a' (.head _) _
    have hrest : collect step (as.flatMap spell ++ stop) = .ok (as.map value, rest) :=
      ih hsteps hne hfollow
    change collect step _ = _
    rw [List.flatMap_cons, List.append_assoc, collect, hfirst _ htail]
    simp only [hlt, if_true, hrest, List.map_cons]

/-- The same for things that may be followed by anything. -/
theorem many_map {γ : Type} {step : Reader ε (Option α)} (value : γ → α) {spell : γ → List Char}
    {as : List γ} {stop : List Char}
    (hstep : ∀ a ∈ as, ∀ tail, step (spell a ++ tail) = .ok (some (value a), tail))
    (hne : ∀ a ∈ as, spell a ≠ []) (hstop : step stop = .ok (none, rest)) :
    many step (as.flatMap spell ++ stop) = .ok (as.map value, rest) :=
  many_map_of_follows value (F := fun _ => True) (fun a ha tail _ => hstep a ha tail) hne
    (fun _ _ _ => trivial) trivial hstop

/-- The same for characters, each of which is read as itself. -/
theorem many_flatMap {step : Reader ε (Option α)} {spell : α → List Char} {as : List α}
    {stop : List Char} (hstep : ∀ a ∈ as, ∀ tail, step (spell a ++ tail) = .ok (some a, tail))
    (hne : ∀ a ∈ as, spell a ≠ []) (hstop : step stop = .ok (none, rest)) :
    many step (as.flatMap spell ++ stop) = .ok (as, rest) := by
  simpa using many_map id hstep hne hstop

end Reader

namespace Toml

open Reader

theorem require_true : require true = pure () := rfl

/-! ### Escapes -/

theorem isHexDigit_digitChar : ∀ d < 16, isHexDigit (Nat.digitChar d) := by decide

theorem scalar?_toNat (c : Char) : scalar? c.toNat = some c := by
  have h : c.toNat.isValidChar := c.valid
  rw [scalar?, dif_pos h]
  rfl

/-- A code point in eight digits is read. -/
theorem readCodePoint_fixedDigits (c : Char) (rest : List Char) :
    readCodePoint 8 (fixedDigits 16 8 c.toNat ++ rest) = .ok (c, rest) := by
  have hlt : c.toNat < 16 ^ 8 := c.val.toNat_lt
  have htaken : (fun cs => .ok (cs.take 8, cs.drop 8) : Reading (List Char))
      (fixedDigits 16 8 c.toNat ++ rest) = .ok (fixedDigits 16 8 c.toNat, rest) := by
    simp only [List.take_left' (length_fixedDigits 16 8 c.toNat),
      List.drop_left' (length_fixedDigits 16 8 c.toNat)]
  have hall : (fixedDigits 16 8 c.toNat).all isHexDigit := by
    refine List.all_eq_true.2 fun d hd => ?_
    obtain ⟨v, hv, rfl⟩ := exists_of_mem_fixedDigits (by decide) hd
    exact isHexDigit_digitChar v hv
  have hgood : require ((fixedDigits 16 8 c.toNat).length = 8 &&
      (fixedDigits 16 8 c.toNat).all isHexDigit) = pure () := by
    rw [hall, length_fixedDigits]
    rfl
  rw [readCodePoint, bind_of_ok htaken, hgood, pure_bind,
    valueIn_fixedDigits (by decide) (by decide) hlt, scalar?_toNat]
  rfl

/-! ### Quoted texts -/

/-- A character between double quotes: itself, or its code point. -/
def quoteChar (c : Char) : List Char :=
  if isPlain c && c != '"' && c != '\\' then [c] else '\\' :: 'U' :: fixedDigits 16 8 c.toNat

/-- A text in double quotes. -/
def quote (s : String) : List Char := '"' :: (s.toList.flatMap quoteChar ++ ['"'])

theorem quoteChar_ne_nil (c : Char) : quoteChar c ≠ [] := by
  rw [quoteChar]
  split <;> simp

theorem head?_quoteChar (c : Char) : (quoteChar c).head? ≠ some '"' := by
  rw [quoteChar]
  split
  · next hc =>
    simp only [Bool.and_eq_true, bne_iff_ne] at hc
    simpa using hc.1.2
  · simp

/-- What stands between the quotes does not begin with one. -/
theorem head?_quoted (cs : List Char) : (cs.flatMap quoteChar).head? ≠ some '"' := by
  cases cs with
  | nil => simp
  | cons c cs =>
    obtain ⟨d, ds, hds⟩ := List.exists_cons_of_ne_nil (quoteChar_ne_nil c)
    have hhead := head?_quoteChar c
    rw [hds] at hhead
    rw [List.flatMap_cons, hds]
    exact hhead

theorem readPlain_cons {c : Char} (hc : isPlain c) (rest : List Char) :
    readPlain (c :: rest) = .ok (c, rest) := by
  rw [readPlain, peek_bind]
  simp only [List.head?_cons, hc, require_true, pure_bind, skip_bind]
  rfl

theorem readBasicChar?_quoteChar (c : Char) (rest : List Char) :
    readBasicChar? (quoteChar c ++ rest) = .ok (some c, rest) := by
  rw [readBasicChar?, quoteChar]
  split
  case isTrue hc =>
    simp only [Bool.and_eq_true, bne_iff_ne] at hc
    obtain ⟨⟨hplain, hquote⟩, hbackslash⟩ := hc
    rw [eat_bind_of_ne (by simpa using hquote), eat_bind_of_ne (by simpa using hbackslash)]
    exact map_of_ok (readPlain_cons hplain rest) some
  case isFalse =>
    rw [eat_bind_of_ne (by simp), List.cons_append, eat_bind_self]
    refine map_of_ok ?_ some
    rw [readEscape, peek_bind, skip_bind]
    exact readCodePoint_fixedDigits c rest

/-- **Every text can be written in double quotes.** -/
theorem readQuoted_quote (s : String) (rest : List Char) :
    readQuoted (quote s ++ rest) = .ok (s, rest) := by
  have hmany : many readBasicChar? (s.toList.flatMap quoteChar ++ '"' :: rest) =
      .ok (s.toList, rest) :=
    many_flatMap (fun c _ => readBasicChar?_quoteChar c) (fun c _ => quoteChar_ne_nil c) rfl
  have hquote : quote s ++ rest = '"' :: (s.toList.flatMap quoteChar ++ '"' :: rest) := by
    simp [quote]
  rw [readQuoted, hquote, eat_bind_self]
  exact (map_of_ok hmany String.ofList).trans (by rw [String.ofList_toList])

/-- A text of plain characters can be written in single quotes. -/
theorem readQuoted_literal {s : List Char} (hs : ∀ c ∈ s, isPlain c ∧ c ≠ '\'') (rest : List Char) :
    readQuoted ('\'' :: (s ++ '\'' :: rest)) = .ok (String.ofList s, rest) := by
  have hstep : ∀ c ∈ s, ∀ tail, readLiteralChar? ([c] ++ tail) = .ok (some c, tail) := by
    intro c hc tail
    obtain ⟨hplain, hquote⟩ := hs c hc
    rw [readLiteralChar?, eat_bind_of_ne (by simpa using hquote)]
    exact map_of_ok (readPlain_cons hplain tail) some
  have hmany : many readLiteralChar? (s.flatMap (fun c => [c]) ++ '\'' :: rest) = .ok (s, rest) :=
    many_flatMap hstep (by simp) rfl
  rw [List.flatMap_singleton'] at hmany
  rw [readQuoted, eat_bind_of_ne (by simp), bind_of_ok (eat_self ..), require_true, pure_bind]
  exact map_of_ok hmany String.ofList

/-- Unless three quotes come next, a text stays within its line. -/
theorem readText_of_quotes {q : Char} {body rest : List Char} (hbody : body.head? ≠ some q)
    (hrest : rest.head? ≠ some q) :
    readText q (q :: (body ++ q :: rest)) = readQuoted (q :: (body ++ q :: rest)) := by
  have hfew : ((q :: (body ++ q :: rest)).takeWhile (· == q)).length < 3 := by
    cases body with
    | cons c body =>
      have hc : c ≠ q := by simpa using hbody
      simp [hc]
    | nil =>
      cases rest with
      | nil => simp
      | cons c rest =>
        have hc : c ≠ q := by simpa using hrest
        simp [hc]
  rw [readText, bind_apply, peekRun]
  simp only
  rw [if_neg (by omega)]

/-- Three quotes open a text over several lines. -/
theorem readText_of_three {q : Char} (cs : List Char) :
    readText q (q :: q :: q :: cs) = readLong q cs := by
  have hthree : 3 ≤ ((q :: q :: q :: cs).takeWhile (· == q)).length := by simp
  rw [readText, bind_apply, peekRun]
  simp only
  rw [if_pos hthree]
  rfl

theorem eatNewline_newline (rest : List Char) : eatNewline ('\n' :: rest) = .ok (true, rest) := by
  rw [eatNewline, eat_bind_of_ne (by simp), eat_self]

theorem eatNewline_of_ne {cs : List Char} (hreturn : cs.head? ≠ some '\r')
    (hfeed : cs.head? ≠ some '\n') : eatNewline cs = .ok (false, cs) := by
  rw [eatNewline, eat_bind_of_ne hreturn, eat_of_ne hfeed]

theorem peekRun_of_head? {p : Char → Bool} {cs : List Char} (h : cs.head?.any p = false) :
    peekRun p cs = .ok ([], cs) := by
  cases cs with
  | nil => rfl
  | cons c cs => rw [peekRun, List.takeWhile_cons_of_neg (by simpa using h)]

/-- The characters that stand for themselves between three quotes. -/
structure IsLongChar (q c : Char) : Prop where
  plain : c = '\n' ∨ isPlain c
  ne_quote : c ≠ q
  ne_backslash : q = '"' → c ≠ '\\'

theorem readLongPiece?_cons {q c : Char} (hc : IsLongChar q c) (rest : List Char) :
    readLongPiece? q (c :: rest) = .ok (some [c], rest) := by
  have hquote : (c :: rest).head?.any (· == q) = false := by simpa using hc.ne_quote
  rw [readLongPiece?, bind_of_ok (peekRun_of_head? hquote), if_neg (by decide), if_neg (by decide)]
  by_cases hfeed : c = '\n'
  · subst hfeed
    rw [bind_of_ok (eatNewline_newline rest), if_pos rfl]
    rfl
  · have hplain : isPlain c := hc.plain.resolve_left hfeed
    have hreturn : c ≠ '\r' := by
      rintro rfl
      revert hplain
      decide
    have hescape : ¬(q == '"' && (c :: rest).head? == some '\\') = true := by
      simpa using hc.ne_backslash
    rw [bind_of_ok (eatNewline_of_ne (by simpa using hreturn) (by simpa using hfeed)),
      if_neg (by decide), peek_bind, if_neg hescape, bind_of_ok (readPlain_cons hplain rest)]
    rfl

/-- **A text over several lines is read up to the three quotes that close it.** -/
theorem readLong_append {q : Char} {s : List Char} (hs : ∀ c ∈ s, IsLongChar q c)
    {rest : List Char} (hrest : rest.head? ≠ some q) :
    readLong q ('\n' :: (s ++ q :: q :: q :: rest)) = .ok (String.ofList s, rest) := by
  have hclose : readLongPiece? q (q :: q :: q :: rest) = .ok (none, q :: q :: q :: rest) := by
    have hrun : peekRun (· == q) (q :: q :: q :: rest) =
        .ok (q :: q :: q :: rest.takeWhile (· == q), q :: q :: q :: rest) := by
      simp [peekRun]
    rw [readLongPiece?, bind_of_ok hrun, if_pos (by simp)]
    rfl
  have hpieces : many (readLongPiece? q) (s.flatMap (fun c => [c]) ++ q :: q :: q :: rest) =
      .ok (s.map fun c => [c], q :: q :: q :: rest) :=
    many_map _ (fun c hc => readLongPiece?_cons (hs c hc)) (by simp) hclose
  have hflat : (s.map fun c => [c]).flatten = s := by
    rw [← List.flatMap_def, List.flatMap_singleton']
  have hrun : (takeRun (· == q) : Reading (List Char)) (q :: q :: q :: rest) =
      .ok ([q, q, q], rest) := by
    change takeRun _ ([q, q, q] ++ rest) = _
    exact takeRun_append (by simp) (by cases rest <;> simp_all)
  have hcount : require (3 ≤ [q, q, q].length && [q, q, q].length ≤ 5) = pure () := rfl
  rw [List.flatMap_singleton'] at hpieces
  rw [readLong, bind_of_ok (eatNewline_newline _), bind_of_ok hpieces, bind_of_ok hrun, hcount,
    pure_bind, hflat, List.drop_of_length_le (by simp), List.append_nil]
  rfl

/-! ### Keys -/

/-- A part of a key: as it is, if it holds nothing but letters, digits and lines, and in
quotes otherwise. -/
def spellKeyPart (part : String) : List Char :=
  if part.toList ≠ [] ∧ part.toList.all isBareKeyChar then part.toList else quote part

/-- A dotted key. -/
def spellKey (path : List String) (key : String) : List Char :=
  path.flatMap (fun part => spellKeyPart part ++ ['.']) ++ spellKeyPart key

theorem skipSpace_of_head? {cs : List Char} (h : cs.head?.any isSpace = false) :
    skipSpace cs = .ok ((), cs) := by
  have hrun : (takeRun isSpace : Reading (List Char)) ([] ++ cs) = .ok ([], cs) :=
    takeRun_append (by simp) h
  rw [skipSpace, ← List.nil_append cs, bind_of_ok hrun]
  rfl

/-- A character that `p` admits differs from one that it does not. -/
theorem ne_of_admitted {p : Char → Bool} {c d : Char} (hc : p c) (hd : p d = false) : c ≠ d := by
  rintro rfl
  rw [hc] at hd
  cases hd

theorem notMem_of_admitted {p : Char → Bool} {c : Char} {l : List Char} (hc : p c)
    (hl : l.any p = false) : c ∉ l :=
  fun hmem => Bool.false_ne_true (hl ▸ List.any_eq_true.2 ⟨c, hmem, hc⟩)

theorem isSpace_eq_false {c : Char} (hblank : c ≠ ' ') (htab : c ≠ '\t') : isSpace c = false := by
  simp [isSpace, hblank, htab]

theorem isSpace_of_admitted {p : Char → Bool} {c : Char} (hc : p c) (hblank : p ' ' = false)
    (htab : p '\t' = false) : isSpace c = false :=
  isSpace_eq_false (ne_of_admitted hc hblank) (ne_of_admitted hc htab)

/-- What may follow a part of a key. -/
structure EndsKeyPart (rest : List Char) : Prop where
  space : rest.head?.any isSpace = false
  bare : rest.head?.any isBareKeyChar = false

theorem readKeyPart_spellKeyPart (part : String) {rest : List Char} (hrest : EndsKeyPart rest) :
    readKeyPart (spellKeyPart part ++ rest) = .ok (part, rest) := by
  rw [spellKeyPart]
  split
  case isTrue hpart =>
    obtain ⟨hne, hall⟩ := hpart
    rw [List.all_eq_true] at hall
    obtain ⟨c, cs, hcs⟩ := List.exists_cons_of_ne_nil hne
    have hc : isBareKeyChar c := hall c (by simp [hcs])
    have hspace : (part.toList ++ rest).head?.any isSpace = false := by
      simpa [hcs] using isSpace_of_admitted hc rfl rfl
    have hbare : ¬((part.toList ++ rest).head? == some '"' ||
        (part.toList ++ rest).head? == some '\'') = true := by
      simpa [hcs] using ⟨ne_of_admitted hc rfl, ne_of_admitted hc rfl⟩
    have hsome : require (!part.toList.isEmpty) = pure () := by
      rw [hcs]
      rfl
    rw [readKeyPart, bind_of_ok (skipSpace_of_head? hspace), peek_bind]
    simp only
    rw [if_neg hbare, bind_of_ok (takeRun_append hall hrest.bare), hsome, pure_bind, pure_bind,
      bind_of_ok (skipSpace_of_head? hrest.space), String.ofList_toList]
    rfl
  case isFalse =>
    rw [readKeyPart, bind_of_ok (skipSpace_of_head? (by simp [quote, isSpace])), peek_bind]
    simp only
    rw [if_pos (by simp [quote]), bind_of_ok (readQuoted_quote part rest),
      bind_of_ok (skipSpace_of_head? hrest.space)]
    rfl

theorem endsKeyPart_dot (rest : List Char) : EndsKeyPart ('.' :: rest) := ⟨rfl, rfl⟩

/-- What may follow a key. -/
structure EndsKey (rest : List Char) : Prop extends EndsKeyPart rest where
  dot : rest.head? ≠ some '.'

/-- The parts of a key behind the first. -/
theorem many_keyParts {parts : List String} {rest : List Char} (hrest : EndsKey rest) :
    many (do if ← eat '.' then some <$> readKeyPart else pure none : Reading (Option String))
      (parts.flatMap (fun part => '.' :: spellKeyPart part) ++ rest) = .ok (parts, rest) := by
  refine (many_map_of_follows id (F := EndsKeyPart) ?_ (by simp) ?_ hrest.toEndsKeyPart ?_).trans
    (by rw [List.map_id])
  · intro part _ tail htail
    rw [List.cons_append, eat_bind_self]
    exact map_of_ok (readKeyPart_spellKeyPart part htail) some
  · intro part _ tail
    exact endsKeyPart_dot _
  · rw [eat_bind_of_ne hrest.dot]
    rfl

/-- A dotted key from its first part on. -/
theorem spellKey_cons (part : String) (path : List String) (key : String) :
    spellKey (part :: path) key =
      spellKeyPart part ++ (path ++ [key]).flatMap fun part => '.' :: spellKeyPart part := by
  induction path generalizing part with
  | nil => simp [spellKey]
  | cons part' path ih =>
    have := ih part'
    simp only [spellKey, List.flatMap_cons, List.append_assoc, List.cons_append] at this ⊢
    rw [this]
    rfl

/-- Whether a key may begin with a character: a quote, or one that needs none. -/
def startsKey (c : Char) : Bool := c == '"' || isBareKeyChar c

theorem exists_cons_of_spellKey (path : List String) (key : String) :
    ∃ c cs, spellKey path key = c :: cs ∧ startsKey c := by
  have hpart : ∀ part, ∃ c cs, spellKeyPart part = c :: cs ∧ startsKey c := by
    intro part
    rw [spellKeyPart]
    split
    case isTrue hbare =>
      obtain ⟨c, cs, hcs⟩ := List.exists_cons_of_ne_nil hbare.1
      refine ⟨c, cs, hcs, ?_⟩
      rw [startsKey, List.all_eq_true.1 hbare.2 c (by simp [hcs]), Bool.or_true]
    case isFalse => exact ⟨'"', _, rfl, rfl⟩
  cases path with
  | nil => exact hpart key
  | cons part path =>
    obtain ⟨c, cs, hcs, hc⟩ := hpart part
    exact ⟨c, _, by rw [spellKey_cons, hcs, List.cons_append], hc⟩

/-- **A dotted key is read back**, whatever its parts are. -/
theorem readKey_spellKey {path : List String} (hpath : path.length < maxDepth) (key : String)
    {rest : List Char} (hrest : EndsKey rest) :
    readKey (spellKey path key ++ rest) = .ok ((path, key), rest) := by
  have hfollow : ∀ parts : List String,
      EndsKeyPart (parts.flatMap (fun part => '.' :: spellKeyPart part) ++ rest) := by
    rintro (_ | ⟨part, parts⟩)
    · exact hrest.toEndsKeyPart
    · exact endsKeyPart_dot _
  cases path with
  | nil =>
    have hmore := @many_keyParts [] rest hrest
    rw [List.flatMap_nil, List.nil_append] at hmore
    rw [readKey, show spellKey [] key = spellKeyPart key from rfl,
      bind_of_ok (readKeyPart_spellKeyPart key hrest.toEndsKeyPart), bind_of_ok hmore]
    rfl
  | cons part path =>
    have hfew : require (decide ((path ++ [key]).length < maxDepth)) = pure () := by
      rw [decide_eq_true (by simpa using hpath)]
      rfl
    rw [spellKey_cons, List.append_assoc, readKey,
      bind_of_ok (readKeyPart_spellKeyPart part (hfollow _)), bind_of_ok (many_keyParts hrest),
      hfew, pure_bind, List.getLast?_concat]
    simp only [List.dropLast_concat]
    rfl

/-! ### Values -/

/-- What may follow a value. -/
def EndsValue (rest : List Char) : Prop :=
  ∀ c, rest.head? = some c → c ∈ [',', ']', '}', '\n']

theorem EndsValue.any_eq_false {rest : List Char} (h : EndsValue rest) {p : Char → Bool}
    (hp : [',', ']', '}', '\n'].any p = false) : rest.head?.any p = false := by
  cases hhead : rest.head? with
  | none => rfl
  | some c => exact Bool.eq_false_iff.2 (List.any_eq_false.1 hp c (h c hhead))

theorem EndsValue.ne_some {rest : List Char} (h : EndsValue rest) {c : Char}
    (hc : c ∉ [',', ']', '}', '\n']) : rest.head? ≠ some c :=
  fun hhead => hc (h c hhead)

theorem endsValue_cons {c : Char} (hc : c ∈ [',', ']', '}', '\n']) (rest : List Char) :
    EndsValue (c :: rest) := by
  rintro d ⟨⟩
  exact hc

/-- Whether a value may begin with a character. -/
def startsValue (c : Char) : Bool :=
  c == '"' || c == '\'' || c == '[' || c == '{' || isWordChar c

/-- The text of a pair whose value is written as `w`. -/
def spellPair (p : Pair) (w : List Char) : List Char := spellKey p.path p.key ++ '=' :: w

/-- The spellings of values, with `nested` for those of the values in them. Numbers, times
and booleans have all spellings in one word, and a text may be written in every kind of
quotes. Every element of an array is followed by a comma. -/
inductive SpellsWith (nested : Option (Toml → List Char → Prop)) : Toml → List Char → Prop where
  | quoted (s : String) : SpellsWith nested (.text s) (quote s)
  | literal {s : List Char} (hs : ∀ c ∈ s, isPlain c ∧ c ≠ '\'') :
      SpellsWith nested (.text (String.ofList s)) ('\'' :: (s ++ ['\'']))
  | long {q : Char} {s : List Char} (hq : q = '"' ∨ q = '\'') (hs : ∀ c ∈ s, IsLongChar q c) :
      SpellsWith nested (.text (String.ofList s)) (q :: q :: q :: '\n' :: (s ++ [q, q, q]))
  | word {t : Toml} {w : List Char} (hne : w ≠ []) (hall : ∀ c ∈ w, isWordChar c)
      (ht : ofWord? w = some t) : SpellsWith nested t w
  | array {spells : Toml → List Char → Prop} {elems : List (Toml × List Char)}
      (hnested : nested = some spells) (h : ∀ e ∈ elems, spells e.1 e.2) :
      SpellsWith nested (.array (elems.map Prod.fst))
        ('[' :: (elems.flatMap (fun e => e.2 ++ [',']) ++ [']']))
  | inline {spells : Toml → List Char → Prop} {first : Pair × List Char}
      {more : List (Pair × List Char)} {es : Entries} (hnested : nested = some spells)
      (h : ∀ p ∈ first :: more, p.1.path.length < maxDepth ∧ spells p.1.value p.2)
      (hes : insertAll ((first :: more).map Prod.fst) [] = some es) :
      SpellsWith nested (.table .inline es)
        ('{' :: (spellPair first.1 first.2 ++
          more.flatMap (fun p => ',' :: spellPair p.1 p.2) ++ ['}']))

/-- What it means for a reader to read values from all their spellings. -/
def ReadsBack (value : Reading Toml) (spells : Toml → List Char → Prop) : Prop :=
  ∀ t w, spells t w → (∃ c cs, w = c :: cs ∧ startsValue c) ∧
    ∀ rest, EndsValue rest → value (w ++ rest) = .ok (t, rest)

section Nested

variable {value : Reading Toml} {spells : Toml → List Char → Prop}

/-- A pair is read back if its value is. -/
theorem readPair_spellPair (hvalue : ReadsBack value spells) {p : Pair} {w : List Char}
    (hpath : p.path.length < maxDepth) (hw : spells p.value w) {rest : List Char}
    (hrest : EndsValue rest) : readPair value (spellPair p w ++ rest) = .ok (p, rest) := by
  obtain ⟨⟨c, cs, rfl, hc⟩, hread⟩ := hvalue _ _ hw
  have hequals : EndsKey ('=' :: (c :: cs ++ rest)) := ⟨⟨rfl, rfl⟩, by simp⟩
  have hspace : (c :: cs ++ rest).head?.any isSpace = false := by
    simpa using isSpace_of_admitted hc rfl rfl
  rw [spellPair, List.append_assoc, List.cons_append, readPair,
    bind_of_ok (readKey_spellKey hpath p.key hequals)]
  simp only
  rw [bind_of_ok (eat_self ..), require_true, pure_bind, bind_of_ok (skipSpace_of_head? hspace),
    bind_of_ok (hread rest hrest),
    bind_of_ok (skipSpace_of_head? (hrest.any_eq_false rfl))]
  rfl

/-- Between the elements of an array nothing is skipped in front of other characters than
these. -/
theorem skipFiller_of_head? {cs : List Char}
    (h : ∀ c, cs.head? = some c → c ∉ [' ', '\t', '#', '\r', '\n']) :
    skipFiller cs = .ok ((), cs) := by
  have hne : ∀ c ∈ [' ', '\t', '#', '\r', '\n'], cs.head? ≠ some c :=
    fun c hc hhead => h c hhead hc
  have hspace : cs.head?.any isSpace = false := by
    cases hhead : cs.head? with
    | none => rfl
    | some c =>
      have := h c hhead
      exact isSpace_eq_false (by rintro rfl; simp at this) (by rintro rfl; simp at this)
  rw [skipFiller]
  refine bind_of_ok (many_of_done ?_) _
  rw [bind_of_ok (skipSpace_of_head? hspace), bind_of_ok (eat_of_ne (hne '#' (by simp)))]
  simp only
  rw [if_neg (by decide),
    bind_of_ok (eatNewline_of_ne (hne '\r' (by simp)) (hne '\n' (by simp))), if_neg (by decide)]
  rfl

/-- An element of an array is read back, with the comma behind it. -/
theorem readElement?_spells (hvalue : ReadsBack value spells) {t : Toml} {w : List Char}
    (hw : spells t w) (tail : List Char) :
    readElement? value (w ++ [','] ++ tail) = .ok (some t, tail) := by
  obtain ⟨⟨c, cs, rfl, hc⟩, hread⟩ := hvalue _ _ hw
  have hstart : ∀ d, (c :: cs ++ ',' :: tail).head? = some d →
      d ∉ [' ', '\t', '#', '\r', '\n'] := by
    rintro d ⟨⟩
    exact notMem_of_admitted hc rfl
  have hcomma : ∀ d, (',' :: tail).head? = some d → d ∉ [' ', '\t', '#', '\r', '\n'] := by
    rintro d ⟨⟩
    decide
  rw [List.append_assoc, List.singleton_append, readElement?,
    bind_of_ok (skipFiller_of_head? hstart),
    eat_bind_of_ne (by simpa using ne_of_admitted hc rfl),
    bind_of_ok (hread _ (endsValue_cons (by simp) tail)), bind_of_ok (skipFiller_of_head? hcomma),
    bind_of_ok (eat_self ..)]
  rfl

/-- An inline table is read back behind its first brace. -/
theorem readInline_spells (hvalue : ReadsBack value spells) {first : Pair × List Char}
    {more : List (Pair × List Char)} {es : Entries}
    (h : ∀ p ∈ first :: more, p.1.path.length < maxDepth ∧ spells p.1.value p.2)
    (hes : insertAll ((first :: more).map Prod.fst) [] = some es) (rest : List Char) :
    readInline value (spellPair first.1 first.2 ++
      (more.flatMap (fun p => ',' :: spellPair p.1 p.2) ++ '}' :: rest)) =
      .ok (.table .inline es, rest) := by
  obtain ⟨hfirst, hmore⟩ := List.forall_mem_cons.1 h
  obtain ⟨c, cs, hcs, hc⟩ := exists_cons_of_spellKey first.1.path first.1.key
  have hspace : isSpace c = false := isSpace_of_admitted hc rfl rfl
  have hfollow : ∀ pairs : List (Pair × List Char),
      EndsValue (pairs.flatMap (fun p => ',' :: spellPair p.1 p.2) ++ '}' :: rest) := by
    rintro (_ | ⟨p, pairs⟩)
    · exact endsValue_cons (by simp) rest
    · exact endsValue_cons (by simp) _
  have hpairs : many (do
        if ← eat ',' then some <$> readPair value else pure none : Reading (Option Pair))
      (more.flatMap (fun p => ',' :: spellPair p.1 p.2) ++ '}' :: rest) =
      .ok (more.map Prod.fst, '}' :: rest) := by
    refine many_map_of_follows Prod.fst (F := EndsValue) ?_ (by simp) ?_ (hfollow []) ?_
    · intro p hp tail htail
      rw [List.cons_append, eat_bind_self]
      exact map_of_ok (readPair_spellPair hvalue (hmore p hp).1 (hmore p hp).2 htail) some
    · intro p _ tail
      exact endsValue_cons (by simp) _
    · rw [eat_bind_of_ne (by simp)]
      rfl
  rw [readInline, bind_of_ok (skipSpace_of_head? (by simpa [spellPair, hcs] using hspace)),
    eat_bind_of_ne (by simpa [spellPair, hcs] using ne_of_admitted hc rfl),
    bind_of_ok (readPair_spellPair hvalue hfirst.1 hfirst.2 (hfollow more)), bind_of_ok hpairs,
    bind_of_ok (eat_self ..), require_true, pure_bind]
  simp only [← List.map_cons, hes]
  rfl

end Nested

theorem readValueWith_quoted {nested : Option (Reading Toml)} {q : Char} (hq : q = '"' ∨ q = '\'')
    {cs rest : List Char} {s : String} (h : readText q (q :: cs) = .ok (s, rest)) :
    readValueWith nested (q :: cs) = .ok (.text s, rest) := by
  rw [readValueWith, peek_bind]
  rcases hq with rfl | rfl
  · exact map_of_ok h text
  · exact map_of_ok h text

theorem readValueWith_word {nested : Option (Reading Toml)} {c : Char} (hc : isWordChar c)
    (cs : List Char) : readValueWith nested (c :: cs) = readWord (c :: cs) := by
  rw [readValueWith, peek_bind, List.head?_cons]
  refine congrFun (?_ : _ = readWord) (c :: cs)
  generalize hhead : some c = first
  split
  case h_5 => rfl
  case h_6 => cases hhead
  all_goals
    cases hhead
    cases hc

/-- A word is read back unless more characters of a word, or a blank, follow. -/
theorem readWord_append {t : Toml} {w : List Char} (hall : ∀ c ∈ w, isWordChar c)
    (ht : ofWord? w = some t) {rest : List Char} (hrest : rest.head?.any isWordChar = false)
    (hblank : rest.head? ≠ some ' ') : readWord (w ++ rest) = .ok (t, rest) := by
  have hpeek : (fun cs => .ok (cs.take 2, cs) : Reading (List Char)) rest =
      .ok (rest.take 2, rest) := rfl
  rw [readWord, bind_of_ok (takeRun_append hall hrest), bind_of_ok hpeek]
  -- only behind a blank could a date go on with a time
  have hnext : ∀ d, rest.take 2 ≠ [' ', d] := by
    intro d htake
    cases rest with
    | nil => cases htake
    | cons c cs =>
      rw [List.take_succ_cons] at htake
      exact hblank (congrArg some (List.cons_eq_cons.1 htake).1)
  dsimp only
  generalize rest.take 2 = next at hnext
  refine congrFun (?_ : _ = (pure t : Reading Toml)) rest
  split
  next d _ => exact absurd rfl (hnext d)
  next => simp only [pure_bind, ht]

/-- A reader of values reads back what is spelled with what the reader of nested values
reads back. -/
theorem readsBack_readValueWith {nested : Option (Reading Toml)}
    {spells : Option (Toml → List Char → Prop)}
    (h : ∀ p ∈ spells, ∃ value ∈ nested, ReadsBack value p) :
    ReadsBack (readValueWith nested) (SpellsWith spells) := by
  intro t w hw
  cases hw with
  | quoted s =>
    refine ⟨⟨'"', _, rfl, rfl⟩, fun rest hrest => readValueWith_quoted (.inl rfl) ?_⟩
    rw [List.append_eq, List.append_assoc, List.singleton_append,
      readText_of_quotes (head?_quoted s.toList) (hrest.ne_some (by decide))]
    simpa [quote] using readQuoted_quote s rest
  | @literal s hs =>
    refine ⟨⟨'\'', _, rfl, rfl⟩, fun rest hrest => readValueWith_quoted (.inr rfl) ?_⟩
    have hbody : s.head? ≠ some '\'' := fun hhead => (hs _ (List.mem_of_mem_head? hhead)).2 rfl
    rw [List.append_eq, List.append_assoc, List.singleton_append,
      readText_of_quotes hbody (hrest.ne_some (by decide))]
    exact readQuoted_literal hs rest
  | @long q s hq hs =>
    refine ⟨⟨_, _, rfl, by rcases hq with rfl | rfl <;> rfl⟩, fun rest hrest =>
      readValueWith_quoted hq ?_⟩
    have hend : rest.head? ≠ some q := hrest.ne_some (by rcases hq with rfl | rfl <;> decide)
    have hlong := readLong_append hs hend
    rw [List.append_eq, List.cons_append, List.cons_append, readText_of_three]
    simpa using hlong
  | word hne hall ht =>
    obtain ⟨c, cs, rfl⟩ := List.exists_cons_of_ne_nil hne
    refine ⟨⟨c, cs, rfl, by simp [startsValue, hall c]⟩, fun rest hrest => ?_⟩
    rw [List.cons_append, readValueWith_word (hall c (.head _)), ← List.cons_append]
    exact readWord_append hall ht (hrest.any_eq_false rfl) (hrest.ne_some (by decide))
  | @array spells elems hnested helems =>
    refine ⟨⟨'[', _, rfl, rfl⟩, fun rest hrest => ?_⟩
    obtain ⟨value, hvalue, hread⟩ := h spells hnested
    cases hvalue
    have hstop : readElement? value (']' :: rest) = .ok (none, rest) := by
      rw [readElement?, bind_of_ok (skipFiller_of_head? (by simp)), eat_bind_self]
      rfl
    have hmany := many_map Prod.fst
      (fun e he => readElement?_spells hread (helems e he)) (by simp) hstop
    rw [readValueWith, peek_bind, List.cons_append, List.append_assoc]
    exact map_of_ok hmany array
  | @inline spells first more es hnested hpairs hes =>
    refine ⟨⟨'{', _, rfl, rfl⟩, fun rest hrest => ?_⟩
    obtain ⟨value, hvalue, hread⟩ := h spells hnested
    cases hvalue
    rw [readValueWith, peek_bind, List.cons_append, List.append_assoc, List.append_assoc]
    exact readInline_spells hread hpairs hes rest

/-- The spellings of values that are nested at most `room` levels deep. -/
def SpellsWithin : (room : Nat) → Toml → List Char → Prop
  | 0 => SpellsWith none
  | room + 1 => SpellsWith (some (SpellsWithin room))

/-- **Values are read back**, as deep as they may be nested. The induction is on the room
for nesting, as the grammar is. -/
theorem readsBack_readValueWithin (room : Nat) :
    ReadsBack (readValueWithin room) (SpellsWithin room) := by
  induction room with
  | zero => exact readsBack_readValueWith (by simp)
  | succ room ih => exact readsBack_readValueWith (by simpa using ih)

/-! ### Documents -/

/-- The spellings of lines. -/
inductive SpellsLine : Line → List Char → Prop where
  | blank : SpellsLine .blank ['\n']
  | header {path : List String} (key : String) (hpath : path.length < maxDepth) :
      SpellsLine (.header path key) ('[' :: (spellKey path key ++ [']', '\n']))
  | arrayHeader {path : List String} (key : String) (hpath : path.length < maxDepth) :
      SpellsLine (.arrayHeader path key) ('[' :: '[' :: (spellKey path key ++ [']', ']', '\n']))
  | pair {p : Pair} {w : List Char} (hpath : p.path.length < maxDepth)
      (hw : SpellsWithin maxDepth p.value w) : SpellsLine (.pair p) (spellPair p w ++ ['\n'])

theorem readLineEnd_newline (rest : List Char) : readLineEnd ('\n' :: rest) = .ok ((), rest) := by
  have hcomment : skipComment ('\n' :: rest) = .ok ((), '\n' :: rest) := by
    rw [skipComment, eat_bind_of_ne (by simp)]
    rfl
  rw [readLineEnd, bind_of_ok (skipSpace_of_head? rfl), bind_of_ok hcomment,
    bind_of_ok (eatNewline_newline rest), if_neg (by decide)]
  rfl

/-- The line that is read behind what it says. -/
theorem readLineEnd_bind (line : Line) (rest : List Char) :
    (do readLineEnd; pure (some line) : Reading (Option Line)) ('\n' :: rest) =
      .ok (some line, rest) := by
  rw [bind_of_ok (readLineEnd_newline rest)]
  rfl

theorem endsKey_bracket (rest : List Char) : EndsKey (']' :: rest) := ⟨⟨rfl, rfl⟩, by simp⟩

theorem readHeader_spellKey {path : List String} (key : String) (hpath : path.length < maxDepth)
    (rest : List Char) :
    readHeader (spellKey path key ++ ']' :: rest) = .ok (.header path key, rest) := by
  obtain ⟨c, cs, hcs, hc⟩ := exists_cons_of_spellKey path key
  rw [readHeader, eat_bind_of_ne (by simpa [hcs] using ne_of_admitted hc rfl),
    bind_of_ok (readKey_spellKey hpath key (endsKey_bracket rest))]
  dsimp only
  rw [bind_of_ok (eat_self ..), require_true, pure_bind]
  rfl

theorem readHeader_double {path : List String} (key : String) (hpath : path.length < maxDepth)
    (rest : List Char) :
    readHeader ('[' :: (spellKey path key ++ ']' :: ']' :: rest)) =
      .ok (.arrayHeader path key, rest) := by
  rw [readHeader, eat_bind_self, bind_of_ok (readKey_spellKey hpath key (endsKey_bracket _))]
  dsimp only
  rw [bind_of_ok (eat_self ..), bind_of_ok (eat_self ..), Bool.and_self, require_true, pure_bind]
  rfl

/-- A line that a bracket opens is a header. -/
theorem readLine?_header {line : Line} {cs tail : List Char}
    (h : readHeader cs = .ok (line, '\n' :: tail)) :
    readLine? ('[' :: cs) = .ok (some line, tail) := by
  rw [readLine?, bind_of_ok (skipSpace_of_head? rfl), atEnd_bind, if_neg (by simp), peek_bind,
    bind_of_ok (eat_self ..)]
  dsimp only
  rw [if_neg (by simp), if_pos rfl, bind_of_ok h]
  exact readLineEnd_bind line tail

theorem readLine?_spells {line : Line} {w : List Char} (h : SpellsLine line w) (tail : List Char) :
    readLine? (w ++ tail) = .ok (some line, tail) := by
  cases h with
  | blank =>
    rw [List.singleton_append, readLine?, bind_of_ok (skipSpace_of_head? rfl), atEnd_bind,
      if_neg (by simp), peek_bind, bind_of_ok (eat_of_ne (by simp))]
    dsimp only
    rw [if_pos (by simp), pure_bind]
    exact readLineEnd_bind .blank tail
  | header key hpath =>
    refine readLine?_header ?_
    simpa using readHeader_spellKey key hpath ('\n' :: tail)
  | arrayHeader key hpath =>
    refine readLine?_header ?_
    simpa using readHeader_double key hpath ('\n' :: tail)
  | @pair p w hpath hw =>
    obtain ⟨c, cs, hcs, hc⟩ := exists_cons_of_spellKey p.path p.key
    have hhead : (spellPair p w ++ '\n' :: tail).head? = some c := by simp [spellPair, hcs]
    have hspace : isSpace c = false := isSpace_of_admitted hc rfl rfl
    have hnot : ¬(some c == some '#' || some c == some '\n' || some c == some '\r') = true := by
      simpa [and_assoc] using notMem_of_admitted (l := ['#', '\n', '\r']) hc rfl
    have hline : EndsValue ('\n' :: tail) := endsValue_cons (by simp) tail
    have hpair := readPair_spellPair (readsBack_readValueWithin maxDepth) hpath hw hline
    rw [List.append_assoc, List.singleton_append, readLine?,
      bind_of_ok (skipSpace_of_head? (by simpa [hhead] using hspace)), atEnd_bind,
      if_neg (by simp), peek_bind,
      bind_of_ok (eat_of_ne (by simpa [hhead] using ne_of_admitted hc rfl))]
    dsimp only
    rw [hhead, if_neg hnot, if_neg (by decide), readValue,
      bind_of_ok (map_of_ok hpair Line.pair)]
    exact readLineEnd_bind _ tail

theorem head?_spells {line : Line} {w : List Char} (h : SpellsLine line w) :
    ∃ c cs, w = c :: cs ∧ c ≠ '\ufeff' := by
  cases h with
  | blank => exact ⟨_, _, rfl, by decide⟩
  | header => exact ⟨_, _, rfl, by decide⟩
  | arrayHeader => exact ⟨_, _, rfl, by decide⟩
  | @pair p w hpath hw =>
    obtain ⟨c, cs, hcs, hc⟩ := exists_cons_of_spellKey p.path p.key
    exact ⟨c, _, by rw [spellPair, hcs]; rfl, ne_of_admitted hc rfl⟩

/-- **A document is read back line by line.** -/
theorem parse?_spells {lines : List (Line × List Char)} (h : ∀ l ∈ lines, SpellsLine l.1 l.2) :
    parse? (String.ofList (lines.flatMap Prod.snd)) = ofLines (lines.map Prod.fst) := by
  -- a mark in front of a file is skipped, but no line begins with one
  have hmark : ∀ cs, lines.flatMap Prod.snd ≠ '\ufeff' :: cs := by
    intro cs hcs
    cases lines with
    | nil => cases hcs
    | cons l lines =>
      obtain ⟨c, cs, hl, hc⟩ := head?_spells (h l (.head _))
      rw [List.flatMap_cons, hl] at hcs
      cases hcs
      exact hc rfl
  have hread : many readLine? (lines.flatMap Prod.snd) = .ok (lines.map Prod.fst, []) := by
    have hne : ∀ l ∈ lines, l.2 ≠ [] := by
      intro l hl
      obtain ⟨c, cs, hcs, -⟩ := head?_spells (h l hl)
      simp [hcs]
    rw [← List.append_nil (lines.flatMap Prod.snd)]
    exact many_map Prod.fst (fun l hl => readLine?_spells (h l hl)) hne rfl
  simp only [parse?, String.toList_ofList]
  generalize lines.flatMap Prod.snd = cs at hmark hread ⊢
  split
  · next hcs =>
    cases hread.symm.trans hcs
    rfl
  · next hcs => exact (hcs _ hread).elim

end Toml

end JavaGenerics
