import JavaGenerics.Proofs.Accounting

/-!
# How often a class is attempted

A resolution asks for a class once at most; but the classes that it asks for make
resolutions of their own, which ask again, and a class whose resolution failed is
unresolved as before. So a class may be attempted several times in the course of one
call: where `X` extends `A` and implements `B`, and `B` extends `A`, a failing `A` is
tried for `X` and tried again for `B`
(`JavaGenerics.Workspace.resolve_attempts_twice`).

There is a limit to that, and `JavaGenerics.Workspace.resolve_attempts` says what it is
(`JavaGenerics.Attempts`):

* a class is attempted again only when all its earlier attempts are over and have failed,
  each reporting its error, so that a class whose attempts do not fail is attempted once
  at most;
* all in all there are no more attempts than classes were unresolved in the beginning and
  calls fail;
* no resolution asks for the same class twice, and behind every call but the first there
  is such a request.

The books are kept along the journal (`JavaGenerics.Orderly`). They go together with the
registry, as a class can only be attempted when it is unresolved; what carries the
induction is that by then all attempts at it have failed.
-/

namespace JavaGenerics

open Attempt Workspace JournalEntry

/-! ### Sessions and attempts in the journal -/

namespace JournalEntry

/-- The classes that the calls under way have asked for, innermost call first. -/
def sessions (ss : List (List ClassId)) : JournalEntry → List (List ClassId)
  | called _ => [] :: ss
  | asked c _ =>
    match ss with
    | [] => []
    | cs :: ss => (c :: cs) :: ss
  | returned _ _ => ss.tail
  | _ => ss

/-- An attempt at a class. -/
def isAttempt : JournalEntry → Bool
  | began (.ofClass _) => true
  | _ => false

/-- An entry that is neither part of a call nor a request. -/
def IsAside : JournalEntry → Prop
  | ended _ => True
  | answered _ _ => True
  | reported _ => True
  | noted _ => True
  | _ => False

/-- What depends only on what came before holds throughout a journal that is one entry
longer if it holds of that entry. -/
theorem Throughout.snoc {P : List JournalEntry → JournalEntry → List JournalEntry → Prop}
    {e : JournalEntry} {es : List JournalEntry} (h : Throughout P es)
    (hP : ∀ before x after, P before x after → P before x (after ++ [e])) (he : P es e []) :
    Throughout P (es ++ [e]) :=
  (h.mono hP).append (.cons (by rwa [List.append_nil]) throughout_nil)

end JournalEntry

namespace Registry

variable (r : Registry)

/-- An attempt at the class `d` ends in the course of some entries: it is over, its error
is reported, and the call returns. -/
def Fails (d : ClassId) (es : List JournalEntry) : Prop :=
  ∃ e signature, [.ended (.ofClass d),
    .reported (ResolveError.diagnostic e (r.targetName (.ofClass d)) signature),
    .returned (.ofClass d) false] <:+: es

/-- Every attempt at the class `d` among some entries fails in the course of them. -/
def Failed (d : ClassId) (es : List JournalEntry) : Prop :=
  Throughout (fun _ e after => e = .began (.ofClass d) → r.Fails d after) es

variable {r} {d : ClassId} {es : List JournalEntry} {e : JournalEntry}

theorem Fails.append (h : r.Fails d es) (later : List JournalEntry) : r.Fails d (es ++ later) := by
  obtain ⟨err, signature, hes⟩ := h
  exact ⟨err, signature, hes.trans (List.prefix_append _ _).isInfix⟩

theorem Failed.snoc (h : r.Failed d es) (he : e ≠ .began (.ofClass d)) : r.Failed d (es ++ [e]) :=
  Throughout.snoc h (fun _ _ _ hfails hx => (hfails hx).append _) fun hbegan => absurd hbegan he

/-- With the failure of an attempt, all attempts have failed. -/
theorem failed_of_end (r : Registry) (d : ClassId) (es : List JournalEntry) (e : ResolveError)
    (signature : Option String) :
    r.Failed d (es ++ [.ended (.ofClass d),
      .reported (e.diagnostic (r.targetName (.ofClass d)) signature),
      .returned (.ofClass d) false]) := by
  refine Throughout.append (fun before x after _ _ => ?_) ?_
  · exact ⟨e, signature, (List.suffix_append _ _).isInfix⟩
  · exact .cons nofun (.cons nofun (.cons nofun throughout_nil))

end Registry

/-- Asked for the class `c`, the collaborator may resolve the class `d`. -/
def Collaborator.ResolvesFor (k : Collaborator) (r : Registry) (c d : ClassId) : Prop :=
  ∃ p, k = .pool p ∧ r.lookup (p.targetName (r.className c)) = some d

/-- **What an entry requires of those before it**: an attempt, that all earlier ones at
the class have failed; a request, that the resolution which makes it has not asked for the
class; and a call, that it answers a request, unless it is the first. -/
def Regular (k : Collaborator) (r : Registry) (before : List JournalEntry) : JournalEntry → Prop
  | .began (.ofClass d) => r.Failed d before
  | .asked c _ => c ∉ (before.foldl sessions []).headD []
  | .called t => before = [] ∨
      ∃ c d, t = .ofClass d ∧ [.asked c (r.className c)] <:+ before ∧ k.ResolvesFor r c d
  | _ => True

theorem JournalEntry.IsAside.regular {k : Collaborator} {r : Registry} {e : JournalEntry}
    (he : e.IsAside) (before : List JournalEntry) : Regular k r before e := by
  cases e <;> trivial

/-! ### Books that are in order -/

/-- **The books are in order** where `es` are the entries that have been made since the
registry was `r`, where it is now `r'`, and where the calls under way have asked for the
classes in `ss`. -/
structure Orderly (k : Collaborator) (r : Registry) (es : List JournalEntry) (r' : Registry)
    (ss : List (List ClassId)) : Prop where
  regular : Throughout (fun before e _ => Regular k r before e) es
  /-- A class that is unresolved may be attempted: what there was has failed. -/
  failed : ∀ d, r'.stage? (.ofClass d) = some .unresolved → r.Failed d es
  /-- Each class has been attempted as often as it has failed, or once more if it is not
  unresolved. -/
  each : ∀ d, es.count (.began (.ofClass d)) ≤ es.count (.returned (.ofClass d) false) +
    if r'.stage? (.ofClass d) = some .unresolved then 0 else 1
  number : es.countP isAttempt + r'.unresolvedCount ≤ es.countP isFailure + r.unresolvedCount
  sessions_eq : es.foldl sessions [] = ss

namespace Orderly

variable {k : Collaborator} {r r' : Registry} {es : List JournalEntry} {c : ClassId}
  {cs : List ClassId} {ss : List (List ClassId)} {e : JournalEntry} {t : Target}

theorem nil (k : Collaborator) (r : Registry) : Orderly k r [] r [] where
  regular := throughout_nil
  failed _ _ := throughout_nil
  each _ := Nat.zero_le _
  number := Nat.le_refl _
  sessions_eq := rfl

theorem regular_snoc (h : Orderly k r es r' ss) (he : Regular k r es e) :
    Throughout (fun before e _ => Regular k r before e) (es ++ [e]) :=
  h.regular.snoc (fun _ _ _ => id) he

theorem sessions_snoc (h : Orderly k r es r' ss) :
    (es ++ [e]).foldl sessions [] = sessions ss e := by
  rw [List.foldl_append, h.sessions_eq]
  rfl

/-- An entry that is no attempt may be made if it is regular. -/
theorem snoc (h : Orderly k r es r' ss) (he : Regular k r es e)
    (hbegan : ∀ t, e ≠ .began t) : Orderly k r (es ++ [e]) r' (sessions ss e) where
  regular := h.regular_snoc he
  failed d hd := (h.failed d hd).snoc (hbegan _)
  each d := by
    have hcount := h.each d
    have hmore : es.count (.returned (.ofClass d) false) ≤
        (es ++ [e]).count (.returned (.ofClass d) false) :=
      (List.sublist_append_left es [e]).count_le _
    have hsame : (es ++ [e]).count (.began (.ofClass d)) = es.count (.began (.ofClass d)) := by
      rw [List.count_append, List.count_singleton, if_neg (by simpa using hbegan _), Nat.add_zero]
    omega
  number := by
    have hcount := h.number
    have hmore : es.countP isFailure ≤ (es ++ [e]).countP isFailure :=
      (List.sublist_append_left es [e]).countP_le
    have hsame : (es ++ [e]).countP isAttempt = es.countP isAttempt := by
      have he : isAttempt e = false := by
        cases e with
        | began t => exact absurd rfl (hbegan t)
        | _ => rfl
      rw [List.countP_append, List.countP_singleton, he]
      rfl
    omega
  sessions_eq := h.sessions_snoc

theorem aside (h : Orderly k r es r' ss) (he : e.IsAside) : Orderly k r (es ++ [e]) r' ss := by
  have hkept : sessions ss e = ss := by cases e <;> first | rfl | exact he.elim
  have hbegan : ∀ t, e ≠ .began t := by
    rintro t rfl
    exact he
  exact hkept ▸ h.snoc (he.regular es) hbegan

/-- A resolution may ask for a class that it has not asked for. -/
theorem ask (h : Orderly k r es r' (cs :: ss)) (hc : c ∉ cs) (name : String) :
    Orderly k r (es ++ [.asked c name]) r' ((c :: cs) :: ss) := by
  refine h.snoc (e := .asked c name) ?_ fun _ => nofun
  change c ∉ (es.foldl sessions []).headD []
  rw [h.sessions_eq]
  exact hc

theorem call (h : Orderly k r es r' ss) (ht : Regular k r es (.called t)) :
    Orderly k r (es ++ [.called t]) r' ([] :: ss) :=
  h.snoc ht fun _ => nofun

theorem returned (h : Orderly k r es r' (cs :: ss)) (t : Target) (ok : Bool) :
    Orderly k r (es ++ [.returned t ok]) r' ss :=
  h.snoc (e := .returned t ok) trivial fun _ => nofun

/-- A call that is refused is no attempt. -/
theorem refused (h : Orderly k r es r' ss) (ht : Regular k r es (.called t)) (e : ResolveError)
    (signature : Option String) :
    Orderly k r (es ++ [.called t, .reported (e.diagnostic (r.targetName t) signature),
      .returned t false]) r' ss := by
  have hreported := (h.call ht).aside (e := .reported (e.diagnostic (r.targetName t) signature))
    trivial
  simpa using hreported.returned t false

end Orderly

/-! ### Marks and the books -/

namespace Registry

variable {r : Registry} {d : ClassId} {t : Target}

/-- A mark is on one declaration alone. -/
theorem stage?_setStage_of_ne (h : t ≠ .ofClass d) (s : Stage) :
    (r.setStage s t).stage? (.ofClass d) = r.stage? (.ofClass d) := by
  cases t with
  | ofClass c =>
    have hdc : d ≠ c := fun hdc => h (by rw [hdc])
    rw [stage?, setStage, classAt?_modifyClass_of_ne _ hdc, stage?]
  | ofMethod m => rfl
  | ofField f => rfl

/-- What is unresolved behind a mark was so before, and is not what was marked. -/
theorem stage?_of_mark
    (h : (r.setStage .resolving t).stage? (.ofClass d) = some .unresolved) :
    t ≠ .ofClass d ∧ r.stage? (.ofClass d) = some .unresolved := by
  have hne : t ≠ .ofClass d := by
    rintro rfl
    rw [stage?_setStage] at h
    cases hs : r.stage? (.ofClass d) <;> simp [hs] at h
  exact ⟨hne, stage?_setStage_of_ne hne _ ▸ h⟩

/-- What is unresolved when a mark is taken away was marked, or was so before. -/
theorem stage?_of_unmark (h : (r.unmark t).stage? (.ofClass d) = some .unresolved) :
    t = .ofClass d ∨ r.stage? (.ofClass d) = some .unresolved := by
  unfold unmark at h
  split at h
  · rcases eq_or_ne t (.ofClass d) with htd | htd
    · exact .inl htd
    · exact .inr (stage?_setStage_of_ne htd _ ▸ h)
  · exact .inr h

/-- What is unresolved behind a commit was so before. -/
theorem Fills.stage?_of {f : Registry → Registry} (hf : Fills f)
    (h : (f r).stage? (.ofClass d) = some .unresolved) :
    r.stage? (.ofClass d) = some .unresolved := by
  cases hf with
  | @ofClass c f hf =>
    have h : ((r.modifyClass c f).classAt? d).map (·.stage) = some .unresolved := h
    by_cases hdc : d = c
    · subst hdc
      rw [classAt?_modifyClass_self] at h
      obtain ⟨e, he, hs⟩ := Option.map_eq_some_iff.1 h
      obtain ⟨e, -, rfl⟩ := Option.map_eq_some_iff.1 he
      exact nomatch (hf e).symm.trans hs
    · rwa [classAt?_modifyClass_of_ne _ hdc] at h
  | ofMethod m f => exact h
  | ofField x f => exact h

end Registry

namespace Orderly

variable {k : Collaborator} {r r' : Registry} {es : List JournalEntry} {cs : List ClassId}
  {ss : List (List ClassId)} {t : Target}

/-- **A declaration that is unresolved may be attempted.** -/
theorem begin (h : Orderly k r es r' ss) (hs : r'.stage? t = some .unresolved) :
    Orderly k r (es ++ [.began t]) (r'.setStage .resolving t) ss where
  regular := by
    refine h.regular_snoc ?_
    cases t with
    | ofClass d => exact h.failed d hs
    | ofMethod m => trivial
    | ofField f => trivial
  failed d hd := by
    obtain ⟨hne, hd⟩ := Registry.stage?_of_mark hd
    exact (h.failed d hd).snoc fun he => hne (JournalEntry.began.inj he)
  each d := by
    have hcount := h.each d
    rw [List.count_append, List.count_append, List.count_singleton, List.count_singleton]
    by_cases htd : t = .ofClass d
    · -- the declaration was unresolved, and has failed as often as it was attempted
      subst htd
      rw [if_pos hs] at hcount
      simpa [Registry.stage?_setStage, hs] using hcount
    · rw [Registry.stage?_setStage_of_ne htd]
      simpa [htd] using hcount
  number := by
    have hcount := h.number
    have hmark := Registry.unresolvedCount_mark hs
    have hone : ([.began t] : List JournalEntry).countP isAttempt = t.weight := by cases t <;> rfl
    rw [List.countP_append, List.countP_append, hone, List.countP_singleton]
    simp only [isFailure, Bool.false_eq_true, if_false]
    omega
  sessions_eq := h.sessions_snoc

/-- What is committed leaves the books in order. -/
theorem fill (h : Orderly k r es r' ss) {f : Registry → Registry} (hf : Registry.Fills f) :
    Orderly k r es (f r') ss where
  regular := h.regular
  failed d hd := h.failed d (hf.stage?_of hd)
  each d := by
    have hcount := h.each d
    by_cases hd : (f r').stage? (.ofClass d) = some .unresolved
    · rw [if_pos hd]
      rwa [if_pos (hf.stage?_of hd)] at hcount
    · rw [if_neg hd]
      split at hcount <;> omega
  number := Nat.le_trans (Nat.add_le_add_left (hf.unresolvedCount_le r') _) h.number
  sessions_eq := h.sessions_eq

/-- **An attempt that fails** leaves the declaration to another one. -/
theorem fail (h : Orderly k r es r' (cs :: ss)) (e : ResolveError) (signature : Option String) :
    Orderly k r (es ++ [.ended t, .reported (e.diagnostic (r.targetName t) signature),
      .returned t false]) (r'.unmark t) ss := by
  have hreturned : Orderly k r (es ++ [.ended t,
      .reported (e.diagnostic (r.targetName t) signature), .returned t false]) r' ss := by
    have hended : Orderly k r (es ++ [.ended t]) r' (cs :: ss) := h.aside trivial
    simpa using (hended.aside (e := .reported (e.diagnostic (r.targetName t) signature))
      trivial).returned t false
  refine { hreturned with failed := fun d hd => ?_, each := fun d => ?_, number := ?_ }
  · rcases Registry.stage?_of_unmark hd with rfl | hd
    · exact Registry.failed_of_end r d es e signature
    · exact hreturned.failed d hd
  · have hcount := h.each d
    have hreturn := hreturned.each d
    by_cases hd : (r'.unmark t).stage? (.ofClass d) = some .unresolved
    · rw [if_pos hd]
      rcases Registry.stage?_of_unmark hd with rfl | hd
      · -- the failure is one more
        simp only [List.count_append, List.count_cons, List.count_nil, beq_iff_eq, reduceCtorEq,
          if_false, if_true]
        split at hcount <;> omega
      · rwa [if_pos hd] at hreturn
    · rw [if_neg hd]
      split at hreturn <;> omega
  · have hcount := h.number
    have hunmark : (r'.unmark t).unresolvedCount ≤ r'.unresolvedCount + t.weight :=
      Registry.unresolvedCount_unmark_le r' t
    have hweight : t.weight ≤ 1 := by cases t <;> simp [Target.weight]
    simp only [List.countP_append, List.countP_cons, List.countP_nil, isAttempt, isFailure,
      Bool.false_eq_true, Bool.not_false, if_false, if_true]
    omega

end Orderly

/-! ### A resolution keeps its books -/

namespace Workspace

/-- The books are in order that have been kept since the journal was `js` and the registry
`r`. -/
def Kept (k : Collaborator) (r : Registry) (js : List JournalEntry) (ss : List (List ClassId))
    (w : Workspace) : Prop :=
  ∃ es, w.journal.toList = js ++ es ∧ Orderly k r es w.registry ss

variable {k : Collaborator} {r : Registry} {js : List JournalEntry} {ss : List (List ClassId)}
  {w : Workspace}

theorem Kept.aside {e : JournalEntry} (h : Kept k r js ss w) (he : e.IsAside) :
    Kept k r js ss (record e w).2 := by
  obtain ⟨es, hes, h⟩ := h
  exact ⟨es ++ [e], by rw [toList_record, hes, List.append_assoc], h.aside he⟩

end Workspace

/-- The answers to requests that no resolution has made twice keep the books, and the names
of the registry `r`. -/
def Registry.KeepsBooks (r : Registry) (k : Collaborator) (js : List JournalEntry)
    (ask : ClassId → Work Bool) : Prop :=
  ∀ c cs ss w, r.SameNames w.registry → w.Kept k r js (cs :: ss) → c ∉ cs →
    r.SameNames (ask c w).2.registry ∧ (ask c w).2.Kept k r js ((c :: cs) :: ss)

/-- The books of a resolution inside those that have asked for `ss`. -/
def Progress.Kept (k : Collaborator) (r : Registry) (js : List JournalEntry)
    (ss : List (List ClassId)) (p : Progress) : Prop :=
  p.workspace.Kept k r js (p.requested :: ss)

namespace Resolution

variable {k : Collaborator} {r : Registry} {js : List JournalEntry} {ss : List (List ClassId)}
  {res : Resolution}

/-- The states of a resolution before it commits anything. -/
def Keeping (k : Collaborator) (r : Registry) (js : List JournalEntry) (ss : List (List ClassId))
    (p : Progress) : Prop :=
  r.SameNames p.workspace.registry ∧ p.Kept k r js ss

theorem keeping_record {e : JournalEntry} (he : e.IsAside) :
    Keeps (Keeping k r js ss) (work (Workspace.record e)) :=
  fun _ hp => ⟨hp.1, Workspace.Kept.aside hp.2 he⟩

theorem keeping_request (hask : r.KeepsBooks k js res.ask) (c : ClassId) :
    Keeps (Keeping k r js ss) (res.request c) := by
  intro p hp
  rw [request_apply]
  split
  · rename_i hc
    have hnew : c ∉ p.requested := by
      simp only [Bool.and_eq_true, Bool.not_eq_true', List.contains_eq_mem,
        decide_eq_false_iff_not] at hc
      exact hc.2
    -- the note of the request is an aside, and the answer puts the class on the list
    have hanswered : Keeping k r js ss (res.answered c p) :=
      hask c p.requested ss (asking c p).workspace hp.1 (Workspace.Kept.aside hp.2 trivial) hnew
    split
    · exact hanswered
    · exact keeping_record (e := .reported _) trivial _ hanswered
  · exact hp

theorem steady_keeping (hask : r.KeepsBooks k js res.ask) : res.Steady (Keeping k r js ss) where
  request := keeping_request hask
  warn w _ := keeping_record (e := .reported (w.diagnostic res.owner)) trivial
  noteCycle := keeps_noteCycle fun n => keeping_record (e := .noted n) trivial

/-- **A resolution keeps its books to its end.** -/
theorem kept_body (hask : r.KeepsBooks k js res.ask) (t : Target) (signature : Option String)
    {p : Progress} (hp : Keeping k r js ss p) :
    ((res.body t signature).outcome p).2.Kept k r js ss := by
  have habreast : res.Abreast res (Same (Keeping k r js ss)) (Same (Progress.Kept k r js ss)) := by
    refine (steady_keeping hask).abreast (fun _ h => h.2) fun f n p hf hp => ?_
    obtain ⟨-, es, hes, hp⟩ := hp
    exact Workspace.Kept.aside ⟨es, hes, hp.fill hf⟩ trivial
  exact (together_body habreast t signature p p ⟨rfl, hp⟩).2.2

end Resolution

namespace Workspace

variable {k : Collaborator} {r : Registry} {js : List JournalEntry} {ss : List (List ClassId)}
  {ask : ClassId → Work Bool} {t : Target} {w : Workspace}

/-- When a resolution begins, it has asked for nothing. -/
theorem keeping_beginning {es : List JournalEntry} (hnames : r.SameNames w.registry)
    (hes : w.journal.toList = js ++ es) (h : Orderly k r es w.registry ss)
    (ht : Regular k r es (.called t)) (hs : w.registry.stage? t = some .unresolved) :
    Resolution.Keeping k r js ss (beginning t w) := by
  refine ⟨hnames.trans (w.registry.sameNames_setStage .resolving t),
    es ++ [.called t, .began t], ?_, ?_⟩
  · rw [toList_beginning, hes, List.append_assoc]
  · have hbegan : Orderly k r (es ++ [.called t, .began t]) (w.registry.setStage .resolving t)
        ([] :: ss) := by
      simpa using (h.call ht).begin hs
    exact hbegan

/-- When a resolution ends, what it has asked for is forgotten. -/
theorem kept_returning {p : Progress} (h : p.Kept k r js ss) {owner : String}
    (howner : owner = r.targetName t) (signature : Option String) (v : Except ResolveError Unit) :
    (returning t owner signature (v, closing t (v, p))).Kept k r js ss := by
  obtain ⟨es, hes, h⟩ := h
  refine ⟨es ++ .ended t :: (r.verdict t signature v ++ [.returned t v.isOk]), ?_, ?_⟩
  · rw [toList_returning howner, toList_closing, hes]
    simp
  · rw [returning_registry]
    cases v with
    | error e => exact h.fail e signature
    | ok u =>
      have hended : Orderly k r (es ++ [.ended t]) p.workspace.registry (p.requested :: ss) :=
        h.aside trivial
      have hreturned :
          Orderly k r (es ++ [.ended t, .returned t true]) p.workspace.registry ss := by
        simpa using hended.returned t true
      exact hreturned

/-- **One call keeps the books**, from beginning to end. -/
theorem resolveAsking_kept (hask : r.KeepsBooks k js ask) (options : Options)
    (signature : Option String) (hnames : r.SameNames w.registry)
    (howner : w.registry.targetName t = r.targetName t)
    (h : ∃ es, w.journal.toList = js ++ es ∧ Orderly k r es w.registry ss ∧
      Regular k r es (.called t)) :
    (resolveAsking ask options t signature w).2.Kept k r js ss := by
  obtain ⟨es, hes, hbooks, ht⟩ := h
  unfold resolveAsking
  rcases hm : w.registry.mark t with e | marked
  · rw [resolveBy_of_mark_error _ _ _ _ hm]
    refine ⟨es ++ [.called t, .reported (e.diagnostic (r.targetName t) signature),
      .returned t false], ?_, ?_⟩
    · dsimp only
      rw [toList_returning howner]
      simp [Registry.verdict, Except.isOk, Except.toBool, hes]
    · rw [returning_registry]
      exact hbooks.refused ht e signature
  · rw [resolveBy_of_mark_ok _ _ _ _ hm]
    exact kept_returning (Resolution.kept_body hask t signature
      (keeping_beginning hnames hes hbooks ht (Registry.mark_eq_ok.1 hm).1)) howner signature _

end Workspace

/-! ### Calls inside calls -/

namespace Collaborator

/-- **A collaborator answers** a request offhand, or by the resolution of one class. -/
theorem answer_cases (k : Collaborator) (resolve : Options → ClassId → Option String → Work Bool)
    (c : ClassId) (w : Workspace) :
    let name := w.registry.className c
    let v := (record (.asked c name) w).2
    (∃ ok, (ok = true → k = .silent) ∧
      k.answer resolve c w = (ok, (record (.answered c ok) v).2)) ∨
    ∃ p d, k = .pool p ∧ w.registry.lookup (p.targetName name) = some d ∧
      k.answer resolve c w =
        let out := resolve p.options d (p.signatures.lookup (p.targetName name)) v
        (out.1, (record (.answered c out.1) out.2).2) := by
  intro name v
  cases k with
  | silent => exact .inl ⟨true, fun _ => rfl, rfl⟩
  | refusing => exact .inl ⟨false, nofun, rfl⟩
  | pool p =>
    have hanswer : (Collaborator.pool p).answer resolve c w =
        let out := p.answer (resolve p.options) name v
        (out.1, (record (.answered c out.1) out.2).2) := rfl
    rw [hanswer]
    unfold Pool.answer
    split
    · exact .inl ⟨false, nofun, rfl⟩
    · rw [bind_apply, getRegistry_apply]
      cases hd : v.registry.lookup (p.targetName name) with
      | none => exact .inl ⟨false, nofun, rfl⟩
      | some d => exact .inr ⟨p, d, rfl, hd, rfl⟩

variable {k : Collaborator} {r : Registry} {js : List JournalEntry}

/-- A collaborator keeps the books if what it resolves classes by does. -/
theorem keepsBooks_answer {resolve : Options → ClassId → Option String → Work Bool}
    (hresolve : ∀ options d signature ss v, r.SameNames v.registry →
      (∃ es, v.journal.toList = js ++ es ∧ Orderly k r es v.registry ss ∧
        Regular k r es (.called (.ofClass d))) →
      r.SameNames (resolve options d signature v).2.registry ∧
        (resolve options d signature v).2.Kept k r js ss) :
    r.KeepsBooks k js (k.answer resolve) := by
  rintro c cs ss w hnames ⟨es, hes, hbooks⟩ hc
  have hasked : Orderly k r (es ++ [.asked c (w.registry.className c)]) w.registry
      ((c :: cs) :: ss) := hbooks.ask hc _
  have hjournal : (record (.asked c (w.registry.className c)) w).2.journal.toList =
      js ++ (es ++ [.asked c (w.registry.className c)]) := by
    rw [toList_record, hes, List.append_assoc]
  rcases k.answer_cases resolve c w with ⟨ok, -, hanswer⟩ | ⟨p, d, hk, hd, hanswer⟩ <;>
    rw [hanswer]
  · exact ⟨hnames, Workspace.Kept.aside ⟨_, hjournal, hasked⟩ trivial⟩
  · -- the class that is looked up is the one that the names of `r` lead to
    rw [hnames.className_eq] at hd hasked hjournal
    rw [hnames.lookup_eq] at hd
    have hcalled : Regular k r (es ++ [.asked c (r.className c)]) (.called (.ofClass d)) :=
      .inr ⟨c, d, rfl, List.suffix_append _ _, p, hk, hd⟩
    rw [hnames.className_eq]
    obtain ⟨hnames', hkept⟩ := hresolve p.options d (p.signatures.lookup
      (p.targetName (r.className c))) ((c :: cs) :: ss) (record (.asked c (r.className c)) w).2
      hnames ⟨_, hjournal, hasked, hcalled⟩
    exact ⟨hnames', Workspace.Kept.aside hkept trivial⟩

theorem keepsBooks_askWithin (k : Collaborator) (depth : Nat) :
    r.KeepsBooks k js (k.askWithin depth) := by
  induction depth with
  | zero =>
    refine keepsBooks_answer fun _ _ _ _ _ hnames h => ⟨hnames, ?_⟩
    obtain ⟨es, hes, hbooks, -⟩ := h
    exact ⟨es, hes, hbooks⟩
  | succ depth ih =>
    refine keepsBooks_answer fun options d signature ss v hnames h => ?_
    have hkept := resolveAsking_kept (t := .ofClass d) ih options signature hnames
      (hnames.className_eq d) h
    rw [resolveAsking_ofClass] at hkept
    have hevolves : v.registry.Evolves (fun _ => True)
        (resolveClassAsking (k.askWithin depth) options d signature v).2.registry :=
      resolveClassAsking_evolves Registry.stable_trivial
        (k.askWithin_evolves Registry.stable_trivial (k.serves_trivial _) depth) fun _ => trivial
    exact ⟨hnames.trans hevolves.1.sameNames, hkept⟩

end Collaborator

/-! ### Calls from outside -/

/-- **The attempts in the course of a call**, where `es` are the entries that the call has
left in the journal, nested calls included, and the registry went from `r` to `r'`. -/
structure Attempts (k : Collaborator) (r r' : Registry) (es : List JournalEntry) : Prop where
  /-- Between two attempts at a class, the former fails and reports its error. -/
  again : ∀ before d between after,
    es = before ++ .began (.ofClass d) :: (between ++ .began (.ofClass d) :: after) →
    r.Fails d between
  /-- A class is attempted at most once more than calls for it fail. -/
  each : ∀ d, es.count (.began (.ofClass d)) ≤ es.count (.returned (.ofClass d) false) + 1
  /-- There are no more attempts at classes than classes were unresolved and calls fail; a
  class that is still unresolved has cost nothing. -/
  number : es.countP isAttempt + r'.unresolvedCount ≤ es.countP isFailure + r.unresolvedCount
  /-- As many errors are reported as calls fail. -/
  reports : es.countP isError = es.countP isFailure
  /-- No resolution asks for a class that it has asked for. -/
  requests : ∀ before c name after, es = before ++ .asked c name :: after →
    c ∉ (before.foldl sessions []).headD []
  /-- Every call but the first answers a request. -/
  calls : ∀ before t after, es = before ++ .called t :: after → before ≠ [] →
    ∃ c d, t = .ofClass d ∧ [.asked c (r.className c)] <:+ before ∧ k.ResolvesFor r c d

/-- **A class is attempted again only after it has failed**, whoever is asked, and however
deep calls nest. -/
theorem Workspace.resolve_attempts (k : Collaborator) (options : Options) (t : Target)
    (signature : Option String) (w : Workspace) :
    ∃ es, (resolve k options t signature w).2.journal.toList = w.journal.toList ++ es ∧
      Attempts k w.registry (resolve k options t signature w).2.registry es := by
  rw [resolve_apply]
  have hask : w.registry.KeepsBooks k w.journal.toList (k.ask w.registry) :=
    k.keepsBooks_askWithin _
  obtain ⟨es, hes, hbooks⟩ := resolveAsking_kept (t := t) hask options signature (fun _ => rfl) rfl
    ⟨[], (List.append_nil _).symm, .nil k w.registry, .inl rfl⟩
  obtain ⟨body, hbody, hjournal⟩ := resolveAsking_callEntries (t := t)
    (k.records_askWithin w.registry.unresolvedCount) options signature (fun _ => rfl) rfl
  refine ⟨es, hes, ?_⟩
  exact
    { again := fun before d between after hsplit => by
        have hfailed : w.registry.Failed d (before ++ .began (.ofClass d) :: between) :=
          hbooks.regular _ (.began (.ofClass d)) after (by rw [hsplit, List.append_assoc]; rfl)
        exact hfailed before _ between rfl rfl
      each := fun d => Nat.le_trans (hbooks.each d) (Nat.add_le_add_left (by split <;> simp) _)
      number := hbooks.number
      reports := by
        rw [List.append_cancel_left (hes.symm.trans hjournal)]
        exact hbody.balanced.callEntries.errors
      requests := fun before c name after hsplit => hbooks.regular before _ after hsplit
      calls := fun before t after hsplit hbefore =>
        (hbooks.regular before _ after hsplit).resolve_left hbefore }

/-- A class is attempted twice, and its failure reported twice: first it is asked for as
the superclass of the class that is called for, and then by an interface of that class. So
there are four attempts at three classes. -/
theorem Workspace.resolve_attempts_twice :
    let p : Pool := { options := {}, signatures := [("A", "LMissing;"), ("B", "LA;")] }
    let w : Workspace :=
      { registry := .ofHeaders [{ name := "X" }, { name := "A" }, { name := "B" }] }
    let es := (resolve (.pool p) {} (.ofClass ⟨0⟩) (some "LA;LB;") w).2.journal.toList
    es.count (.began (.ofClass ⟨1⟩)) = 2 ∧
      es.count (.reported ((ResolveError.unknownClass "Missing").diagnostic "A"
        (some "LMissing;"))) = 2 ∧
      es.countP isAttempt = 4 ∧ w.registry.classes.size = 3 := by
  decide +kernel

end JavaGenerics
