import JavaGenerics.Proofs.Frame
import JavaGenerics.Proofs.Termination

/-!
# Every failure is reported once

Calls are made inside calls: a resolution asks for a class, and the collaborator answers
by a call of its own. All of them report to one journal, so that what a failing call says
stands amid what others say. `JavaGenerics.Workspace.resolve_accounted` says that the
books are nevertheless in order (`JavaGenerics.Accounted`):

* as many errors are reported as calls fail, and as many classes are reported unresolved
  as requests are declined;
* a call that fails reports its error, and only this one, right before it returns; a call
  that succeeds reports none;
* any other error is that of a call inside, and as soon as that call has returned, the
  resolution that asked for it says which class it could not get.

Which call an entry belongs to is told by what is under way when it is made
(`JavaGenerics.JournalEntry.underway`). The proof has two halves. What a resolution leaves
in the journal follows a grammar (`JavaGenerics.Passage`), which is shown along the
resolution; and whatever follows the grammar is in order, by induction on the grammar.
-/

namespace JavaGenerics

open Attempt Workspace

/-! ### What is under way -/

/-- Something that begins and ends in the journal. -/
inductive Affair where
  /-- The call for a declaration. -/
  | call (t : Target)
  /-- The request for a class. -/
  | request (c : ClassId)
deriving DecidableEq, Repr

namespace JournalEntry

/-- What is under way behind an entry, innermost first. -/
def follow (as : List Affair) : JournalEntry → List Affair
  | called t => .call t :: as
  | asked c _ => .request c :: as
  | returned _ _ => as.tail
  | answered _ _ => as.tail
  | _ => as

/-- What is under way behind some entries. -/
def underway (as : List Affair) (es : List JournalEntry) : List Affair := es.foldl follow as

@[simp] theorem underway_nil (as : List Affair) : underway as [] = as := rfl

@[simp] theorem underway_cons (as : List Affair) (e : JournalEntry) (es : List JournalEntry) :
    underway as (e :: es) = underway (follow as e) es := rfl

@[simp] theorem underway_append (as : List Affair) (es es' : List JournalEntry) :
    underway as (es ++ es') = underway (underway as es) es' := List.foldl_append

/-- The report of an error. -/
def isError : JournalEntry → Bool
  | reported d => d.severity == .error
  | _ => false

/-- The return of a call that failed. -/
def isFailure : JournalEntry → Bool
  | returned _ ok => !ok
  | _ => false

/-- The report that a class could not be resolved. -/
def isObjection : JournalEntry → Bool
  | reported d => d.code == "unresolved-class"
  | _ => false

/-- An answer that declines. -/
def isRefusal : JournalEntry → Bool
  | answered _ ok => !ok
  | _ => false

/-- An entry that has nothing to do with calls, requests and reports. -/
def IsIncidental : JournalEntry → Prop
  | began _ => True
  | ended _ => True
  | noted _ => True
  | _ => False

end JournalEntry

open JournalEntry

/-! ### The grammar of the journal -/

namespace Registry

variable (r : Registry)

/-- What the resolution of `s` reports when the class `c` that it asked for could be
resolved, or could not. -/
def objection (s : Target) (c : ClassId) (ok : Bool) : List JournalEntry :=
  if ok then []
  else [.reported ((Warning.unresolvedClass (r.className c)).diagnostic (r.targetName s))]

/-- What a call for `t` reports when it has its result. -/
def verdict (t : Target) (signature : Option String) :
    Except ResolveError Unit → List JournalEntry
  | .error e => [.reported (e.diagnostic (r.targetName t) signature)]
  | .ok _ => []

/-- A call for `t` from beginning to end, with `body` in its midst. -/
def callEntries (t : Target) (signature : Option String) (result : Except ResolveError Unit)
    (body : List JournalEntry) : List JournalEntry :=
  .called t :: (body ++ (r.verdict t signature result ++ [.returned t result.isOk]))

end Registry

/-- **What the resolution of `s` leaves in the journal**: notes and remarks, and requests,
each with what is done to answer it and with the objection if it is declined. -/
inductive Passage (r : Registry) : Target → List JournalEntry → Prop
  | nil {s : Target} : Passage r s []
  | append {s : Target} {es es' : List JournalEntry} (first : Passage r s es)
      (second : Passage r s es') : Passage r s (es ++ es')
  | incidental {s : Target} {e : JournalEntry} (he : e.IsIncidental) : Passage r s [e]
  | remark {s : Target} {w : Warning} (hw : w.IsRemark) :
      Passage r s [.reported (w.diagnostic (r.targetName s))]
  /-- A request that is answered offhand. -/
  | answer {s : Target} (c : ClassId) (ok : Bool) :
      Passage r s (.asked c (r.className c) :: .answered c ok :: r.objection s c ok)
  /-- A request that is answered by a call. -/
  | call {s t : Target} {body : List JournalEntry} (c : ClassId) (signature : Option String)
      (result : Except ResolveError Unit) (inside : Passage r t body) :
      Passage r s (.asked c (r.className c) :: (r.callEntries t signature result body ++
        .answered c result.isOk :: r.objection s c result.isOk))

/-! ### A resolution keeps to the grammar -/

/-- The answers to requests keep to the grammar, and keep the names of the registry `r`. -/
def Registry.Records (r : Registry) (ask : ClassId → Work Bool) : Prop :=
  ∀ c w, r.SameNames w.registry → r.SameNames (ask c w).2.registry ∧
    ∃ es, (ask c w).2.journal.toList = w.journal.toList ++ es ∧
      ∀ s, Passage r s (es ++ r.objection s c (ask c w).1)

/-- Behind the entries `js`, the resolution of `s` has kept to the grammar. -/
def Progress.Recorded (r : Registry) (s : Target) (js : List JournalEntry) (p : Progress) : Prop :=
  ∃ es, p.workspace.journal.toList = js ++ es ∧ Passage r s es

/-- The states of such a resolution before it commits anything. -/
def Progress.Recording (r : Registry) (s : Target) (js : List JournalEntry) (p : Progress) : Prop :=
  r.SameNames p.workspace.registry ∧ p.Recorded r s js

section Recording

variable {r : Registry} {s : Target} {js : List JournalEntry} {res : Resolution}

theorem Progress.Recorded.more {p q : Progress} {es : List JournalEntry} (h : p.Recorded r s js)
    (hq : q.workspace.journal.toList = p.workspace.journal.toList ++ es)
    (hes : Passage r s es) : q.Recorded r s js := by
  obtain ⟨before, hp, hbefore⟩ := h
  exact ⟨before ++ es, by rw [hq, hp, List.append_assoc], hbefore.append hes⟩

namespace Resolution

theorem recording_record {e : JournalEntry} (he : Passage r s [e]) :
    Keeps (Progress.Recording r s js) (work (Workspace.record e)) :=
  fun _ hp => ⟨hp.1, hp.2.more Array.toList_push he⟩

theorem recording_request (hask : r.Records res.ask) (howner : res.owner = r.targetName s)
    (c : ClassId) : Keeps (Progress.Recording r s js) (res.request c) := by
  intro p hp
  rw [request_apply]
  split
  · have hasking : (asking c p).Recording r s js :=
      ⟨hp.1, hp.2.more Array.toList_push (.incidental (e := .noted _) trivial)⟩
    obtain ⟨hnames, es, hes, hpassage⟩ := hask c (asking c p).workspace hasking.1
    have hpassage := hpassage s
    cases hanswer : (res.ask c (asking c p).workspace).1 with
    | true =>
      rw [hanswer, Registry.objection, if_pos rfl, List.append_nil] at hpassage
      exact ⟨hnames, hasking.2.more hes hpassage⟩
    | false =>
      -- the objection names the class as the registry did at the beginning
      have hname : p.workspace.registry.className c = r.className c := hp.1.className_eq c
      rw [hanswer] at hpassage
      refine ⟨hnames, hasking.2.more ?_ hpassage⟩
      rw [← List.append_assoc, Registry.objection, if_neg nofun, ← howner, ← hname, ← hes]
      exact Array.toList_push
  · exact hp

/-- Requests, remarks and notes of circles keep to the grammar. -/
theorem steady_recording (hask : r.Records res.ask) (howner : res.owner = r.targetName s) :
    res.Steady (Progress.Recording r s js) where
  request := recording_request hask howner
  warn _ hw := recording_record (howner ▸ .remark hw)
  noteCycle := keeps_noteCycle fun _ => recording_record (.incidental trivial)

/-- **A resolution keeps to the grammar to its end.** -/
theorem recorded_body (hask : r.Records res.ask) (howner : res.owner = r.targetName s)
    (t : Target) (signature : Option String) {p : Progress} (hp : p.Recording r s js) :
    ((res.body t signature).outcome p).2.Recorded r s js := by
  have habreast : res.Abreast res (Same (Progress.Recording r s js))
      (Same (Progress.Recorded r s js)) :=
    (steady_recording hask howner).abreast (fun _ h => h.2) fun _ n _ _ hp =>
      hp.2.more Array.toList_push (.incidental (e := .noted n) trivial)
  exact (together_body habreast t signature p p ⟨rfl, hp⟩).2.2

end Resolution

end Recording

/-! ### Calls keep to the grammar -/

namespace Workspace

variable {r : Registry} {ask : ClassId → Work Bool} {options : Options} {t : Target}
  {signature : Option String} {w : Workspace}

@[simp] theorem toList_record (e : JournalEntry) (w : Workspace) :
    (record e w).2.journal.toList = w.journal.toList ++ [e] := Array.toList_push

/-- An entry does not show where entries of its kind are left out. -/
theorem filter_record {shows : JournalEntry → Bool} {e : JournalEntry} (he : shows e = false)
    (w : Workspace) :
    (record e w).2.journal.toList.filter shows = w.journal.toList.filter shows := by
  rw [toList_record, List.filter_append, List.filter_cons_of_neg (by simp [he]), List.filter_nil,
    List.append_nil]

theorem toList_closing (out : Except ResolveError Unit) (p : Progress) :
    (closing t (out, p)).journal.toList = p.workspace.journal.toList ++ [.ended t] := by
  cases out <;> exact Array.toList_push

theorem toList_returning {owner : String} (howner : owner = r.targetName t)
    (out : Except ResolveError Unit × Workspace) :
    (returning t owner signature out).journal.toList = out.2.journal.toList ++
      (r.verdict t signature out.1 ++ [.returned t out.1.isOk]) := by
  subst howner
  rcases out with ⟨e | _, v⟩ <;> simp [returning, Registry.verdict]

/-- **One call**, from beginning to end. -/
theorem resolveAsking_callEntries (hask : r.Records ask) (options : Options)
    (signature : Option String) (hnames : r.SameNames w.registry)
    (howner : w.registry.targetName t = r.targetName t) :
    ∃ body, Passage r t body ∧
      (resolveAsking ask options t signature w).2.journal.toList = w.journal.toList ++
        r.callEntries t signature (resolveAsking ask options t signature w).1 body := by
  unfold resolveAsking
  rcases hm : w.registry.mark t with e | marked
  · refine ⟨[], .nil, ?_⟩
    rw [resolveBy_of_mark_error _ _ _ _ hm]
    dsimp only
    rw [toList_returning howner]
    simp [Registry.callEntries]
  · let res : Resolution := ⟨options, w.registry.targetName t, ask⟩
    have hmarked : r.SameNames (beginning t w).workspace.registry :=
      hnames.trans (w.registry.sameNames_setStage .resolving t)
    have hopened : (beginning t w).workspace.journal.toList =
        w.journal.toList ++ [.called t] ++ [.began t] := by
      rw [toList_beginning]
      simp
    have hstart : (beginning t w).Recording r t (w.journal.toList ++ [.called t]) :=
      ⟨hmarked, [.began t], hopened, .incidental (e := .began t) trivial⟩
    obtain ⟨es, hes, hpassage⟩ : (((res.body t signature).outcome (beginning t w)).2).Recorded r t
        (w.journal.toList ++ [.called t]) :=
      Resolution.recorded_body hask howner t signature hstart
    refine ⟨es ++ [.ended t], hpassage.append (.incidental (e := .ended t) trivial), ?_⟩
    rw [resolveBy_of_mark_ok _ _ _ _ hm]
    dsimp only
    rw [toList_returning howner, toList_closing, hes]
    simp [Registry.callEntries]

end Workspace

/-- A way to seek an answer that keeps to the grammar, whatever class was asked for. -/
def Registry.Replies (r : Registry) (x : Work Bool) : Prop :=
  ∀ w, r.SameNames w.registry → r.SameNames (x w).2.registry ∧
    ∃ es, (x w).2.journal.toList = w.journal.toList ++ es ∧ ∀ s c, Passage r s
      (.asked c (r.className c) :: (es ++ .answered c (x w).1 :: r.objection s c (x w).1))

namespace Collaborator

variable {r : Registry}

theorem replies_offhand (ok : Bool) : r.Replies (pure ok) :=
  fun _ hw => ⟨hw, [], (List.append_nil _).symm, fun _ c => .answer c ok⟩

theorem replies_call {ask : ClassId → Work Bool} (hask : r.Records ask)
    (hevolves : ∀ c, Work.Evolves (fun _ => True) (ask c)) (options : Options) (d : ClassId)
    (signature : Option String) : r.Replies do
      return (← resolveClassAsking ask options d signature).isOk := by
  intro w hw
  obtain ⟨body, hbody, hjournal⟩ := resolveAsking_callEntries (t := .ofClass d) hask options
    signature hw (hw.className_eq d)
  rw [resolveAsking_ofClass] at hjournal
  have hkept : w.registry.SameNames (resolveClassAsking ask options d signature w).2.registry :=
    (resolveClassAsking_evolves Registry.stable_trivial hevolves fun _ => trivial).1.sameNames
  exact ⟨hw.trans hkept, _, hjournal, fun s c => .call c signature _ hbody⟩

/-- Collaborators keep to the grammar as what they resolve classes by does. -/
theorem records_answer (k : Collaborator)
    {resolve : Options → ClassId → Option String → Work Bool}
    (hresolve : ∀ options d signature, r.Replies (resolve options d signature)) :
    r.Records (k.answer resolve) := by
  intro c w hw
  have hreplies : ∀ x : Work Bool, r.Replies x →
      let out := x (record (.asked c (w.registry.className c)) w).2
      r.SameNames out.2.registry ∧
        ∃ es, (record (.answered c out.1) out.2).2.journal.toList = w.journal.toList ++ es ∧
          ∀ s, Passage r s (es ++ r.objection s c out.1) := by
    intro x hx out
    obtain ⟨hnames, es, hes, hpassage⟩ := hx (record (.asked c (w.registry.className c)) w).2 hw
    refine ⟨hnames, .asked c (r.className c) :: (es ++ [.answered c out.1]), ?_, fun s => ?_⟩
    · rw [toList_record, hes, toList_record, hw.className_eq]
      simp
    · simpa using hpassage s c
  cases k with
  | silent => exact hreplies (pure true) (replies_offhand true)
  | refusing => exact hreplies (pure false) (replies_offhand false)
  | pool p =>
    refine hreplies (p.answer (resolve p.options) (w.registry.className c)) ?_
    unfold Pool.answer
    split
    · exact replies_offhand false
    · intro v hv
      rw [bind_apply, getRegistry_apply]
      cases v.registry.lookup (p.targetName (w.registry.className c)) with
      | none => exact replies_offhand false v hv
      | some d => exact hresolve p.options d _ v hv

theorem records_askWithin (k : Collaborator) (depth : Nat) : r.Records (k.askWithin depth) := by
  induction depth with
  | zero => exact records_answer k fun _ _ _ => replies_offhand false
  | succ depth ih =>
    refine records_answer k fun options d signature => replies_call ih (fun c => ?_) options d _
    exact k.askWithin_evolves Registry.stable_trivial (k.serves_trivial _) depth c

end Collaborator

/-! ### Entries and those around them -/

namespace JournalEntry

/-- `P` holds of every entry among `es`, given the entries before it and those after it. -/
def Throughout (P : List JournalEntry → JournalEntry → List JournalEntry → Prop)
    (es : List JournalEntry) : Prop :=
  ∀ before e after, es = before ++ e :: after → P before e after

variable {P Q : List JournalEntry → JournalEntry → List JournalEntry → Prop} {e : JournalEntry}
  {es es' : List JournalEntry}

theorem throughout_nil : Throughout P [] := by
  intro before e after h
  simp at h

theorem Throughout.mono (h : Throughout P es)
    (hPQ : ∀ before e after, P before e after → Q before e after) : Throughout Q es :=
  fun before e after hes => hPQ _ _ _ (h before e after hes)

theorem Throughout.cons (h : P [] e es) (h' : Throughout (fun before => P (e :: before)) es) :
    Throughout P (e :: es) := by
  intro before e' after hes
  cases before with
  | nil =>
    obtain ⟨rfl, rfl⟩ := List.cons.inj hes
    exact h
  | cons b before =>
    obtain ⟨rfl, htail⟩ := List.cons.inj hes
    exact h' before e' after htail

theorem Throughout.append (h : Throughout (fun before e after => P before e (after ++ es')) es)
    (h' : Throughout (fun before => P (es ++ before)) es') :
    Throughout P (es ++ es') := by
  intro before e after hes
  rcases List.append_eq_append_iff.1 hes with ⟨as, rfl, has⟩ | ⟨as, rfl, has⟩
  · exact h' as e after has
  · cases as with
    | nil => simpa using h' [] e after has.symm
    | cons a as =>
      obtain ⟨rfl, rfl⟩ := List.cons.inj has
      exact h before _ as rfl

end JournalEntry

/-! ### What the grammar entails -/

section Entailed

variable {r : Registry} {s t : Target} {as : List Affair} {signature : Option String}
  {result : Except ResolveError Unit} {e : JournalEntry} {es before after body : List JournalEntry}

theorem underway_callEntries (hbody : underway (.call t :: as) body = .call t :: as) :
    underway as (r.callEntries t signature result body) = as := by
  unfold Registry.callEntries
  rw [underway_cons, underway_append, follow, hbody]
  cases result <;> rfl

/-- Everything that begins in a passage is over at its end. -/
theorem Passage.underway_eq (h : Passage r s es) (as : List Affair) : underway as es = as := by
  induction h generalizing as with
  | nil => rfl
  | append _ _ ih ih' => rw [underway_append, ih, ih']
  | @incidental s e he => cases e <;> first | rfl | exact he.elim
  | remark => rfl
  | answer c ok => cases ok <;> rfl
  | @call s t body c signature result _ ih =>
    rw [underway_cons, underway_append, follow, underway_callEntries (ih _)]
    cases result <;> rfl

/-- The code for unresolved classes is not used for errors. -/
theorem ResolveError.code_ne_unresolved (e : ResolveError) : e.code ≠ "unresolved-class" := by
  cases e <;> simp [ResolveError.code]

theorem Warning.IsRemark.code_ne_unresolved {w : Warning} (h : w.IsRemark) :
    w.code ≠ "unresolved-class" := by
  cases w with
  | unresolvedClass name => exact absurd rfl (h name)
  | typeArgumentArity => simp [Warning.code]
  | argumentNames => simp [Warning.code]

/-- **Entries that balance**: as many errors are reported as calls fail, and as many
classes are reported unresolved as requests are declined. -/
structure Balanced (es : List JournalEntry) : Prop where
  errors : es.countP isError = es.countP isFailure
  objections : es.countP isObjection = es.countP isRefusal

theorem Balanced.append {es' : List JournalEntry} (h : Balanced es) (h' : Balanced es') :
    Balanced (es ++ es') where
  errors := by rw [List.countP_append, List.countP_append, h.errors, h'.errors]
  objections := by rw [List.countP_append, List.countP_append, h.objections, h'.objections]

theorem Balanced.callEntries (h : Balanced body) :
    Balanced (r.callEntries t signature result body) := by
  have hcalled : Balanced [.called t] := ⟨rfl, rfl⟩
  refine hcalled.append (h.append ?_)
  cases result with
  | ok _ => exact ⟨rfl, rfl⟩
  | error e =>
    have hcode : isObjection (.reported (e.diagnostic (r.targetName t) signature)) = false :=
      beq_eq_false_iff_ne.2 e.code_ne_unresolved
    refine ⟨rfl, ?_⟩
    change ([_] ++ [_]).countP _ = ([_] ++ [_]).countP _
    rw [List.countP_append, List.countP_append, List.countP_singleton, hcode]
    rfl

theorem balanced_answer (s : Target) (c : ClassId) (ok : Bool) :
    Balanced (.answered c ok :: r.objection s c ok) := by
  cases ok <;> exact ⟨rfl, rfl⟩

/-- In a passage, everything balances. -/
theorem Passage.balanced (h : Passage r s es) : Balanced es := by
  have hasked : ∀ c name, Balanced [.asked c name] := fun _ _ => ⟨rfl, rfl⟩
  induction h with
  | nil => exact ⟨rfl, rfl⟩
  | append _ _ ih ih' => exact ih.append ih'
  | @incidental s e he => cases e <;> first | exact ⟨rfl, rfl⟩ | exact he.elim
  | @remark s w hw =>
    have hcode : isObjection (.reported (w.diagnostic (r.targetName s))) = false :=
      beq_eq_false_iff_ne.2 hw.code_ne_unresolved
    exact ⟨rfl, by simp [hcode, isRefusal]⟩
  | answer c ok => exact (hasked _ _).append (balanced_answer _ c ok)
  | call c _ _ _ ih => exact (hasked _ _).append (ih.callEntries.append (balanced_answer _ c _))

/-- An error that is reported when `as` is under way is that of a call inside a call: it
returns with it, and the objection of the call around it follows at once. -/
def Registry.ReportsNested (r : Registry) (as : List Affair) (d : Diagnostic)
    (after : List JournalEntry) : Prop :=
  ∃ t c s as', as = .call t :: .request c :: .call s :: as' ∧
    (∃ e signature, d = ResolveError.diagnostic e (r.targetName t) signature) ∧
    .returned t false :: .answered c false :: r.objection s c false <+: after

/-- **What is due where an entry is made**, `as` being under way at the beginning: an error
is that of a call inside, and no class is reported unresolved but behind an answer that
declines; a call that failed has just reported why; and a request that is declined meets
with the objection. -/
def Due (r : Registry) (as : List Affair) (before : List JournalEntry) :
    JournalEntry → List JournalEntry → Prop
  | .reported d, after =>
    (d.severity = .error → r.ReportsNested (underway as before) d after) ∧
      (d.code = "unresolved-class" → ∃ c, [.answered c false] <:+ before)
  | .returned t false, _ => ∃ e signature,
      [.reported (ResolveError.diagnostic e (r.targetName t) signature)] <:+ before
  | .answered c ok, after => ∃ s as', underway as before = .request c :: .call s :: as' ∧
      r.objection s c ok <+: after
  | _, _ => True

/-- What is due does not depend on what comes later. -/
theorem Due.append (h : Due r as before e after) (later : List JournalEntry) :
    Due r as before e (after ++ later) := by
  have hlater : after <+: after ++ later := List.prefix_append _ _
  cases e with
  | reported d =>
    refine ⟨fun hd => ?_, h.2⟩
    obtain ⟨t, c, s, as', hunder, hcause, hafter⟩ := h.1 hd
    exact ⟨t, c, s, as', hunder, hcause, hafter.trans hlater⟩
  | answered c ok =>
    obtain ⟨s, as', hunder, hafter⟩ := h
    exact ⟨s, as', hunder, hafter.trans hlater⟩
  | returned t ok => cases ok <;> exact h
  | _ => trivial

/-- What is due does not depend on what was earlier, apart from what is still under way. -/
theorem Due.behind (earlier : List JournalEntry) (h : Due r (underway as earlier) before e after) :
    Due r as (earlier ++ before) e after := by
  have hearlier : before <:+ earlier ++ before := List.suffix_append _ _
  cases e with
  | reported d =>
    refine ⟨fun hd => ?_, fun hd => ?_⟩
    · rw [underway_append]
      exact h.1 hd
    · obtain ⟨c, hc⟩ := h.2 hd
      exact ⟨c, hc.trans hearlier⟩
  | answered c ok =>
    obtain ⟨s, as', hunder, hafter⟩ := h
    exact ⟨s, as', by rw [underway_append, hunder], hafter⟩
  | returned t ok =>
    cases ok with
    | true => trivial
    | false =>
      obtain ⟨e, signature, he⟩ := h
      exact ⟨e, signature, he.trans hearlier⟩
  | _ => trivial

/-- The parts of a call, one after the other. -/
theorem callEntries_append :
    r.callEntries t signature result body ++ after = .called t ::
      (body ++ (r.verdict t signature result ++ .returned t result.isOk :: after)) := by
  simp [Registry.callEntries]

/-- What is due in a call follows from what is due in its midst, as long as the call may
report its own error. -/
theorem throughout_callEntries
    {P : List JournalEntry → JournalEntry → List JournalEntry → Prop}
    (hP : ∀ before e after, Due r as before e after → P before e after)
    (hbody : Throughout (Due r (.call t :: as)) body)
    (hunder : underway (.call t :: as) body = .call t :: as)
    (hreport : ∀ e before, result = .error e → underway as before = .call t :: as →
      P before (.reported (e.diagnostic (r.targetName t) signature)) (.returned t false :: after))
    (hafter : Throughout (fun before => P (r.callEntries t signature result body ++ before))
      after) :
    Throughout P (r.callEntries t signature result body ++ after) := by
  rw [callEntries_append]
  have hcalled : underway as (.called t :: body) = .call t :: as := hunder
  refine .cons (hP _ _ _ trivial) (.append (hbody.mono fun before _ _ h => hP _ _ _ ?_) ?_)
  · exact (Due.behind [.called t] h).append _
  · cases result with
    | ok _ =>
      refine .cons (hP _ _ _ trivial) (hafter.mono fun before _ _ h => ?_)
      simpa [Registry.callEntries, Registry.verdict] using h
    | error e =>
      refine .cons ?_ (.cons (hP _ _ _ ⟨e, signature, ?_⟩) (hafter.mono fun before _ _ h => ?_))
      · rw [List.append_nil]
        exact hreport e (.called t :: body) rfl hcalled
      · simp
      · simpa [Registry.callEntries, Registry.verdict] using h

/-- What is due in an answer to the request of a resolution. -/
theorem throughout_answer (before : List JournalEntry) {c : ClassId} {as' : List Affair}
    (hunder : underway as before = .request c :: .call s :: as') (ok : Bool) :
    Throughout (fun between => Due r as (before ++ between))
      (.answered c ok :: r.objection s c ok) := by
  have hanswered : Due r as before (.answered c ok) (r.objection s c ok) :=
    ⟨s, as', hunder, List.prefix_refl _⟩
  refine .cons (by simpa using hanswered) ?_
  cases ok with
  | true => exact throughout_nil
  | false => exact .cons ⟨nofun, fun _ => ⟨c, by simp⟩⟩ throughout_nil

/-- **Whatever follows the grammar is in order.** -/
theorem Passage.throughout (h : Passage r s es) (as : List Affair) :
    Throughout (Due r (.call s :: as)) es := by
  induction h generalizing as with
  | nil => exact throughout_nil
  | append hfirst _ ih ih' =>
    refine ((ih as).mono fun _ _ _ hdue => hdue.append _).append
      ((ih' as).mono fun _ _ _ hdue => ?_)
    exact Due.behind _ ((hfirst.underway_eq _).symm ▸ hdue)
  | @incidental s e he =>
    refine .cons ?_ throughout_nil
    cases e <;> trivial
  | remark hw =>
    exact .cons ⟨nofun, fun h => absurd h hw.code_ne_unresolved⟩ throughout_nil
  | answer c ok =>
    exact .cons trivial (throughout_answer [.asked c _] rfl ok)
  | @call s t body c signature result inside ih =>
    let earlier : List Affair := .request c :: .call s :: as
    have hunder : underway (.call t :: earlier) body = .call t :: earlier := inside.underway_eq _
    have hcall : Throughout (Due r earlier) (r.callEntries t signature result body ++
        .answered c result.isOk :: r.objection s c result.isOk) := by
      refine throughout_callEntries (fun _ _ _ => id) (ih earlier) hunder ?_ ?_
      · -- the error of the call inside
        rintro e before rfl hbefore
        refine ⟨fun _ => ⟨t, c, s, as, hbefore, ⟨e, signature, rfl⟩, List.prefix_refl _⟩, ?_⟩
        exact fun h => absurd h e.code_ne_unresolved
      · exact throughout_answer _ (underway_callEntries hunder) _
    exact .cons trivial (hcall.mono fun _ _ _ hdue => Due.behind [.asked c _] hdue)

end Entailed

/-! ### Calls from outside -/

/-- **The books of a call** for `t` are in order, where `es` are the entries that the call
has left in the journal, nested calls included. -/
structure Accounted (r : Registry) (t : Target) (signature : Option String)
    (result : Except ResolveError Unit) (es : List JournalEntry) : Prop where
  /-- As many errors are reported as calls fail. -/
  errors : es.countP isError = es.countP isFailure
  /-- As many classes are reported unresolved as requests are declined. -/
  objections : es.countP isObjection = es.countP isRefusal
  /-- A call that fails reports its error right before it returns. -/
  failure : ∀ e, result = .error e → ∃ before, underway [] before = [.call t] ∧
    es = before ++ [.reported (e.diagnostic (r.targetName t) signature), .returned t false]
  /-- The call reports no other error of its own. -/
  own : ∀ before d after, es = before ++ .reported d :: after → d.severity = .error →
    underway [] before = [.call t] → ∃ e, result = .error e ∧
      d = e.diagnostic (r.targetName t) signature ∧ after = [.returned t false]
  /-- Any other error is that of a call inside, and the objection follows at once. -/
  nested : ∀ before d after, es = before ++ .reported d :: after → d.severity = .error →
    underway [] before ≠ [.call t] → r.ReportsNested (underway [] before) d after
  /-- Every call that fails has reported an error right before. -/
  failures : ∀ before u after, es = before ++ .returned u false :: after → ∃ e signature,
    [.reported (ResolveError.diagnostic e (r.targetName u) signature)] <:+ before
  /-- A request that is declined meets with the objection of the resolution that made it. -/
  answers : ∀ before c ok after, es = before ++ .answered c ok :: after → ∃ s as,
    underway [] before = .request c :: .call s :: as ∧ r.objection s c ok <+: after
  /-- No class is reported unresolved but behind an answer that declines. -/
  declined : ∀ before d after, es = before ++ .reported d :: after →
    d.code = "unresolved-class" → ∃ c, [.answered c false] <:+ before

/-- The report of the error of a call for `t` itself. -/
def Registry.ReportsOwn (r : Registry) (t : Target) (signature : Option String)
    (result : Except ResolveError Unit) (before : List JournalEntry) (e : JournalEntry)
    (after : List JournalEntry) : Prop :=
  ∃ err, result = .error err ∧ e = .reported (err.diagnostic (r.targetName t) signature) ∧
    underway [] before = [.call t] ∧ after = [.returned t false]

/-- What is due in a call from outside, its own error excepted. -/
theorem Passage.due_or_own {r : Registry} {t : Target} {body : List JournalEntry}
    (h : Passage r t body) (signature : Option String) (result : Except ResolveError Unit) :
    Throughout (fun before e after => Due r [] before e after ∨
      r.ReportsOwn t signature result before e after)
      (r.callEntries t signature result body) := by
  rw [← List.append_nil (r.callEntries t signature result body)]
  refine throughout_callEntries (fun _ _ _ => .inl) (h.throughout []) (h.underway_eq _) ?_
    throughout_nil
  exact fun e before he hbefore => .inr ⟨e, he, rfl, hbefore, rfl⟩

/-- A call from outside that keeps to the grammar keeps its books in order. -/
theorem Passage.accounted {r : Registry} {t : Target} {body : List JournalEntry}
    (h : Passage r t body) (signature : Option String) (result : Except ResolveError Unit) :
    Accounted r t signature result (r.callEntries t signature result body) where
  errors := h.balanced.callEntries.errors
  objections := h.balanced.callEntries.objections
  failure := by
    rintro e rfl
    exact ⟨.called t :: body, h.underway_eq _, rfl⟩
  own before d after hes hd hunder := by
    rcases h.due_or_own signature result before _ after hes with hdue | ⟨e, he, hown, -, hafter⟩
    · obtain ⟨u, c, s, as, has, -⟩ := hdue.1 hd
      cases hunder.symm.trans has
    · exact ⟨e, he, JournalEntry.reported.inj hown, hafter⟩
  nested before d after hes hd hunder := by
    rcases h.due_or_own signature result before _ after hes with hdue | ⟨_, -, -, hown, -⟩
    · exact hdue.1 hd
    · exact absurd hown hunder
  failures before u after hes := by
    rcases h.due_or_own signature result before _ after hes with hdue | ⟨_, -, hown, -⟩
    · exact hdue
    · cases hown
  answers before c ok after hes := by
    rcases h.due_or_own signature result before _ after hes with hdue | ⟨_, -, hown, -⟩
    · exact hdue
    · cases hown
  declined before d after hes hd := by
    rcases h.due_or_own signature result before _ after hes with hdue | ⟨e, -, hown, -⟩
    · exact hdue.2 hd
    · cases JournalEntry.reported.inj hown
      exact absurd hd e.code_ne_unresolved

/-- **The books of every call are in order**, whoever is asked, and however deep calls
nest. -/
theorem Workspace.resolve_accounted (k : Collaborator) (options : Options) (t : Target)
    (signature : Option String) (w : Workspace) :
    ∃ es, (resolve k options t signature w).2.journal.toList = w.journal.toList ++ es ∧
      Accounted w.registry t signature (resolve k options t signature w).1 es := by
  rw [resolve_apply]
  have hask : w.registry.Records (k.ask w.registry) := k.records_askWithin _
  obtain ⟨body, hbody, hjournal⟩ := resolveAsking_callEntries (t := t) hask options signature
    (fun _ => rfl) rfl
  exact ⟨_, hjournal, hbody.accounted signature _⟩

end JavaGenerics
