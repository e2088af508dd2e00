import JavaGenerics.Proofs.Requests

/-!
# Signatures that cannot be read

A call whose signature cannot be read fails, and says so in one report. What else it does
depends on when the text is read. Classes and methods read it before anything else, so that
nothing else happens. A field has the classes around it seen to first
(`JavaGenerics.Registry.approach`), and of these the unresolved ones are asked for, with all
that comes of it. So a text that cannot be read leaves no trace but its report exactly where
nobody is asked for on the way to it (`JavaGenerics.Workspace.resolve_unreadable`), and that is
always so but for fields of unresolved classes (`JavaGenerics.Workspace.resolve_field_unreadable`
has such a field).
-/

namespace JavaGenerics

open Attempt Workspace JournalEntry

/-! ### On the way to the text -/

namespace Registry

variable (r : Registry)

/-- What is come upon before the text of a signature is read. -/
def approach : Target → List Sighting
  | .ofField f => r.surroundings (.ofField f)
  | _ => []

theorem approach_setStage (s : Stage) (t : Target) :
    (r.setStage s t).approach t = r.approach t := by
  cases t with
  | ofField f => exact r.surroundings_setStage s (.ofField f)
  | ofClass c | ofMethod m => rfl

/-- No type arguments are come upon before a signature is read. -/
theorem mem_approach {t : Target} {s : Sighting} (hs : s ∈ r.approach t) :
    ∃ c, s = .outwards c ∨ s = .met c := by
  cases t with
  | ofClass c | ofMethod m => cases hs
  | ofField f =>
    simp only [approach, surroundings, inwards, outwards] at hs
    cases hf : r.fieldAt? f <;> rw [hf] at hs
    · cases hs
    · simp only [Option.map_some, Option.getD_some, List.mem_append, List.mem_cons, List.mem_map,
        List.not_mem_nil, or_false] at hs
      rcases hs with (rfl | ⟨c, -, rfl⟩) | rfl | rfl
      · exact ⟨_, .inl rfl⟩
      · exact ⟨_, .inr rfl⟩
      · exact ⟨_, .inr rfl⟩
      · exact ⟨_, .inl rfl⟩

/-- The mark of a call that is taken away again leaves nothing behind. -/
theorem unmark_setStage {t : Target} (hs : r.stage? t = some .unresolved) :
    (r.setStage .resolving t).unmark t = r := by
  have hmarked : (r.setStage .resolving t).stage? t = some .resolving := by
    rw [stage?_setStage, hs]
    rfl
  unfold unmark
  rw [if_pos hmarked]
  cases t with
  | ofClass c =>
    obtain ⟨e, he, hu⟩ := Option.map_eq_some_iff.1 hs
    have hundo : ((r.classes.modify c.index fun e => { e with stage := .resolving }).modify c.index
        fun e => { e with stage := .unresolved }) = r.classes := modify_undo he (by rw [← hu])
    exact congrArg (fun classes => { r with classes }) hundo
  | ofMethod m =>
    obtain ⟨e, he, hu⟩ := Option.map_eq_some_iff.1 hs
    have hundo : ((r.methods.modify m.index fun e => { e with stage := .resolving }).modify m.index
        fun e => { e with stage := .unresolved }) = r.methods := modify_undo he (by rw [← hu])
    exact congrArg (fun methods => { r with methods }) hundo
  | ofField f =>
    obtain ⟨e, he, hu⟩ := Option.map_eq_some_iff.1 hs
    have hundo : ((r.fields.modify f.index fun e => { e with stage := .resolving }).modify f.index
        fun e => { e with stage := .unresolved }) = r.fields := modify_undo he (by rw [← hu])
    exact congrArg (fun fields => { r with fields }) hundo

end Registry

/-- An answer begins with an entry for the question. -/
theorem Collaborator.asked_askWithin (k : Collaborator) (depth : Nat) (c : ClassId)
    (w : Workspace) :
    w.journal.toList ++ [.asked c (w.registry.className c)] <+:
      (k.askWithin depth c w).2.journal.toList := by
  have hasked : ∀ resolve : Options → ClassId → Option String → Work Bool,
      (∀ options d signature, w.registry.Replies (resolve options d signature)) →
      w.journal.toList ++ [.asked c (w.registry.className c)] <+:
        (k.answer resolve c w).2.journal.toList := by
    intro resolve hresolve
    rcases k.answer_cases resolve c w with ⟨ok, -, hanswer⟩ | ⟨p, d, -, -, hanswer⟩ <;> rw [hanswer]
    · simp only [toList_record]
      exact List.prefix_append _ _
    · obtain ⟨-, es, hes, -⟩ := hresolve p.options d _
        (record (.asked c (w.registry.className c)) w).2 fun _ => rfl
      dsimp only
      rw [toList_record, hes, toList_record, List.append_assoc (_ ++ [_])]
      exact List.prefix_append _ _
  cases depth with
  | zero => exact hasked _ fun _ _ _ => replies_offhand false
  | succ depth =>
    refine hasked _ fun options d signature =>
      replies_call (k.records_askWithin depth) (fun c => ?_)
      options d signature
    exact k.askWithin_evolves Registry.stable_trivial (k.serves_trivial _) depth c

namespace Resolution

variable {res : Resolution} {p q : Progress} {t : Target} {text : String} {e : SyntaxError}

/-- **A resolution that cannot read its signature** goes as far as the text, and fails. -/
theorem outcome_unreadable (h : t.parse text = .error e)
    (ht : (p.workspace.registry.stage? t).isSome) :
    (res.body t (some text)).outcome p =
      (.error (.malformed (.unreadable e)), res.after (p.workspace.registry.approach t) p) := by
  cases t with
  | ofClass c =>
    change (res.resolveClassText c text).outcome p = _
    unfold resolveClassText
    rw [show ClassSig.parse text = .error e from h]
    rfl
  | ofMethod m =>
    change (res.resolveMethodText m text).outcome p = _
    unfold resolveMethodText
    rw [show MethodSig.parse text = .error e from h]
    rfl
  | ofField f =>
    obtain ⟨entry, hf⟩ := Option.isSome_iff_exists.1 (Option.isSome_map.symm.trans ht)
    have hin : p.workspace.registry.approach (.ofField f) =
        p.workspace.registry.inwards entry.owner := by
      simp only [Registry.approach, Registry.surroundings, hf, Option.map_some, Option.getD_some]
    have htext : (res.resolveFieldText entry.owner entry.descriptor text).outcome p =
        (.error (.malformed (.unreadable e)), (res.scopeInside entry.owner p).2) := by
      unfold resolveFieldText
      rw [outcome_lift, show TypeSig.parse text = .error e from h]
      rfl
    change (res.resolveFieldEntry f (some text)).outcome p = _
    unfold resolveFieldEntry
    rw [outcome_getRegistry, hf]
    dsimp only
    rw [outcome_bind, htext, hin, state_scopeInside]

/-! ### Who is asked on the way -/

/-- The class at a sighting, if it has to be asked for. -/
def wanted? (res : Resolution) (r : Registry) (s : Sighting) : Option ClassId :=
  s.met?.filter fun c => res.options.resolveReferenced && r.isUnresolved c

/-- From `p` to `q`, nothing has been done but that notes were taken. -/
structure Noted (p q : Progress) : Prop where
  registry : q.workspace.registry = p.workspace.registry
  requested : q.requested = p.requested
  journal : ∃ ns : List Note, q.workspace.journal.toList =
    p.workspace.journal.toList ++ ns.map .noted

theorem Noted.refl (p : Progress) : Noted p p := ⟨rfl, rfl, [], (List.append_nil _).symm⟩

theorem Noted.trans {q' : Progress} (h : Noted p q) (h' : Noted q q') : Noted p q' := by
  obtain ⟨ns, hns⟩ := h.journal
  obtain ⟨ns', hns'⟩ := h'.journal
  refine ⟨h'.registry.trans h.registry, h'.requested.trans h.requested, ns ++ ns', ?_⟩
  rw [hns', hns, List.map_append, List.append_assoc]

/-- Where nobody is asked for, notes are taken at most. -/
theorem noted_see {s : Sighting} (hs : ∃ c, s = .outwards c ∨ s = .met c)
    (hwanted : res.wanted? p.workspace.registry s = none) : Noted p (res.see s p).2 := by
  obtain ⟨c, rfl | rfl⟩ := hs
  · refine keeps_noteCycle (I := Noted p) (fun n q hq => hq.trans ?_) c p (.refl p)
    exact ⟨rfl, rfl, [n], Array.toList_push⟩
  · have hidle :
        (res.options.resolveReferenced && p.workspace.registry.isUnresolved c) = false := by
      simpa [wanted?, Sighting.met?, Option.filter] using hwanted
    change Noted p (res.request c p).2
    rw [request_apply, hidle, Bool.false_and]
    exact .refl p

theorem noted_after {ss : List Sighting} (hss : ∀ s ∈ ss, ∃ c, s = .outwards c ∨ s = .met c)
    (hwanted : ∀ s ∈ ss, res.wanted? p.workspace.registry s = none) :
    Noted p (res.after ss p) := by
  induction ss generalizing p with
  | nil => exact .refl p
  | cons s ss ih =>
    have hfirst := noted_see (hss s List.mem_cons_self) (hwanted s List.mem_cons_self)
    refine hfirst.trans (ih (fun s hs => hss s (List.mem_cons_of_mem _ hs)) fun s hs => ?_)
    rw [hfirst.registry]
    exact hwanted s (List.mem_cons_of_mem _ hs)

/-- A request begins with a note and the question to the collaborator. -/
theorem asked_request {k : Collaborator} {depth : Nat} (hask : res.ask = k.askWithin depth)
    {c : ClassId} (hc : (res.options.resolveReferenced && p.workspace.registry.isUnresolved c &&
      !p.requested.contains c) = true) :
    ∃ n, p.workspace.journal.toList ++ [.noted n, .asked c (p.workspace.registry.className c)] <+:
      (res.request c p).2.workspace.journal.toList := by
  have hasked := k.asked_askWithin depth c (asking c p).workspace
  have hasking : (asking c p).workspace.journal.toList = p.workspace.journal.toList ++
      [.noted (.resolvingReferenced (p.workspace.registry.className c))] := Array.toList_push
  rw [hasking, List.append_assoc, ← hask] at hasked
  refine ⟨_, hasked.trans ?_⟩
  rw [request_apply, if_pos hc]
  split
  · exact List.prefix_refl _
  · change _ <+: (record _ (res.answered c p).workspace).2.journal.toList
    rw [toList_record]
    exact List.prefix_append _ _

/-- Whatever is done at sightings is entered behind what is in the journal. -/
theorem grows_after {k : Collaborator} {depth : Nat} (hask : res.ask = k.askWithin depth)
    {r : Registry} (howner : res.owner = r.targetName t)
    (hnames : r.SameNames p.workspace.registry) (ss : List Sighting) :
    p.workspace.journal.toList <+: (res.after ss p).workspace.journal.toList := by
  have hbegun : p.Recording r t p.workspace.journal.toList :=
    ⟨hnames, [], (List.append_nil _).symm, .nil⟩
  obtain ⟨-, es, hes, -⟩ := keeps_after
    (steady_recording (hask ▸ k.records_askWithin depth) howner).see ss hbegun
  rw [hes]
  exact List.prefix_append _ _

/-- **Who is asked for at several sightings**: nobody, if there is no class among them that has
to be asked for; otherwise the first such class comes first. -/
theorem asked_after {k : Collaborator} {depth : Nat} (hask : res.ask = k.askWithin depth)
    {r : Registry} (howner : res.owner = r.targetName t)
    (hnames : r.SameNames p.workspace.registry) (hp : p.requested = []) {ss : List Sighting}
    (hss : ∀ s ∈ ss, ∃ c, s = .outwards c ∨ s = .met c) {c : ClassId} {cs : List ClassId}
    (hwanted : ss.filterMap (res.wanted? p.workspace.registry) = c :: cs) :
    ∃ ns : List Note,
      p.workspace.journal.toList ++ (ns.map .noted ++ [.asked c (r.className c)]) <+:
      (res.after ss p).workspace.journal.toList := by
  obtain ⟨before, s, rest, rfl, hbefore, hs, -⟩ := List.filterMap_eq_cons_iff.1 hwanted
  have hidle := noted_after (fun s hs => hss s (List.mem_append_left _ hs)) hbefore
  obtain ⟨ns, hns⟩ := hidle.journal
  rw [← hidle.registry] at hs
  obtain rfl : s = .met c := by
    obtain ⟨d, rfl | rfl⟩ := hss s (List.mem_append_right _ List.mem_cons_self)
    · cases hs
    · simp only [wanted?, Sighting.met?, Option.filter_some, Option.ite_none_right_eq_some] at hs
      rw [Option.some.inj hs.2]
  have hneeded : (res.options.resolveReferenced &&
      (res.after before p).workspace.registry.isUnresolved c &&
        !(res.after before p).requested.contains c) = true := by
    rw [hidle.requested, hp]
    simpa [wanted?, Sighting.met?, Option.filter_some] using hs
  obtain ⟨n, hasked⟩ := asked_request hask hneeded
  rw [hidle.registry, hnames.className_eq, hns, List.append_assoc] at hasked
  refine ⟨ns ++ [n], ?_⟩
  rw [after_append, after_cons, List.map_append, List.append_assoc (ns.map _)]
  refine hasked.trans (grows_after hask howner ?_ rest)
  -- a request changes no names
  have hbegun : (res.after before p).Recording r t (res.after before p).workspace.journal.toList :=
    ⟨hidle.registry ▸ hnames, [], (List.append_nil _).symm, .nil⟩
  exact ((steady_recording (hask ▸ k.records_askWithin depth) howner).request c _ hbegun).1

/-- Notes do not show in a view that leaves them out. -/
theorem filterMap_notes {α : Type} {f : JournalEntry → Option α} (hf : ∀ n, f (.noted n) = none)
    (ns : List Note) : (ns.map JournalEntry.noted).filterMap f = [] := by
  rw [List.filterMap_map, List.filterMap_eq_nil_iff]
  exact fun n _ => hf n

/-- **What is done at several sightings** shows in entries `es`: if there is nobody to ask for
among them, these are notes, and the registry is as before; otherwise the first class to ask for
is the first that is asked for. -/
theorem entries_after {k : Collaborator} {depth : Nat} (hask : res.ask = k.askWithin depth)
    {r : Registry} (howner : res.owner = r.targetName t)
    (hnames : r.SameNames p.workspace.registry) (hp : p.requested = []) {ss : List Sighting}
    (hss : ∀ s ∈ ss, ∃ c, s = .outwards c ∨ s = .met c) :
    let wanted := ss.filterMap (res.wanted? p.workspace.registry)
    ∃ es, (res.after ss p).workspace.journal.toList = p.workspace.journal.toList ++ es ∧
      (es.filterMap asked?).head? = wanted.head?.map (fun c => (c, r.className c)) ∧
      (wanted = [] → (res.after ss p).workspace.registry = p.workspace.registry ∧
        es.filterMap diagnostic? = []) := by
  intro wanted
  cases hwanted : wanted with
  | nil =>
    obtain ⟨hregistry, -, ns, hns⟩ := noted_after hss (List.filterMap_eq_nil_iff.1 hwanted)
    refine ⟨ns.map .noted, hns, ?_, fun _ => ⟨hregistry, ?_⟩⟩
    · rw [filterMap_notes (fun _ => rfl)]
      rfl
    · rw [filterMap_notes (fun _ => rfl)]
  | cons c cs =>
    obtain ⟨ns, es, hes⟩ := asked_after hask howner hnames hp hss hwanted
    refine ⟨ns.map .noted ++ [.asked c (r.className c)] ++ es, ?_, ?_, nofun⟩
    · rw [← hes, List.append_assoc]
    · rw [List.filterMap_append, List.filterMap_append, filterMap_notes (fun _ => rfl)]
      rfl

end Resolution

/-! ### Calls -/

/-- The error of a call for `t` whose signature cannot be read, for the reason `e`. A call that
is refused does not come as far as that. -/
def Registry.unreadable (r : Registry) (t : Target) (e : SyntaxError) : ResolveError :=
  match r.mark t with
  | .error refusal => refusal
  | .ok _ => .malformed (.unreadable e)

namespace Workspace

/-- **The classes that a call for `t` asks for before it reads the signature**, as far as they
are unresolved: for a field, the classes around it, outermost first, and the one it belongs
to. -/
def earlyRequests (options : Options) (r : Registry) : Target → List ClassId
  | .ofField f =>
    if options.resolveReferenced ∧ r.stage? (.ofField f) = some .unresolved then
      (r.midst (.ofField f)).filter r.isUnresolved
    else []
  | _ => []

theorem earlyRequests_of_stage_ne {options : Options} {r : Registry} {t : Target}
    (h : r.stage? t ≠ some .unresolved) : earlyRequests options r t = [] := by
  cases t with
  | ofField f => exact if_neg fun hboth => h hboth.2
  | ofClass c | ofMethod m => rfl

/-- They are those that have to be asked for on the way to the text. -/
theorem wanted_approach {res : Resolution} {r : Registry} {t : Target}
    (h : r.stage? t = some .unresolved) :
    (r.approach t).filterMap (res.wanted? (r.setStage .resolving t)) =
      earlyRequests res.options r t := by
  cases t with
  | ofClass c | ofMethod m => rfl
  | ofField f =>
    -- the mark is on a field, so no class looks different behind it
    have hmark : (r.setStage .resolving (.ofField f)).isUnresolved = r.isUnresolved := by
      funext c
      rw [Registry.isUnresolved_mark, bne_iff_ne.2 (by simp), Bool.and_true]
    unfold Resolution.wanted?
    rw [hmark, Registry.approach, ← List.filter_filterMap, Registry.met_surroundings,
      earlyRequests]
    cases res.options.resolveReferenced <;> simp [h]

/-- What a call does whose signature cannot be read, from beginning to end. -/
theorem entries_unreadable (k : Collaborator) (options : Options) {t : Target} {text : String}
    {e : SyntaxError} (h : t.parse text = .error e) (w : Workspace) :
    let out := resolve k options t (some text) w
    let error := w.registry.unreadable t e
    let early := earlyRequests options w.registry t
    out.1 = .error error ∧ ∃ mid, out.2.journal.toList = w.journal.toList ++
        (.called t :: (mid ++ [.reported (error.diagnostic (w.registry.targetName t) (some text)),
          .returned t false])) ∧
      (mid.filterMap asked?).head? = early.head?.map (fun c => (c, w.registry.className c)) ∧
      (early = [] → out.2.registry = w.registry ∧ mid.filterMap diagnostic? = []) := by
  intro out error early
  have hout : out = resolveAsking (k.ask w.registry) options t (some text) w := resolve_apply ..
  unfold resolveAsking at hout
  rcases hm : w.registry.mark t with refusal | marked
  · have hrefused : error = refusal := by simp only [error, Registry.unreadable, hm]
    have hearly : early = [] := earlyRequests_of_stage_ne fun hstage => by
      rw [Registry.mark, hstage] at hm
      cases hm
    rw [resolveBy_of_mark_error _ _ _ _ hm] at hout
    rw [hout, hearly, hrefused]
    refine ⟨rfl, [], ?_, rfl, fun _ => ⟨returning_registry .., rfl⟩⟩
    rw [toList_returning rfl]
    simp [Registry.verdict, Except.isOk, Except.toBool]
  · obtain ⟨hstage, rfl⟩ := Registry.mark_eq_ok.1 hm
    have hunread : error = .malformed (.unreadable e) := by
      simp only [error, Registry.unreadable, hm]
    let res : Resolution := k.resolution options w.registry t
    let p := beginning t w
    have hmarked : p.workspace.registry = w.registry.setStage .resolving t := rfl
    have hbody : (res.body t (some text)).outcome p =
        (.error (.malformed (.unreadable e)), res.after (w.registry.approach t) p) := by
      rw [← w.registry.approach_setStage .resolving t]
      refine Resolution.outcome_unreadable h ?_
      rw [hmarked, Registry.stage?_setStage, hstage]
      rfl
    -- what is done on the way to the text
    have hentries := Resolution.entries_after (p := p) (show res.ask = k.askWithin _ from rfl)
      (show res.owner = w.registry.targetName t from rfl)
      (w.registry.sameNames_setStage .resolving t) rfl
      fun s => w.registry.mem_approach (t := t)
    rw [hmarked, wanted_approach hstage] at hentries
    obtain ⟨es, hes, hasked, hidle⟩ := hentries
    rw [resolveBy_of_mark_ok _ _ _ _ hm] at hout
    dsimp only at hout
    rw [show (Resolution.mk options (w.registry.targetName t) (k.ask w.registry)).body t (some text)
      = res.body t (some text) from rfl, hbody] at hout
    rw [hout, hunread]
    refine ⟨rfl, .began t :: (es ++ [.ended t]), ?_, ?_, fun hearly => ⟨?_, ?_⟩⟩
    · rw [toList_returning rfl, toList_closing, hes, toList_beginning]
      simp [Registry.verdict, Except.isOk, Except.toBool]
    · rw [List.filterMap_cons_none rfl, List.filterMap_append]
      exact (congrArg List.head? (List.append_nil _)).trans hasked
    · rw [returning_registry]
      change (res.after _ p).workspace.registry.unmark t = w.registry
      rw [(hidle hearly).1, w.registry.unmark_setStage hstage]
    · rw [List.filterMap_cons_none rfl, List.filterMap_append, (hidle hearly).2]
      rfl

/-- **A text that is no signature has its call fail**, with one report of that call at the end,
and leaves the declaration as it was. The first class that is asked for is the first of
`JavaGenerics.Workspace.earlyRequests`; where there are none, and so for every class and every
method, nobody is asked for, that report is the only one, and the registry is as before. -/
theorem resolve_unreadable (k : Collaborator) (options : Options) {t : Target} {text : String}
    {e : SyntaxError} (h : t.parse text = .error e) (w : Workspace) :
    let out := resolve k options t (some text) w
    let error := w.registry.unreadable t e
    let report := error.diagnostic (w.registry.targetName t) (some text)
    let early := earlyRequests options w.registry t
    out.1 = .error error ∧ out.2.registry.declaration? t = w.registry.declaration? t ∧
      ∃ es, out.2.journal.toList = w.journal.toList ++ es ∧
        (es.filterMap asked?).head? = early.head?.map (fun c => (c, w.registry.className c)) ∧
        (es.filterMap diagnostic?).getLast? = some report ∧
        (early = [] → out.2.registry = w.registry ∧ es.filterMap asked? = [] ∧
          es.filterMap diagnostic? = [report]) := by
  intro out error report early
  obtain ⟨hresult, mid, hmid, hasked, hidle⟩ := entries_unreadable k options h w
  have hrequests :
      (JournalEntry.called t :: (mid ++ [.reported report, .returned t false])).filterMap
      asked? = mid.filterMap asked? := by
    rw [List.filterMap_cons_none rfl, List.filterMap_append]
    exact List.append_nil _
  have hreports :
      (JournalEntry.called t :: (mid ++ [.reported report, .returned t false])).filterMap
      diagnostic? = mid.filterMap diagnostic? ++ [report] := by
    rw [List.filterMap_cons_none rfl, List.filterMap_append]
    rfl
  refine ⟨hresult, ?_, _, hmid, ?_, ?_, fun hearly => ⟨(hidle hearly).1, ?_, ?_⟩⟩
  · have hcourse := resolve_course_trivial k options t (some text) w
    rw [hresult] at hcourse
    exact hcourse.declaration?_eq
  · rw [hrequests, hasked]
  · rw [hreports, List.getLast?_concat]
  · rw [hrequests, ← List.head?_eq_none_iff, hasked,
      show earlyRequests options w.registry t = [] from hearly]
    rfl
  · rw [hreports, (hidle hearly).2]
    rfl

/-- A text without a result, for a method of an unresolved class that a pool would resolve. -/
theorem resolve_method_unreadable :
    let w : Workspace :=
      { registry := ((Registry.ofHeaders [{ name := "A" }]).addMethod ⟨0⟩ "m" ⟨[], none⟩ [] []).2 }
    let e : SyntaxError := ⟨.signature, "()", 2, .noReference⟩
    let out := resolve (.pool { options := {} }) {} (.ofMethod ⟨0⟩) (some "()") w
    (Target.ofMethod ⟨0⟩).parse "()" = .error e ∧ out.1 = .error (.malformed (.unreadable e)) ∧
      out.2.registry = w.registry ∧ ∃ es, out.2.journal.toList = w.journal.toList ++ es ∧
        es.filterMap asked? = [] ∧ es.filterMap diagnostic? =
          [(ResolveError.malformed (.unreadable e)).diagnostic "A.m" (some "()")] := by
  intro w e out
  have hparse : (Target.ofMethod ⟨0⟩).parse "()" = .error e := by
    have hevents : (MethodSig.parse "()").map MethodSig.events = .error e := by decide +kernel
    change MethodSig.parse "()" = .error e
    rcases hread : MethodSig.parse "()" with e' | sig <;> rw [hread] at hevents
    · exact congrArg Except.error (Except.error.inj hevents)
    · cases hevents
  have hname : w.registry.targetName (.ofMethod ⟨0⟩) = "A.m" := by decide +kernel
  have hstage : w.registry.stage? (.ofMethod ⟨0⟩) = some .unresolved := by decide +kernel
  -- what follows is the same for every error
  clear_value e
  have herror : w.registry.unreadable (.ofMethod ⟨0⟩) e = .malformed (.unreadable e) := by
    rw [Registry.unreadable, Registry.mark_eq_ok.2 ⟨hstage, rfl⟩]
  obtain ⟨hresult, -, es, hes, -, -, hquiet⟩ :=
    resolve_unreadable (.pool { options := {} }) {} hparse w
  obtain ⟨hregistry, hasked, hreports⟩ := hquiet rfl
  rw [herror] at hresult
  rw [hname, herror] at hreports
  exact ⟨hparse, hresult, hregistry, es, hes, hasked, hreports⟩

/-- A field of an unresolved class: the class is resolved all the same. -/
theorem resolve_field_unreadable :
    let w : Workspace :=
      { registry := ((Registry.ofHeaders [{ name := "A" }]).addField ⟨0⟩ "f" (.base .int)).2 }
    let out := resolve (.pool { options := {} }) {} (.ofField ⟨0⟩) (some "?") w
    ((Target.ofField ⟨0⟩).parse "?").isOk = false ∧ out.1.isOk = false ∧
      out.2.journal.toList.filterMap request? = ["A"] ∧
      w.registry.stage? (.ofClass ⟨0⟩) = some .unresolved ∧
      out.2.registry.stage? (.ofClass ⟨0⟩) = some .resolved := by
  decide +kernel

end Workspace

end JavaGenerics
