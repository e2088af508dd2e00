import JavaGenerics.Proofs.Conclusion

/-!
# Which classes are asked for

With a collaborator that does nothing, the requests of a call that succeeds can be told in
advance (`JavaGenerics.Workspace.resolve_requests`): they are the unresolved classes among
those that the call comes upon, each once, in the order of the first occurrence. Such a
collaborator leaves the registry as it is, so that the list of sightings determines what has
been asked for; and the journal of requests goes along with the list of classes that a
resolution has asked for (`JavaGenerics.Progress.Requesting`).

Whoever is asked, no resolution asks for a class twice, and it asks only for classes that are
unresolved at that moment: nothing changes if all other requests are handed to somebody else
(`JavaGenerics.Collaborator.askUnresolved`).
-/

namespace JavaGenerics

open Attempt Workspace JournalEntry

/-- The first occurrences in a list, collected from the left. -/
theorem reverse_foldl_eraseDups {α : Type} [BEq α] [LawfulBEq α] (as : List α) :
    (as.foldl (fun seen a => if !seen.contains a then a :: seen else seen) []).reverse =
      as.eraseDups := by
  have hloop : ∀ seen : List α,
      (as.foldl (fun seen a => if !seen.contains a then a :: seen else seen) seen).reverse =
        List.eraseDupsBy.loop (· == ·) as seen := by
    induction as with
    | nil => exact fun _ => rfl
    | cons a as ih =>
      intro seen
      rw [List.foldl_cons, ih, List.eraseDupsBy.loop, List.contains_eq_any_beq]
      cases seen.any (a == ·) <;> rfl
  exact hloop []

/-! ### Collaborators that do nothing -/

/-- A collaborator that does nothing, and whether it is content with that. -/
inductive Collaborator.Idle : Collaborator → Bool → Prop where
  | silent : Idle .silent true
  | refusing : Idle .refusing false

/-- An idle collaborator leaves no more than its answer. -/
theorem Collaborator.Idle.askWithin_eq {k : Collaborator} {content : Bool} (hk : k.Idle content)
    (depth : Nat) (c : ClassId) (w : Workspace) :
    k.askWithin depth c w = (content,
      (record (.answered c content) (record (.asked c (w.registry.className c)) w).2).2) := by
  cases hk <;> cases depth <;> rfl

/-- The class that a collaborator was asked for, with its name, if an entry is such a
request. -/
def JournalEntry.asked? : JournalEntry → Option (ClassId × String)
  | asked c name => some (c, name)
  | _ => none

/-! ### What a signature refers to -/

/-- The name that a mention completes, if it does. -/
def Mention.name? : Mention → Option String
  | named name => some name
  | applied _ _ => none

/-- The class that is met at a sighting, if any. -/
def Sighting.met? : Sighting → Option ClassId
  | met c => some c
  | _ => none

/-- The classes that are met are those whose names are mentioned. -/
theorem Mention.met_sightings (class? : String → Option ClassId) (ms : List Mention) :
    (sightings class? ms).filterMap Sighting.met? = (ms.filterMap name?).filterMap class? := by
  have hmet : ∀ m : Mention, (m.sighting? class?).bind Sighting.met? = m.name?.bind class? := by
    rintro (name | ⟨name, n⟩)
    · change ((class? name).map Sighting.met).bind Sighting.met? = class? name
      cases class? name <;> rfl
    · change ((class? name).map (Sighting.applied · n)).bind Sighting.met? = none
      cases class? name <;> rfl
  rw [sightings, List.filterMap_filterMap, List.filterMap_filterMap]
  exact congrArg (List.filterMap · ms) (funext hmet)

namespace Registry

variable (r : Registry)

/-- The classes in whose midst the signature of a declaration is read: those around it,
outermost first, and the one that a member belongs to. -/
def midst : Target → List ClassId
  | .ofClass c => r.enclosingChain c
  | .ofMethod m => ((r.methodAt? m).map fun e => r.enclosingChain e.owner ++ [e.owner]).getD []
  | .ofField f => ((r.fieldAt? f).map fun e => r.enclosingChain e.owner ++ [e.owner]).getD []

/-- **The classes that the resolution of a declaration refers to**, in the order in which it
does: those around it and those that its signature names, or those that its erased record
names. -/
def references (t : Target) : Option t.Signature → List ClassId
  | some sig => r.midst t ++
      ((sig.types.flatMap TypeSig.mentions).filterMap Mention.name?).filterMap r.lookup
  | none => ((r.erasedMentions t).filterMap Mention.name?).filterMap r.lookup

theorem met_surroundings (t : Target) :
    (r.surroundings t).filterMap Sighting.met? = r.midst t := by
  have hmet : ∀ cs : List ClassId, (cs.map Sighting.met).filterMap Sighting.met? = cs := by
    intro cs
    rw [List.filterMap_map]
    exact List.filterMap_some
  have hinwards : ∀ c, (r.inwards c).filterMap Sighting.met? = r.enclosingChain c ++ [c] := by
    intro c
    simp only [inwards, outwards, List.filterMap_append, List.filterMap_cons, Sighting.met?, hmet,
      List.filterMap_nil]
  cases t with
  | ofClass c =>
    simp only [surroundings, outwards, List.filterMap_append, List.filterMap_cons, Sighting.met?,
      hmet, List.filterMap_nil, List.append_nil]
    rfl
  | ofMethod m =>
    simp only [surroundings, midst]
    cases r.methodAt? m with
    | none => rfl
    | some e => exact hinwards e.owner
  | ofField f =>
    simp only [surroundings, midst]
    cases r.fieldAt? f with
    | none => rfl
    | some e => exact hinwards e.owner

/-- What a resolution meets is what it refers to. -/
theorem met_sightings (t : Target) (sig : Option t.Signature) :
    (r.sightings t sig).filterMap Sighting.met? = r.references t sig := by
  cases sig with
  | none => exact Mention.met_sightings r.lookup _
  | some sig =>
    rw [sightings, List.filterMap_append, met_surroundings, Mention.met_sightings, references]

/-- Behind the mark, all classes are unresolved that were so, but for the one that is
marked. -/
theorem isUnresolved_mark (t : Target) (c : ClassId) :
    (r.setStage .resolving t).isUnresolved c = (r.isUnresolved c && t != .ofClass c) := by
  cases t with
  | ofClass d =>
    unfold isUnresolved setStage
    rcases eq_or_ne c d with rfl | hcd
    · rw [classAt?_modifyClass_self]
      cases r.classAt? c <;> simp
    · rw [classAt?_modifyClass_of_ne _ hcd]
      simp [hcd.symm]
  | ofMethod m => simp [isUnresolved, classAt?, setStage, modifyMethod]
  | ofField f => simp [isUnresolved, classAt?, setStage, modifyField]

end Registry

/-! ### What has been asked for -/

/-- The states of a resolution of `t` that began with the registry `r` and the journal `js`,
where only idle collaborators are asked: the requests in the journal are those that the
resolution has made, and each of them has met with the objection, if any. -/
structure Progress.Requesting (r : Registry) (t : Target) (content : Bool)
    (js : List JournalEntry) (p : Progress) : Prop where
  registry : p.workspace.registry = r.setStage .resolving t
  journal : ∃ es, p.workspace.journal.toList = js ++ es ∧
    es.filterMap asked? = p.requested.reverse.map (fun c => (c, r.className c)) ∧
    es.filter isObjection = p.requested.reverse.flatMap fun c => r.objection t c content

namespace Resolution

variable {res : Resolution} {r : Registry} {t : Target} {content : Bool} {js : List JournalEntry}
  {p : Progress}

/-- An entry that is neither a request nor an objection may be made at any time. -/
theorem requesting_record {e : JournalEntry} (hasked : e.asked? = none)
    (hobjection : e.isObjection = false) :
    Keeps (Progress.Requesting r t content js) (work (Workspace.record e)) := by
  rintro p ⟨hregistry, es, hes, hrequests, hobjections⟩
  refine ⟨hregistry, es ++ [e], ?_, ?_, ?_⟩
  · rw [← List.append_assoc, ← hes]
    exact toList_record e _
  · rw [List.filterMap_append, hrequests, List.filterMap_cons_none hasked]
    exact List.append_nil _
  · rw [List.filter_append, hobjections, List.filter_cons_of_neg (by simp [hobjection])]
    exact List.append_nil _

/-- **A request that an idle collaborator answers** leaves the registry as it is, and in the
journal the request, its answer and the objection. -/
theorem request_idle {k : Collaborator} (hk : k.Idle content) {depth : Nat}
    (hask : res.ask = k.askWithin depth) (howner : res.owner = r.targetName t) {c : ClassId}
    {p : Progress} (hregistry : p.workspace.registry = r.setStage .resolving t)
    (hc : (res.options.resolveReferenced && p.workspace.registry.isUnresolved c &&
      !p.requested.contains c) = true) :
    let q := (res.request c p).2
    q.workspace.registry = p.workspace.registry ∧ q.requested = c :: p.requested ∧
      q.workspace.journal.toList = p.workspace.journal.toList ++
        .noted (.resolvingReferenced (r.className c)) :: .asked c (r.className c) ::
          .answered c content :: r.objection t c content := by
  have hname : p.workspace.registry.className c = r.className c :=
    hregistry ▸ (r.sameNames_setStage .resolving t).className_eq c
  have hanswer := hk.askWithin_eq depth c (asking c p).workspace
  rw [← hask, show (asking c p).workspace.registry.className c = r.className c from hname]
    at hanswer
  have hanswered : (res.answered c p).workspace.registry = p.workspace.registry ∧
      (res.answered c p).workspace.journal.toList = p.workspace.journal.toList ++
        [.noted (.resolvingReferenced (r.className c)), .asked c (r.className c),
          .answered c content] := by
    unfold Resolution.answered
    rw [hanswer]
    refine ⟨rfl, ?_⟩
    simp only [toList_record, asking, List.append_assoc, hname]
    rfl
  intro q
  have hq : q = if content then res.answered c p
      else (res.warn (.unresolvedClass (r.className c)) (res.answered c p)).2 := by
    rw [show q = (res.request c p).2 from rfl, request_apply, if_pos hc, hanswer, hname]
  rw [hq]
  cases content with
  | true => exact ⟨hanswered.1, rfl, hanswered.2⟩
  | false =>
    refine ⟨hanswered.1, rfl, ?_⟩
    change (record _ (res.answered c p).workspace).2.journal.toList = _
    rw [toList_record, hanswered.2, howner, List.append_assoc]
    rfl

theorem requesting_request {k : Collaborator} (hk : k.Idle content) {depth : Nat}
    (hask : res.ask = k.askWithin depth) (howner : res.owner = r.targetName t) (c : ClassId) :
    Keeps (Progress.Requesting r t content js) (res.request c) := by
  rintro p ⟨hregistry, es, hes, hrequests, hobjections⟩
  by_cases hc : (res.options.resolveReferenced && p.workspace.registry.isUnresolved c &&
      !p.requested.contains c) = true
  · obtain ⟨hkept, hrequested, hjournal⟩ := request_idle hk hask howner hregistry hc
    refine ⟨hkept.trans hregistry, _, by rw [hjournal, hes, List.append_assoc], ?_, ?_⟩
    · rw [List.filterMap_append, hrequests, hrequested, List.reverse_cons, List.map_append]
      cases content <;> rfl
    · rw [List.filter_append, hobjections, hrequested, List.reverse_cons, List.flatMap_append]
      cases content <;> rfl
  · rw [request_apply, if_neg hc]
    exact ⟨hregistry, es, hes, hrequests, hobjections⟩

/-- Requests, remarks and notes of circles keep the books of an idle collaborator. -/
theorem steady_requesting {k : Collaborator} (hk : k.Idle content) {depth : Nat}
    (hask : res.ask = k.askWithin depth) (howner : res.owner = r.targetName t) :
    res.Steady (Progress.Requesting r t content js) where
  request := requesting_request hk hask howner
  warn _ hw := requesting_record rfl (beq_eq_false_iff_ne.2 hw.code_ne_unresolved)
  noteCycle := keeps_noteCycle fun _ => requesting_record rfl rfl

/-- What one sighting adds to the classes that have been asked for. -/
theorem requested_see (hr : p.workspace.registry = r.setStage .resolving t) (s : Sighting) :
    (res.see s p).2.requested = s.met?.elim p.requested fun c =>
      if (res.options.resolveReferenced && (r.setStage .resolving t).isUnresolved c) &&
        !p.requested.contains c then c :: p.requested else p.requested := by
  cases s with
  | outwards c => rfl
  | met c =>
    change (res.request c p).2.requested = _
    rw [request_apply, hr]
    dsimp only [Sighting.met?, Option.elim]
    split
    · split <;> rfl
    · rfl
  | applied c n =>
    change (res.warnArity c n p).2.requested = _
    rw [warnArity_apply]
    split
    · cases p.workspace.registry.arityWarning? c n <;> rfl
    · rfl

/-- What finishes a resolution asks for nothing, and objects to nothing. -/
theorem Finishes.quiet {q : Progress} (h : res.Finishes p q) :
    ∃ es, q.workspace.journal.toList = p.workspace.journal.toList ++ es ∧
      es.filterMap asked? = [] ∧ es.filter isObjection = [] := by
  obtain ⟨es, hes, hquiet⟩ := h.journal
  refine ⟨es, hes, List.filterMap_eq_nil_iff.2 fun e he => ?_,
    List.filter_eq_nil_iff.2 fun e he => ?_⟩
  · rcases hquiet e he with ⟨n, rfl⟩ | ⟨supplied, declared, rfl⟩ <;> rfl
  · rcases hquiet e he with ⟨n, rfl⟩ | ⟨supplied, declared, rfl⟩
    · exact Bool.false_ne_true
    · have hremark : (Warning.argumentNames supplied declared res.owner).IsRemark := fun _ => nofun
      simpa [isObjection, Warning.diagnostic] using hremark.code_ne_unresolved

/-- **What has been asked for behind some sightings**: the unresolved ones among the classes
that were met, collected as they came. -/
theorem requested_after (hsteady : res.Steady (Progress.Requesting r t content js))
    (ss : List Sighting) (hp : p.Requesting r t content js) :
    (res.after ss p).requested = ((ss.filterMap Sighting.met?).filter fun c =>
      res.options.resolveReferenced && (r.setStage .resolving t).isUnresolved c).foldl
        (fun seen c => if !seen.contains c then c :: seen else seen) p.requested := by
  rw [List.foldl_filter]
  induction ss generalizing p with
  | nil => rfl
  | cons s ss ih =>
    rw [after_cons, ih (hsteady.see s p hp), requested_see hp.registry]
    cases hs : s.met? with
    | none => rw [List.filterMap_cons_none hs, Option.elim]
    | some c =>
      rw [List.filterMap_cons_some hs, List.foldl_cons, Option.elim]
      congr 1
      -- the two conditions of a request are looked at one after the other
      cases (res.options.resolveReferenced && (r.setStage .resolving t).isUnresolved c) <;> simp

end Resolution

namespace Workspace

variable {k : Collaborator} {content : Bool} {options : Options} {t : Target}
  {signature : Option String} {w : Workspace}

/-- **What a call asks for that succeeds**, where `sig` is what its signature reads: the
unresolved classes among those that it refers to, each once. -/
def requests (options : Options) (r : Registry) (t : Target) (sig : Option t.Signature) :
    List ClassId :=
  if options.resolveReferenced then
    ((r.references t sig).filter fun c => r.isUnresolved c && t != .ofClass c).eraseDups
  else []

/-- When a resolution begins, it has asked for nothing. -/
theorem requesting_beginning (w : Workspace) (t : Target) (content : Bool) :
    (beginning t w).Requesting w.registry t content
      (w.journal.toList ++ [.called t, .began t]) :=
  ⟨rfl, [], by rw [toList_beginning, List.append_nil], rfl, rfl⟩

/-- A call that succeeds asks an idle collaborator for all there is to ask for, and nothing
more. -/
theorem resolve_requests_idle (hk : k.Idle content)
    (h : (resolve k options t signature w).1 = .ok ()) :
    ∃ sig es, signature.mapM t.parse = .ok sig ∧
      (resolve k options t signature w).2.journal.toList = w.journal.toList ++ es ∧
      es.filterMap asked? =
        (requests options w.registry t sig).map (fun c => (c, w.registry.className c)) ∧
      es.filter isObjection =
        (requests options w.registry t sig).flatMap (w.registry.objection t · content) := by
  obtain ⟨sig, q, hparse, -, hfinishes, hjournal⟩ := resolve_seen h
  let res := k.resolution options w.registry t
  have hsteady : res.Steady (Progress.Requesting w.registry t content
      (w.journal.toList ++ [.called t, .began t])) :=
    Resolution.steady_requesting hk rfl rfl
  have hbegan := requesting_beginning w t content
  -- the requests are those that the sightings give rise to
  have hrequested := Resolution.requested_after hsteady (w.registry.sightings t sig) hbegan
  obtain ⟨-, body, hbody, hrequests, hobjections⟩ :=
    Resolution.keeps_after hsteady.see (w.registry.sightings t sig) hbegan
  have hall : (res.after (w.registry.sightings t sig) (beginning t w)).requested.reverse =
      requests options w.registry t sig := by
    rw [hrequested, Registry.met_sightings,
      show (beginning t w).requested = [] from rfl, reverse_foldl_eraseDups, requests,
      show res.options = options from rfl]
    simp only [Registry.isUnresolved_mark]
    split
    · simp [*]
    · simp [*]
  rw [hall] at hrequests hobjections
  -- nothing that comes after them is a request or an objection
  obtain ⟨ending, hending, hasked, hobjection⟩ := hfinishes.quiet
  have hclosed : ∀ es : List JournalEntry, es = [.ended t, .returned t true] →
      es.filterMap asked? = [] ∧ es.filter isObjection = [] := by
    rintro _ rfl
    exact ⟨rfl, rfl⟩
  obtain ⟨hasked', hobjection'⟩ := hclosed _ rfl
  refine ⟨sig, [.called t, .began t] ++ (body ++ (ending ++ [.ended t, .returned t true])),
    hparse, ?_, ?_, ?_⟩
  · rw [hjournal, hending, hbody]
    simp only [List.append_assoc]
  · rw [List.filterMap_append, List.filterMap_append, List.filterMap_append, hrequests, hasked,
      hasked', List.append_nil, List.append_nil]
    rfl
  · rw [List.filter_append, List.filter_append, List.filter_append, hobjections, hobjection,
      hobjection', List.append_nil, List.append_nil]
    rfl

end Workspace

/-! ### Whoever is asked -/

namespace Collaborator

/-- Answers requests for unresolved classes by the recursion, `depth` levels deep; all other
requests are answered by `other`. -/
def askUnresolved (k : Collaborator) (other : ClassId → Work Bool) :
    (depth : Nat) → ClassId → Work Bool
  | 0, c => other c
  | depth + 1, c => do
    if (← getRegistry).isUnresolved c then
      k.answer (fun options d signature => do
        return (← resolveClassAsking (k.askUnresolved other depth) options d signature).isOk) c
    else other c

/-- A request for an unresolved class is answered by the recursion. -/
theorem askUnresolved_succ (k : Collaborator) (other : ClassId → Work Bool) (depth : Nat)
    {c : ClassId} {w : Workspace} (hc : w.registry.isUnresolved c = true) :
    k.askUnresolved other (depth + 1) c w =
      k.answer (fun options d signature => do
        let result ← resolveClassAsking (k.askUnresolved other depth) options d signature
        return result.isOk) c w := by
  rw [askUnresolved, bind_apply, getRegistry_apply]
  simp only [hc, if_true]

/-- **Only unresolved classes are asked for**, at every depth: nobody else comes to answer. -/
theorem answers_askUnresolved (k : Collaborator) (other : ClassId → Work Bool) (depth : Nat) :
    Answers depth (k.askWithin depth) (k.askUnresolved other depth) := by
  induction depth with
  | zero =>
    intro c w hc hw
    exact absurd (Registry.unresolvedCount_pos hc) (by omega)
  | succ depth ih =>
    have hanswer : Answers (depth + 1) (k.askWithin (depth + 1))
        (k.answer fun options d signature => do
          let result ← resolveClassAsking (k.askUnresolved other depth) options d signature
          return result.isOk) := by
      refine answers_answer k fun options c signature w hw => ?_
      obtain ⟨hsame, hcount, hlogs⟩ := resolveAsking_answers options (.ofClass c) signature w ih
        fun _ => hw
      rw [resolveAsking_ofClass, resolveAsking_ofClass] at hsame
      rw [resolveAsking_ofClass] at hcount hlogs
      refine ⟨?_, hcount, hlogs⟩
      simp only [bind_apply, hsame]
    intro c w hc hw
    rw [k.askUnresolved_succ other depth hc]
    exact hanswer c w hc hw

end Collaborator

/-- **Exactly the unresolved classes that a call refers to are asked for**, each once and in
order, when the call succeeds and the collaborator is idle; one that is not content objects to
each of them. Whoever the collaborator is, no resolution asks for a class twice, however deep
calls nest; and only for classes that are unresolved at that moment, so that it makes no
difference how requests for other classes would be answered. -/
theorem Workspace.resolve_requests (k : Collaborator) (options : Options) (t : Target)
    (signature : Option String) (w : Workspace) :
    (∃ es, (resolve k options t signature w).2.journal.toList = w.journal.toList ++ es ∧
      (∀ content, k.Idle content → (resolve k options t signature w).1 = .ok () →
        ∃ sig, signature.mapM t.parse = .ok sig ∧
          es.filterMap asked? =
            (requests options w.registry t sig).map (fun c => (c, w.registry.className c)) ∧
          es.filter isObjection =
            (requests options w.registry t sig).flatMap (w.registry.objection t · content)) ∧
      ∀ before c name after, es = before ++ .asked c name :: after →
        c ∉ (before.foldl sessions []).headD []) ∧
    ∀ other, resolveAsking (k.askUnresolved other w.registry.unresolvedCount) options t signature w
      = resolve k options t signature w := by
  have hask : w.registry.KeepsBooks k w.journal.toList (k.ask w.registry) :=
    k.keepsBooks_askWithin _
  obtain ⟨es, hes, hbooks⟩ := resolveAsking_kept (t := t) hask options signature (fun _ => rfl) rfl
    ⟨[], (List.append_nil _).symm, .nil k w.registry, .inl rfl⟩
  rw [← resolve_apply] at hes
  refine ⟨⟨es, hes, fun content hk hok => ?_, fun before c name after hsplit => ?_⟩,
    fun other => ?_⟩
  · obtain ⟨sig, es', hparse, hes', hrequests, hobjections⟩ := resolve_requests_idle hk hok
    obtain rfl := List.append_cancel_left (hes.symm.trans hes')
    exact ⟨sig, hparse, hrequests, hobjections⟩
  · exact hbooks.regular before _ after hsplit
  · rw [resolve_apply]
    exact (resolveAsking_answers options t signature w (k.answers_askUnresolved other _)
      fun _ => Nat.le_add_right _ _).1.symm

/-- The class around the one that is called for comes first, and then those that the signature
names: a class before its type arguments, none twice, and never the one that is called for. -/
theorem Workspace.resolve_requests_of_nested :
    let w : Workspace :=
      { registry := .ofHeaders [{ name := "O" }, { name := "O$I", enclosing := some ⟨0⟩ },
          { name := "A" }, { name := "B" }] }
    let t : Target := .ofClass ⟨1⟩
    let text := "LB<LA;>;LA;LO$I;"
    let out := resolve .refusing {} t (some text) w
    Collaborator.refusing.Idle false ∧ out.1 = .ok () ∧ ∃ sig, (some text).mapM t.parse = .ok sig ∧
      out.2.journal.toList.filterMap asked? =
        (requests {} w.registry t sig).map (fun c => (c, w.registry.className c)) ∧
      (requests {} w.registry t sig).map (fun c => (c, w.registry.className c)) =
        [(⟨0⟩, "O"), (⟨3⟩, "B"), (⟨2⟩, "A")] := by
  intro w t text out
  have hok : out.1 = .ok () := by decide +kernel
  have hasked : out.2.journal.toList.filterMap asked? =
      [(⟨0⟩, "O"), (⟨3⟩, "B"), (⟨2⟩, "A")] := by decide +kernel
  have hnew : w.journal.toList = [] := rfl
  have hcall : out = resolve .refusing {} t (some text) w := rfl
  clear_value out w
  subst hcall
  obtain ⟨⟨es, hes, hidle, -⟩, -⟩ := resolve_requests .refusing {} t (some text) w
  obtain ⟨sig, hparse, hrequests, -⟩ := hidle false .refusing hok
  rw [hnew, List.nil_append] at hes
  rw [hes] at hasked ⊢
  exact ⟨.refusing, hok, sig, hparse, hrequests, hrequests.symm.trans hasked⟩

end JavaGenerics
