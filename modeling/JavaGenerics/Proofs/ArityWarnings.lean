import JavaGenerics.Proofs.Requests

/-!
# Warnings of the number of type arguments

A class may be used with another number of type arguments than it has type parameters. A
resolution warns of that where the arguments end, and goes on.

Which warnings are to be expected can be read off the text
(`JavaGenerics.Registry.miscounts`): a call that succeeds reports these, one for one and in
this order, as long as the collaborator leaves the registry as it is
(`JavaGenerics.Workspace.resolve_miscounts`).

That a warning changes nothing is shown by two runs side by side, one of which does not look
at the number of type arguments (`JavaGenerics.Workspace.Mutes`). They return the same, leave
the same registry, and the same journal but for these warnings; so it is for every
collaborator, if a pool does not look at the number of type arguments either.
-/

namespace JavaGenerics

open Attempt Workspace JournalEntry

/-- The report that the number of type arguments is wrong. -/
def JournalEntry.isMiscount : JournalEntry → Bool
  | reported d => d.code == "type-argument-arity"
  | _ => false

/-! ### Which warnings there are -/

namespace Registry

variable (r : Registry)

/-- What is to be said of a mention of a class: that it has other than the given number of type
arguments, if it has any and the type parameters of the class are known. They are if there
are some, or if the class is resolved. -/
def miscount? : Mention → Option Warning
  | .named _ => none
  | .applied name supplied => do
    let c ← r.lookup name
    let entry ← r.classAt? c
    let declared := entry.typeParams.length
    if supplied ≠ 0 ∧ (entry.typeParams ≠ [] ∨ entry.stage = .resolved) ∧ declared ≠ supplied then
      some (.typeArgumentArity name declared supplied)
    else none

/-- **The wrong numbers of type arguments in a signature**, in the order in which the arguments
end. An erased record has no type arguments. -/
def miscounts {t : Target} : Option t.Signature → List Warning
  | some sig => (sig.types.flatMap TypeSig.mentions).filterMap r.miscount?
  | none => []

end Registry

/-- What is to be said at a sighting. -/
def Sighting.miscount? (r : Registry) : Sighting → Option Warning
  | applied c supplied => r.arityWarning? c supplied
  | _ => none

namespace Registry

variable {r : Registry} {t : Target}

/-- **While an unresolved declaration is marked**, there is the same to be said of a class as
before, its own type parameters included. -/
theorem arityWarning?_mark (ht : r.stage? t = some .unresolved) {name : String} {c : ClassId}
    (hc : r.lookup name = some c) (supplied : Nat) :
    (r.setStage .resolving t).arityWarning? c supplied = r.miscount? (.applied name supplied) := by
  obtain ⟨e, he, hname⟩ := name_of_lookup hc
  -- neither of the two stages is that of a resolved class
  obtain ⟨e', he', hparams, hname', hstage⟩ : ∃ e', (r.setStage .resolving t).classAt? c = some e' ∧
      e'.typeParams = e.typeParams ∧ e'.name = e.name ∧
        (e'.stage = .resolved ↔ e.stage = .resolved) := by
    cases t with
    | ofMethod m => exact ⟨e, he, rfl, rfl, .rfl⟩
    | ofField f => exact ⟨e, he, rfl, rfl, .rfl⟩
    | ofClass d =>
      rcases eq_or_ne c d with rfl | hcd
      · have hu : e.stage = .unresolved := by simpa [stage?, he] using ht
        exact ⟨{ e with stage := .resolving }, by simp [setStage, he], rfl, rfl, by simp [hu]⟩
      · exact ⟨e, by rw [setStage, classAt?_modifyClass_of_ne _ hcd, he], rfl, rfl, .rfl⟩
  simp only [arityWarning?, he', miscount?, hc, he, hparams, hname', hname, Option.bind_eq_bind,
    Option.bind_some]
  refine if_congr ?_ rfl rfl
  simp [hstage, and_assoc]

/-- Around a declaration, nothing has type arguments. -/
theorem miscount?_surroundings {s : Sighting} (hs : s ∈ r.surroundings t) (r' : Registry) :
    s.miscount? r' = none := by
  have hinwards : ∀ c, s ∈ r.inwards c → s.miscount? r' = none := by
    intro c hs
    simp only [inwards, outwards, List.cons_append, List.mem_cons, List.mem_append, List.mem_map,
      List.not_mem_nil, or_false] at hs
    rcases hs with rfl | ⟨d, -, rfl⟩ | rfl | rfl <;> rfl
  cases t with
  | ofClass c =>
    simp only [surroundings, outwards, List.cons_append, List.mem_cons, List.mem_append,
      List.mem_map, List.not_mem_nil, or_false] at hs
    rcases hs with rfl | ⟨d, -, rfl⟩ | rfl <;> rfl
  | ofMethod m =>
    rw [surroundings] at hs
    cases hm : r.methodAt? m with
    | none => simp [hm] at hs
    | some e => exact hinwards e.owner (by simpa [hm] using hs)
  | ofField f =>
    rw [surroundings] at hs
    cases hf : r.fieldAt? f with
    | none => simp [hf] at hs
    | some e => exact hinwards e.owner (by simpa [hf] using hs)

end Registry

/-- An erased type mentions classes by name alone. -/
theorem FieldType.miscount?_mentions (t : FieldType) {m : Mention} (hm : m ∈ t.mentions)
    (r : Registry) : r.miscount? m = none := by
  induction t with
  | base b => cases hm
  | object name =>
    obtain rfl := List.mem_singleton.1 hm
    rfl
  | array elem ih => exact ih hm

namespace Registry

variable {r : Registry} {t : Target}

/-- An erased record has no type arguments. -/
theorem miscount?_erasedMentions {m : Mention} (hm : m ∈ r.erasedMentions t) :
    r.miscount? m = none := by
  cases t with
  | ofClass c =>
    rw [erasedMentions] at hm
    cases hc : r.classAt? c with
    | none => simp [hc] at hm
    | some e =>
      simp only [hc, Option.map_some, Option.getD_some, List.mem_map] at hm
      obtain ⟨name, -, rfl⟩ := hm
      rfl
  | ofMethod n =>
    rw [erasedMentions] at hm
    cases hn : r.methodAt? n with
    | none => simp [hn] at hm
    | some e =>
      simp only [hn, Option.map_some, Option.getD_some, List.mem_append, List.mem_flatMap] at hm
      rcases hm with ⟨d, -, hm⟩ | hm
      · exact d.miscount?_mentions hm r
      · split at hm
        · cases hm
        · obtain ⟨d, -, hm⟩ := List.mem_flatMap.1 hm
          exact d.miscount?_mentions hm r
  | ofField f =>
    rw [erasedMentions] at hm
    cases hf : r.fieldAt? f with
    | none => simp [hf] at hm
    | some e => exact e.descriptor.miscount?_mentions (by simpa [hf] using hm) r

/-- **What there is to be said at the sightings of a call** is what can be read off the text. -/
theorem filterMap_miscount? (ht : r.stage? t = some .unresolved) (sig : Option t.Signature) :
    (r.sightings t sig).filterMap (Sighting.miscount? (r.setStage .resolving t)) =
      r.miscounts sig := by
  have hmentions : ∀ ms : List Mention, (Mention.sightings r.lookup ms).filterMap
      (Sighting.miscount? (r.setStage .resolving t)) = ms.filterMap r.miscount? := by
    intro ms
    rw [Mention.sightings, List.filterMap_filterMap]
    refine congrArg (List.filterMap · ms) (funext fun m => ?_)
    cases m with
    | named name =>
      change ((r.lookup name).map Sighting.met).bind _ = none
      cases r.lookup name <;> rfl
    | applied name supplied =>
      change ((r.lookup name).map (Sighting.applied · supplied)).bind _ = _
      cases hc : r.lookup name with
      | none => simp [miscount?, hc]
      | some c => exact arityWarning?_mark ht hc supplied
  cases sig with
  | none =>
    rw [sightings, hmentions, miscounts]
    exact List.filterMap_eq_nil_iff.2 fun m hm => miscount?_erasedMentions hm
  | some sig =>
    rw [sightings, List.filterMap_append, hmentions, miscounts,
      List.filterMap_eq_nil_iff.2 fun s hs => miscount?_surroundings hs _, List.nil_append]

end Registry

/-! ### Which warnings are reported -/

namespace JournalEntry

/-- A warning of a wrong number of type arguments, as the resolution of `t` reports it. -/
def miscount (r : Registry) (t : Target) (w : Warning) : JournalEntry :=
  .reported (w.diagnostic (r.targetName t))

end JournalEntry

theorem Registry.isMiscount_of_arityWarning? {r : Registry} {c : ClassId} {supplied : Nat}
    {w : Warning} (h : r.arityWarning? c supplied = some w) (owner : String) :
    isMiscount (.reported (w.diagnostic owner)) = true := by
  obtain ⟨name, declared, rfl⟩ := exists_of_arityWarning? h
  rfl

namespace Resolution

variable {res : Resolution} {r : Registry} {t : Target} {content : Bool} {js : List JournalEntry}
  {p q : Progress}

/-- What is said at one sighting. -/
theorem miscounts_see {k : Collaborator} (hk : k.Idle content) {depth : Nat}
    (hask : res.ask = k.askWithin depth) (howner : res.owner = r.targetName t)
    (hwarn : res.options.warnArity = true)
    (hr : p.workspace.registry = r.setStage .resolving t) (s : Sighting) :
    (res.see s p).2.workspace.journal.toList.filter isMiscount =
      p.workspace.journal.toList.filter isMiscount ++
        ((s.miscount? (r.setStage .resolving t)).toList.map (miscount r t)) := by
  cases s with
  | outwards c =>
    change (noteCycle c p.workspace).2.journal.toList.filter isMiscount = _
    rw [noteCycle_apply]
    split
    · exact (filter_record rfl _).trans (List.append_nil _).symm
    · exact (List.append_nil _).symm
  | met c =>
    change (res.request c p).2.workspace.journal.toList.filter isMiscount = _
    by_cases hc : (res.options.resolveReferenced && p.workspace.registry.isUnresolved c &&
        !p.requested.contains c) = true
    · obtain ⟨-, -, hjournal⟩ := request_idle hk hask howner hr hc
      rw [hjournal, List.filter_append]
      cases content <;> rfl
    · rw [request_apply, if_neg hc]
      exact (List.append_nil _).symm
  | applied c n =>
    change (res.warnArity c n p).2.workspace.journal.toList.filter isMiscount = _
    rw [warnArity_apply, if_pos hwarn, hr, Sighting.miscount?]
    cases hw : (r.setStage .resolving t).arityWarning? c n with
    | none => exact (List.append_nil _).symm
    | some w =>
      change (record _ p.workspace).2.journal.toList.filter isMiscount = _
      rw [toList_record, List.filter_append, howner,
        List.filter_cons_of_pos (Registry.isMiscount_of_arityWarning? hw _)]
      rfl

/-- **What is said behind some sightings** is what is to be said at each of them. -/
theorem miscounts_after {k : Collaborator} (hk : k.Idle content) {depth : Nat}
    (hask : res.ask = k.askWithin depth) (howner : res.owner = r.targetName t)
    (hwarn : res.options.warnArity = true) (ss : List Sighting) (hp : p.Requesting r t content js) :
    (res.after ss p).workspace.journal.toList.filter isMiscount =
      p.workspace.journal.toList.filter isMiscount ++
        (ss.filterMap (Sighting.miscount? (r.setStage .resolving t))).map (miscount r t) := by
  induction ss generalizing p with
  | nil => exact (List.append_nil _).symm
  | cons s ss ih =>
    rw [after_cons, ih ((steady_requesting hk hask howner).see s p hp),
      miscounts_see hk hask howner hwarn hp.registry, List.append_assoc, ← List.map_append]
    cases hs : s.miscount? (r.setStage .resolving t) with
    | none => rw [List.filterMap_cons_none hs]; rfl
    | some w => rw [List.filterMap_cons_some hs]; rfl

/-- What finishes a resolution says nothing of type arguments. -/
theorem Finishes.filter_isMiscount (h : res.Finishes p q) :
    q.workspace.journal.toList.filter isMiscount =
      p.workspace.journal.toList.filter isMiscount := by
  obtain ⟨es, hes, hquiet⟩ := h.journal
  have hnone : es.filter isMiscount = [] := by
    refine List.filter_eq_nil_iff.2 fun e he => ?_
    rcases hquiet e he with ⟨n, rfl⟩ | ⟨supplied, declared, rfl⟩ <;> exact Bool.false_ne_true
  rw [hes, List.filter_append, hnone, List.append_nil]

end Resolution

namespace Workspace

variable {k : Collaborator} {content : Bool} {options : Options} {t : Target}
  {signature : Option String} {w : Workspace}

/-- A call that succeeds says of its signature what is to be said of it. -/
theorem resolve_miscounts_idle (hk : k.Idle content) (hwarn : options.warnArity = true)
    (h : (resolve k options t signature w).1 = .ok ()) :
    ∃ sig, signature.mapM t.parse = .ok sig ∧
      (resolve k options t signature w).2.journal.toList.filter isMiscount =
        w.journal.toList.filter isMiscount ++
          (w.registry.miscounts sig).map (miscount w.registry t) := by
  obtain ⟨sig, q, hparse, hunresolved, hfinishes, hjournal⟩ := resolve_seen h
  refine ⟨sig, hparse, ?_⟩
  let res := k.resolution options w.registry t
  have hask : res.ask = k.askWithin w.registry.unresolvedCount := rfl
  have howner : res.owner = w.registry.targetName t := rfl
  have hafter := Resolution.miscounts_after hk hask howner hwarn (w.registry.sightings t sig)
    (requesting_beginning w t content)
  rw [hjournal, List.filter_append, hfinishes.filter_isMiscount, hafter,
    Registry.filterMap_miscount? hunresolved, toList_beginning, List.filter_append]
  change (_ ++ [] ++ _) ++ [] = _
  rw [List.append_nil, List.append_nil]

end Workspace

/-! ### Not to look at the number of type arguments -/

/-- The same switches, without warnings of the number of type arguments. -/
def Options.muted (options : Options) : Options := { options with warnArity := false }

/-- The same collaborator, without warnings of the number of type arguments. -/
def Collaborator.muted : Collaborator → Collaborator
  | silent => silent
  | refusing => refusing
  | pool p => pool { p with options := p.options.muted }

/-- **Two runs side by side**, the second of which does not look at the number of type
arguments: the registry is the same, and since the journal was `js` the second run has left
the same entries, but for warnings of the number of type arguments. -/
structure Workspace.Mutes (js : List JournalEntry) (v w : Workspace) : Prop where
  registry : w.registry = v.registry
  journal : ∃ es, v.journal.toList = js ++ es ∧
    w.journal.toList = js ++ es.filter fun e => !e.isMiscount

/-- The same of two resolutions under way. -/
structure Progress.Mutes (js : List JournalEntry) (p q : Progress) : Prop where
  workspace : p.workspace.Mutes js q.workspace
  requested : q.requested = p.requested

/-- Requests are answered alike in two runs side by side. -/
def AsksMuting (js : List JournalEntry) (ask ask' : ClassId → Work Bool) : Prop :=
  ∀ c v w, v.Mutes js w → (ask' c w).1 = (ask c v).1 ∧ (ask c v).2.Mutes js (ask' c w).2

namespace Workspace

variable {js : List JournalEntry} {v w : Workspace} {e : JournalEntry}

theorem Mutes.refl (w : Workspace) : w.Mutes w.journal.toList w :=
  ⟨rfl, [], (List.append_nil _).symm, (List.append_nil _).symm⟩

/-- Anything else may be recorded in both runs. -/
theorem Mutes.record (h : v.Mutes js w) (he : e.isMiscount = false) :
    (record e v).2.Mutes js (record e w).2 := by
  obtain ⟨hregistry, es, hv, hw⟩ := h
  refine ⟨hregistry, es ++ [e], ?_, ?_⟩
  · rw [toList_record, hv, List.append_assoc]
  · rw [toList_record, hw, List.append_assoc, List.filter_append,
      List.filter_cons_of_pos (by rw [he]; rfl)]
    rfl

/-- A warning of the number of type arguments is recorded in the first run alone. -/
theorem Mutes.record_miscount (h : v.Mutes js w) (he : e.isMiscount = true) :
    (Workspace.record e v).2.Mutes js w := by
  obtain ⟨hregistry, es, hv, hw⟩ := h
  refine ⟨hregistry, es ++ [e], ?_, ?_⟩
  · rw [toList_record, hv, List.append_assoc]
  · rw [hw, List.filter_append, List.filter_cons_of_neg (by simp [he]), List.filter_nil,
      List.append_nil]

/-- The registry may be changed in both runs. -/
theorem Mutes.change (h : v.Mutes js w) {f : Registry → Registry} :
    Mutes js { v with registry := f v.registry } { w with registry := f w.registry } :=
  ⟨congrArg f h.registry, h.journal⟩

theorem Mutes.noteCycle (h : v.Mutes js w) (c : ClassId) :
    (noteCycle c v).2.Mutes js (noteCycle c w).2 := by
  rw [noteCycle_apply, noteCycle_apply, h.registry]
  split
  · exact h.record rfl
  · exact h

end Workspace

namespace Resolution

variable {js : List JournalEntry} {res res' : Resolution}

/-- What two resolutions have in common, the second of which does not look at the number of
type arguments. -/
structure Muting (js : List JournalEntry) (res res' : Resolution) : Prop where
  ask : AsksMuting js res.ask res'.ask
  options : res'.options = res.options.muted
  owner : res'.owner = res.owner

theorem Muting.request (h : Muting js res res') (c : ClassId) :
    Alike (Progress.Mutes js) (res.request c) (res'.request c) := by
  intro p q hpq
  refine ⟨rfl, ?_⟩
  have hreferenced : res'.options.resolveReferenced = res.options.resolveReferenced := by
    rw [h.options]
    rfl
  rw [request_apply, request_apply, hreferenced, hpq.workspace.registry, hpq.requested]
  split
  · have hasking : (asking c p).workspace.Mutes js (asking c q).workspace := by
      unfold asking
      rw [hpq.workspace.registry]
      exact hpq.workspace.record rfl
    obtain ⟨hanswer, hstate⟩ := h.ask c _ _ hasking
    have hanswered : (res.answered c p).Mutes js (res'.answered c q) :=
      ⟨hstate, congrArg (c :: ·) hpq.requested⟩
    rw [hanswer]
    split
    · exact hanswered
    · refine ⟨?_, hanswered.requested⟩
      unfold warn
      rw [h.owner]
      exact hanswered.workspace.record rfl
  · exact hpq

/-- **Two resolutions, one of which does not look at the number of type arguments**, go side by
side to their ends. -/
theorem Muting.abreast (h : Muting js res res') :
    res.Abreast res' (Progress.Mutes js) (Progress.Mutes js) where
  parallel :=
    { request := h.request
      warnArity := fun c supplied p q hpq => by
        refine ⟨rfl, ?_⟩
        have hsilent : (res'.warnArity c supplied q).2 = q := by
          rw [warnArity_apply, h.options]
          exact if_neg Bool.false_ne_true
        rw [hsilent, warnArity_apply]
        split
        · cases hw : p.workspace.registry.arityWarning? c supplied with
          | none => exact hpq
          | some w =>
            exact ⟨hpq.workspace.record_miscount (Registry.isMiscount_of_arityWarning? hw _),
              hpq.requested⟩
        · exact hpq
      noteCycle := fun c p q hpq => ⟨rfl, hpq.workspace.noteCycle c, hpq.requested⟩
      agrees := fun p q hpq => hpq.workspace.registry ▸ .refl _ }
  resembles p q hpq := hpq.workspace.registry ▸ .refl _
  weaken _ _ := id
  warn supplied declared p q hpq := by
    refine ⟨rfl, ?_, hpq.requested⟩
    unfold Resolution.warn
    rw [h.owner]
    exact hpq.workspace.record rfl
  commits f n _ p q hpq := ⟨rfl, hpq.workspace.change.record rfl, hpq.requested⟩
  verifyErasure := by
    rw [h.options]
    rfl
  owner := h.owner

end Resolution

/-- The code for wrong numbers of type arguments is not used for errors. -/
theorem ResolveError.code_ne_miscount (e : ResolveError) : e.code ≠ "type-argument-arity" := by
  cases e <;> simp [ResolveError.code]

namespace Workspace

variable {js : List JournalEntry} {ask ask' : ClassId → Work Bool} {options : Options} {t : Target}
  {signature : Option String} {v w : Workspace}

theorem Mutes.returning (h : v.Mutes js w) (t : Target) (owner : String)
    (signature : Option String) (result : Except ResolveError Unit) :
    (returning t owner signature (result, v)).Mutes js
      (returning t owner signature (result, w)) := by
  cases result with
  | error e =>
    have hreported := h.record (e := .reported (e.diagnostic owner signature))
      (beq_eq_false_iff_ne.2 e.code_ne_miscount)
    exact hreported.record rfl
  | ok _ => exact h.record rfl

theorem Mutes.closing {out out' : Except ResolveError Unit × Progress} (hresult : out.1 = out'.1)
    (h : out.2.workspace.Mutes js out'.2.workspace) (t : Target) :
    (closing t out).Mutes js (closing t out') := by
  obtain ⟨result, p⟩ := out
  obtain ⟨_, q⟩ := out'
  cases hresult
  cases result with
  | error e => exact (h.change (f := (·.unmark t))).record (e := .ended t) rfl
  | ok _ => exact h.record rfl

/-- **One call** comes to the same without looking at the number of type arguments. -/
theorem resolveAsking_mutes (hask : AsksMuting js ask ask') (options : Options) (t : Target)
    (signature : Option String) (h : v.Mutes js w) :
    (resolveAsking ask' options.muted t signature w).1 =
        (resolveAsking ask options t signature v).1 ∧
      (resolveAsking ask options t signature v).2.Mutes js
        (resolveAsking ask' options.muted t signature w).2 := by
  unfold resolveAsking
  have howner : w.registry.targetName t = v.registry.targetName t := by rw [h.registry]
  rcases hm : v.registry.mark t with e | marked
  · rw [resolveBy_of_mark_error _ _ _ _ hm, resolveBy_of_mark_error _ _ _ _ (h.registry ▸ hm),
      howner]
    exact ⟨rfl, (h.record (e := .called t) rfl).returning t _ signature (.error e)⟩
  · rw [resolveBy_of_mark_ok _ _ _ _ hm, resolveBy_of_mark_ok _ _ _ _ (h.registry ▸ hm), howner]
    have hbegan : (beginning t v).Mutes js (beginning t w) :=
      ⟨((h.record (e := .called t) rfl).change (f := (·.setStage .resolving t))).record
        (e := .began t) rfl, rfl⟩
    have hmuting : Resolution.Muting js ⟨options, v.registry.targetName t, ask⟩
        ⟨options.muted, v.registry.targetName t, ask'⟩ := ⟨hask, rfl, rfl⟩
    obtain ⟨hresult, hstate⟩ := Resolution.together_body hmuting.abreast t signature _ _ hbegan
    dsimp only
    refine ⟨hresult.symm, ?_⟩
    rw [← hresult]
    exact (Mutes.closing hresult hstate.workspace t).returning t _ signature _

end Workspace

/-! ### Calls inside calls -/

namespace Collaborator

variable {js : List JournalEntry}

/-- Requests are answered alike if the classes are resolved alike. -/
theorem asksMuting_answer (k : Collaborator)
    {resolve resolve' : Options → ClassId → Option String → Work Bool}
    (hresolve : ∀ options d signature v w, v.Mutes js w →
      (resolve' options.muted d signature w).1 = (resolve options d signature v).1 ∧
        (resolve options d signature v).2.Mutes js (resolve' options.muted d signature w).2) :
    AsksMuting js (k.answer resolve) (k.muted.answer resolve') := by
  intro c v w h
  have hasked : (record (.asked c (v.registry.className c)) v).2.Mutes js
      (record (.asked c (w.registry.className c)) w).2 := by
    rw [h.registry]
    exact h.record rfl
  cases k with
  | silent => exact ⟨rfl, hasked.record rfl⟩
  | refusing => exact ⟨rfl, hasked.record rfl⟩
  | pool p =>
    have hpool : ∀ name v w, v.Mutes js w →
        (p.answer (resolve' p.options.muted) name w).1 = (p.answer (resolve p.options) name v).1 ∧
          (p.answer (resolve p.options) name v).2.Mutes js
            (p.answer (resolve' p.options.muted) name w).2 := by
      intro name v w h
      unfold Pool.answer
      split
      · exact ⟨rfl, h⟩
      · rw [bind_apply, bind_apply, getRegistry_apply, getRegistry_apply, h.registry]
        cases v.registry.lookup (p.targetName name) with
        | none => exact ⟨rfl, h⟩
        | some d => exact hresolve p.options d _ v w h
    have hfirst : (pool p).answer resolve c v =
        let out := p.answer (resolve p.options) (v.registry.className c)
          (record (.asked c (v.registry.className c)) v).2
        (out.1, (record (.answered c out.1) out.2).2) := rfl
    have hsecond : (pool p).muted.answer resolve' c w =
        let out := p.answer (resolve' p.options.muted) (w.registry.className c)
          (record (.asked c (w.registry.className c)) w).2
        (out.1, (record (.answered c out.1) out.2).2) := rfl
    have hname : w.registry.className c = v.registry.className c := by rw [h.registry]
    rw [hname] at hasked hsecond
    obtain ⟨hanswer, hstate⟩ := hpool (v.registry.className c) _ _ hasked
    rw [hfirst, hsecond]
    dsimp only
    rw [hanswer]
    exact ⟨rfl, hstate.record rfl⟩

theorem asksMuting_askWithin (k : Collaborator) (depth : Nat) :
    AsksMuting js (k.askWithin depth) (k.muted.askWithin depth) := by
  induction depth with
  | zero => exact k.asksMuting_answer fun _ _ _ _ _ h => ⟨rfl, h⟩
  | succ depth ih =>
    refine k.asksMuting_answer fun options d signature v w h => ?_
    obtain ⟨hresult, hstate⟩ := resolveAsking_mutes ih options (.ofClass d) signature h
    rw [resolveAsking_ofClass, resolveAsking_ofClass] at hresult hstate
    exact ⟨congrArg Except.isOk hresult, hstate⟩

end Collaborator

/-! ### Calls from outside -/

/-- **Warnings of the number of type arguments are exact and harmless.** A call that succeeds
reports those that can be read off the text, one for one and in order, as long as the
collaborator is idle. And every call, successful or not and whoever is asked, comes to the
same result, the same registry and the same journal but for these warnings if nobody looks at
the number of type arguments. -/
theorem Workspace.resolve_miscounts (k : Collaborator) (options : Options) (t : Target)
    (signature : Option String) (w : Workspace) :
    ∃ es, (resolve k options t signature w).2.journal.toList = w.journal.toList ++ es ∧
      (∀ content, k.Idle content → options.warnArity = true →
        (resolve k options t signature w).1 = .ok () →
          ∃ sig, signature.mapM t.parse = .ok sig ∧
            es.filter isMiscount = (w.registry.miscounts sig).map (miscount w.registry t)) ∧
      let muted := resolve k.muted options.muted t signature w
      muted.1 = (resolve k options t signature w).1 ∧
        muted.2.registry = (resolve k options t signature w).2.registry ∧
        muted.2.journal.toList = w.journal.toList ++ es.filter fun e => !e.isMiscount := by
  obtain ⟨hresult, hregistry, es, hes, hmuted⟩ := resolveAsking_mutes
    (k.asksMuting_askWithin w.registry.unresolvedCount) options t signature (Mutes.refl w)
  have hcall : resolve k options t signature w =
      resolveAsking (k.askWithin w.registry.unresolvedCount) options t signature w :=
    resolve_apply ..
  have hcall' : resolve k.muted options.muted t signature w =
      resolveAsking (k.muted.askWithin w.registry.unresolvedCount) options.muted t signature w :=
    resolve_apply ..
  rw [← hcall] at hes
  refine ⟨es, hes, fun content hk hwarn hok => ?_, ?_⟩
  · obtain ⟨sig, hparse, hreports⟩ := resolve_miscounts_idle hk hwarn hok
    rw [hes, List.filter_append] at hreports
    exact ⟨sig, hparse, List.append_cancel_left hreports⟩
  · rw [hcall, hcall']
    exact ⟨hresult, hregistry, hmuted⟩

/-- `X` extends `A<B<X>, X>`. The arguments of `B` end before those of `A`, so the warning of `B`
comes first; `X` itself has none. -/
theorem Workspace.resolve_miscounts_of_nested :
    let w : Workspace :=
      { registry := .ofHeaders [{ name := "X" }, { name := "A", typeParams := ["T"] },
          { name := "B", typeParams := ["T", "U"] }] }
    let t : Target := .ofClass ⟨0⟩
    let text := "LA<LB<LX;>;LX;>;"
    let out := resolve .silent {} t (some text) w
    Collaborator.silent.Idle true ∧ out.1 = .ok () ∧ ∃ sig, (some text).mapM t.parse = .ok sig ∧
      out.2.journal.toList.filter isMiscount =
        (w.registry.miscounts sig).map (miscount w.registry t) ∧
      (w.registry.miscounts sig).map (miscount w.registry t) =
        [.typeArgumentArity "B" 2 1, .typeArgumentArity "A" 1 2].map (miscount w.registry t) := by
  intro w t text out
  have hok : out.1 = .ok () := by decide +kernel
  have hwarned : out.2.journal.toList.filter isMiscount =
      [.typeArgumentArity "B" 2 1, .typeArgumentArity "A" 1 2].map (miscount w.registry t) := by
    decide +kernel
  have hnew : w.journal.toList = [] := rfl
  have hcall : out = resolve .silent {} t (some text) w := rfl
  clear_value out w
  subst hcall
  obtain ⟨es, hes, hidle, -⟩ := resolve_miscounts .silent {} t (some text) w
  obtain ⟨sig, hparse, hmiscounts⟩ := hidle true .silent rfl hok
  rw [hnew, List.nil_append] at hes
  rw [hes] at hwarned ⊢
  exact ⟨.silent, hok, sig, hparse, hmiscounts, hmiscounts.symm.trans hwarned⟩

end JavaGenerics
