import JavaGenerics.Proofs.Grounding
import JavaGenerics.Proofs.Logging
import JavaGenerics.Proofs.Registering

/-!
# The order of resolution

A pool has signatures for a number of classes, and these are resolved one after the
other, in some order, each with all that it asks for on the way. Does the order matter?

It does (`JavaGenerics.Pool.resolveAll_depends_on_order`). A class that is begun while a
class around it is still being resolved sees a scope without the type parameters of that
class, and a name may then stand for a type parameter further out.

That is all there is to it, and it is a matter of each class by itself. The journal has
which calls were under way when a class was last begun
(`JavaGenerics.Workspace.callsAround`). If all classes are resolved in the end, a class came to
what its signature means when names are read lexically just if nothing was in its way then:
if each name that it borrows was declared innermost by a class that could be obtained while
these calls were under way (`JavaGenerics.Pool.IsClear`). Two orders, then, come to the same for
each class in whose way nothing was in either
(`JavaGenerics.Pool.resolveAll_lexically_iff`), whatever becomes of the others.

The proof keeps a chronicle (`JavaGenerics.Pool.Chronicle`): an invariant of the state and its
journal under every entry, every call and every nest of calls.
-/

namespace JavaGenerics

open Attempt Workspace JournalEntry

/-! ### What is under way when a class is begun -/

namespace JournalEntry

/-- The classes that some of the calls have set to work on. -/
def classesAmong (calls : List (Option Target)) : Set ClassId := {c | some (.ofClass c) ∈ calls}

/-- The calls that are under way when the class `c` is begun for the last time in some entries,
its own included; `calls` are those that are under way before these entries, and `last` is the
result if `c` is not begun in them. -/
def callsWhenBegun (c : ClassId) :
    (calls last : List (Option Target)) → List JournalEntry → List (Option Target)
  | _, last, [] => last
  | calls, last, e :: es => callsWhenBegun c (openCalls calls e)
      (if e = .began (.ofClass c) then openCalls calls e else last) es

variable {c d : ClassId} {calls last : List (Option Target)} {e : JournalEntry}
  {es es' : List JournalEntry}

theorem classesAmong_cons (c : ClassId) (calls : List (Option Target)) :
    classesAmong (some (.ofClass c) :: calls) = insert c (classesAmong calls) := by
  ext d
  simp [classesAmong]

theorem callsWhenBegun_append : callsWhenBegun c calls last (es ++ es') =
    callsWhenBegun c (es.foldl openCalls calls) (callsWhenBegun c calls last es) es' := by
  induction es generalizing calls last with
  | nil => rfl
  | cons e es ih => exact ih

/-- Entries in which `c` is not begun. -/
theorem callsWhenBegun_of_notMem (h : .began (.ofClass c) ∉ es) :
    callsWhenBegun c calls last es = last := by
  induction es generalizing calls last with
  | nil => rfl
  | cons e es ih =>
    obtain ⟨hne, htail⟩ := not_or.1 (List.mem_cons.not.1 h)
    rw [callsWhenBegun, if_neg (Ne.symm hne), ih htail]

theorem IsQuiet.ne_began {t : Target} (h : IsQuiet e) : e ≠ .began t := by
  rintro rfl
  cases h []

theorem foldl_openCalls_of_quiet (h : ∀ e ∈ es, IsQuiet e) : es.foldl openCalls calls = calls := by
  induction es with
  | nil => rfl
  | cons e es ih =>
    obtain ⟨he, hes⟩ := List.forall_mem_cons.1 h
    rw [List.foldl_cons, he, ih hes]

end JournalEntry

/-! ### The chronicle of a run -/

/-- The calls that were under way when the class `c` was last begun, its own included. -/
def Workspace.callsAround (w : Workspace) (c : ClassId) : List (Option Target) :=
  callsWhenBegun c [] [] w.journal.toList

/-- Has classes resolved one after the other, each from what the pool has for it. -/
def Pool.resolveAll (p : Pool) (order : List ClassId) : Work Unit :=
  order.forM fun c => do
    let r ← getRegistry
    let _ ← resolve (.pool p) p.options (.ofClass c) (p.signature? r c)

/-- **The order of resolution matters.** `B` is declared in `A` and `A` in `O`, and both
`A` and `O` declare a `T`. If `B` comes first, its `T` is that of `A`, which is resolved on
demand. If `A` comes first, `B` is resolved on demand while `A` has no type parameters
yet, and its `T` is that of `O`. -/
theorem Pool.resolveAll_depends_on_order :
    let p : Pool :=
      { options := {}, signatures := [("O", "<T:>LO;"), ("A", "<T:>LB;"), ("B", "<U:TT;>LO;")] }
    let w : Workspace :=
      { registry := .ofHeaders
          [{ name := "O" }, { name := "A", enclosing := some ⟨0⟩ },
            { name := "B", enclosing := some ⟨1⟩ }] }
    let r := (p.resolveAll [⟨2⟩, ⟨1⟩, ⟨0⟩] w).2.registry
    let r' := (p.resolveAll [⟨1⟩, ⟨2⟩, ⟨0⟩] w).2.registry
    let boundVars (r : Registry) : List TypeVar :=
      (r.typeParams (.ofClass ⟨2⟩)).flatMap fun q => q.bounds.flatMap (·.vars)
    (∀ e ∈ w.registry.classes, e.stage = .unresolved) ∧
      (∀ e ∈ r.classes, e.stage = .resolved) ∧ (∀ e ∈ r'.classes, e.stage = .resolved) ∧
      boundVars r = [⟨.ofClass ⟨1⟩, 0⟩] ∧ boundVars r' = [⟨.ofClass ⟨0⟩, 0⟩] := by
  decide +kernel

namespace Pool

variable {p : Pool} {r r' : Registry} {calls : List (Option Target)} {w w' : Workspace}
  {c : ClassId} {entry : ClassEntry} {depth : Nat} {ask : ClassId → Work Bool} {res : Resolution}

/-- **What the journal tells of a run** that began with the registry `r`, while `calls` are under
way: which classes are being resolved, when these were begun, and what was in the way when the
classes were begun that are resolved. -/
structure Chronicle (p : Pool) (r : Registry) (calls : List (Option Target)) (w : Workspace) :
    Prop where
  grounded : p.Grounded r w.registry
  calls_eq : w.journal.toList.foldl openCalls [] = calls
  busy_eq : w.registry.beingResolved = classesAmong calls
  begun : ∀ c outer, some (.ofClass c) :: outer <:+ calls →
    w.callsAround c = some (.ofClass c) :: outer
  settled : ∀ c e', w.registry.classAt? c = some e' → e'.stage = .resolved →
    p.Settled r (classesAmong (w.callsAround c)) c e'

namespace Chronicle

theorem callsAround_eq {es : List JournalEntry}
    (hjournal : w'.journal.toList = w.journal.toList ++ es) (hes : .began (.ofClass c) ∉ es) :
    w'.callsAround c = w.callsAround c := by
  rw [callsAround, hjournal, callsWhenBegun_append, callsWhenBegun_of_notMem hes]
  rfl

/-- Entries in which no call is opened or closed in the end, and no class is begun. -/
theorem aside (h : p.Chronicle r calls w) (es : List JournalEntry)
    (hclosed : es.foldl openCalls calls = calls) (hes : ∀ t, .began t ∉ es)
    (hregistry : w'.registry = w.registry)
    (hjournal : w'.journal.toList = w.journal.toList ++ es) : p.Chronicle r calls w' := by
  have haround : ∀ c, w'.callsAround c = w.callsAround c := fun c =>
    callsAround_eq hjournal (hes _)
  refine ⟨hregistry ▸ h.grounded, ?_, hregistry ▸ h.busy_eq, fun c outer hsuffix => ?_,
    fun c e' he' hresolved => ?_⟩
  · rw [hjournal, List.foldl_append, h.calls_eq, hclosed]
  · rw [haround]
    exact h.begun c outer hsuffix
  · rw [haround]
    exact h.settled c e' (hregistry ▸ he') hresolved

theorem record {e : JournalEntry} (h : p.Chronicle r calls w) (he : IsQuiet e) :
    p.Chronicle r calls (record e w).2 :=
  h.aside [e] (he calls) (fun _ hmem => he.ne_began (List.mem_singleton.1 hmem).symm) rfl
    (toList_record e w)

/-- A class is begun. -/
theorem begin (hn : ∀ c, TypeParam.Numbered (.ofClass c) (r.typeParams (.ofClass c)))
    (h : p.Chronicle r calls w) (hs : w.registry.stage? (.ofClass c) = some .unresolved) :
    p.Chronicle r (some (.ofClass c) :: calls) (beginning (.ofClass c) w).workspace := by
  have hopened : [JournalEntry.called (.ofClass c), .began (.ofClass c)].foldl openCalls calls =
      some (.ofClass c) :: calls := rfl
  have haround : ∀ d, d ≠ c →
      (beginning (.ofClass c) w).workspace.callsAround d = w.callsAround d := fun d hd =>
    callsAround_eq (toList_beginning _ w) (by simpa using hd)
  refine ⟨(stable_grounded hn).mark h.grounded hs, ?_, ?_, fun d outer hsuffix => ?_,
    fun d e' he' hresolved => ?_⟩
  · rw [toList_beginning, List.foldl_append, h.calls_eq, hopened]
  · exact (Registry.beingResolved_mark hs).trans (h.busy_eq ▸ (classesAmong_cons c calls).symm)
  · rcases List.suffix_cons_iff.1 hsuffix with heq | hsuffix
    · cases heq
      rw [callsAround, toList_beginning, callsWhenBegun_append, h.calls_eq]
      simp [callsWhenBegun, openCalls]
    · -- the class is under way already, so it is another one
      have hd : d ∈ w.registry.beingResolved := h.busy_eq ▸ hsuffix.subset List.mem_cons_self
      rw [haround d (by rintro rfl; cases hs.symm.trans hd)]
      exact h.begun d outer hsuffix
  · have hd : d ≠ c := by
      rintro rfl
      have hstage : (w.registry.setStage .resolving (.ofClass d)).stage? (.ofClass d) =
          some .resolved := by
        exact Option.map_eq_some_iff.2 ⟨e', he', hresolved⟩
      rw [Registry.stage?_setStage, hs] at hstage
      cases hstage
    rw [haround d hd]
    refine h.settled d e' ?_ hresolved
    rw [← he']
    exact (Registry.classAt?_setStage_of_ne _ _ (by simpa using Ne.symm hd)).symm

/-- A call returns that has set to work on a class. -/
theorem returned (h : p.Chronicle r (some (.ofClass c) :: calls) w) (es : List JournalEntry)
    (ok : Bool) (hes : ∀ e ∈ es, IsQuiet e)
    (hjournal : w'.journal.toList = w.journal.toList ++ (es ++ [.returned (.ofClass c) ok]))
    (hgrounded : p.Grounded r w'.registry)
    (hbusy : w'.registry.beingResolved = classesAmong calls)
    (hothers : ∀ d, d ≠ c → w'.registry.classAt? d = w.registry.classAt? d)
    (hsettled : ∀ e', w'.registry.classAt? c = some e' → e'.stage = .resolved →
      p.Settled r (classesAmong (some (.ofClass c) :: calls)) c e') :
    p.Chronicle r calls w' := by
  have haround : ∀ d, w'.callsAround d = w.callsAround d := fun d => by
    refine callsAround_eq hjournal fun hmem => ?_
    rcases List.mem_append.1 hmem with hmem | hreturned
    · exact (hes _ hmem).ne_began rfl
    · cases List.mem_singleton.1 hreturned
  refine ⟨hgrounded, ?_, hbusy, fun d outer hsuffix => ?_, fun d e' he' hresolved => ?_⟩
  · rw [hjournal, List.foldl_append, h.calls_eq, List.foldl_append, foldl_openCalls_of_quiet hes]
    rfl
  · rw [haround]
    exact h.begun d outer (hsuffix.trans (List.suffix_cons _ _))
  · rw [haround]
    by_cases hd : d = c
    · subst hd
      rw [h.begun d calls List.suffix_rfl]
      exact hsettled e' he' hresolved
    · exact h.settled d e' (hothers d hd ▸ he') hresolved

section Returning

variable {q : Progress} {owner : String} {signature : Option String}
  (h : p.Chronicle r (some (.ofClass c) :: calls) q.workspace)

include h

/-- A call returns whose resolution has failed. -/
theorem failed (e : ResolveError)
    (hgrounded : p.Grounded r (q.workspace.registry.unmark (.ofClass c)))
    (hbusy : (q.workspace.registry.unmark (.ofClass c)).beingResolved = classesAmong calls) :
    p.Chronicle r calls (returning (.ofClass c) owner signature
      (.error e, closing (.ofClass c) (.error e, q))) := by
  refine h.returned [.ended (.ofClass c), .reported (e.diagnostic owner signature)] false
    (by simp [IsQuiet, openCalls]) ?_ hgrounded hbusy
    (fun d hd => Registry.classAt?_unmark_of_ne _ (by simpa using Ne.symm hd)) ?_
  · simp [returning, closing, Except.isOk, Except.toBool]
  · -- the class was marked, and it is unresolved now
    intro e' he' hresolved
    have hmarked : q.workspace.registry.stage? (.ofClass c) = some .resolving := by
      change c ∈ q.workspace.registry.beingResolved
      rw [h.busy_eq]
      exact List.mem_cons_self
    have hstage : (q.workspace.registry.unmark (.ofClass c)).stage? (.ofClass c) = some .resolved :=
      Option.map_eq_some_iff.2 ⟨e', he', hresolved⟩
    rw [Registry.unmark, if_pos hmarked, Registry.stage?_setStage, hmarked] at hstage
    cases hstage

/-- A call returns whose resolution has committed. -/
theorem committed {f : ClassEntry → ClassEntry} (n : Note)
    (hgrounded : p.Grounded r (q.workspace.registry.modifyClass c f))
    (hbusy : (q.workspace.registry.modifyClass c f).beingResolved = classesAmong calls)
    (hsettled : ∃ e', (q.workspace.registry.modifyClass c f).classAt? c = some e' ∧
      p.Settled r (classesAmong (some (.ofClass c) :: calls)) c e') :
    p.Chronicle r calls (returning (.ofClass c) owner signature
      (.ok (), closing (.ofClass c) (.ok (), ((commit (·.modifyClass c f) n).outcome q).2))) := by
  refine h.returned [.noted n, .ended (.ofClass c)] true (by simp [IsQuiet, openCalls]) ?_
    hgrounded hbusy (fun d hd => Registry.classAt?_modifyClass_of_ne _ hd _) ?_
  · simp [returning, closing, toList_commit, Except.isOk, Except.toBool]
  · intro e' he' _
    obtain ⟨e₁, he₁, hc⟩ := hsettled
    cases he₁.symm.trans he'
    exact hc

end Returning

end Chronicle

/-! ### One call -/

/-- A way to answer requests that can be told of, where at most `depth` classes are
unresolved. -/
structure Answering (p : Pool) (r : Registry) (depth : Nat) (ask : ClassId → Work Bool) : Prop where
  way : ∀ c, Work.Evolves (p.Partway r) (ask c)
  grounded : ∀ c, Work.Evolves (p.Grounded r) (ask c)
  obtains : (∀ d, p.Fits r d) → p.Obtains r depth ask
  chronicle : ∀ c calls w, w.registry.stage? (.ofClass c) = some .unresolved →
    w.registry.unresolvedCount ≤ depth → p.Chronicle r calls w → p.Chronicle r calls (ask c w).2

section Call

variable {q q' : Progress} (hn : ∀ c, TypeParam.Numbered (.ofClass c) (r.typeParams (.ofClass c)))

/-- What a class comes to that is resolved from its header. -/
theorem settled_of_header (hway : ∀ c, Work.Evolves (p.Partway r) (res.ask c))
    (hbegun : p.Partway r q.workspace.registry) (hc : q.workspace.registry.classAt? c = some entry)
    (hmarked : entry.stage = .resolving) (hsignature : p.signature? r c = none)
    (hout : (res.resolveClassHeader c).outcome q = (.ok (), q')) (busy : Set ClassId) :
    ∃ e', q'.workspace.registry.classAt? c = some e' ∧ p.Settled r busy c e' := by
  have hends := Resolution.ends_resolveClassHeader hway hc (by simp [hmarked]) q (.refl _ _)
  rw [hout] at hends
  obtain ⟨q₁, hq₁, hcommits⟩ := hends
  have hkept := hq₁.1.classAt?_eq_some hc (by simp [hmarked])
  generalize hleft : q'.workspace.registry = r' at hcommits
  cases hcommits with
  | classHeader found superclass_eq interfaces_eq =>
    cases hc.symm.trans found
    refine ⟨_, ?_, settled_of_unsigned busy hbegun hsignature hc hmarked superclass_eq
      interfaces_eq⟩
    rw [Registry.classAt?_modifyClass_self, hkept]
    rfl

include hn in
/-- **What a class comes to** whose resolution succeeds. -/
theorem settled_of_body (hon : res.options.resolveReferenced = true)
    (hverify : res.options.verifyErasure = p.options.verifyErasure)
    (hask : p.Answering r depth res.ask) (hbegun : p.Grounded r q.workspace.registry)
    (hcount : q.workspace.registry.unresolvedCount ≤ depth) (hfresh : q.requested = [])
    (hc : q.workspace.registry.classAt? c = some entry) (hmarked : entry.stage = .resolving)
    (hout : (res.body (.ofClass c) (p.signature? r c)).outcome q = (.ok (), q')) :
    ∃ e', q'.workspace.registry.classAt? c = some e' ∧
      p.Settled r q.workspace.registry.beingResolved c e' := by
  rcases hsignature : p.signature? r c with _ | text
  · rw [hsignature] at hout
    exact settled_of_header hask.way hbegun.way hc hmarked hsignature hout _
  · rw [hsignature] at hout
    change (res.resolveClassText c text).outcome q = _ at hout
    have hok := congrArg Prod.fst hout
    obtain ⟨sig, hparse, hform, -⟩ :=
      (classText_eq_ok_iff hask.way hverify hbegun.way hc hmarked).1 hok
    obtain ⟨types, htypes, hleft⟩ := exists_types_of_classText hask.way hc hmarked hparse hok
    rw [hout] at hleft
    refine ⟨_, hleft, settled_of_signature hn (fun hfits => ?_) hbegun
      (evolves_reading hask.grounded c q) hc hmarked hsignature hparse hform htypes⟩
    exact (shows_reading hon hask.way (hask.obtains hfits) hbegun.way hcount hfresh c).2

/-- What goes on in a resolution is told of. -/
theorem steady_chronicle (hask : p.Answering r depth res.ask) : res.Steady fun q =>
    p.Chronicle r calls q.workspace ∧ q.workspace.registry.unresolvedCount ≤ depth where
  request c q hq := by
    rw [Resolution.request_apply]
    split
    · rename_i hrequest
      simp only [Bool.and_eq_true] at hrequest
      have hasked : p.Chronicle r calls (Resolution.asking c q).workspace :=
        hq.1.record fun _ => rfl
      have hanswered : p.Chronicle r calls (res.answered c q).workspace :=
        hask.chronicle c calls _ (Registry.isUnresolved_iff.1 hrequest.1.2) hq.2 hasked
      have hcount := (hask.way c (Resolution.asking c q).workspace).1.unresolvedCount_le.trans hq.2
      split
      · exact ⟨hanswered, hcount⟩
      · exact ⟨hanswered.record fun _ => rfl, hcount⟩
    · exact hq
  warn _ _ _ hq := ⟨hq.1.record fun _ => rfl, hq.2⟩
  noteCycle := keeps_noteCycle fun _ _ hq => ⟨hq.1.record fun _ => rfl, hq.2⟩

include hn in
/-- **One call** is told of. -/
theorem chronicle_call (hon : p.options.resolveReferenced = true) (hask : p.Answering r depth ask)
    (hcount : w.registry.unresolvedCount ≤ depth + 1)
    (h : p.Chronicle r calls w) (c : ClassId) :
    p.Chronicle r calls (resolveClassAsking ask p.options c (p.signature? r c) w).2 := by
  have hevolves : w.registry.Evolves (p.Grounded r)
      (resolveClassAsking ask p.options c (p.signature? r c) w).2.registry :=
    resolveClassAsking_evolves (stable_grounded hn) hask.grounded fun _ => rfl
  have hgrounded := hevolves.2 h.grounded
  have hbusy := hevolves.1.beingResolved_eq.trans h.busy_eq
  rw [← resolveAsking_ofClass, resolveAsking] at hgrounded hbusy ⊢
  rcases hm : w.registry.mark (.ofClass c) with e | marked
  · let owner := w.registry.targetName (.ofClass c)
    rw [resolveBy_of_mark_error _ _ _ _ hm]
    refine h.aside [.called (.ofClass c), .reported (e.diagnostic owner (p.signature? r c)),
      .returned (.ofClass c) false] rfl (by simp) (returning_registry _ _ _ _) ?_
    simp [returning, owner, Except.isOk, Except.toBool]
  · have hs := (Registry.mark_eq_ok.1 hm).1
    obtain ⟨e, he, -⟩ := Option.map_eq_some_iff.1 hs
    have hmarked : (beginning (.ofClass c) w).workspace.registry.classAt? c =
        some { e with stage := .resolving } := by
      change (w.registry.setStage .resolving (.ofClass c)).classAt? c = _
      simp [Registry.setStage, he]
    have hbegun := h.begin hn hs
    have hleft : (beginning (.ofClass c) w).workspace.registry.unresolvedCount ≤ depth :=
      Nat.le_of_succ_le_succ ((Registry.unresolvedCount_mark hs).trans_le hcount)
    have hsteady : Resolution.Steady ⟨p.options, w.registry.targetName (.ofClass c), ask⟩ fun q =>
        p.Chronicle r (some (.ofClass c) :: calls) q.workspace ∧
          q.workspace.registry.unresolvedCount ≤ depth := steady_chronicle hask
    have hcloses := Resolution.closes_body hsteady (.ofClass c) (p.signature? r c)
      (beginning (.ofClass c) w) ⟨hbegun, hleft⟩
    rw [resolveBy_of_mark_ok _ _ _ _ hm] at hgrounded hbusy ⊢
    dsimp only at hgrounded hbusy ⊢
    rw [returning_registry] at hgrounded hbusy
    rcases hout : (Resolution.body ⟨p.options, w.registry.targetName (.ofClass c), ask⟩ (.ofClass c)
      (p.signature? r c)).outcome (beginning (.ofClass c) w) with ⟨e | _, q⟩ <;>
      rw [hout] at hcloses hgrounded hbusy
    · exact hcloses.1.failed e hgrounded hbusy
    · obtain ⟨e', he', hsettled⟩ := settled_of_body hn hon rfl hask hbegun.grounded hleft rfl
        hmarked rfl hout
      rw [hbegun.busy_eq] at hsettled
      obtain ⟨q₁, f, n, ⟨hchronicle, -⟩, hcompletes, rfl⟩ := hcloses
      generalize p.signature? r c = signature at hcompletes
      cases hcompletes with
      | classSignature =>
        exact hchronicle.committed _ hgrounded hbusy ⟨e', he', hsettled⟩
      | classHeader =>
        exact hchronicle.committed _ hgrounded hbusy ⟨e', he', hsettled⟩

end Call

/-! ### Runs -/

section Run

variable (hrefused : p.refused = []) (hredirect : p.redirect = [])
  (hon : p.options.resolveReferenced = true) (hdistinct : r.HasDistinctNames)
  (hn : ∀ c, TypeParam.Numbered (.ofClass c) (r.typeParams (.ofClass c)))

include hrefused hredirect hon hdistinct hn

/-- **However deep calls nest**, what happens in them is told of. -/
theorem answering_askWithin (depth : Nat) :
    p.Answering r depth ((Collaborator.pool p).askWithin depth) := by
  have hserves : (Collaborator.pool p).Serves (p.Grounded r) fun c signature =>
      signature = p.signature? r c := fun r' name c h => p.serves_signature? r r' name c h.way
  have hway := fun depth => (Collaborator.pool p).askWithin_evolves (stable_partway hn)
    (p.serves_signature? r) depth
  have hgrounded := fun depth => (Collaborator.pool p).askWithin_evolves (stable_grounded hn)
    hserves depth
  have hobtains := fun hfits depth => obtains_askWithin (p := p) hrefused hredirect hon hdistinct hn
    hfits depth
  induction depth with
  | zero =>
    refine ⟨hway 0, hgrounded 0, fun hfits => hobtains hfits 0, fun c calls w hs hcount => ?_⟩
    have hpos := Registry.unresolvedCount_pos (Registry.isUnresolved_iff.2 hs)
    omega
  | succ depth ih =>
    refine ⟨hway _, hgrounded _, fun hfits => hobtains hfits _, fun c calls w hs hcount h => ?_⟩
    obtain ⟨e, he, -⟩ := Option.map_eq_some_iff.1 hs
    rw [askWithin_succ hrefused hredirect hdistinct h.grounded.way he]
    have hasked : p.Chronicle r calls (record (.asked c e.name) w).2 := h.record fun _ => rfl
    have hcall := chronicle_call (w := (record (.asked c e.name) w).2) hn hon ih hcount hasked c
    exact hcall.record fun _ => rfl

/-- **A run is told of**, by induction on the order. -/
theorem chronicle_resolveAll (order : List ClassId) (h : p.Chronicle r [] w) :
    p.Chronicle r [] (p.resolveAll order w).2 := by
  induction order generalizing w with
  | nil => exact h
  | cons c order ih =>
    refine ih ?_
    have hcall := chronicle_call hn hon
      (answering_askWithin hrefused hredirect hon hdistinct hn w.registry.unresolvedCount)
      (Nat.le_succ _) h c
    rw [← resolveAsking_ofClass, ← h.grounded.way.signature?_eq] at hcall
    change p.Chronicle r []
      (resolve (.pool p) p.options (.ofClass c) (p.signature? w.registry c) w).2
    rw [resolve_apply]
    exact hcall

end Run

/-- Nothing has been told where nothing has been resolved. -/
theorem chronicle_start (hunresolved : ∀ e ∈ r.classes, e.stage = .unresolved) :
    p.Chronicle r [] { registry := r } := by
  have hstage : ∀ c e, r.classAt? c = some e → e.stage = .unresolved := fun c e he =>
    hunresolved e (Array.mem_of_getElem? he)
  have hnone : ∀ c s, r.stage? (.ofClass c) = some s → s = .unresolved := fun c s hs => by
    obtain ⟨e, he, rfl⟩ := Option.map_eq_some_iff.1 hs
    exact hstage c e he
  refine ⟨⟨.refl fun c e he => by simp [hstage c e he], fun c hc => ?_⟩, rfl, ?_, ?_, ?_⟩
  · cases hnone c _ (not_not.1 hc)
  · ext c
    exact iff_of_false (fun hs => nomatch hnone c _ hs) List.not_mem_nil
  · intro c outer hsuffix
    cases List.suffix_nil.1 hsuffix
  · intro c e' he' hresolved
    cases (hstage c e' he').symm.trans hresolved

/-- **Where every class is resolved in the end**, a class comes to what its signature means
when names are read lexically just if nothing was in the way when it was last begun. -/
theorem Chronicle.lexically_iff (h : p.Chronicle r calls w)
    (hresolved : ∀ e ∈ w.registry.classes, e.stage = .resolved) (he : r.classAt? c = some entry) :
    ∃ e', w.registry.classAt? c = some e' ∧
      (p.Lexically r c entry e' ↔ p.IsClear r (classesAmong (w.callsAround c)) c) := by
  have hend : ∀ d e, r.classAt? d = some e → ∃ e', w.registry.classAt? d = some e' ∧
      p.Settled r (classesAmong (w.callsAround d)) d e' := by
    intro d e hd
    obtain ⟨e', he', -⟩ := h.grounded.way.exists_classAt? hd
    exact ⟨e', he', h.settled d e' he' (hresolved e' (Array.mem_of_getElem? he'))⟩
  have hfits : ∀ d, p.Fits r d := by
    intro d text htext
    rcases hd : r.classAt? d with _ | e
    · rw [signature?, hd] at htext
      cases htext
    · obtain ⟨_, -, hsettled⟩ := hend d e hd
      exact hsettled.fits text htext
  obtain ⟨e', he', hsettled⟩ := hend c entry he
  exact ⟨e', he', hsettled.lexically_iff hfits entry he⟩

/-- **When two orders of resolution agree.** Let all classes be resolved in the end, in either
order. In each of the two runs a class comes to what its signature means when names are read
lexically just if nothing was in the way when it was last begun: that is, if each name that its
signature borrows was declared innermost by a class that could be obtained then. So two orders
come to the same for a class if nothing was in its way in either. -/
theorem resolveAll_lexically_iff (p : Pool) (r : Registry) (order order' : List ClassId)
    (hrefused : p.refused = []) (hredirect : p.redirect = [])
    (hon : p.options.resolveReferenced = true) (hnames : r.HasDistinctNames)
    (hnumbered : r.IsNumbered) (hunresolved : ∀ e ∈ r.classes, e.stage = .unresolved)
    (hresolved : ∀ e ∈ (p.resolveAll order { registry := r }).2.registry.classes,
      e.stage = .resolved)
    (hresolved' : ∀ e ∈ (p.resolveAll order' { registry := r }).2.registry.classes,
      e.stage = .resolved) {c : ClassId} {e : ClassEntry} (he : r.classAt? c = some e) :
    let w := (p.resolveAll order { registry := r }).2
    let w' := (p.resolveAll order' { registry := r }).2
    ∃ e₁ e₂, w.registry.classAt? c = some e₁ ∧ w'.registry.classAt? c = some e₂ ∧
      (p.Lexically r c e e₁ ↔ p.IsClear r (classesAmong (w.callsAround c)) c) ∧
      (p.Lexically r c e e₂ ↔ p.IsClear r (classesAmong (w'.callsAround c)) c) ∧
      (p.IsClear r (classesAmong (w.callsAround c)) c →
        p.IsClear r (classesAmong (w'.callsAround c)) c → e₁ = e₂) := by
  have hn : ∀ c, TypeParam.Numbered (.ofClass c) (r.typeParams (.ofClass c)) := fun c =>
    hnumbered (.ofClass c)
  have hrun := fun order => chronicle_resolveAll hrefused hredirect hon hnames hn order
    (chronicle_start hunresolved)
  obtain ⟨e₁, he₁, hiff₁⟩ := (hrun order).lexically_iff hresolved he
  obtain ⟨e₂, he₂, hiff₂⟩ := (hrun order').lexically_iff hresolved' he
  exact ⟨e₁, e₂, he₁, he₂, hiff₁, hiff₂, fun hclear hclear' =>
    Outcome.unique (hiff₁.2 hclear) (hiff₂.2 hclear')⟩

/-- A pool whose class `B`, declared in `A`, comes out differently in two orders: nothing is in
the way of it in the first, and in the second it is begun while `A` is being resolved. For `A`
nothing is in the way in either. -/
theorem resolveAll_lexically_of_hidden :
    let p : Pool :=
      { options := {}, signatures := [("O", "<T:>LO;"), ("A", "<T:>LB;"), ("B", "<U:TT;>LO;")] }
    let r : Registry := .ofHeaders [{ name := "O" }, { name := "A", enclosing := some ⟨0⟩ },
      { name := "B", enclosing := some ⟨1⟩ }]
    let w := (p.resolveAll [⟨2⟩, ⟨1⟩, ⟨0⟩] { registry := r }).2
    let w' := (p.resolveAll [⟨1⟩, ⟨2⟩, ⟨0⟩] { registry := r }).2
    w.registry.classAt? ⟨1⟩ = w'.registry.classAt? ⟨1⟩ ∧
      ∃ e e₁ e₂, r.classAt? ⟨2⟩ = some e ∧ w.registry.classAt? ⟨2⟩ = some e₁ ∧
        w'.registry.classAt? ⟨2⟩ = some e₂ ∧ p.Lexically r ⟨2⟩ e e₁ ∧ ¬p.Lexically r ⟨2⟩ e e₂ := by
  intro p r w w'
  have hresolved : ∀ e ∈ w.registry.classes, e.stage = .resolved := by decide +kernel
  have hresolved' : ∀ e ∈ w'.registry.classes, e.stage = .resolved := by decide +kernel
  have hunresolved : ∀ e ∈ r.classes, e.stage = .unresolved := by decide +kernel
  have hconsistent : r.Consistent := Registry.consistent_ofHeaders _
  have hnothing : p.borrowedNames r ⟨1⟩ = [] := by decide +kernel
  constructor
  · have hclear : ∀ busy, p.IsClear r busy ⟨1⟩ := by
      intro busy name hname
      rw [hnothing] at hname
      cases hname
    obtain ⟨e, he⟩ := Option.isSome_iff_exists.1 (by decide +kernel : (r.classAt? ⟨1⟩).isSome)
    obtain ⟨e₁, e₂, he₁, he₂, -, -, heq⟩ := resolveAll_lexically_iff p r [⟨2⟩, ⟨1⟩, ⟨0⟩]
      [⟨1⟩, ⟨2⟩, ⟨0⟩] rfl rfl rfl hconsistent.names hconsistent.numbered hunresolved hresolved
      hresolved' he
    exact he₁.trans (heq (hclear _) (hclear _) ▸ he₂.symm)
  · have hborrowed : p.borrowedNames r ⟨2⟩ = ["T"] := by decide +kernel
    have hdeclarer : p.declarer? r ⟨2⟩ "T" = some ⟨1⟩ := by decide +kernel
    have hcalls : w.callsAround ⟨2⟩ = [some (.ofClass ⟨2⟩)] := by decide +kernel
    have hcalls' : w'.callsAround ⟨2⟩ = [some (.ofClass ⟨2⟩), some (.ofClass ⟨1⟩)] := by
      decide +kernel
    obtain ⟨e, he⟩ := Option.isSome_iff_exists.1 (by decide +kernel : (r.classAt? ⟨2⟩).isSome)
    obtain ⟨e₁, e₂, he₁, he₂, hiff₁, hiff₂, -⟩ := resolveAll_lexically_iff p r [⟨2⟩, ⟨1⟩, ⟨0⟩]
      [⟨1⟩, ⟨2⟩, ⟨0⟩] rfl rfl rfl hconsistent.names hconsistent.numbered hunresolved hresolved
      hresolved' he
    refine ⟨e, e₁, e₂, he, he₁, he₂, hiff₁.2 ?_, fun hlexical => ?_⟩
    · intro name hname a ha
      rw [hborrowed, List.mem_singleton] at hname
      cases hname
      cases hdeclarer.symm.trans ha
      have hidle : ⟨1⟩ ∉ classesAmong (w.callsAround ⟨2⟩) := by
        rw [hcalls]
        simp [classesAmong]
      exact obtainable_of_exists hidle (by simp [hnothing])
    · -- `A` shows no type parameters yet, and cannot be resolved either
      have hhidden := hiff₂.1 hlexical "T" (by simp [hborrowed]) ⟨1⟩ hdeclarer
      cases hhidden with
      | known shown =>
        have hne : r.paramNames ⟨1⟩ ≠ p.declaredNames r ⟨1⟩ := by decide +kernel
        exact hne shown
      | resolvable idle =>
        have hbusy : ⟨1⟩ ∈ classesAmong (w'.callsAround ⟨2⟩) := by
          rw [hcalls']
          simp [classesAmong]
        exact idle hbusy

end Pool

end JavaGenerics
