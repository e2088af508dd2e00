import JavaGenerics.Proofs.Parallel

/-!
# Resolution on demand ends

A resolution may ask for a class, whose resolution asks again, and so on; a pool may
answer for another class than it was asked for, and a class that failed may be asked for
again. Nothing about a request gets smaller. Still the recursion ends, and
`JavaGenerics.Workspace.resolve_terminates` says in what sense:

* unrolled as often as there are unresolved classes, the recursion never reaches its
  bottom, whatever is put there (`JavaGenerics.Collaborator.unrolled`);
* what a call computes solves the recursion without any bound: it is what comes out when
  every request is answered by a call of its own;
* at every moment, as the journal has it, the resolutions of classes that have set to
  work and have not returned are at most as many as the classes that were unresolved when
  the call was made (`JavaGenerics.JournalEntry.classesUnderWay`).

The measure is the number of unresolved classes. A class is marked before anything is
asked on its behalf, which lowers the number by one; only an unresolved class is ever
asked for, so the number is positive where a request is made; and a mark is taken away
only when its resolution is over.
-/

namespace JavaGenerics

open Attempt

/-! ### Counting unresolved classes -/

/-- How many classes a call for a declaration is about: one, or none if it is for a
member. -/
def Target.weight : Target → Nat
  | .ofClass _ => 1
  | .ofMethod _ => 0
  | .ofField _ => 0

/-- A change of one element of a list changes a count by what the element counts. -/
theorem countP_modify {α : Type} (p : α → Bool) (f : α → α) {as : List α} {i : Nat} {a : α}
    (h : as[i]? = some a) :
    (as.modify i f).countP p + (if p a then 1 else 0) =
      as.countP p + if p (f a) then 1 else 0 := by
  induction as generalizing i with
  | nil => simp at h
  | cons b as ih =>
    cases i with
    | zero =>
      obtain rfl : b = a := by simpa using h
      simp only [List.modify_zero_cons, List.countP_cons]
      omega
    | succ i =>
      have htail := ih (i := i) (by simpa using h)
      simp only [List.modify_succ_cons, List.countP_cons]
      omega

namespace Registry

variable {r : Registry} {c : ClassId} {t : Target}

theorem unresolvedCount_modifyClass {e : ClassEntry} (he : r.classAt? c = some e)
    (f : ClassEntry → ClassEntry) :
    (r.modifyClass c f).unresolvedCount + (if e.stage = .unresolved then 1 else 0) =
      r.unresolvedCount + if (f e).stage = .unresolved then 1 else 0 := by
  have hlist : r.classes.toList[c.index]? = some e := by simpa [classAt?] using he
  have hcount := countP_modify (fun e : ClassEntry => e.stage == .unresolved) f hlist
  simpa [unresolvedCount, modifyClass, Array.toList_modify] using hcount

/-- A class that is not registered cannot be changed. -/
theorem modifyClass_of_none (h : r.classAt? c = none)
    (f : ClassEntry → ClassEntry) : r.modifyClass c f = r := by
  have hclasses : r.classes.modify c.index f = r.classes := by
    refine Array.ext_getElem? fun i => ?_
    rw [Array.getElem?_modify]
    split
    · rename_i hi
      rw [← hi, show r.classes[c.index]? = none from h]
      rfl
    · rfl
  rw [modifyClass, hclasses]

/-- A mark on a class lowers the number of unresolved classes by one. -/
theorem unresolvedCount_mark (h : r.stage? t = some .unresolved) :
    (r.setStage .resolving t).unresolvedCount + t.weight = r.unresolvedCount := by
  cases t with
  | ofClass c =>
    obtain ⟨e, he, hs⟩ := Option.map_eq_some_iff.1 h
    have hcount := unresolvedCount_modifyClass he fun e => { e with stage := .resolving }
    simp only [hs, reduceCtorEq, if_false, if_true] at hcount
    exact hcount
  | ofMethod m => rfl
  | ofField f => rfl

/-- Where a class is unresolved, the number of unresolved classes is positive. -/
theorem unresolvedCount_pos (h : r.isUnresolved c = true) : 0 < r.unresolvedCount := by
  have hstage : r.stage? (.ofClass c) = some .unresolved := by
    unfold isUnresolved at h
    rcases he : r.classAt? c with _ | e
    · simp [he] at h
    · simpa [stage?, he] using h
  rw [← unresolvedCount_mark hstage]
  exact Nat.succ_pos _

/-- To take a mark away raises the number of unresolved classes by one at most. -/
theorem unresolvedCount_unmark_le (r : Registry) (t : Target) :
    (r.unmark t).unresolvedCount ≤ r.unresolvedCount + t.weight := by
  unfold unmark
  split
  · rename_i hs
    cases t with
    | ofClass c =>
      obtain ⟨e, he, hstage⟩ := Option.map_eq_some_iff.1 hs
      have hcount := unresolvedCount_modifyClass he fun e => { e with stage := .unresolved }
      simp only [hstage, reduceCtorEq, if_false, if_true] at hcount
      exact Nat.le_of_eq hcount
    | ofMethod m => exact Nat.le_add_right _ _
    | ofField f => exact Nat.le_add_right _ _
  · exact Nat.le_add_right _ _

/-- Nothing that is committed raises the number of unresolved classes. -/
theorem Fills.unresolvedCount_le {f : Registry → Registry} (hf : Fills f) (r : Registry) :
    (f r).unresolvedCount ≤ r.unresolvedCount := by
  cases hf with
  | @ofClass c f hf =>
    change (r.modifyClass c f).unresolvedCount ≤ _
    rcases he : r.classAt? c with _ | e
    · exact Nat.le_of_eq (congrArg unresolvedCount (modifyClass_of_none he f))
    · have hcount := unresolvedCount_modifyClass he f
      simp only [hf e, reduceCtorEq, if_false] at hcount
      omega
  | ofMethod m f => exact Nat.le_refl _
  | ofField x f => exact Nat.le_refl _

end Registry

/-! ### Calls under way -/

namespace JournalEntry

/-- The calls that have not returned, innermost first, each with the declaration that it
has set to work on, if it has. -/
def openCalls (calls : List (Option Target)) : JournalEntry → List (Option Target)
  | called _ => none :: calls
  | began t => some t :: calls.tail
  | returned _ _ => calls.tail
  | _ => calls

/-- How many of the calls that have not returned have set to work on a class. -/
def classesUnderWay : (calls : List (Option Target)) → Nat
  | [] => 0
  | call :: calls => classesUnderWay calls + call.elim 0 Target.weight

/-- Whether the number of classes under way stays within a bound all along some entries. -/
def Within (bound : Nat) : List (Option Target) → List JournalEntry → Prop
  | calls, [] => classesUnderWay calls ≤ bound
  | calls, e :: es => classesUnderWay calls ≤ bound ∧ Within bound (openCalls calls e) es

/-- **Entries that nest at most `depth` deep**: all calls that begin in them return, and
never more than `depth` classes are under way besides those that were before. -/
structure Nested (depth : Nat) (es : List JournalEntry) : Prop where
  closed : ∀ calls, es.foldl openCalls calls = calls
  within : ∀ calls, Within (classesUnderWay calls + depth) calls es

/-- An entry that neither opens nor closes a call. -/
def IsQuiet (e : JournalEntry) : Prop := ∀ calls, openCalls calls e = calls

variable {depth depth' bound bound' : Nat} {calls : List (Option Target)}
  {e : JournalEntry} {es es' : List JournalEntry}

theorem Within.mono (hb : bound ≤ bound') (h : Within bound calls es) :
    Within bound' calls es := by
  induction es generalizing calls with
  | nil => exact Nat.le_trans h hb
  | cons e es ih => exact ⟨Nat.le_trans h.1 hb, ih h.2⟩

theorem Within.start (h : Within bound calls es) : classesUnderWay calls ≤ bound := by
  cases es with
  | nil => exact h
  | cons e es => exact h.1

theorem Within.append (h : Within bound calls es)
    (h' : Within bound (es.foldl openCalls calls) es') : Within bound calls (es ++ es') := by
  induction es generalizing calls with
  | nil => exact h'
  | cons e es ih => exact ⟨h.1, ih h.2 h'⟩

/-- What stays within a bound all along does so at any moment. -/
theorem Within.of_initial (h : Within bound calls es) (hpre : es' <+: es) :
    classesUnderWay (es'.foldl openCalls calls) ≤ bound := by
  induction es' generalizing calls es with
  | nil => exact h.start
  | cons e' es' ih =>
    obtain ⟨left, rfl⟩ := hpre
    exact ih h.2 ⟨left, rfl⟩

theorem nested_nil : Nested depth [] := ⟨fun _ => rfl, fun _ => Nat.le_add_right _ _⟩

theorem Nested.mono (hd : depth ≤ depth') (h : Nested depth es) : Nested depth' es :=
  ⟨h.closed, fun calls => (h.within calls).mono (Nat.add_le_add_left hd _)⟩

theorem Nested.append (h : Nested depth es) (h' : Nested depth es') : Nested depth (es ++ es') where
  closed calls := by rw [List.foldl_append, h.closed, h'.closed]
  within calls := by
    refine (h.within calls).append ?_
    rw [h.closed]
    exact h'.within calls

theorem IsQuiet.nested (h : IsQuiet e) : Nested depth [e] where
  closed calls := h calls
  within calls := by
    refine ⟨Nat.le_add_right _ _, ?_⟩
    rw [h]
    exact Nat.le_add_right _ _

/-- A call that is refused. -/
theorem Nested.refused {t : Target} {ok : Bool} (h : Nested depth es) :
    Nested depth (called t :: (es ++ [returned t ok])) where
  closed calls := by
    rw [List.foldl_cons, List.foldl_append, h.closed]
    rfl
  within calls := by
    refine ⟨Nat.le_add_right _ _, (h.within (none :: calls)).append ?_ |>.mono ?_⟩
    · rw [h.closed]
      exact ⟨Nat.le_add_right _ _, by simp [openCalls, Within, classesUnderWay]⟩
    · simp [classesUnderWay]

/-- **A call that sets to work** adds one to the nesting if it is for a class. -/
theorem Nested.worked {t : Target} {ok : Bool} (h : Nested depth es) :
    Nested (depth + t.weight) (called t :: began t :: (es ++ [returned t ok])) where
  closed calls := by
    rw [List.foldl_cons, List.foldl_cons, List.foldl_append, h.closed]
    rfl
  within calls := by
    have hopen : classesUnderWay (some t :: calls) = classesUnderWay calls + t.weight := by
      simp [classesUnderWay]
    have hnone : classesUnderWay (none :: calls) = classesUnderWay calls := by
      simp [classesUnderWay]
    refine ⟨Nat.le_add_right _ _, ⟨hnone ▸ Nat.le_add_right _ _, ?_⟩⟩
    refine ((h.within (some t :: calls)).append ?_).mono (by omega)
    rw [h.closed]
    exact ⟨Nat.le_add_right _ _, show classesUnderWay calls ≤ _ by omega⟩

end JournalEntry

open JournalEntry

namespace Workspace

/-- From `w` to `w'` the journal has grown by entries that nest at most `depth` deep. -/
def Logs (depth : Nat) (w w' : Workspace) : Prop :=
  ∃ es, w'.journal.toList = w.journal.toList ++ es ∧ Nested depth es

variable {depth depth' : Nat} {w w' w'' : Workspace}

theorem Logs.refl (depth : Nat) (w : Workspace) : Logs depth w w :=
  ⟨[], (List.append_nil _).symm, nested_nil⟩

theorem Logs.trans (h : Logs depth w w') (h' : Logs depth w' w'') : Logs depth w w'' := by
  obtain ⟨es, hw', hes⟩ := h
  obtain ⟨es', hw'', hes'⟩ := h'
  exact ⟨es ++ es', by rw [hw'', hw', List.append_assoc], hes.append hes'⟩

theorem Logs.mono (hd : depth ≤ depth') (h : Logs depth w w') : Logs depth' w w' := by
  obtain ⟨es, hw', hes⟩ := h
  exact ⟨es, hw', hes.mono hd⟩

theorem logs_record {e : JournalEntry} (he : IsQuiet e) (w : Workspace) :
    Logs depth w (record e w).2 :=
  ⟨[e], Array.toList_push, he.nested⟩

theorem logs_noteCycle (c : ClassId) (w : Workspace) : Logs depth w (noteCycle c w).2 := by
  rw [noteCycle_apply]
  split
  · exact logs_record (fun _ => rfl) w
  · exact .refl depth w

end Workspace

open Workspace

/-! ### Answers that agree -/

/-- **Two ways to answer requests that agree** as long as at most `depth` classes are
unresolved: asked for an unresolved class they do the same, the number of unresolved
classes does not grow, and what happens nests at most as deep as it says. -/
def Answers (depth : Nat) (ask ask' : ClassId → Work Bool) : Prop :=
  ∀ c w, w.registry.isUnresolved c = true → w.registry.unresolvedCount ≤ depth →
    ask c w = ask' c w ∧
      (ask c w).2.registry.unresolvedCount ≤ w.registry.unresolvedCount ∧
      Logs w.registry.unresolvedCount w (ask c w).2

/-- The states of a resolution that began in `w`, in which at most `depth` classes are
unresolved and nothing has nested deeper. -/
structure Progress.Under (depth : Nat) (w : Workspace) (p : Progress) : Prop where
  count : p.workspace.registry.unresolvedCount ≤ depth
  logs : Logs depth w p.workspace

namespace Resolution

variable {res : Resolution} {ask' : ClassId → Work Bool} {depth : Nat} {w : Workspace}

/-- An entry that opens and closes no call may be made at any time. -/
theorem keeps_record {e : JournalEntry} (he : IsQuiet e) :
    Keeps (Progress.Under depth w) (work (Workspace.record e)) :=
  fun _ hp => ⟨hp.count, hp.logs.trans (logs_record he _)⟩

theorem alike_request (h : Answers depth res.ask ask') (c : ClassId) :
    Alike (Same (Progress.Under depth w)) (res.request c)
      (Resolution.request { res with ask := ask' } c) := by
  rintro p _ ⟨rfl, hp⟩
  refine ⟨rfl, ?_⟩
  rw [request_apply, request_apply]
  dsimp only
  by_cases hask : (res.options.resolveReferenced && p.workspace.registry.isUnresolved c
      && !p.requested.contains c) = true
  · rw [if_pos hask, if_pos hask]
    simp only [Bool.and_eq_true] at hask
    -- the class is still unresolved when it is asked for
    have hunresolved : (asking c p).workspace.registry.isUnresolved c = true := hask.1.2
    have hasking : Progress.Under depth w (asking c p) :=
      ⟨hp.count, hp.logs.trans (logs_record (fun _ => rfl) _)⟩
    obtain ⟨hsame, hcount, hlogs⟩ := h c (asking c p).workspace hunresolved hasking.count
    have hanswered : Resolution.answered { res with ask := ask' } c p = res.answered c p := by
      unfold Resolution.answered
      rw [hsame]
    have hafter : Progress.Under depth w (res.answered c p) :=
      ⟨Nat.le_trans hcount hasking.count, hasking.logs.trans (hlogs.mono hasking.count)⟩
    simp only [← hsame, hanswered]
    split
    · exact ⟨rfl, hafter⟩
    · exact ⟨rfl, keeps_record (fun _ => rfl) _ hafter⟩
  · rw [if_neg hask, if_neg hask]
    exact ⟨rfl, hp⟩

/-- Resolutions whose requests are answered alike go in lockstep. -/
theorem lockstep_of_answers (res : Resolution) (h : Answers depth res.ask ask') :
    res.Lockstep { res with ask := ask' } (Progress.Under depth w) where
  parallel :=
    { request := alike_request h
      warnArity := fun c supplied => Keeps.alike (x := res.warnArity c supplied)
        (keeps_warnArity (fun _ _ => keeps_record fun _ => rfl) c supplied)
      noteCycle := fun c => Keeps.alike fun p hp =>
        ⟨(Workspace.noteCycle_registry c p.workspace).symm ▸ hp.count,
          hp.logs.trans (logs_noteCycle c _)⟩
      agrees := by
        rintro p _ ⟨rfl, -⟩
        exact .refl _ }
  warn := fun _ => keeps_record fun _ => rfl
  commits := fun f n p hf hp =>
    ⟨Nat.le_trans (hf.unresolvedCount_le _) hp.count, hp.logs.trans (logs_record (fun _ => rfl) _)⟩
  options := rfl
  owner := rfl

end Resolution

/-! ### One call -/

namespace Workspace

variable {ask ask' : ClassId → Work Bool} {options : Options} {t : Target}
  {signature : Option String} {w : Workspace} {depth : Nat}

theorem toList_beginning (t : Target) (w : Workspace) :
    (beginning t w).workspace.journal.toList = w.journal.toList ++ [.called t, .began t] := by
  change ((w.journal.push (.called t)).push (.began t)).toList = _
  simp

theorem logs_closing {p : Progress} (out : Except ResolveError Unit)
    (h : Logs depth w p.workspace) : Logs depth w (closing t (out, p)) := by
  cases out with
  | error e => exact h.trans (logs_record (fun _ => rfl) { p.workspace with registry := _ })
  | ok _ => exact h.trans (logs_record (fun _ => rfl) _)

/-- The number of unresolved classes when the mark of a resolution has been taken away, or
has been overwritten. -/
theorem unresolvedCount_closing_le {p : Progress} (out : Except ResolveError Unit)
    (h : p.workspace.registry.unresolvedCount ≤ depth) :
    (closing t (out, p)).registry.unresolvedCount ≤ depth + t.weight := by
  cases out with
  | error e =>
    exact Nat.le_trans (Registry.unresolvedCount_unmark_le _ t) (Nat.add_le_add_right h _)
  | ok _ => exact Nat.le_trans h (Nat.le_add_right _ _)

/-- How a call that was opened by `opening` shows in the journal when it has returned. -/
theorem logs_returning {w₁ : Workspace} (opening : List JournalEntry) {owner : String}
    {out : Except ResolveError Unit × Workspace} {depth' : Nat}
    (hw₁ : w₁.journal.toList = w.journal.toList ++ opening) (h : Logs depth w₁ out.2)
    (hnested : ∀ es ok, Nested depth es → Nested depth' (opening ++ (es ++ [.returned t ok]))) :
    Logs depth' w (returning t owner signature out) := by
  have hreported : ∃ v, Logs depth w₁ v ∧
      returning t owner signature out = (record (.returned t out.1.isOk) v).2 := by
    rcases out with ⟨e | _, v⟩
    · exact ⟨_, h.trans (logs_record (fun _ => rfl) v), rfl⟩
    · exact ⟨v, h, rfl⟩
  obtain ⟨v, ⟨es, hv, hes⟩, hreturning⟩ := hreported
  refine ⟨opening ++ (es ++ [.returned t out.1.isOk]), ?_, hnested es _ hes⟩
  rw [hreturning, show (record (.returned t out.1.isOk) v).2.journal.toList =
    v.journal.toList ++ [.returned t out.1.isOk] from Array.toList_push, hv, hw₁]
  simp only [List.append_assoc]

/-- **One call**: it does the same whichever of two agreeing ways its requests are
answered in, it does not raise the number of unresolved classes, and it nests at most as
deep as there were unresolved classes. -/
theorem resolveAsking_answers (options : Options) (t : Target) (signature : Option String)
    (w : Workspace) (hask : Answers depth ask ask')
    (hd : w.registry.stage? t = some .unresolved →
      w.registry.unresolvedCount ≤ depth + t.weight) :
    resolveAsking ask options t signature w = resolveAsking ask' options t signature w ∧
      (resolveAsking ask options t signature w).2.registry.unresolvedCount ≤
        w.registry.unresolvedCount ∧
      Logs w.registry.unresolvedCount w (resolveAsking ask options t signature w).2 := by
  unfold resolveAsking
  rcases hm : w.registry.mark t with e | marked
  · rw [resolveBy_of_mark_error _ _ _ _ hm, resolveBy_of_mark_error _ _ _ _ hm]
    refine ⟨rfl, ?_, ?_⟩
    · rw [returning_registry]
      exact Nat.le_refl _
    · exact logs_returning [.called t] Array.toList_push (.refl _ _)
        fun es ok hes => hes.refused
  · obtain ⟨hs, -⟩ := Registry.mark_eq_ok.1 hm
    have hcount := Registry.unresolvedCount_mark hs
    have hle := hd hs
    -- what goes on inside is bounded by the classes that are unresolved behind the mark
    have hinside : Answers (w.registry.setStage .resolving t).unresolvedCount ask ask' :=
      fun c v hc hv => hask c v hc (by omega)
    have hbegin : Progress.Under (w.registry.setStage .resolving t).unresolvedCount
        (beginning t w).workspace (beginning t w) := ⟨Nat.le_refl _, .refl _ _⟩
    obtain ⟨hresult, hstate, hunder⟩ := Resolution.together_body
      (Resolution.lockstep_of_answers ⟨options, w.registry.targetName t, ask⟩ hinside).abreast
      t signature (beginning t w) (beginning t w) ⟨rfl, hbegin⟩
    have hout : (Resolution.body ⟨options, w.registry.targetName t, ask⟩ t signature).outcome
        (beginning t w) = (Resolution.body ⟨options, w.registry.targetName t, ask'⟩ t
          signature).outcome (beginning t w) := Prod.ext hresult hstate
    rw [resolveBy_of_mark_ok _ _ _ _ hm, resolveBy_of_mark_ok _ _ _ _ hm]
    dsimp only
    rw [← hout]
    refine ⟨rfl, ?_, ?_⟩
    · rw [returning_registry, ← hcount]
      exact unresolvedCount_closing_le _ hunder.count
    · rw [← hcount]
      exact logs_returning [.called t, .began t] (toList_beginning t w)
        (logs_closing _ hunder.logs) fun es ok hes => hes.worked

end Workspace

/-! ### Calls inside calls -/

namespace Collaborator

variable {resolve resolve' : Options → ClassId → Option String → Work Bool} {w : Workspace}
  {depth : Nat}

/-- A request is answered alike if the resolution that answers it is made alike. -/
theorem answers_answer (k : Collaborator)
    (h : ∀ options c signature (w : Workspace), w.registry.unresolvedCount ≤ depth →
      resolve options c signature w = resolve' options c signature w ∧
        (resolve options c signature w).2.registry.unresolvedCount ≤ w.registry.unresolvedCount ∧
        Logs w.registry.unresolvedCount w (resolve options c signature w).2) :
    Answers depth (k.answer resolve) (k.answer resolve') := by
  -- only a pool resolves anything, and what it resolves depends on the registry alone
  have hpool : ∀ (p : Pool) (name : String) (v : Workspace), v.registry.unresolvedCount ≤ depth →
      p.answer (resolve p.options) name v = p.answer (resolve' p.options) name v ∧
        (p.answer (resolve p.options) name v).2.registry.unresolvedCount ≤
          v.registry.unresolvedCount ∧
        Logs v.registry.unresolvedCount v (p.answer (resolve p.options) name v).2 := by
    intro p name v hv
    unfold Pool.answer
    split
    · exact ⟨rfl, Nat.le_refl _, .refl _ v⟩
    · rw [bind_apply, bind_apply, getRegistry_apply]
      cases v.registry.lookup (p.targetName name) with
      | none => exact ⟨rfl, Nat.le_refl _, .refl _ v⟩
      | some d => exact h p.options d _ v hv
  intro c w _ hw
  have hasked : Logs w.registry.unresolvedCount w
      (record (.asked c (w.registry.className c)) w).2 := logs_record (fun _ => rfl) w
  cases k with
  | silent => exact ⟨rfl, Nat.le_refl _, hasked.trans (logs_record (fun _ => rfl) _)⟩
  | refusing => exact ⟨rfl, Nat.le_refl _, hasked.trans (logs_record (fun _ => rfl) _)⟩
  | pool p =>
    obtain ⟨hsame, hcount, hlogs⟩ := hpool p (w.registry.className c)
      (record (.asked c (w.registry.className c)) w).2 hw
    refine ⟨?_, hcount, (hasked.trans hlogs).trans (logs_record (fun _ => rfl) _)⟩
    simp only [Collaborator.answer, bind_apply, getRegistry_apply, hsame]

/-- Answers requests by the recursion unrolled `depth` times; what lies below is answered
by `bottom`. -/
def unrolled (k : Collaborator) (bottom : ClassId → Work Bool) : (depth : Nat) → ClassId → Work Bool
  | 0 => bottom
  | depth + 1 => k.answer fun options c signature => do
    return (← resolveClassAsking (k.unrolled bottom depth) options c signature).isOk

/-- What a collaborator is granted is such an unrolling. -/
theorem askWithin_eq_unrolled (k : Collaborator) (depth : Nat) :
    k.askWithin depth = k.unrolled (k.answer fun _ _ _ => pure false) depth := by
  induction depth with
  | zero => rfl
  | succ depth ih => rw [askWithin, unrolled, ih]

/-- **The depth makes no difference, nor does the bottom**, where at least as many levels
are unrolled as classes are unresolved. -/
theorem answers_unrolled (k : Collaborator) (bottom bottom' : ClassId → Work Bool)
    {n n' : Nat} (hn : depth ≤ n) (hn' : depth ≤ n') :
    Answers depth (k.unrolled bottom n) (k.unrolled bottom' n') := by
  induction depth generalizing n n' with
  | zero =>
    -- only unresolved classes are asked for, and there are none
    intro c w hc hw
    exact absurd (Registry.unresolvedCount_pos hc) (by omega)
  | succ depth ih =>
    obtain ⟨n, rfl⟩ := Nat.exists_eq_succ_of_ne_zero (by omega : n ≠ 0)
    obtain ⟨n', rfl⟩ := Nat.exists_eq_succ_of_ne_zero (by omega : n' ≠ 0)
    refine answers_answer k fun options c signature w hw => ?_
    obtain ⟨hsame, hcount, hlogs⟩ := resolveAsking_answers options (.ofClass c) signature w
      (ih (Nat.le_of_succ_le_succ hn) (Nat.le_of_succ_le_succ hn')) fun _ => hw
    rw [resolveAsking_ofClass, resolveAsking_ofClass] at hsame
    rw [resolveAsking_ofClass] at hcount hlogs
    refine ⟨?_, hcount, hlogs⟩
    simp only [bind_apply, hsame]

/-- **A request is answered by a call of its own**: there is no need to count levels. -/
theorem answers_call (k : Collaborator) (depth : Nat) :
    Answers depth (k.askWithin depth) (k.answer fun options c signature => do
      return (← resolveClass k options c signature).isOk) := by
  cases depth with
  | zero =>
    intro c w hc hw
    exact absurd (Registry.unresolvedCount_pos hc) (by omega)
  | succ depth =>
    refine answers_answer k fun options c signature w hw => ?_
    have hask : Answers (min depth w.registry.unresolvedCount) (k.askWithin depth)
        (k.askWithin w.registry.unresolvedCount) := by
      rw [askWithin_eq_unrolled, askWithin_eq_unrolled]
      exact answers_unrolled k _ _ (Nat.min_le_left _ _) (Nat.min_le_right _ _)
    obtain ⟨hsame, hcount, hlogs⟩ := resolveAsking_answers options (.ofClass c) signature w
      hask fun _ => show _ ≤ _ + 1 by omega
    rw [resolveAsking_ofClass, resolveAsking_ofClass] at hsame
    rw [resolveAsking_ofClass] at hcount hlogs
    refine ⟨?_, hcount, hlogs⟩
    have hcall : resolveClass k options c signature w =
        resolveClassAsking (k.askWithin w.registry.unresolvedCount) options c signature w := rfl
    simp only [bind_apply, hsame, hcall]

end Collaborator

/-! ### The call from outside -/

/-- **Resolution on demand ends**, for every registry and every collaborator: the
recursion comes to the same however deep it is unrolled and whatever is put at the bottom,
as soon as it is unrolled as often as there are unresolved classes; it comes to what it
does when each request is answered by a call of its own; and at no moment are more
resolutions of classes under way than classes were unresolved. -/
theorem Workspace.resolve_terminates (k : Collaborator) (options : Options) (t : Target)
    (signature : Option String) (w : Workspace) :
    (∀ bottom depth, w.registry.unresolvedCount ≤ depth →
      resolveAsking (k.unrolled bottom depth) options t signature w =
        resolve k options t signature w) ∧
    resolveAsking (k.answer fun options c signature => do
        return (← resolveClass k options c signature).isOk) options t signature w =
      resolve k options t signature w ∧
    ∃ es, (resolve k options t signature w).2.journal.toList = w.journal.toList ++ es ∧
      ∀ es', es' <+: es →
        classesUnderWay (es'.foldl openCalls []) ≤ w.registry.unresolvedCount := by
  rw [resolve_apply]
  have hle : w.registry.stage? t = some .unresolved →
      w.registry.unresolvedCount ≤ w.registry.unresolvedCount + t.weight :=
    fun _ => Nat.le_add_right _ _
  refine ⟨fun bottom depth hdepth => ?_, ?_, ?_⟩
  · have hask := k.answers_unrolled bottom (k.answer fun _ _ _ => pure false) hdepth (Nat.le_refl _)
    rw [← k.askWithin_eq_unrolled] at hask
    exact (resolveAsking_answers options t signature w hask hle).1
  · exact (resolveAsking_answers options t signature w (k.answers_call _) hle).1.symm
  · obtain ⟨-, -, es, hes, hnested⟩ := resolveAsking_answers options t signature w
      (k.answers_call w.registry.unresolvedCount) hle
    refine ⟨es, hes, fun es' hpre => ?_⟩
    simpa [classesUnderWay] using (hnested.within []).of_initial hpre

end JavaGenerics
