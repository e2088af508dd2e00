import JavaGenerics.Proofs.Consistency
import JavaGenerics.Proofs.Repetition

/-!
# The log tells what happened

Of what goes on in a call, three things go to the log: that a class is about to be asked for,
that a class is resolved, and that a method or a field is. Calls are made inside calls, all of
them write to the same log, and an attempt may fail after much has been written. Still the log
of a call can be trusted (`JavaGenerics.Workspace.resolve_truthful`):

* the collaborator is asked for the classes that the log says, and in this order;
* a class is said to be resolved if and only if it was unresolved before the call and is
  resolved behind it; this is said once, in the order of the commits, and with the number of
  type parameters that the class then has;
* of methods and fields the log says nothing, unless it is one of them that the call is for
  and the call succeeds; then it says so once.

Behind this is an account of what some entries of the journal have to do with what became of
the registry meanwhile (`JavaGenerics.Told`). Such accounts can be put together, as a class
that is resolved is not resolved again. A call marks its declaration first, so that what is
told inside is told from the marked registry on; seen from outside the mark is not there
(`JavaGenerics.Told.behind_mark`). What is left is the commit, which is the last thing that a
resolution does (`JavaGenerics.Resolution.closes_body`) and told as it is made.
-/

namespace JavaGenerics

open Attempt Workspace JournalEntry

/-! ### Looking through the log -/

namespace LogRecord

variable (rec : LogRecord)

/-- The record says that a class is about to be asked for. -/
def isRequest : Bool := rec.level == .trace && rec.message == "resolving referenced class"

/-- The record says that a class is resolved. -/
def isClassResolved : Bool :=
  rec.level == .debug && (rec.message == "resolved class signature" ||
    rec.message == "resolved class from erased header")

/-- The record says that a method or a field is resolved. -/
def isMemberResolved : Bool :=
  rec.level == .debug && (rec.message == "resolved method signature" ||
    rec.message == "resolved method from erased descriptor" ||
    rec.message == "resolved field type")

/-- A record at one of the two levels for what goes as it should. -/
def IsRoutine : Prop := rec.level = .trace ∨ rec.level = .debug

variable {rec}

theorem IsRoutine.of_isRequest (h : rec.isRequest = true) : rec.IsRoutine := by
  simp only [isRequest, Bool.and_eq_true, beq_iff_eq] at h
  exact .inl h.1

theorem IsRoutine.of_isClassResolved (h : rec.isClassResolved = true) : rec.IsRoutine := by
  simp only [isClassResolved, Bool.and_eq_true, beq_iff_eq] at h
  exact .inr h.1

theorem IsRoutine.of_isMemberResolved (h : rec.isMemberResolved = true) : rec.IsRoutine := by
  simp only [isMemberResolved, Bool.and_eq_true, beq_iff_eq] at h
  exact .inr h.1

end LogRecord

open LogRecord

theorem Diagnostic.not_isRoutine_record (d : Diagnostic) : ¬d.record.IsRoutine := by
  rcases d with ⟨_ | _, _, _, _, _⟩ <;> simp [record, IsRoutine]

namespace JournalEntry

/-- The class that a call has resolved, if the entry is the return of the call. A commit is the
last thing that a resolution does (`JavaGenerics.Resolution.closes_body`), so that calls return
in the order of their commits. -/
def resolvedClass? : JournalEntry → Option ClassId
  | returned (.ofClass c) true => some c
  | _ => none

/-- The records of a kind that some entries give rise to. -/
def logged (toLog : Bool) (p : LogRecord → Bool) (es : List JournalEntry) : List LogRecord :=
  (es.filterMap (record? toLog)).filter p

/-- An entry that the log has nothing routine to tell of. -/
structure IsUneventful (e : JournalEntry) : Prop where
  request : e.request? = none
  resolved : e.resolvedClass? = none
  log : ∀ toLog rec, e.record? toLog = some rec → ¬rec.IsRoutine

variable {toLog : Bool} {p : LogRecord → Bool} {es es' : List JournalEntry}

@[simp] theorem logged_append :
    logged toLog p (es ++ es') = logged toLog p es ++ logged toLog p es' := by
  rw [logged, List.filterMap_append, List.filter_append]
  rfl

theorem isUneventful_reported (d : Diagnostic) : IsUneventful (.reported d) := by
  refine ⟨rfl, rfl, fun toLog rec h => ?_⟩
  obtain ⟨-, rfl⟩ : toLog = true ∧ d.record = rec := by simpa [record?] using h
  exact d.not_isRoutine_record

theorem isUneventful_enclosingCycle (name : String) :
    IsUneventful (.noted (.enclosingCycle name)) := by
  refine ⟨rfl, rfl, fun toLog rec h => ?_⟩
  obtain rfl : (Note.enclosingCycle name).record = rec := Option.some.inj h
  simp [Note.record, IsRoutine]

theorem isUneventful_called (t : Target) : IsUneventful (.called t) := ⟨rfl, rfl, nofun⟩

theorem isUneventful_began (t : Target) : IsUneventful (.began t) := ⟨rfl, rfl, nofun⟩

theorem isUneventful_ended (t : Target) : IsUneventful (.ended t) := ⟨rfl, rfl, nofun⟩

theorem isUneventful_answered (c : ClassId) (ok : Bool) : IsUneventful (.answered c ok) :=
  ⟨rfl, rfl, nofun⟩

theorem isUneventful_failed (t : Target) : IsUneventful (.returned t false) := by
  cases t <;> exact ⟨rfl, rfl, nofun⟩

/-- Of uneventful entries, nothing routine is told. -/
theorem logged_eq_nil (hes : ∀ e ∈ es, IsUneventful e) (hp : ∀ rec, p rec = true → rec.IsRoutine) :
    logged toLog p es = [] := by
  refine List.filter_eq_nil_iff.2 fun rec hrec hrecord => ?_
  obtain ⟨e, he, hlog⟩ := List.mem_filterMap.1 hrec
  exact (hes e he).log toLog rec hlog (hp rec hrecord)

end JournalEntry

/-! ### What became of classes -/

/-- From `r` to `r'` the class `c` is resolved, and its entry goes from `e` to `e'`. -/
structure Registry.ResolvesTo (r r' : Registry) (c : ClassId) (e e' : ClassEntry) : Prop where
  before : r.classAt? c = some e
  unresolved : e.stage = .unresolved
  after : r'.classAt? c = some e'
  resolved : e'.stage = .resolved

/-- From `r` to `r'` every class stays as it is, unless it is resolved. -/
def Registry.Proceeds (r r' : Registry) : Prop :=
  ∀ c, r'.classAt? c = r.classAt? c ∨ ∃ e e', r.ResolvesTo r' c e e'

/-- **The record that a class is resolved**, its entry going from `e` to `e'`: from its
signature, with so many type parameters, or from its header, which leaves them as they were. -/
inductive ClassEntry.Announced (e e' : ClassEntry) : LogRecord → Prop
  | signature : Announced e e' ⟨.debug, resolveTarget, "resolved class signature",
      [("class", .text e.name), ("type_params", .count e'.typeParams.length)]⟩
  | header (kept : e'.typeParams = e.typeParams) : Announced e e' ⟨.debug, resolveTarget,
      "resolved class from erased header", [("class", .text e.name)]⟩

/-- From `r` to `r'` the class `c` is resolved, and the record says so. -/
def Registry.Announces (r r' : Registry) (c : ClassId) (rec : LogRecord) : Prop :=
  ∃ e e', r.ResolvesTo r' c e e' ∧ e.Announced e' rec

namespace Registry

variable {r r' r'' : Registry} {c : ClassId} {e e' : ClassEntry}

theorem ResolvesTo.stages (h : r.ResolvesTo r' c e e') :
    r.stage? (.ofClass c) = some .unresolved ∧ r'.stage? (.ofClass c) = some .resolved := by
  simp [stage?, h.before, h.unresolved, h.after, h.resolved]

theorem resolvesTo_of_stages (h : r.stage? (.ofClass c) = some .unresolved)
    (h' : r'.stage? (.ofClass c) = some .resolved) : ∃ e e', r.ResolvesTo r' c e e' := by
  obtain ⟨e, he, hs⟩ := Option.map_eq_some_iff.1 h
  obtain ⟨e', he', hs'⟩ := Option.map_eq_some_iff.1 h'
  exact ⟨e, e', he, hs, he', hs'⟩

/-- A class that is the same in both registries is not resolved between them. -/
theorem ResolvesTo.ne (h : r.ResolvesTo r' c e e') : r'.classAt? c ≠ r.classAt? c := by
  intro heq
  obtain rfl : e' = e := Option.some.inj (h.after.symm.trans (heq.trans h.before))
  exact nomatch h.resolved.symm.trans h.unresolved

theorem ResolvesTo.congr {s s' : Registry} (h : r.ResolvesTo r' c e e')
    (hs : s.classAt? c = r.classAt? c) (hs' : s'.classAt? c = r'.classAt? c) :
    s.ResolvesTo s' c e e' := ⟨hs.trans h.before, h.unresolved, hs'.trans h.after, h.resolved⟩

namespace Proceeds

theorem refl (r : Registry) : r.Proceeds r := fun _ => .inl rfl

/-- A class that is resolved later was as it is then. -/
theorem before (h : r.Proceeds r') (h' : r'.ResolvesTo r'' c e e') : r.ResolvesTo r'' c e e' := by
  rcases h c with hc | ⟨_, _, hc⟩
  · exact h'.congr hc.symm rfl
  · exact nomatch hc.stages.2.symm.trans h'.stages.1

/-- A class that was resolved earlier has stayed as it was then. -/
theorem after (h' : r'.Proceeds r'') (h : r.ResolvesTo r' c e e') : r.ResolvesTo r'' c e e' := by
  rcases h' c with hc | ⟨_, _, hc⟩
  · exact h.congr rfl hc
  · exact nomatch h.stages.2.symm.trans hc.stages.1

theorem trans (h : r.Proceeds r') (h' : r'.Proceeds r'') : r.Proceeds r'' := by
  intro c
  rcases h c with hc | ⟨e, e', hc⟩
  · rcases h' c with hc' | ⟨e, e', hc'⟩
    · exact .inl (hc'.trans hc)
    · exact .inr ⟨e, e', h.before hc'⟩
  · exact .inr ⟨e, e', h'.after hc⟩

end Proceeds

end Registry

/-! ### Accounts of what happened -/

/-- **What happened has been told**: from `r` to `r'` the entries `es` have been made; the
requests among them are in the log, the classes that calls have resolved are announced there
and are all that have been resolved, and what the log says of members is `ms`. -/
structure Told (toLog : Bool) (r r' : Registry) (ms : List LogRecord) (es : List JournalEntry) :
    Prop where
  proceeds : r.Proceeds r'
  requests : (logged toLog isRequest es).map (·.fields) =
    (es.filterMap request?).map fun name => [("class", .text name)]
  announced : List.Forall₂ (r.Announces r') (es.filterMap resolvedClass?)
    (logged toLog isClassResolved es)
  distinct : (es.filterMap resolvedClass?).Nodup
  complete : ∀ c e e', r.ResolvesTo r' c e e' → c ∈ es.filterMap resolvedClass?
  members : logged toLog isMemberResolved es = ms

namespace Told

variable {toLog : Bool} {r r' r'' : Registry} {ms ms' : List LogRecord}
  {es es' : List JournalEntry} {c : ClassId}

/-- Uneventful entries tell of nothing. -/
theorem quiet (r : Registry) (hes : ∀ e ∈ es, e.IsUneventful) : Told toLog r r [] es := by
  have hrequests : es.filterMap request? = [] :=
    List.filterMap_eq_nil_iff.2 fun e he => (hes e he).request
  have hresolved : es.filterMap resolvedClass? = [] :=
    List.filterMap_eq_nil_iff.2 fun e he => (hes e he).resolved
  refine ⟨.refl r, ?_, ?_, ?_, fun c e e' h => absurd rfl h.ne, ?_⟩
  · rw [hrequests, logged_eq_nil hes fun _ => .of_isRequest]
    rfl
  · rw [hresolved, logged_eq_nil hes fun _ => .of_isClassResolved]
    exact .nil
  · rw [hresolved]
    exact .nil
  · exact logged_eq_nil hes fun _ => .of_isMemberResolved

/-- A request is told of, right before it is made. -/
theorem request (r : Registry) (c : ClassId) (name : String) :
    Told toLog r r [] [.noted (.resolvingReferenced name), .asked c name] where
  proceeds := .refl r
  requests := rfl
  announced := .nil
  distinct := .nil
  complete _ _ _ h := absurd rfl h.ne
  members := rfl

theorem resolvesTo (h : Told toLog r r' ms es) (hc : c ∈ es.filterMap resolvedClass?) :
    ∃ e e', r.ResolvesTo r' c e e' := by
  have hannounced : List.Forall₂ (fun c rec => (∃ e e', r.ResolvesTo r' c e e') ∧
      r.Announces r' c rec) (es.filterMap resolvedClass?) (logged toLog isClassResolved es) :=
    h.announced.imp fun _ _ hc => ⟨hc.imp fun _ ⟨e', hc, _⟩ => ⟨e', hc⟩, hc⟩
  exact ((List.forall₂_and_left _ _).1 hannounced).1 c hc

/-- **One account behind another.** -/
theorem append (h : Told toLog r r' ms es) (h' : Told toLog r' r'' ms' es') :
    Told toLog r r'' (ms ++ ms') (es ++ es') where
  proceeds := h.proceeds.trans h'.proceeds
  requests := by
    rw [logged_append, List.map_append, h.requests, h'.requests, List.filterMap_append,
      List.map_append]
  announced := by
    rw [logged_append, List.filterMap_append]
    refine List.rel_append ?_ ?_
    · exact h.announced.imp fun _ _ ⟨e, e', hc, hrec⟩ => ⟨e, e', h'.proceeds.after hc, hrec⟩
    · exact h'.announced.imp fun _ _ ⟨e, e', hc, hrec⟩ => ⟨e, e', h.proceeds.before hc, hrec⟩
  distinct := by
    rw [List.filterMap_append]
    refine List.nodup_append.2 ⟨h.distinct, h'.distinct, ?_⟩
    rintro c hc _ hc' rfl
    -- what was resolved already is not unresolved later
    obtain ⟨_, _, hc⟩ := h.resolvesTo hc
    obtain ⟨_, _, hc'⟩ := h'.resolvesTo hc'
    exact nomatch hc.stages.2.symm.trans hc'.stages.1
  complete c e e' hc := by
    rw [List.filterMap_append, List.mem_append]
    rcases h.proceeds c with hsame | ⟨e, e', hfirst⟩
    · exact .inr (h'.complete c e e' (hc.congr hsame rfl))
    · exact .inl (h.complete c e e' hfirst)
  members := by rw [logged_append, h.members, h'.members]

end Told

/-! ### Behind a mark -/

namespace Registry

variable {r r₁ : Registry} {t : Target} {c : ClassId} {e : ClassEntry}

theorem classAt?_setStage_of_ne (r : Registry) (s : Stage) (h : t ≠ .ofClass c) :
    (r.setStage s t).classAt? c = r.classAt? c := by
  cases t with
  | ofClass d => exact classAt?_modifyClass_of_ne _ (fun hcd => h (by rw [hcd])) _
  | ofMethod m => rfl
  | ofField f => rfl

theorem classAt?_unmark_of_ne (r : Registry) (h : t ≠ .ofClass c) :
    (r.unmark t).classAt? c = r.classAt? c := by
  unfold unmark
  split
  · exact r.classAt?_setStage_of_ne _ h
  · rfl

/-- A class that is marked is not resolved meanwhile. -/
theorem classAt?_of_marked (he : r.classAt? c = some e)
    (h : (r.setStage .resolving (.ofClass c)).Proceeds r₁) :
    r₁.classAt? c = some { e with stage := .resolving } := by
  have hmarked : (r.setStage .resolving (.ofClass c)).classAt? c =
      some { e with stage := .resolving } := by simp [setStage, he]
  rcases h c with hc | ⟨_, _, hc⟩
  · exact hc.trans hmarked
  · obtain rfl := Option.some.inj (hmarked.symm.trans hc.before)
    exact absurd hc.unresolved (by simp)

/-- When the mark is taken away, the class is what it was. -/
theorem classAt?_unmark (he : r.classAt? c = some e) (hu : e.stage = .unresolved)
    (h : (r.setStage .resolving (.ofClass c)).Proceeds r₁) :
    (r₁.unmark (.ofClass c)).classAt? c = some e := by
  have hc := classAt?_of_marked he h
  have hstage : r₁.stage? (.ofClass c) = some .resolving := by simp [stage?, hc]
  rw [unmark, if_pos hstage, setStage, classAt?_modifyClass_self, hc, Option.map_some, ← hu]

/-- **Seen from outside**, the same classes are resolved as behind the mark. -/
theorem resolvesTo_behind_mark (hs : r.stage? t = some .unresolved)
    (h : (r.setStage .resolving t).Proceeds r₁) {e' : ClassEntry} :
    r.ResolvesTo (r₁.unmark t) c e e' ↔ (r.setStage .resolving t).ResolvesTo r₁ c e e' := by
  by_cases ht : t = .ofClass c
  · -- the class that is marked is resolved in neither sense
    subst ht
    obtain ⟨e₀, he, hu⟩ := Option.map_eq_some_iff.1 hs
    refine iff_of_false (fun hc => hc.ne ?_) fun hc => ?_
    · rw [classAt?_unmark he hu h, he]
    · exact hc.ne ((classAt?_of_marked he h).trans (by simp [setStage, he]))
  · have hbefore := r.classAt?_setStage_of_ne .resolving ht
    have hafter := r₁.classAt?_unmark_of_ne ht
    exact ⟨fun hc => hc.congr hbefore hafter.symm, fun hc => hc.congr hbefore.symm hafter⟩

theorem Proceeds.behind_mark (hs : r.stage? t = some .unresolved)
    (h : (r.setStage .resolving t).Proceeds r₁) : r.Proceeds (r₁.unmark t) := by
  intro c
  by_cases ht : t = .ofClass c
  · subst ht
    obtain ⟨e, he, hu⟩ := Option.map_eq_some_iff.1 hs
    exact .inl ((classAt?_unmark he hu h).trans he.symm)
  · refine (h c).imp (fun hc => ?_) fun ⟨e, e', hc⟩ => ⟨e, e', (resolvesTo_behind_mark hs h).2 hc⟩
    rw [classAt?_unmark_of_ne _ ht, hc, classAt?_setStage_of_ne _ _ ht]

end Registry

/-- **What is told behind a mark** is told from outside as well. -/
theorem Told.behind_mark {toLog : Bool} {r r₁ : Registry} {t : Target} {ms : List LogRecord}
    {es : List JournalEntry} (hs : r.stage? t = some .unresolved)
    (h : Told toLog (r.setStage .resolving t) r₁ ms es) : Told toLog r (r₁.unmark t) ms es where
  proceeds := h.proceeds.behind_mark hs
  requests := h.requests
  announced := h.announced.imp fun _ _ ⟨e, e', hc, hrec⟩ =>
    ⟨e, e', (Registry.resolvesTo_behind_mark hs h.proceeds).2 hc, hrec⟩
  distinct := h.distinct
  complete c e e' hc := h.complete c e e' ((Registry.resolvesTo_behind_mark hs h.proceeds).1 hc)
  members := h.members

/-! ### The commit -/

/-- **How a resolution is completed**, the declaration `t` having the name `owner`: by this
change of the registry and this note. -/
inductive Completes (owner : String) : Target → Option String → (Registry → Registry) → Note → Prop
  | classSignature (c : ClassId) (text : String) (types : ClassTypes) :
      Completes owner (.ofClass c) (some text) (fun r => r.modifyClass c types.fill)
        (.classResolved owner types.typeParams.length)
  | classHeader (c : ClassId) (superclass : Option ClassId) (interfaces : List ClassId) :
      Completes owner (.ofClass c) none
        (fun r => r.modifyClass c (ClassEntry.fillErased superclass interfaces))
        (.classResolvedErased owner)
  | methodSignature (m : MethodId) (text : String) (types : MethodTypes) (names : List String) :
      Completes owner (.ofMethod m) (some text) (fun r => r.modifyMethod m (types.fill names))
        (.methodResolved owner)
  | methodDescriptor (m : MethodId) (params : List (String × ResolvedType))
      (result : Option ResolvedType) :
      Completes owner (.ofMethod m) none
        (fun r => r.modifyMethod m (MethodEntry.fillErased params result))
        (.methodResolvedErased owner)
  | field (f : FieldId) (signature : Option String) (type : ResolvedType) :
      Completes owner (.ofField f) signature (fun r => r.modifyField f (FieldEntry.fill type))
        (.fieldResolved owner)

/-- What is to be said of `t` when it is resolved, if it is a method or a field. -/
def Registry.memberRecords (r : Registry) : Target → Option String → List LogRecord
  | .ofClass _, _ => []
  | .ofMethod m, some _ => [⟨.debug, resolveTarget, "resolved method signature",
      [("method", .text (r.methodName m))]⟩]
  | .ofMethod m, none => [⟨.debug, resolveTarget, "resolved method from erased descriptor",
      [("method", .text (r.methodName m))]⟩]
  | .ofField f, _ => [⟨.debug, resolveTarget, "resolved field type",
      [("field", .text (r.fieldName f))]⟩]

theorem Registry.className_of_classAt? {r : Registry} {c : ClassId} {e : ClassEntry}
    (he : r.classAt? c = some e) : r.className c = e.name := by
  simp [className, he]

theorem ClassEntry.Announced.kind {e e' : ClassEntry} {rec : LogRecord} (h : e.Announced e' rec) :
    rec.isRequest = false ∧ rec.isClassResolved = true ∧ rec.isMemberResolved = false := by
  cases h <;> exact ⟨rfl, rfl, rfl⟩

namespace Told

variable {toLog : Bool} {r r₁ : Registry} {t : Target}

/-- **A commit is told** as it is made: the class that was marked is resolved, and announced. -/
theorem commit_class {c : ClassId} {e : ClassEntry} {f : ClassEntry → ClassEntry} {n : Note}
    (he : r.classAt? c = some e) (hu : e.stage = .unresolved)
    (h : (r.setStage .resolving (.ofClass c)).Proceeds r₁)
    (hf : (f { e with stage := .resolving }).stage = .resolved)
    (hn : e.Announced (f { e with stage := .resolving }) n.record) :
    Told toLog (r₁.unmark (.ofClass c)) (r₁.modifyClass c f) []
      [.noted n, .ended (.ofClass c), .returned (.ofClass c) true] := by
  have hafter : (r₁.modifyClass c f).classAt? c = some (f { e with stage := .resolving }) := by
    rw [Registry.classAt?_modifyClass_self, Registry.classAt?_of_marked he h]
    rfl
  have hc : (r₁.unmark (.ofClass c)).ResolvesTo (r₁.modifyClass c f) c e
      (f { e with stage := .resolving }) := ⟨Registry.classAt?_unmark he hu h, hu, hafter, hf⟩
  have hother : ∀ d, d ≠ c →
      (r₁.modifyClass c f).classAt? d = (r₁.unmark (.ofClass c)).classAt? d := by
    intro d hd
    have hne : Target.ofClass c ≠ .ofClass d := fun hcd => hd (Target.ofClass.inj hcd).symm
    rw [Registry.classAt?_modifyClass_of_ne _ hd, Registry.classAt?_unmark_of_ne _ hne]
  have hlogged : ∀ p, logged toLog p [.noted n, .ended (.ofClass c), .returned (.ofClass c) true] =
      [n.record].filter p := fun _ => rfl
  obtain ⟨hrequest, hclass, hmember⟩ := hn.kind
  refine ⟨fun d => ?_, ?_, ?_, List.pairwise_singleton _ c, fun d _ _ hd => ?_, ?_⟩
  · rcases eq_or_ne d c with rfl | hd
    · exact .inr ⟨_, _, hc⟩
    · exact .inl (hother d hd)
  · simp [hlogged, hrequest, request?]
  · rw [hlogged, List.filter_singleton, hclass]
    exact .cons ⟨_, _, hc, hn⟩ .nil
  · rcases eq_or_ne d c with rfl | hdc
    · exact List.mem_singleton.2 rfl
    · exact absurd (hother d hdc) hd.ne
  · simp [hlogged, hmember]

/-- The commit of a method or a field leaves classes as they are. -/
theorem commit_member {r' : Registry} {n : Note} (ht : ∀ c, t ≠ .ofClass c)
    (hr : ∀ c, r'.classAt? c = r₁.classAt? c)
    (hn : n.record.isRequest = false ∧ n.record.isClassResolved = false ∧
      n.record.isMemberResolved = true) :
    Told toLog (r₁.unmark t) r' [n.record] [.noted n, .ended t, .returned t true] := by
  have hsame : ∀ c, r'.classAt? c = (r₁.unmark t).classAt? c := fun c =>
    (hr c).trans (r₁.classAt?_unmark_of_ne (ht c)).symm
  have hlogged : ∀ p, logged toLog p [.noted n, .ended t, .returned t true] =
      [n.record].filter p := fun _ => rfl
  obtain ⟨hrequest, hclass, hmember⟩ := hn
  have hresolved : [.noted n, .ended t, .returned t true].filterMap resolvedClass? = [] := by
    cases t with
    | ofClass c => exact absurd rfl (ht c)
    | ofMethod m => rfl
    | ofField f => rfl
  refine ⟨fun c => .inl (hsame c), ?_, ?_, ?_, fun c _ _ hc => absurd (hsame c) hc.ne, ?_⟩
  · simp [hlogged, hrequest, request?]
  · rw [hlogged, hresolved, List.filter_singleton, hclass]
    exact .nil
  · rw [hresolved]
    exact .nil
  · simp [hlogged, hmember]

/-- **The commit of a resolution is told** as it is made. -/
theorem commit {signature : Option String} {f : Registry → Registry} {n : Note}
    (hs : r.stage? t = some .unresolved) (h : (r.setStage .resolving t).Proceeds r₁)
    (hf : Completes (r.targetName t) t signature f n) :
    Told toLog (r₁.unmark t) (f r₁) (r.memberRecords t signature)
      [.noted n, .ended t, .returned t true] := by
  cases hf with
  | classSignature c text types =>
    obtain ⟨e, he, hu⟩ := Option.map_eq_some_iff.1 hs
    refine commit_class he hu h rfl ?_
    rw [show r.targetName (.ofClass c) = e.name from Registry.className_of_classAt? he]
    exact .signature
  | classHeader c superclass interfaces =>
    obtain ⟨e, he, hu⟩ := Option.map_eq_some_iff.1 hs
    refine commit_class he hu h rfl ?_
    rw [show r.targetName (.ofClass c) = e.name from Registry.className_of_classAt? he]
    exact .header rfl
  | methodSignature m text types names =>
    exact commit_member (t := .ofMethod m) (n := .methodResolved _) (fun _ => nofun) (fun _ => rfl)
      ⟨rfl, rfl, rfl⟩
  | methodDescriptor m params result =>
    exact commit_member (t := .ofMethod m) (n := .methodResolvedErased _) (fun _ => nofun)
      (fun _ => rfl) ⟨rfl, rfl, rfl⟩
  | field f signature type =>
    exact commit_member (t := .ofField f) (n := .fieldResolved _) (fun _ => nofun) (fun _ => rfl)
      ⟨rfl, rfl, rfl⟩

end Told

/-! ### The commit comes last -/

namespace Attempt

variable {α : Type} {I : Progress → Prop} {C : (Registry → Registry) → Note → Prop}

/-- An attempt keeps `I` until it fails, or until it commits as `C` allows, which it does in
the end. -/
def Closes (I : Progress → Prop) (C : (Registry → Registry) → Note → Prop) (x : Attempt Unit) :
    Prop :=
  ∀ p, I p → match x.outcome p with
    | (.error _, q) => I q
    | (.ok _, q) => ∃ p' f n, I p' ∧ C f n ∧ q = ((commit f n).outcome p').2

theorem closes_throw (e : ResolveError) : Closes I C (throw e) := fun _ hp => hp

theorem toList_commit (f : Registry → Registry) (n : Note) (p : Progress) :
    ((commit f n).outcome p).2.workspace.journal.toList =
      p.workspace.journal.toList ++ [.noted n] := Array.toList_push

theorem closes_commit {f : Registry → Registry} {n : Note} (hC : C f n) :
    Closes I C (commit f n) := fun p hp => ⟨p, f, n, hp, hC, rfl⟩

theorem Together.closes {x : Attempt α} {f : α → Attempt Unit} (hx : Together (Same I) x x)
    (hf : ∀ a, Closes I C (f a)) : Closes I C (x >>= f) := by
  intro p hp
  obtain ⟨-, -, hq⟩ := hx p p ⟨rfl, hp⟩
  rw [outcome_bind]
  rcases hout : x.outcome p with ⟨_ | a, q⟩ <;> rw [hout] at hq
  · exact hq
  · exact hf a q hq

theorem Keeps.closes {x : StateM Progress α} {f : α → Attempt Unit} (hx : Keeps I x)
    (hf : ∀ a, Closes I C (f a)) : Closes I C (liftM x >>= f) := fun p hp => hf _ _ (hx p hp)

theorem Closes.ofRegistry {f : Registry → Attempt Unit} (hf : ∀ r, Closes I C (f r)) :
    Closes I C (liftM getRegistry >>= f) := fun p hp => hf _ p hp

end Attempt

namespace Resolution

variable {res : Resolution} {I : Progress → Prop}

theorem closes_commitClass (c : ClassId) (text : String) (types : ClassTypes) :
    Closes I (Completes res.owner (.ofClass c) (some text)) (res.commitClass c types) := by
  refine Closes.ofRegistry fun r => ?_
  have hcommit : Closes I (Completes res.owner (.ofClass c) (some text))
      (commit (fun r => r.modifyClass c types.fill)
        (.classResolved res.owner types.typeParams.length)) :=
    closes_commit (.classSignature c text types)
  -- the check against the header is made if it is asked for, and then the class is looked up
  dsimp only
  by_cases hv : res.options.verifyErasure = true
  · rw [if_pos hv]
    refine (together_ofExcept _).closes fun _ => ?_
    split
    · exact closes_throw _
    · exact hcommit
  · rw [if_neg hv]
    split
    · exact closes_throw _
    · exact hcommit

theorem closes_classText (h : res.Parallel res (Same I)) (c : ClassId) (text : String) :
    Closes I (Completes res.owner (.ofClass c) (some text)) (res.resolveClassText c text) := by
  unfold resolveClassText
  split
  · exact closes_throw _
  · refine (h.calm.scopeAround c).closes fun scope => ?_
    exact (together_classTypes h c scope _).closes fun types =>
      closes_commitClass c text types

theorem closes_classHeader (h : res.Parallel res (Same I)) (c : ClassId) :
    Closes I (Completes res.owner (.ofClass c) none) (res.resolveClassHeader c) := by
  refine Closes.ofRegistry fun r => ?_
  split
  · exact closes_throw _
  · refine (Together.mapM_option (together_find h) _).closes fun superclass => ?_
    refine (Together.mapM (together_find h) _).closes fun interfaces => ?_
    exact closes_commit (.classHeader c superclass interfaces)

theorem closes_commitMethod (h : res.Steady I) (m : MethodId) (text : String)
    (types : MethodTypes) :
    Closes I (Completes res.owner (.ofMethod m) (some text)) (res.commitMethod m types) := by
  refine Closes.ofRegistry fun r => ?_
  split
  · exact closes_throw _
  · rename_i entry _
    have hcommit : ∀ names, Closes I (Completes res.owner (.ofMethod m) (some text))
        (commit (fun r => r.modifyMethod m (types.fill names)) (.methodResolved res.owner)) :=
      fun names => closes_commit (.methodSignature m text types names)
    have hnames := (h.nameParams entry.argNames types.params.length
      (r.syntheticCount entry types.params.length)).closes hcommit
    by_cases hv : res.options.verifyErasure = true
    · simp only [hv, if_true]
      exact (together_ofExcept _).closes fun _ => hnames
    · simp only [hv]
      exact hnames

theorem closes_methodText (h : res.Steady I) (m : MethodId) (text : String) :
    Closes I (Completes res.owner (.ofMethod m) (some text)) (res.resolveMethodText m text) := by
  unfold resolveMethodText
  split
  · exact closes_throw _
  · refine Closes.ofRegistry fun r => ?_
    split
    · exact closes_throw _
    · refine (h.calm.scopeInside _).closes fun scope => ?_
      exact (together_methodTypes h.parallel m scope _).closes fun types =>
        closes_commitMethod h m text types

theorem closes_methodDescriptor (h : res.Steady I) (m : MethodId) :
    Closes I (Completes res.owner (.ofMethod m) none) (res.resolveMethodDescriptor m) := by
  refine Closes.ofRegistry fun r => ?_
  split
  · exact closes_throw _
  · refine (Together.mapM (together_raw h.parallel) _).closes fun params => ?_
    refine (together_erasedResult h.parallel _).closes fun result => ?_
    exact (h.nameParams _ _ _).closes fun names =>
      closes_commit (.methodDescriptor m (names.zip params) result)

theorem closes_fieldEntry (h : res.Steady I) (f : FieldId) (signature : Option String) :
    Closes I (Completes res.owner (.ofField f) signature) (res.resolveFieldEntry f signature) := by
  refine Closes.ofRegistry fun r => ?_
  split
  · exact closes_throw _
  · rename_i entry _
    have hcommit : ∀ type, Closes I (Completes res.owner (.ofField f) signature)
        (commit (fun r => r.modifyField f (FieldEntry.fill type)) (.fieldResolved res.owner)) :=
      fun type => closes_commit (.field f signature type)
    cases signature with
    | none => exact (together_raw h.parallel entry.descriptor).closes hcommit
    | some text =>
      -- of what is committed in the end, nothing need be said here
      have habreast : res.Abreast res (Same I) (Same fun _ => True) :=
        h.abreast (fun _ _ => trivial) fun _ _ _ _ _ => trivial
      exact (together_fieldText habreast entry.owner entry.descriptor text).closes hcommit

/-- **A resolution commits once**, at its very end, and notes what it commits; before that, or
if it fails, it keeps every steady invariant. -/
theorem closes_body (h : res.Steady I) (t : Target) (signature : Option String) :
    Closes I (Completes res.owner t signature) (res.body t signature) := by
  cases t with
  | ofClass c =>
    cases signature with
    | none => exact closes_classHeader h.parallel c
    | some text => exact closes_classText h.parallel c text
  | ofMethod m =>
    cases signature with
    | none => exact closes_methodDescriptor h m
    | some text => exact closes_methodText h m text
  | ofField f => exact closes_fieldEntry h f signature

end Resolution

/-! ### What happens in a call is told -/

namespace Workspace

/-- From `w` to `v`, what happened to classes has been told, and nothing of members. -/
def Tells (toLog : Bool) (w v : Workspace) : Prop :=
  ∃ es, v.journal.toList = w.journal.toList ++ es ∧ Told toLog w.registry v.registry [] es

variable {toLog : Bool} {u v w : Workspace}

theorem Tells.refl (toLog : Bool) (w : Workspace) : w.Tells toLog w :=
  ⟨[], (List.append_nil _).symm, .quiet _ nofun⟩

theorem Tells.trans (h : u.Tells toLog v) (h' : v.Tells toLog w) : u.Tells toLog w := by
  obtain ⟨es, hes, htold⟩ := h
  obtain ⟨es', hes', htold'⟩ := h'
  exact ⟨es ++ es', by rw [hes', hes, List.append_assoc], htold.append htold'⟩

theorem tells_record {e : JournalEntry} (he : e.IsUneventful) :
    w.Tells toLog (record e w).2 :=
  ⟨[e], toList_record e w, .quiet _ (by simpa using he)⟩

end Workspace

/-- Whoever is asked tells what happens behind the request. -/
def AsksTelling (toLog : Bool) (ask : ClassId → Work Bool) : Prop :=
  ∀ c w, (record (.asked c (w.registry.className c)) w).2.Tells toLog (ask c w).2

namespace Resolution

variable {toLog : Bool} {res : Resolution} {w : Workspace}

/-- **Requests, remarks and notes of circles** are told of. -/
theorem steady_tells (hask : AsksTelling toLog res.ask) (w : Workspace) :
    res.Steady fun p => w.Tells toLog p.workspace where
  request c p hp := by
    rw [request_apply]
    split
    · have hasked : p.workspace.Tells toLog
          (record (.asked c (p.workspace.registry.className c)) (asking c p).workspace).2 := by
        refine ⟨[.noted (.resolvingReferenced (p.workspace.registry.className c)),
          .asked c (p.workspace.registry.className c)], ?_, .request _ c _⟩
        rw [toList_record]
        simp [asking]
      have hanswered : w.Tells toLog (res.answered c p).workspace :=
        (hp.trans hasked).trans (hask c (asking c p).workspace)
      split
      · exact hanswered
      · exact hanswered.trans (tells_record (isUneventful_reported _))
    · exact hp
  warn _ _ _ hp := hp.trans (tells_record (isUneventful_reported _))
  noteCycle c p hp := by
    change w.Tells toLog (Workspace.noteCycle c p.workspace).2
    rw [noteCycle_apply]
    split
    · exact hp.trans (tells_record (isUneventful_enclosingCycle _))
    · exact hp

end Resolution

namespace Workspace

variable {toLog : Bool} {ask : ClassId → Work Bool} {options : Options} {t : Target}
  {signature : Option String} {w : Workspace}

/-- A call tells what the resolution in its midst tells, and what comes behind that. -/
theorem told_around {r r₁ r₂ : Registry} {ms ms' : List LogRecord} {body tail : List JournalEntry}
    (hbody : Told toLog r r₁ ms body) (htail : Told toLog r₁ r₂ ms' tail) :
    Told toLog r r₂ (ms ++ ms') ([.called t, .began t] ++ (body ++ tail)) := by
  have hopen : Told toLog r r [] [.called t, .began t] :=
    .quiet r (by simp [isUneventful_called, isUneventful_began])
  exact hopen.append (hbody.append htail)

/-- What a resolution has come to is told when the call returns. -/
theorem told_returning {owner : String} (howner : owner = w.registry.targetName t)
    (signature : Option String) (hs : w.registry.stage? t = some .unresolved)
    {out : Except ResolveError Unit × Progress}
    (hout : match out with
      | (.error _, q) => (beginning t w).workspace.Tells toLog q.workspace
      | (.ok _, q) => ∃ p f n, (beginning t w).workspace.Tells toLog p.workspace ∧
          Completes owner t signature f n ∧ q = ((commit f n).outcome p).2) :
    ∃ es, (returning t owner signature (out.1, closing t out)).journal.toList =
        w.journal.toList ++ es ∧
      Told toLog w.registry (closing t out).registry
        (if out.1.isOk then w.registry.memberRecords t signature else []) es := by
  subst howner
  rw [toList_returning rfl, toList_closing]
  rcases out with ⟨e | _, q⟩
  · -- it fails, and the mark is taken away
    obtain ⟨body, hbody, htold⟩ := hout
    refine ⟨[.called t, .began t] ++ (body ++ [.ended t,
      .reported (e.diagnostic (w.registry.targetName t) signature), .returned t false]), ?_, ?_⟩
    · rw [hbody, toList_beginning]
      simp [Registry.verdict, Except.isOk, Except.toBool]
    · refine told_around (Told.behind_mark hs htold) (.quiet _ ?_)
      simp [isUneventful_ended, isUneventful_reported, isUneventful_failed]
  · -- it commits
    obtain ⟨p, f, n, ⟨body, hbody, htold⟩, hf, rfl⟩ := hout
    refine ⟨[.called t, .began t] ++ (body ++ [.noted n, .ended t, .returned t true]), ?_, ?_⟩
    · rw [toList_commit, hbody, toList_beginning]
      simp [Registry.verdict, Except.isOk, Except.toBool]
    · exact told_around (Told.behind_mark hs htold) (.commit hs htold.proceeds hf)

/-- **One call** is told from beginning to end. -/
theorem resolveAsking_told (hask : AsksTelling toLog ask) (options : Options) (t : Target)
    (signature : Option String) (w : Workspace) :
    ∃ es, (resolveAsking ask options t signature w).2.journal.toList = w.journal.toList ++ es ∧
      Told toLog w.registry (resolveAsking ask options t signature w).2.registry
        (if (resolveAsking ask options t signature w).1.isOk then
          w.registry.memberRecords t signature else []) es := by
  unfold resolveAsking
  rcases hm : w.registry.mark t with e | marked
  · -- the call is refused
    rw [resolveBy_of_mark_error _ _ _ _ hm]
    refine ⟨[.called t, .reported (e.diagnostic (w.registry.targetName t) signature),
      .returned t false], ?_, ?_⟩
    · dsimp only
      rw [toList_returning rfl]
      simp [Registry.verdict, Except.isOk, Except.toBool]
    · rw [returning_registry]
      exact .quiet _ (by
        simp [isUneventful_called, isUneventful_reported, isUneventful_failed])
  · rw [resolveBy_of_mark_ok _ _ _ _ hm]
    dsimp only
    rw [returning_registry]
    let res : Resolution := ⟨options, w.registry.targetName t, ask⟩
    have hsteady : res.Steady fun p => (beginning t w).workspace.Tells toLog p.workspace :=
      Resolution.steady_tells hask _
    exact told_returning rfl signature (Registry.mark_eq_ok.1 hm).1
      (Resolution.closes_body hsteady t signature (beginning t w) (.refl toLog _))

end Workspace

/-! ### Calls inside calls -/

namespace Collaborator

variable {toLog : Bool}

/-- A collaborator tells what happens if what it resolves classes by does. -/
theorem asksTelling_answer (k : Collaborator)
    {resolve : Options → ClassId → Option String → Work Bool}
    (hresolve : ∀ options d signature (v : Workspace),
      v.Tells toLog (resolve options d signature v).2) :
    AsksTelling toLog (k.answer resolve) := by
  intro c w
  rcases k.answer_cases resolve c w with ⟨ok, -, hanswer⟩ | ⟨p, d, -, -, hanswer⟩ <;> rw [hanswer]
  · exact tells_record (isUneventful_answered c ok)
  · exact (hresolve _ _ _ _).trans (tells_record (isUneventful_answered c _))

/-- **However deep calls nest**, what happens in them is told. -/
theorem asksTelling_askWithin (k : Collaborator) (depth : Nat) :
    AsksTelling toLog (k.askWithin depth) := by
  induction depth with
  | zero => exact asksTelling_answer k fun _ _ _ v => .refl toLog v
  | succ depth ih =>
    refine asksTelling_answer k fun options d signature v => ?_
    -- the call inside is for a class, so nothing is said of members
    obtain ⟨es, hes, htold⟩ := resolveAsking_told ih options (.ofClass d) signature v
    have hnone : v.registry.memberRecords (.ofClass d) signature = [] := by cases signature <;> rfl
    rw [resolveAsking_ofClass] at hes htold
    rw [hnone, ite_self] at htold
    exact ⟨es, hes, htold⟩

end Collaborator

/-! ### Calls from outside -/

/-- **The log of a call** for `t`, where `es` are the entries that the call has left in the
journal, nested calls included, and the registry went from `r` to `r'`. -/
structure Truthful (toLog : Bool) (r r' : Registry) (t : Target) (signature : Option String)
    (ok : Bool) (es : List JournalEntry) : Prop where
  /-- The collaborator was asked for the classes that the log says, in this order. -/
  requests : (logged toLog isRequest es).map (·.fields) =
    (es.filterMap request?).map fun name => [("class", .text name)]
  /-- The classes that were resolved are announced one by one, in the order of their commits. -/
  announced : List.Forall₂ (r.Announces r') (es.filterMap resolvedClass?)
    (logged toLog isClassResolved es)
  /-- These are the classes that were unresolved before the call and are resolved behind it. -/
  moved : ∀ c, c ∈ es.filterMap resolvedClass? ↔
    r.stage? (.ofClass c) = some .unresolved ∧ r'.stage? (.ofClass c) = some .resolved
  /-- None of them is announced twice. -/
  distinct : (es.filterMap resolvedClass?).Nodup
  /-- Nor is any name, as long as no two classes have the same. -/
  names : r.HasDistinctNames →
    ((logged toLog isClassResolved es).map (·.fields.lookup "class")).Nodup
  /-- A method or a field is announced if it is what the call is for, and the call succeeds. -/
  members : logged toLog isMemberResolved es = if ok then r.memberRecords t signature else []

/-- The class that an announcement names. -/
theorem ClassEntry.Announced.lookup {e e' : ClassEntry} {rec : LogRecord}
    (h : e.Announced e' rec) : rec.fields.lookup "class" = some (.text e.name) := by
  cases h <;> rfl

namespace Told

variable {toLog ok : Bool} {r r' : Registry} {t : Target} {signature : Option String}
  {ms : List LogRecord} {es : List JournalEntry}

/-- The names that are announced are those that the classes had in the beginning. -/
theorem map_lookup (h : Told toLog r r' ms es) :
    (es.filterMap resolvedClass?).map (fun c => some (LogValue.text (r.className c))) =
      (logged toLog isClassResolved es).map (·.fields.lookup "class") := by
  have hnames : List.Forall₂ Eq
      ((es.filterMap resolvedClass?).map fun c => some (LogValue.text (r.className c)))
      ((logged toLog isClassResolved es).map (·.fields.lookup "class")) := by
    refine List.forall₂_map_left_iff.2 (List.forall₂_map_right_iff.2 (h.announced.imp ?_))
    rintro c rec ⟨e, e', hc, hrec⟩
    rw [hrec.lookup, Registry.className_of_classAt? hc.before]
  rwa [List.forall₂_eq_eq_eq] at hnames

/-- Where classes have different names, no name is announced twice. -/
theorem nodup_lookup (h : Told toLog r r' ms es) (hr : r.HasDistinctNames) :
    ((logged toLog isClassResolved es).map (·.fields.lookup "class")).Nodup := by
  rw [← h.map_lookup]
  refine List.pairwise_map.2 (h.distinct.imp_of_mem fun {c d} hc hd hne heq => hne ?_)
  obtain ⟨e, _, hc⟩ := h.resolvesTo hc
  obtain ⟨f, _, hd⟩ := h.resolvesTo hd
  rw [Registry.className_of_classAt? hc.before, Registry.className_of_classAt? hd.before] at heq
  have hname : e.name = f.name := by simpa using heq
  exact hr c d e.name (by simp [Registry.IsNamed, hc.before])
    (by simp [Registry.IsNamed, hd.before, hname])

/-- An account of a call is what its log is to be measured by. -/
theorem truthful (h : Told toLog r r' (if ok then r.memberRecords t signature else []) es) :
    Truthful toLog r r' t signature ok es where
  requests := h.requests
  announced := h.announced
  moved c := by
    refine ⟨fun hc => ?_, fun ⟨hc, hc'⟩ => ?_⟩
    · obtain ⟨_, _, hc⟩ := h.resolvesTo hc
      exact hc.stages
    · obtain ⟨e, e', hc⟩ := Registry.resolvesTo_of_stages hc hc'
      exact h.complete c e e' hc
  distinct := h.distinct
  names := h.nodup_lookup
  members := h.members

end Told

/-- **The log of every call tells what happened**, whoever is asked, and however deep calls
nest. -/
theorem Workspace.resolve_truthful (k : Collaborator) (options : Options) (t : Target)
    (signature : Option String) (w : Workspace) (toLog : Bool) :
    ∃ es, (resolve k options t signature w).2.journal.toList = w.journal.toList ++ es ∧
      Truthful toLog w.registry (resolve k options t signature w).2.registry t signature
        (resolve k options t signature w).1.isOk es := by
  rw [resolve_apply]
  have hask : AsksTelling toLog (k.ask w.registry) := k.asksTelling_askWithin _
  obtain ⟨es, hes, htold⟩ := resolveAsking_told hask options t signature w
  exact ⟨es, hes, htold.truthful⟩

/-- `X` extends `A` and implements `B`. The attempt at `A` fails and leaves nothing but the
request; `B` is resolved inside, so it is announced before `X`. -/
theorem Workspace.resolve_truthful_of_nested :
    let p : Pool := { options := {}, signatures := [("A", "LMissing;"), ("B", "<T:LX;>LX;")] }
    let w : Workspace :=
      { registry := .ofHeaders [{ name := "X" }, { name := "A" }, { name := "B" }] }
    let out := resolve (.pool p) {} (.ofClass ⟨0⟩) (some "LA;LB<LX;>;") w
    Truthful false w.registry out.2.registry (.ofClass ⟨0⟩) (some "LA;LB<LX;>;") true
        out.2.journal.toList ∧
      out.2.journal.toList.filterMap resolvedClass? = [⟨2⟩, ⟨0⟩] ∧
      out.2.journal.toList.filterMap (record? false) =
        [.resolvingReferenced "A", .resolvingReferenced "B", .classResolved "B" 1,
          .classResolved "X" 0].map Note.record := by
  intro p w out
  have hok : out.1.isOk = true := by decide +kernel
  have hresolved : out.2.journal.toList.filterMap resolvedClass? = [⟨2⟩, ⟨0⟩] := by decide +kernel
  have hlog : out.2.journal.toList.filterMap (record? false) =
      [.resolvingReferenced "A", .resolvingReferenced "B", .classResolved "B" 1,
        .classResolved "X" 0].map Note.record := by
    decide +kernel
  have hnew : w.journal.toList = [] := rfl
  have hcall : out = resolve (.pool p) {} (.ofClass ⟨0⟩) (some "LA;LB<LX;>;") w := rfl
  clear_value out w
  subst hcall
  obtain ⟨es, hes, htruthful⟩ :=
    resolve_truthful (.pool p) {} (.ofClass ⟨0⟩) (some "LA;LB<LX;>;") w false
  rw [hnew, List.nil_append] at hes
  rw [hok, ← hes] at htruthful
  exact ⟨htruthful, hresolved, hlog⟩

end JavaGenerics
