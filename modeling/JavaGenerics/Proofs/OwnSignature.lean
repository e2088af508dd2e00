import JavaGenerics.Proofs.Definedness
import JavaGenerics.Proofs.DescriptorSignature
import JavaGenerics.Proofs.Session

/-!
# Members resolved from their own descriptors

A member can be resolved from its descriptor in two ways: as it is done for a member without
a signature, and by passing the text of the descriptor for the signature. The first way looks
the classes up one by one; the second reads a text, sees to the classes around the member,
resolves generic types in a scope, counts synthetic parameters and checks the result against
the very descriptor it came from. Both ways come to the same
(`JavaGenerics.Workspace.resolve_own_descriptor`), where the names in the descriptor are internal.
All that the second does besides is to look through the classes around the member, which a circle
among them shows in the log (`JavaGenerics.Workspace.resolve_own_descriptor_differs`).

A type without generics is resolved by the very steps by which an erased type is
(`JavaGenerics.Resolution.resolve_toSig`), so the two can only differ in what is done around
the types. Each way is therefore followed to what it leaves, the registry, the reports and the
warnings in the log (`JavaGenerics.Attempt.EndsAs`), and the two results are compared.
-/

namespace JavaGenerics

open Attempt Workspace

/-! ### Reports and warnings -/

/-- The warning that an entry gives to the log, if any; a diagnostic is none. -/
def JournalEntry.warning? (e : JournalEntry) : Option LogRecord :=
  (e.record? false).filter (·.level = .warn)

namespace Workspace

/-- What has been reported so far, in order. -/
def reports (w : Workspace) : List Diagnostic := w.journal.toList.filterMap JournalEntry.diagnostic?

/-- The warnings that the log has been given so far, diagnostics apart. -/
def warnings (w : Workspace) : List LogRecord := w.journal.toList.filterMap JournalEntry.warning?

theorem filterMap_record {α : Type} (view : JournalEntry → Option α) (e : JournalEntry)
    (w : Workspace) : (record e w).2.journal.toList.filterMap view =
      w.journal.toList.filterMap view ++ (view e).toList := by
  change ((w.journal.push e).toList.filterMap _) = _
  rw [Array.toList_push, List.filterMap_append]
  cases he : view e <;> simp [he]

theorem reports_record (e : JournalEntry) (w : Workspace) :
    (record e w).2.reports = w.reports ++ e.diagnostic?.toList := filterMap_record _ e w

/-- An entry that is no report leaves the reports as they are. -/
theorem reports_record_of_none {e : JournalEntry} (he : e.diagnostic? = none) (w : Workspace) :
    (record e w).2.reports = w.reports := by
  rw [reports_record, he]
  exact List.append_nil _

theorem warnings_record (e : JournalEntry) (w : Workspace) :
    (record e w).2.warnings = w.warnings ++ e.warning?.toList := filterMap_record _ e w

/-- An entry that is no warning leaves the warnings as they are. -/
theorem warnings_record_of_none {e : JournalEntry} (he : e.warning? = none) (w : Workspace) :
    (record e w).2.warnings = w.warnings := by
  rw [warnings_record, he]
  exact List.append_nil _

end Workspace

/-- The states with the registry `r` in which `ds` have been reported and the log has been given
the warnings `ws`. -/
structure Progress.At (r : Registry) (ds : List Diagnostic) (ws : List LogRecord) (p : Progress) :
    Prop where
  registry : p.workspace.registry = r
  reports : p.workspace.reports = ds
  warnings : p.workspace.warnings = ws

/-- What the log is told when the classes around `c` are looked through once. -/
def Registry.cycleWarnings (r : Registry) (c : ClassId) : List LogRecord :=
  if r.enclosingIsCyclic c then [(Note.enclosingCycle (r.className c)).record] else []

/-- That is a matter of the classes alone. -/
theorem Registry.cycleWarnings_congr (r r' : Registry) (h : r'.classes = r.classes) (c : ClassId) :
    r'.cycleWarnings c = r.cycleWarnings c := by
  have hclass : ∀ d, r'.classAt? d = r.classAt? d := fun d => congrArg (·[d.index]?) h
  have hwalk : r'.outward [c] c = r.outward [c] c :=
    outward_congr (fun d => by unfold enclosing?; rw [hclass]) _ _
  have hname : r'.className c = r.className c := by
    unfold className
    rw [hclass]
  unfold cycleWarnings enclosingIsCyclic
  rw [hwalk, hname]

/-! ### Requests that change nothing -/

namespace Resolution

variable {res : Resolution} {r : Registry} {ds : List Diagnostic} {ws : List LogRecord}

/-- Every request is granted, and changes neither the registry nor what is reported or told to
the log as a warning. -/
def IsGranted (res : Resolution) : Prop :=
  ∀ c w, (res.ask c w).1 = true ∧ (res.ask c w).2.registry = w.registry ∧
    (res.ask c w).2.reports = w.reports ∧ (res.ask c w).2.warnings = w.warnings

/-- A collaborator that does nothing and is content grants every request. -/
theorem isGranted_silent (options : Options) (owner : String) (base : Registry) :
    IsGranted ⟨options, owner, Collaborator.silent.ask base⟩ := by
  have hanswer : ∀ (resolve : Options → ClassId → Option String → Work Bool) (c : ClassId)
      (w : Workspace), (Collaborator.silent.answer resolve c w).1 = true ∧
        (Collaborator.silent.answer resolve c w).2.registry = w.registry ∧
        (Collaborator.silent.answer resolve c w).2.reports = w.reports ∧
        (Collaborator.silent.answer resolve c w).2.warnings = w.warnings := by
    intro resolve c w
    refine ⟨rfl, rfl, ?_, ?_⟩
    · change (record (.answered c true) (record (.asked c _) w).2).2.reports = _
      rw [reports_record_of_none rfl, reports_record_of_none rfl]
    · change (record (.answered c true) (record (.asked c _) w).2).2.warnings = _
      rw [warnings_record_of_none rfl, warnings_record_of_none rfl]
  have hwithin : ∀ (depth : Nat) (c : ClassId) (w : Workspace),
      (Collaborator.silent.askWithin depth c w).1 = true ∧
        (Collaborator.silent.askWithin depth c w).2.registry = w.registry ∧
        (Collaborator.silent.askWithin depth c w).2.reports = w.reports ∧
        (Collaborator.silent.askWithin depth c w).2.warnings = w.warnings := by
    intro depth c w
    cases depth <;> exact hanswer _ c w
  exact hwithin base.unresolvedCount

theorem at_record {e : JournalEntry} (hreport : e.diagnostic? = none) (hwarning : e.warning? = none)
    {p : Progress} (hp : p.At r ds ws) :
    { p with workspace := (record e p.workspace).2 }.At r ds ws :=
  ⟨hp.registry, (reports_record_of_none hreport p.workspace).trans hp.reports,
    (warnings_record_of_none hwarning p.workspace).trans hp.warnings⟩

/-- Requests show neither in the registry nor in the reports and warnings. -/
theorem request_at (h : res.IsGranted) (c : ClassId) :
    Keeps (Progress.At r ds ws) (res.request c) := by
  intro p hp
  rw [request_apply]
  split
  · have hasking : (asking c p).At r ds ws :=
      ⟨hp.registry, (reports_record_of_none rfl p.workspace).trans hp.reports,
        (warnings_record_of_none rfl p.workspace).trans hp.warnings⟩
    obtain ⟨hanswer, hregistry, hreports, hwarnings⟩ := h c (asking c p).workspace
    rw [hanswer, if_pos rfl]
    exact ⟨hregistry.trans hasking.registry, hreports.trans hasking.reports,
      hwarnings.trans hasking.warnings⟩
  · exact hp

/-- A circle shows in the warnings. -/
theorem noteCycle_at (c : ClassId) {p : Progress} (hp : p.At r ds ws) :
    (work (Workspace.noteCycle c) p).2.At r ds (ws ++ r.cycleWarnings c) := by
  have hwork : (work (Workspace.noteCycle c) p).2.workspace =
    (Workspace.noteCycle c p.workspace).2 := rfl
  rw [Workspace.noteCycle_apply, hp.registry] at hwork
  unfold Registry.cycleWarnings
  split at hwork
  · next hcyclic =>
    rw [if_pos hcyclic]
    refine ⟨(congrArg (·.registry) hwork).trans hp.registry, ?_, ?_⟩
    · rw [hwork, reports_record_of_none rfl, hp.reports]
    · rw [hwork, warnings_record, hp.warnings]
      rfl
  · next hacyclic =>
    rw [if_neg hacyclic, List.append_nil]
    exact ⟨(congrArg (·.registry) hwork).trans hp.registry,
      (congrArg (·.reports) hwork).trans hp.reports,
      (congrArg (·.warnings) hwork).trans hp.warnings⟩

/-- Before a text is read in the body of a class, the classes around it are looked through
twice: to ask for them, and to bring them into force. -/
theorem scopeInside_at (h : res.IsGranted) (c : ClassId) {p : Progress} (hp : p.At r ds ws) :
    (res.scopeInside c p).2.At r ds (ws ++ r.cycleWarnings c ++ r.cycleWarnings c) := by
  have hasked : (res.requestEnclosing c p).2.At r ds (ws ++ r.cycleWarnings c) :=
    Keeps.forM (request_at h) _ _ (noteCycle_at c hp)
  exact noteCycle_at c (request_at h c _ hasked)

end Resolution

/-- What the names of classes stand for in a registry. -/
def Registry.classLexicon (r : Registry) : Lexicon := ⟨r.lookup, fun _ => none⟩

theorem Resolution.named_at {res : Resolution} (h : res.IsGranted) (r : Registry)
    (ds : List Diagnostic) (ws : List LogRecord) :
    res.Named (Progress.At r ds ws) r.classLexicon where
  request := request_at h
  lookup p hp name := by
    rw [hp.registry]
    rfl

/-! ### Types without generics -/

theorem FieldType.toSig_ne_void (t : FieldType) : t.toSig ≠ .void := by
  cases t <;> simp [FieldType.toSig]

namespace Resolution

variable (res : Resolution) (scope : Scope)

/-- **A type without generics is resolved as an erased type is.** -/
theorem resolve_toSig (t : FieldType) : res.resolve scope t.toSig = res.resolveRaw t := by
  induction t with
  | base b => simp only [FieldType.toSig, resolve, resolveRaw]
  | object name =>
    -- one step, without arguments to resolve and to count, and no steps inward
    have hname : joinName "" name = internalToBinary name := rfl
    simp only [FieldType.toSig, resolve, resolveStep, resolveArgs, resolveInner, resolveRaw,
      List.length_nil, warnArity_zero, hname, bind_assoc, pure_bind, liftM_pure]
    rfl
  | array elem ih =>
    rw [FieldType.toSig, resolve.eq_5 res scope _ elem.toSig_ne_void, ih, resolveRaw]

end Resolution

/-! ### What a descriptor comes to -/

/-- A computation that fails for want of a class only. -/
def WantsClass {α : Type} (v : Except ResolveError α) : Prop :=
  ∀ e, v = .error e → ∃ name, e = .unknownClass name

theorem wantsClass_ok {α : Type} (a : α) : WantsClass (.ok a) := nofun

theorem WantsClass.bind {α β : Type} {v : Except ResolveError α} {f : α → Except ResolveError β}
    (h : WantsClass v) (hf : ∀ a, WantsClass (f a)) : WantsClass (v >>= f) := by
  intro e he
  cases v with
  | error _ =>
    cases he
    exact h _ rfl
  | ok a => exact hf a e he

theorem WantsClass.mapM {α β : Type} {f : α → Except ResolveError β} (hf : ∀ a, WantsClass (f a))
    (as : List α) : WantsClass (as.mapM f) := by
  induction as with
  | nil => exact wantsClass_ok []
  | cons a as ih =>
    rw [List.mapM_cons]
    exact (hf a).bind fun b => ih.bind fun bs => wantsClass_ok (b :: bs)

namespace Lexicon

variable (l : Lexicon)

/-- What the result of a method comes to. -/
def resultType : Option FieldType → Except ResolveError ResolvedType
  | none => .ok .void
  | some t => l.raw t

theorem wantsClass_raw (t : FieldType) : WantsClass (l.raw t) := by
  induction t with
  | base b => exact wantsClass_ok _
  | object name =>
    have hclass : WantsClass (l.classNamed (internalToBinary name)) := by
      intro e he
      unfold classNamed at he
      split at he
      · cases he
      · exact ⟨_, (Except.error.inj he).symm⟩
    exact hclass.bind fun c => wantsClass_ok _
  | array elem ih => exact ih.bind fun t => wantsClass_ok _

/-- The types in a descriptor, as those of a signature. -/
def erasedTypes (d : MethodDescriptor) : Except ResolveError MethodTypes := do
  let params ← d.params.mapM l.raw
  let result ← l.resultType d.result
  pure ⟨[], params, result, []⟩

theorem wantsClass_erasedTypes (d : MethodDescriptor) : WantsClass (l.erasedTypes d) := by
  refine (WantsClass.mapM l.wantsClass_raw _).bind fun params => ?_
  refine WantsClass.bind ?_ fun result => wantsClass_ok _
  cases d.result with
  | none => exact wantsClass_ok _
  | some t => exact l.wantsClass_raw t

/-- The result of a method in its descriptor, from what the descriptor comes to. -/
theorem erasedResult_eq {m : MethodEntry}
    (h : m.isConstructor = true → m.descriptor.result = none) :
    l.erasedResult m = (do
      let result ← l.resultType m.descriptor.result
      .ok (if m.isConstructor then none else some result)) := by
  unfold erasedResult
  cases hm : m.isConstructor with
  | true =>
    rw [h hm]
    rfl
  | false => cases m.descriptor.result <;> rfl

end Lexicon

namespace Registry

variable {r : Registry}

/-- A type agrees with the erased type that it comes of. -/
theorem fits_raw {t : FieldType} {u : ResolvedType} (h : r.classLexicon.raw t = .ok u) :
    (r.erasure u).Fits t := by
  induction t generalizing u with
  | base b =>
    cases h
    exact ⟨rfl, rfl⟩
  | object name =>
    obtain ⟨c, hc, hu⟩ := bind_eq_ok.1 h
    cases hu
    obtain ⟨e, he, hname⟩ := name_of_lookup (Lexicon.classNamed_eq_ok.1 hc)
    refine ⟨rfl, .inl ?_⟩
    rw [erasure, he, Erasure.Core.ofEntry, hname]
  | array elem ih =>
    obtain ⟨v, hv, hu⟩ := bind_eq_ok.1 h
    cases hu
    exact Erasure.fits_array_iff.2 ⟨_, rfl, ih hv⟩

/-- The types that the descriptor of a method comes to agree with it. -/
theorem methodAgrees_raw {entry : MethodEntry} {params : List ResolvedType}
    {result : ResolvedType} (hparams : entry.descriptor.params.mapM r.classLexicon.raw = .ok params)
    (hresult : r.classLexicon.resultType entry.descriptor.result = .ok result) :
    r.MethodAgrees entry (params.map r.erasure) (r.erasure result) := by
  refine ⟨⟨[], entry.descriptor.params, rfl, .inl rfl, ?_⟩, fun _ => ?_⟩
  · rw [List.forall₂_map_right_iff]
    exact (mapM_eq_ok.1 hparams).imp fun _ _ => fits_raw
  · rcases ho : entry.descriptor.result with _ | t <;> rw [ho] at hresult
    · cases hresult
      rfl
    · exact fits_raw hresult

/-- With as many types as the descriptor has, no parameter is left out. -/
theorem syntheticCount_eq_zero {entry : MethodEntry} {declared : Nat}
    (h : entry.descriptor.params.length = declared) : r.syntheticCount entry declared = 0 := by
  rw [← h]
  have hopen : r.MayOpen entry [] := .inl rfl
  exact syntheticCount_eq rfl hopen

end Registry

/-- A method that a signature without type parameters can describe: it has none, and no
result if it is a constructor. -/
structure MethodEntry.IsPlain (m : MethodEntry) : Prop where
  typeParams : m.typeParams = []
  result : m.isConstructor = true → m.descriptor.result = none

/-- Only what a change makes of the entry that is there counts. -/
theorem Registry.modifyMethod_congr {r : Registry} {m : MethodId} {entry : MethodEntry}
    (hm : r.methodAt? m = some entry) {f g : MethodEntry → MethodEntry} (h : f entry = g entry) :
    r.modifyMethod m f = r.modifyMethod m g := by
  have hmethods : r.methods.modify m.index f = r.methods.modify m.index g := by
    refine Array.ext_getElem? fun i => ?_
    rw [Array.getElem?_modify, Array.getElem?_modify]
    by_cases hi : m.index = i
    · subst hi
      rw [if_pos rfl, if_pos rfl, show r.methods[m.index]? = some entry from hm, Option.map_some,
        Option.map_some, h]
    · rw [if_neg hi, if_neg hi]
  unfold modifyMethod
  rw [hmethods]

/-! ### How a member is left -/

/-- How the resolution of a member ends where `I` holds: with an error, or in a registry and
with some reports, the log having been given the warnings `ws`. -/
def Attempt.EndsAs (I : Progress → Prop) (x : Attempt Unit)
    (v : Except ResolveError (Registry × List Diagnostic)) (ws : List LogRecord) : Prop :=
  ∀ p, I p → match v with
    | .error e => (x.outcome p).1 = .error e
    | .ok (r, ds) => (x.outcome p).1 = .ok () ∧ (x.outcome p).2.At r ds ws

namespace Attempt

variable {α : Type} {I : Progress → Prop} {v : Except ResolveError (Registry × List Diagnostic)}
  {ws : List LogRecord}

theorem Computes.endsAs {x : Attempt α} {u : Except ResolveError α} {f : α → Attempt Unit}
    {g : α → Except ResolveError (Registry × List Diagnostic)} (hx : Computes I x u)
    (hf : ∀ a, u = .ok a → EndsAs I (f a) (g a) ws) : EndsAs I (x >>= f) (u >>= g) ws := by
  intro p hp
  obtain ⟨hu, hq⟩ := hx p hp
  rw [outcome_bind]
  rcases hout : x.outcome p with ⟨e | a, q⟩ <;> rw [hout] at hu hq <;> cases hu
  · exact rfl
  · exact hf a rfl q hq

theorem EndsAs.after {I' : Progress → Prop} {x : StateM Progress α} {f : α → Attempt Unit}
    (hx : ∀ p, I p → I' (x p).2) (hf : ∀ a, EndsAs I' (f a) v ws) :
    EndsAs I (liftM x >>= f) v ws := fun p hp => hf _ _ (hx p hp)

theorem EndsAs.ofRegistry {f : Registry → Attempt Unit}
    (hf : ∀ p, I p → EndsAs I (f p.workspace.registry) v ws) :
    EndsAs I (liftM getRegistry >>= f) v ws := fun p hp => hf p hp p hp

variable {r : Registry} {ds : List Diagnostic}

theorem endsAs_commit (f : Registry → Registry) {n : Note}
    (hn : JournalEntry.warning? (.noted n) = none) :
    EndsAs (Progress.At r ds ws) (commit f n) (.ok (f r, ds)) ws := by
  intro p hp
  refine ⟨rfl, congrArg f hp.registry, ?_, ?_⟩
  · exact (reports_record_of_none (e := .noted n) rfl _).trans hp.reports
  · exact (warnings_record_of_none hn _).trans hp.warnings

end Attempt

/-- The names of parameters, none of which is synthetic. -/
def paramNames (names : List String) (declared : Nat) : List String :=
  (suppliedArgNames? names declared 0).getD (numberedNames declared)

namespace Resolution

variable {res : Resolution} {r : Registry} {ds : List Diagnostic} {ws : List LogRecord}

/-- What is reported if the names that are supplied do not go with the parameters. -/
def nameReports (res : Resolution) (names : List String) (declared : Nat) : List Diagnostic :=
  if (suppliedArgNames? names declared 0).isNone && !names.isEmpty then
    [(Warning.argumentNames names.length declared res.owner).diagnostic res.owner]
  else []

theorem nameParams_at (names : List String) (declared : Nat) {p : Progress}
    (hp : p.At r ds ws) :
    (res.nameParams names declared 0 p).1 = paramNames names declared ∧
      (res.nameParams names declared 0 p).2.At r (ds ++ res.nameReports names declared) ws := by
  have hsame : p.At r (ds ++ []) ws := by rwa [List.append_nil]
  unfold nameParams paramNames nameReports
  rcases suppliedArgNames? names declared 0 with _ | supplied
  · cases names with
    | nil => exact ⟨rfl, hsame⟩
    | cons name names =>
      refine ⟨rfl, hp.registry, ?_, ?_⟩
      · exact (reports_record (.reported _) p.workspace).trans (congrArg (· ++ [_]) hp.reports)
      · exact (warnings_record_of_none (e := .reported _) rfl _).trans hp.warnings
  · exact ⟨rfl, hsame⟩

/-- What a method is left as when its parameters are named. -/
theorem endsAs_named (names : List String) (declared : Nat)
    (f : List String → Registry → Registry) {n : Note}
    (hn : JournalEntry.warning? (.noted n) = none) :
    EndsAs (Progress.At r ds ws) (do
        let names ← res.nameParams names declared 0
        commit (f names) n)
      (.ok (f (paramNames names declared) r, ds ++ res.nameReports names declared)) ws := by
  intro p hp
  obtain ⟨hnames, hnamed⟩ := res.nameParams_at names declared hp
  change ((commit (f (res.nameParams names declared 0 p).1) n).outcome _).1 = _ ∧
    ((commit (f (res.nameParams names declared 0 p).1) n).outcome _).2.At _ _ _
  rw [hnames]
  exact endsAs_commit _ hn _ hnamed

/-! ### Without a signature -/

/-- What a method is left as that has the types in its descriptor. -/
def erasedMethod (res : Resolution) (r : Registry) (ds : List Diagnostic) (m : MethodId)
    (entry : MethodEntry) : Except ResolveError (Registry × List Diagnostic) := do
  let types ← r.classLexicon.erasedTypes entry.descriptor
  let names := paramNames entry.argNames types.params.length
  pure (r.modifyMethod m (types.fill names),
    ds ++ res.nameReports entry.argNames types.params.length)

/-- Resolving a method without type parameters from its descriptor fills in the types that a
signature without type parameters would. -/
theorem erasedMethod_eq {m : MethodId} {entry : MethodEntry} (hm : r.methodAt? m = some entry)
    (hplain : entry.IsPlain) :
    res.erasedMethod r ds m entry = (do
      let params ← entry.descriptor.params.mapM r.classLexicon.raw
      let result ← r.classLexicon.erasedResult entry
      let names := paramNames entry.argNames params.length
      pure (r.modifyMethod m (MethodEntry.fillErased (names.zip params) result),
        ds ++ res.nameReports entry.argNames params.length)) := by
  unfold erasedMethod Lexicon.erasedTypes
  rw [Lexicon.erasedResult_eq _ hplain.result]
  simp only [bind_assoc, pure_bind]
  congr 1
  funext params
  congr 1
  funext result
  -- a constructor has no result either way, and the type parameters are those it had: none
  have hfill : MethodTypes.fill ⟨[], params, result, []⟩ (paramNames entry.argNames params.length)
      entry = MethodEntry.fillErased ((paramNames entry.argNames params.length).zip params)
        (if entry.isConstructor then none else some result) entry := by
    simp only [MethodTypes.fill, MethodEntry.fillErased, hplain.typeParams]
  rw [Registry.modifyMethod_congr hm hfill]
  rfl

/-- **What a method without a signature is left as.** -/
theorem endsAs_methodDescriptor (h : res.IsGranted) {m : MethodId} {entry : MethodEntry}
    (hm : r.methodAt? m = some entry) (hplain : entry.IsPlain) :
    EndsAs (Progress.At r ds ws) (res.resolveMethodDescriptor m) (res.erasedMethod r ds m entry)
      ws := by
  rw [erasedMethod_eq hm hplain]
  unfold resolveMethodDescriptor
  refine EndsAs.ofRegistry fun p hp => ?_
  rw [hp.registry, hm]
  refine (Computes.mapM (computes_raw (named_at h r ds ws)) _).endsAs fun params _ => ?_
  refine (computes_erasedResult (named_at h r ds ws) entry).endsAs fun result _ => ?_
  exact endsAs_named entry.argNames params.length
    (fun names r => r.modifyMethod m (MethodEntry.fillErased (names.zip params) result)) rfl

/-- What a field is left as that has the type in its descriptor. -/
def erasedField (r : Registry) (ds : List Diagnostic) (f : FieldId) (entry : FieldEntry) :
    Except ResolveError (Registry × List Diagnostic) := do
  let type ← r.classLexicon.raw entry.descriptor
  pure (r.modifyField f (FieldEntry.fill type), ds)

/-- What a field without a signature is left as. -/
theorem endsAs_fieldDescriptor (h : res.IsGranted) {f : FieldId} {entry : FieldEntry}
    (hf : r.fieldAt? f = some entry) :
    EndsAs (Progress.At r ds ws) (res.resolveFieldEntry f none) (erasedField r ds f entry)
      ws := by
  unfold resolveFieldEntry
  refine EndsAs.ofRegistry fun p hp => ?_
  rw [hp.registry, hf]
  refine (computes_raw (named_at h r ds ws) _).endsAs fun type _ => ?_
  exact endsAs_commit _ rfl

/-! ### With the descriptor for a signature -/

theorem resolveAt_toSig (scope : Scope) {position : Position} {t : FieldType}
    (h : position.complaint? t.toSig = none) :
    res.resolveAt position scope t.toSig = res.resolveRaw t := by
  unfold resolveAt
  rw [h]
  exact resolve_toSig res scope t

/-- What the result in a descriptor comes to, taken for the result of a signature. -/
theorem computes_resultSig (h : res.IsGranted) (scope : Scope) (o : Option FieldType) :
    Computes (Progress.At r ds ws) (res.resolve scope (MethodDescriptor.resultSig o))
      (r.classLexicon.resultType o) := by
  cases o with
  | none =>
    rw [MethodDescriptor.resultSig, resolve]
    exact computes_pure _
  | some t =>
    rw [MethodDescriptor.resultSig, resolve_toSig]
    exact computes_raw (named_at h r ds ws) t

/-- What the parameters in a descriptor come to, taken for those of a signature. -/
theorem computes_paramSigs (h : res.IsGranted) (scope : Scope) (ts : List FieldType) :
    Computes (Progress.At r ds ws) ((ts.map FieldType.toSig).mapM (res.resolveAt .param scope))
      (ts.mapM r.classLexicon.raw) := by
  have hparam : ∀ t : FieldType, Position.param.complaint? t.toSig = none := by
    intro t
    cases t <;> rfl
  rw [List.mapM_map]
  refine Computes.mapM (fun t => ?_) ts
  rw [Function.comp_apply, resolveAt_toSig scope (hparam t)]
  exact computes_raw (named_at h r ds ws) t

/-- **What a descriptor comes to, taken for a signature.** -/
theorem computes_toSig (h : res.IsGranted) {m : MethodId} (scope : Scope)
    (hdeclared : r.typeParams (.ofMethod m) = []) (d : MethodDescriptor) :
    Computes (Progress.At r ds ws) (res.resolveMethodTypes m scope d.toSig)
      (r.classLexicon.erasedTypes d) := by
  have hintroduce : Computes (Progress.At r ds ws) (res.introduce scope (.ofMethod m) [])
      (.ok ([], scope)) := by
    refine Computes.ofRegistry fun p hp => ?_
    rw [hp.registry, hdeclared]
    exact computes_pure _
  have htypes : Computes (Progress.At r ds ws) (do
      let params ← (d.params.map FieldType.toSig).mapM (res.resolveAt .param scope)
      let result ← res.resolve scope (MethodDescriptor.resultSig d.result)
      let throws ← [].mapM (res.resolveAt .reference scope)
      pure ⟨[], params, result, throws⟩) (r.classLexicon.erasedTypes d) :=
    (computes_paramSigs h scope d.params).bind fun _ _ =>
      (computes_resultSig h scope d.result).bind fun _ _ => computes_pure _
  -- no type parameters are declared, so nothing comes in front of the types
  unfold resolveMethodTypes
  change Computes _ _ (checkDistinct [] >>= fun _ =>
    (Except.ok ([], scope) : Except ResolveError (List TypeParam × Scope)) >>= fun _ =>
      r.classLexicon.erasedTypes d)
  refine (computes_ofExcept _).bind fun _ _ => hintroduce.bind fun introduced heq => ?_
  cases heq
  exact htypes

/-- **What a method is left as when its signature comes to the types in its descriptor.** -/
theorem endsAs_commitMethod {m : MethodId} {entry : MethodEntry}
    (hm : r.methodAt? m = some entry) {types : MethodTypes}
    (htypes : r.classLexicon.erasedTypes entry.descriptor = .ok types) :
    EndsAs (Progress.At r ds ws) (res.commitMethod m types)
      (.ok (r.modifyMethod m (types.fill (paramNames entry.argNames types.params.length)),
        ds ++ res.nameReports entry.argNames types.params.length)) ws := by
  obtain ⟨params, hparams, hrest⟩ := bind_eq_ok.1 htypes
  obtain ⟨result, hresult, hpure⟩ := bind_eq_ok.1 hrest
  cases hpure
  have hsynthetic : r.syntheticCount entry params.length = 0 :=
    Registry.syntheticCount_eq_zero (mapM_eq_ok.1 hparams).length_eq
  have hcheck : r.checkDescriptor entry 0 params result = .ok () := by
    rw [← hsynthetic]
    exact Registry.checkDescriptor_eq_ok.2 (Registry.methodAgrees_raw hparams hresult)
  unfold commitMethod
  refine EndsAs.ofRegistry fun p hp => ?_
  rw [hp.registry, hm]
  dsimp only
  rw [hsynthetic, hcheck]
  split <;>
    exact endsAs_named entry.argNames params.length
      (fun names r => r.modifyMethod m (MethodTypes.fill ⟨[], params, result, []⟩ names)) rfl

/-- What a method is left as when its signature is its descriptor. -/
theorem endsAs_methodText (h : res.IsGranted) {m : MethodId} {entry : MethodEntry}
    (hm : r.methodAt? m = some entry) (hplain : entry.IsPlain)
    (hinternal : entry.descriptor.IsInternal) {sig : MethodSig}
    (hparse : MethodSig.parse entry.descriptor.text = .ok sig) :
    EndsAs (Progress.At r ds ws) (res.resolveMethodText m entry.descriptor.text)
      (res.erasedMethod r ds m entry)
      (ws ++ r.cycleWarnings entry.owner ++ r.cycleWarnings entry.owner) := by
  have hdeclared : r.typeParams (.ofMethod m) = [] := by
    rw [Registry.typeParams, hm]
    exact hplain.typeParams
  unfold resolveMethodText
  rw [hparse, MethodSig.eq_toSig_of_parse hinternal hparse]
  refine EndsAs.ofRegistry fun p hp => ?_
  rw [hp.registry, hm]
  refine EndsAs.after (fun p => scopeInside_at h entry.owner) fun scope => ?_
  refine (computes_toSig h scope hdeclared entry.descriptor).endsAs fun types htypes => ?_
  exact endsAs_commitMethod hm htypes

/-- What a field is left as when its signature is its descriptor. -/
theorem endsAs_fieldText (h : res.IsGranted) {f : FieldId} {entry : FieldEntry}
    (hf : r.fieldAt? f = some entry) (hinternal : entry.descriptor.IsInternal) {sig : TypeSig}
    (hparse : TypeSig.parse entry.descriptor.text = .ok sig) :
    EndsAs (Progress.At r ds ws) (res.resolveFieldEntry f (some entry.descriptor.text))
      (erasedField r ds f entry)
      (ws ++ r.cycleWarnings entry.owner ++ r.cycleWarnings entry.owner) := by
  have hreference : Position.reference.complaint? entry.descriptor.toSig = none := by
    rw [← TypeSig.eq_toSig_of_parse hinternal hparse]
    exact Lexicon.complaint?_reference (TypeSig.parse_eq_ok.1 hparse).1.reference
  -- the type is checked against the very descriptor that it comes of
  have htype : ∀ scope {ws}, Computes (Progress.At r ds ws) (do
      let type ← res.resolveAt .reference scope entry.descriptor.toSig
      if res.options.verifyErasure then
        Attempt.ofExcept ((← Attempt.getRegistry).checkErasure entry.descriptor type)
      pure type) (r.classLexicon.raw entry.descriptor) := by
    intro scope ws
    rw [resolveAt_toSig scope hreference, ← bind_pure (r.classLexicon.raw entry.descriptor)]
    refine (computes_raw (named_at h r ds ws) _).bind fun type hraw => ?_
    split
    · refine Computes.ofRegistry fun p hp => ?_
      rw [hp.registry, Registry.checkErasure_eq_ok.2 (Registry.fits_raw hraw)]
      exact computes_pure type
    · exact computes_pure type
  unfold resolveFieldEntry
  refine EndsAs.ofRegistry fun p hp => ?_
  rw [hp.registry, hf]
  dsimp only
  unfold resolveFieldText
  rw [hparse, TypeSig.eq_toSig_of_parse hinternal hparse, bind_assoc]
  refine EndsAs.after (fun p => scopeInside_at h entry.owner) fun scope => ?_
  exact (htype scope).endsAs fun type _ => endsAs_commit _ rfl

end Resolution

/-! ### Both ways -/

/-- In a registry, `text` is the descriptor of a member of the class `c` that is unresolved and
has no type parameters, and may be read as a signature. -/
inductive Registry.Describes (r : Registry) : Target → ClassId → String → Prop where
  | ofMethod {m : MethodId} {entry : MethodEntry} {sig : MethodSig}
      (found : r.methodAt? m = some entry) (unresolved : entry.stage = .unresolved)
      (plain : entry.IsPlain) (parse : MethodSig.parse entry.descriptor.text = .ok sig) :
      Describes r (.ofMethod m) entry.owner entry.descriptor.text
  | ofField {f : FieldId} {entry : FieldEntry} {sig : TypeSig}
      (found : r.fieldAt? f = some entry) (unresolved : entry.stage = .unresolved)
      (parse : TypeSig.parse entry.descriptor.text = .ok sig) :
      Describes r (.ofField f) entry.owner entry.descriptor.text

/-- The classes in the descriptor of a member have internal names. So they have in every
descriptor that was read (`JavaGenerics.MethodDescriptor.isInternal_of_parse`,
`JavaGenerics.FieldType.isInternal_of_parse`). -/
def Registry.HasInternalNames (r : Registry) : Target → Prop
  | .ofMethod m => ∀ entry, r.methodAt? m = some entry → entry.descriptor.IsInternal
  | .ofField f => ∀ entry, r.fieldAt? f = some entry → entry.descriptor.IsInternal
  | .ofClass _ => True

namespace Registry

variable {r : Registry} {t : Target} {c : ClassId} {text : String}

/-- What makes `text` the descriptor of a method, in terms that can be computed. -/
theorem describes_of_map {m : MethodId}
    (hm : (r.methodAt? m).map (fun e =>
      (e.descriptor.text, e.owner, e.stage, e.typeParams.length, e.isConstructor)) =
        some (text, c, .unresolved, 0, false))
    (hparse : (MethodSig.parse text).isOk = true) : r.Describes (.ofMethod m) c text := by
  obtain ⟨e, he, hfields⟩ := Option.map_eq_some_iff.1 hm
  obtain ⟨rfl, rfl, hstage, hparams, hconstructor⟩ := by simpa only [Prod.mk.injEq] using hfields
  obtain ⟨sig, hsig⟩ := isOk_iff_exists.1 hparse
  refine .ofMethod he hstage ⟨List.length_eq_zero_iff.1 hparams, fun h => ?_⟩ hsig
  rw [hconstructor] at h
  cases h

theorem Describes.stage?_eq (h : r.Describes t c text) : r.stage? t = some .unresolved := by
  cases h with
  | ofMethod found unresolved => rw [stage?, found, Option.map_some, unresolved]
  | ofField found unresolved => rw [stage?, found, Option.map_some, unresolved]

/-- With its descriptor for a signature and without a signature, a member is left the same;
only a class can be missing. The log is told of circles around its class where a text is
read. -/
theorem Describes.endsAs (h : r.Describes t c text) (hinternal : r.HasInternalNames t)
    {res : Resolution} (hask : res.IsGranted) (ds : List Diagnostic) (ws : List LogRecord) :
    ∃ v, WantsClass v ∧
      EndsAs (Progress.At (r.setStage .resolving t) ds ws) (res.body t (some text)) v
        (ws ++ r.cycleWarnings c ++ r.cycleWarnings c) ∧
      EndsAs (Progress.At (r.setStage .resolving t) ds ws) (res.body t none) v ws := by
  cases h with
  | @ofMethod m entry sig found unresolved plain parse =>
    -- the mark changes nothing in the entry that is looked at on the way
    let marked : MethodEntry := { entry with stage := .resolving }
    have hmarked : (r.setStage .resolving (.ofMethod m)).methodAt? m = some marked := by
      simp [setStage, methodAt?_modifyMethod, found, marked]
    have hplain : marked.IsPlain := ⟨plain.typeParams, plain.result⟩
    have htext : EndsAs (Progress.At _ ds ws) (res.resolveMethodText m marked.descriptor.text)
        (res.erasedMethod _ ds m marked) _ :=
      Resolution.endsAs_methodText hask hmarked hplain (hinternal entry found) parse
    rw [cycleWarnings_congr r (r.setStage .resolving (.ofMethod m)) rfl] at htext
    refine ⟨_, ?_, htext, Resolution.endsAs_methodDescriptor hask hmarked hplain⟩
    exact (Lexicon.wantsClass_erasedTypes _ _).bind fun _ => wantsClass_ok _
  | @ofField f entry sig found unresolved parse =>
    let marked : FieldEntry := { entry with stage := .resolving }
    have hmarked : (r.setStage .resolving (.ofField f)).fieldAt? f = some marked := by
      simp [setStage, fieldAt?_modifyField, found, marked]
    have htext : EndsAs (Progress.At _ ds ws)
        (res.resolveFieldEntry f (some marked.descriptor.text))
        (Resolution.erasedField _ ds f marked) _ :=
      Resolution.endsAs_fieldText hask hmarked (hinternal entry found) parse
    rw [cycleWarnings_congr r (r.setStage .resolving (.ofField f)) rfl] at htext
    refine ⟨_, ?_, htext, Resolution.endsAs_fieldDescriptor hask hmarked⟩
    exact (Lexicon.wantsClass_raw _ _).bind fun _ => wantsClass_ok _

end Registry

namespace Workspace

/-- A resolution ends, and leaves the registry, the reports and the warnings, as its main part
does. -/
theorem resolve_of_endsAs (options : Options) {w : Workspace} {t : Target}
    {signature : Option String} (hstage : w.registry.stage? t = some .unresolved)
    {v : Except ResolveError (Registry × List Diagnostic)} {ws : List LogRecord}
    (h : EndsAs (Progress.At (w.registry.setStage .resolving t) w.reports w.warnings)
      ((Collaborator.silent.resolution options w.registry t).body t signature) v ws) :
    match v with
    | .error e => (resolve .silent options t signature w).1 = .error e
    | .ok (r, ds) => (resolve .silent options t signature w).1 = .ok () ∧
        (resolve .silent options t signature w).2.registry = r ∧
        (resolve .silent options t signature w).2.reports = ds ∧
        (resolve .silent options t signature w).2.warnings = ws := by
  have hbegin : Progress.At (w.registry.setStage .resolving t) w.reports w.warnings
      (beginning t w) := by
    refine ⟨rfl, ?_, ?_⟩
    · refine (reports_record_of_none rfl (marking t w)).trans ?_
      exact reports_record_of_none (e := .called t) rfl w
    · refine (warnings_record_of_none rfl (marking t w)).trans ?_
      exact warnings_record_of_none (e := .called t) rfl w
  have hends := h _ hbegin
  have hout := (resolve_apply .silent options t signature w).trans
    (resolveBy_of_mark_ok _ _ _ _ (Registry.mark_eq_ok.2 ⟨hstage, rfl⟩))
  rw [hout]
  unfold Collaborator.resolution at hends
  dsimp only
  generalize Attempt.outcome (Resolution.body _ t signature) (beginning t w) = x at hends ⊢
  obtain ⟨out, q⟩ := x
  rcases v with e | ⟨r, ds⟩
  · exact hends
  · obtain ⟨rfl, hleft⟩ := hends
    refine ⟨rfl, hleft.registry, ?_, ?_⟩
    · refine (reports_record_of_none (e := .returned t true) rfl _).trans ?_
      exact (reports_record_of_none (e := .ended t) rfl _).trans hleft.reports
    · refine (warnings_record_of_none (e := .returned t true) rfl _).trans ?_
      exact (warnings_record_of_none (e := .ended t) rfl _).trans hleft.warnings

/-- **A member resolved with its descriptor for a signature comes to the same as without a
signature**, if the names in the descriptor are internal. The same is reported, and nothing is
told to the log as a warning but that there is a circle of classes around the member: twice
where the text is read, and not at all where it is not. -/
theorem resolve_own_descriptor (options : Options) {w : Workspace} {t : Target} {c : ClassId}
    {text : String} (h : w.registry.Describes t c text)
    (hinternal : w.registry.HasInternalNames t) :
    let signed := resolve .silent options t (some text) w
    let erased := resolve .silent options t none w
    (signed.1 = .ok () ∧ erased.1 = .ok () ∧ signed.2.registry = erased.2.registry ∧
        signed.2.reports = erased.2.reports ∧ erased.2.warnings = w.warnings ∧
        signed.2.warnings =
          w.warnings ++ w.registry.cycleWarnings c ++ w.registry.cycleWarnings c) ∨
      ∃ name, signed.1 = .error (.unknownClass name) ∧ erased.1 = .error (.unknownClass name) := by
  intro signed erased
  have hask := Resolution.isGranted_silent options (w.registry.targetName t) w.registry
  obtain ⟨v, hwants, hsigned, herased⟩ := h.endsAs hinternal hask w.reports w.warnings
  have hs := resolve_of_endsAs options h.stage?_eq hsigned
  have he := resolve_of_endsAs options h.stage?_eq herased
  rcases v with e | ⟨r, ds⟩
  · obtain ⟨name, rfl⟩ := hwants e rfl
    exact .inr ⟨name, hs, he⟩
  · obtain ⟨hsok, hsregistry, hsreports, hswarnings⟩ := hs
    obtain ⟨heok, heregistry, hereports, hewarnings⟩ := he
    exact .inl ⟨hsok, heok, hsregistry.trans heregistry.symm, hsreports.trans hereports.symm,
      hewarnings, hswarnings⟩

/-- A method of a class that is declared in itself, with an array for a parameter and one argument
name too few, resolved both ways. -/
theorem resolve_own_descriptor_of_circle :
    let d : MethodDescriptor := ⟨[.array (.object "A"), .base .int], some (.object "O")⟩
    let w := (Session.run [.addClass { name := "O" },
      .addClass { name := "A", superclass := some "O", enclosing := some ⟨1⟩ },
      .addMethod ⟨1⟩ "m" d ["a"] []] (Session.start false)).2
    let signed := resolve .silent {} (.ofMethod ⟨0⟩) (some "([LA;I)LO;") w
    let erased := resolve .silent {} (.ofMethod ⟨0⟩) none w
    w.registry.Describes (.ofMethod ⟨0⟩) ⟨1⟩ "([LA;I)LO;" ∧
      w.registry.HasInternalNames (.ofMethod ⟨0⟩) ∧ signed.1 = .ok () ∧ erased.1 = .ok () ∧
      signed.2.registry = erased.2.registry ∧ signed.2.reports = erased.2.reports ∧
      erased.2.warnings = w.warnings ∧
      signed.2.warnings = w.warnings ++ w.registry.cycleWarnings ⟨1⟩ ++
        w.registry.cycleWarnings ⟨1⟩ := by
  intro d w signed erased
  have hread : MethodDescriptor.parse "([LA;I)LO;" = .ok d := by decide +kernel
  have hinternal : w.registry.HasInternalNames (.ofMethod ⟨0⟩) := by
    have hentry : (w.registry.methodAt? ⟨0⟩).map (·.descriptor) = some d := by decide +kernel
    intro e he
    obtain ⟨e', he', hd⟩ := Option.map_eq_some_iff.1 hentry
    cases he.symm.trans he'
    exact hd ▸ MethodDescriptor.isInternal_of_parse hread
  have hdescribes : w.registry.Describes (.ofMethod ⟨0⟩) ⟨1⟩ "([LA;I)LO;" :=
    Registry.describes_of_map (by decide +kernel) (by decide +kernel)
  have hok : signed.1.isOk = true := by decide +kernel
  rcases resolve_own_descriptor {} hdescribes hinternal with hsame | ⟨name, hsigned, -⟩
  · exact ⟨hdescribes, hinternal, hsame⟩
  · change signed.1 = _ at hsigned
    rw [hsigned] at hok
    cases hok

/-- **What keeps the two ways apart**: a name that is not internal, and a circle. A signature
breaks the name at the dot, and so wants another class. And if a method is declared in a class that
is declared in itself, the log is warned of the circle where the text is read, and not where it is
not. -/
theorem resolve_own_descriptor_differs :
    let dotted := (Session.run [.addClass { name := "a.B" },
      .addMethod ⟨0⟩ "m" ⟨[.object "a.B"], none⟩ [] []] (Session.start false)).2
    let circle := (Session.run [.addClass { name := "A", enclosing := some ⟨0⟩ },
      .addMethod ⟨0⟩ "m" ⟨[], none⟩ [] []] (Session.start false)).2
    let signed (text : String) := resolve .silent {} (.ofMethod ⟨0⟩) (some text)
    let erased := resolve .silent {} (.ofMethod ⟨0⟩) none
    dotted.registry.Describes (.ofMethod ⟨0⟩) ⟨0⟩ "(La.B;)V" ∧
      (signed "(La.B;)V" dotted).1 = .error (.unknownClass "a") ∧ (erased dotted).1 = .ok () ∧
      circle.registry.Describes (.ofMethod ⟨0⟩) ⟨0⟩ "()V" ∧
      (signed "()V" circle).1 = .ok () ∧ (erased circle).1 = .ok () ∧
      (signed "()V" circle).2.warnings.map (·.message) =
        ["cyclic enclosing class chain", "cyclic enclosing class chain"] ∧
      (erased circle).2.warnings = [] := by
  intro dotted circle signed erased
  exact ⟨Registry.describes_of_map (by decide +kernel) (by decide +kernel), by decide +kernel,
    by decide +kernel, Registry.describes_of_map (by decide +kernel) (by decide +kernel),
    by decide +kernel, by decide +kernel, by decide +kernel, by decide +kernel⟩

end Workspace

end JavaGenerics
