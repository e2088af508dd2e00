import Mathlib.Data.Set.Insert
import Mathlib.Logic.Relation
import JavaGenerics.Proofs.Binding
import JavaGenerics.Proofs.Collecting
import JavaGenerics.Proofs.Repetition

/-!
# Resolution on demand is complete

A resolution asks for the unresolved classes that it meets, and leaves those alone that are
being resolved further out. So while a call is under way there are resolved classes that
refer to unfinished ones. If nothing is objected to, they are all finished in the end:
`JavaGenerics.Workspace.resolve_complete` says that every class which can be reached from
the class called for, along the classes that are mentioned in what was committed, is
resolved.

The invariant is that of a tricolour marking. Unresolved classes are white, those being
resolved grey, and resolved ones black; and nothing black refers to anything white
(`JavaGenerics.Registry.Closed`). It holds as long as nothing is reported that could be an
objection (`JavaGenerics.Workspace.Complete`): a class is asked for when it is looked up,
so everything in the types that are committed is at least grey; and a resolution that turns
its class white again reports an error. When the outermost call returns, nothing is grey.

A class without a signature keeps the type parameters that it had, with their bounds, and
these are not looked at. If an earlier call left them behind, they may mention a class that
is still unresolved (`JavaGenerics.Workspace.resolve_misses_old_bounds`).
-/

namespace JavaGenerics

open Attempt Workspace ResolvedType

/-! ### What a class refers to -/

/-- The types that a class is committed to by its resolution from a signature, or from
none; in the latter case its type parameters are no part of it. -/
def ClassEntry.committed (e : ClassEntry) : Option String → List ResolvedType
  | some _ => e.types
  | none => e.superclass.toList ++ e.interfaces

/-- What each class is resolved from in a call for `t` with this signature: any other class
from what the pool has for it. -/
def Pool.source (p : Pool) (r : Registry) (t : ClassId) (signature : Option String)
    (c : ClassId) : Option String :=
  if c = t then signature else p.signature? r c

namespace Registry

variable (r : Registry) (source : ClassId → Option String)

/-- The class `c`, where it is resolved from what `source` says, is committed to a type
that mentions the class `d`. -/
def Refers (c d : ClassId) : Prop :=
  ∃ e t, r.classAt? c = some e ∧ t ∈ e.committed (source c) ∧ d ∈ t.classes

/-- A class is registered, and is resolved or being resolved. -/
def Reached (c : ClassId) : Prop := ∃ e, r.classAt? c = some e ∧ e.stage ≠ .unresolved

/-- **A closed registry**: resolved classes refer to no class that is unresolved. -/
def Closed : Prop :=
  ∀ c d, r.stage? (.ofClass c) = some .resolved → r.Refers source c d → r.Reached d

variable {r source} {c d : ClassId} {f : ClassEntry → ClassEntry}

theorem Reached.modifyClass (h : r.Reached d) (hf : ∀ e, (f e).stage ≠ .unresolved)
    (c : ClassId) : (r.modifyClass c f).Reached d := by
  obtain ⟨e, he, hs⟩ := h
  by_cases hdc : d = c
  · subst hdc
    exact ⟨f e, by rw [classAt?_modifyClass_self, he]; rfl, hf e⟩
  · exact ⟨e, by rw [classAt?_modifyClass_of_ne _ hdc, he], hs⟩

/-- A registry stays closed when a class is marked, or is resolved to types that mention
no unresolved class. -/
theorem Closed.modifyClass (h : r.Closed source) (hf : ∀ e, (f e).stage ≠ .unresolved)
    (hc : ∀ e, (f e).stage = .resolved → ∀ t ∈ (f e).committed (source c), ∀ d ∈ t.classes,
      r.Reached d) : (r.modifyClass c f).Closed source := by
  rintro a d ha ⟨e, t, he, ht, hd⟩
  refine Reached.modifyClass ?_ hf c
  have hstage : e.stage = .resolved := by simpa [stage?, he] using ha
  by_cases hac : a = c
  · subst hac
    rw [classAt?_modifyClass_self] at he
    obtain ⟨e, -, rfl⟩ := Option.map_eq_some_iff.1 he
    exact hc e hstage t ht d hd
  · rw [classAt?_modifyClass_of_ne _ hac] at he
    exact h a d (by rw [stage?, he, Option.map_some, hstage]) ⟨e, t, he, ht, hd⟩

end Registry

/-! ### As long as nothing is objected to -/

/-- The report of anything but a wrong number of type arguments. -/
def JournalEntry.isTrouble : JournalEntry → Bool
  | reported d => d.code != "type-argument-arity"
  | _ => false

open JournalEntry

namespace Workspace

/-- How many troubles have been reported. -/
def troubles (w : Workspace) : Nat := w.journal.toList.countP isTrouble

theorem troubles_record (e : JournalEntry) (w : Workspace) :
    (record e w).2.troubles = w.troubles + if e.isTrouble then 1 else 0 := by
  rw [troubles, toList_record, List.countP_append, List.countP_singleton, troubles]

/-- Unless more than `n` troubles have been reported, the registry is closed and the
classes in `A` are reached. -/
structure Complete (source : ClassId → Option String) (n : Nat) (A : Set ClassId)
    (w : Workspace) : Prop where
  le : n ≤ w.troubles
  closed : w.troubles = n → w.registry.Closed source
  reached : w.troubles = n → ∀ c ∈ A, w.registry.Reached c

variable {source : ClassId → Option String} {n : Nat} {A A' : Set ClassId} {w : Workspace}
  {e : JournalEntry}

theorem Complete.anti (h : w.Complete source n A) (hA : A' ⊆ A) : w.Complete source n A' :=
  ⟨h.le, h.closed, fun hn c hc => h.reached hn c (hA hc)⟩

/-- Once there is one trouble more, nothing has to be ensured. -/
theorem complete_of_lt (h : n < w.troubles) : w.Complete source n A :=
  ⟨Nat.le_of_lt h, fun hn => by omega, fun hn => by omega⟩

theorem complete_record_of_isTrouble (h : n ≤ w.troubles) (he : e.isTrouble = true) :
    (record e w).2.Complete source n A :=
  complete_of_lt (by rw [troubles_record, he, if_pos rfl]; omega)

theorem Complete.record (h : w.Complete source n A) (e : JournalEntry) :
    (record e w).2.Complete source n A := by
  cases he : e.isTrouble with
  | true => exact complete_record_of_isTrouble h.le he
  | false =>
    have hn : (Workspace.record e w).2.troubles = w.troubles := by
      rw [troubles_record, he]
      rfl
    exact ⟨hn ▸ h.le, hn ▸ h.closed, hn ▸ h.reached⟩

/-- A class may be marked, or be resolved to types that mention only what is reached. -/
theorem Complete.modifyClass {c : ClassId} {f : ClassEntry → ClassEntry}
    (h : w.Complete source n A) (hf : ∀ e, (f e).stage ≠ .unresolved)
    (hc : ∀ e, (f e).stage = .resolved → ∀ t ∈ (f e).committed (source c), ∀ d ∈ t.classes,
      d ∈ A) :
    Complete source n A { w with registry := w.registry.modifyClass c f } where
  le := h.le
  closed hn := (h.closed hn).modifyClass hf fun e hs t ht d hd =>
    h.reached hn d (hc e hs t ht d hd)
  reached hn d hd := (h.reached hn d hd).modifyClass hf c

/-- A class that is marked is reached. -/
theorem Complete.mark {c : ClassId} {entry : ClassEntry} (h : w.Complete source n A)
    (hc : w.registry.classAt? c = some entry) :
    Complete source n (insert c A)
      { w with registry := w.registry.setStage .resolving (.ofClass c) } := by
  have hmarked : Complete source n A
      { w with registry := w.registry.setStage .resolving (.ofClass c) } :=
    h.modifyClass (fun _ => nofun) fun _ => nofun
  refine ⟨hmarked.le, hmarked.closed, fun hn d hd => ?_⟩
  rcases hd with rfl | hd
  · refine ⟨{ entry with stage := .resolving }, ?_, nofun⟩
    change (w.registry.modifyClass d _).classAt? d = _
    rw [Registry.classAt?_modifyClass_self, hc]
    rfl
  · exact hmarked.reached hn d hd

end Workspace

/-- The states of a resolution inside the call for `t`: the names are those of `r`, and
besides the classes in `A` also `t` is reached, and whatever the resolution has asked for,
if it is the class of its name. -/
def Progress.Completing (r : Registry) (source : ClassId → Option String) (n : Nat)
    (t : ClassId) (A : Set ClassId) (p : Progress) : Prop :=
  r.SameNames p.workspace.registry ∧ p.workspace.Complete source n
    (insert t A ∪ {c | c ∈ p.requested ∧ r.lookup (r.className c) = some c})

/-- The answers to requests leave everything complete, and where a class is said to be
resolved, it is reached. -/
def Registry.Completes (r : Registry) (source : ClassId → Option String) (n : Nat) (t : ClassId)
    (ask : ClassId → Work Bool) : Prop :=
  ∀ c A w, t ∈ A → r.SameNames w.registry → w.Complete source n A →
    (ask c w).2.Complete source n A ∧
      ((ask c w).1 = true → r.lookup (r.className c) = some c →
        (ask c w).2.Complete source n (insert c A))

/-! ### One resolution -/

namespace Resolution

variable {r : Registry} {source : ClassId → Option String} {n : Nat} {t : ClassId}
  {A : Set ClassId} {res : Resolution}

theorem hereditary_completing : Hereditary (Progress.Completing r source n t) := by
  rintro A B hAB p ⟨hnames, hp⟩
  exact ⟨hnames, hp.anti (Set.union_subset_union_left _ (Set.insert_subset_insert hAB))⟩

/-- If `c` is the class of its name, then to ask for it adds no other class. -/
theorem asked_subset (R : List ClassId) (c : ClassId) :
    insert t (insert c A) ∪ {d | d ∈ c :: R ∧ r.lookup (r.className d) = some d} ⊆
      insert c (insert t A ∪ {d | d ∈ R ∧ r.lookup (r.className d) = some d}) := by
  rintro d ((rfl | rfl | hd) | ⟨hd, hnamed⟩)
  · exact .inr (.inl (.inl rfl))
  · exact .inl rfl
  · exact .inr (.inl (.inr hd))
  · rcases List.mem_cons.1 hd with rfl | hd
    · exact .inl rfl
    · exact .inr (.inr ⟨hd, hnamed⟩)

/-- To ask for a class by the name of another one adds nothing. -/
theorem asked_subset_of_ne (R : List ClassId) {c : ClassId}
    (hc : r.lookup (r.className c) ≠ some c) :
    insert t A ∪ {d | d ∈ c :: R ∧ r.lookup (r.className d) = some d} ⊆
      insert t A ∪ {d | d ∈ R ∧ r.lookup (r.className d) = some d} := by
  rintro d (hd | ⟨hd, hnamed⟩)
  · exact .inl hd
  · rcases List.mem_cons.1 hd with rfl | hd
    · exact absurd hnamed hc
    · exact .inr ⟨hd, hnamed⟩

/-- A class that is said to be resolved is reached. -/
theorem completing_answered (hask : r.Completes source n t res.ask) (hrecords : r.Records res.ask)
    {c : ClassId} {p : Progress} (hp : p.Completing r source n t A)
    (hok : (res.ask c (asking c p).workspace).1 = true) :
    (res.answered c p).Completing r source n t A ∧ (r.lookup (r.className c) = some c →
      (res.answered c p).Completing r source n t (insert c A)) := by
  obtain ⟨hnames, hp⟩ := hp
  obtain ⟨hkept, hgained⟩ := hask c _ (asking c p).workspace (.inl (Set.mem_insert t A)) hnames
    (hp.record _)
  have hnames' : r.SameNames (res.answered c p).workspace.registry :=
    (hrecords c (asking c p).workspace hnames).1
  by_cases hc : r.lookup (r.className c) = some c
  · have hgains : (res.answered c p).Completing r source n t (insert c A) :=
      ⟨hnames', (hgained hok hc).anti (asked_subset p.requested c)⟩
    exact ⟨hereditary_completing (Set.subset_insert c A) _ hgains, fun _ => hgains⟩
  · exact ⟨⟨hnames', hkept.anti (asked_subset_of_ne p.requested hc)⟩, fun h => absurd h hc⟩

/-- A class that need not be asked for is reached, or has been asked for already. -/
theorem completing_unasked (hon : res.options.resolveReferenced = true) {c : ClassId}
    {p : Progress} (hp : p.Completing r source n t A)
    (hno : ¬(res.options.resolveReferenced && p.workspace.registry.isUnresolved c
      && !p.requested.contains c) = true)
    {e : ClassEntry} (he : p.workspace.registry.classAt? c = some e)
    (hc : r.lookup (r.className c) = some c) : p.Completing r source n t (insert c A) := by
  obtain ⟨hnames, hp⟩ := hp
  refine ⟨hnames, hp.le, hp.closed, fun hn d hd => ?_⟩
  have hold : d ∈ insert t A ∪ {d | d ∈ p.requested ∧ r.lookup (r.className d) = some d} →
    p.workspace.registry.Reached d := hp.reached hn d
  rcases hd with (rfl | rfl | hd) | hd
  · exact hold (.inl (.inl rfl))
  · by_cases hu : p.workspace.registry.isUnresolved d = true
    · refine hold (.inr ⟨?_, hc⟩)
      simpa [hon, hu] using hno
    · exact ⟨e, he, fun hs => hu (by simp [Registry.isUnresolved, he, hs])⟩
  · exact hold (.inl (.inr hd))
  · exact hold (.inr hd)

/-- **A request leaves everything complete**, and its class reached. -/
theorem completing_request (hask : r.Completes source n t res.ask) (hrecords : r.Records res.ask)
    (hon : res.options.resolveReferenced = true) (c : ClassId) {p : Progress}
    (hp : p.Completing r source n t A) :
    (res.request c p).2.Completing r source n t A ∧
      ((∃ e, p.workspace.registry.classAt? c = some e) → r.lookup (r.className c) = some c →
        (res.request c p).2.Completing r source n t (insert c A)) := by
  rw [request_apply]
  split
  case isTrue =>
    split
    case isTrue hok =>
      obtain ⟨hkept, hgained⟩ := completing_answered hask hrecords hp hok
      exact ⟨hkept, fun _ => hgained⟩
    case isFalse =>
      -- the class is reported, which is a trouble
      have hkept := (hask c _ (asking c p).workspace (.inl (Set.mem_insert t A)) hp.1
        (hp.2.record _)).1
      have htrouble : ∀ B, (res.warn (.unresolvedClass (p.workspace.registry.className c))
          (res.answered c p)).2.Completing r source n t B := fun B =>
        ⟨(hrecords c (asking c p).workspace hp.1).1, complete_record_of_isTrouble hkept.le rfl⟩
      exact ⟨htrouble A, fun _ _ => htrouble _⟩
  case isFalse hno => exact ⟨hp, fun ⟨_, he⟩ hc => completing_unasked hon hp hno he hc⟩

/-- **What is looked up is reached.** -/
theorem collects_completing (hask : r.Completes source n t res.ask) (hrecords : r.Records res.ask)
    (hon : res.options.resolveReferenced = true) :
    res.Collects (Progress.Completing r source n t) (fun _ => True) where
  hereditary := hereditary_completing
  steady A :=
    { request := fun c _ hp => (completing_request hask hrecords hon c hp).1
      warn := fun w _ p hp => ⟨hp.1, hp.2.record _⟩
      noteCycle := keeps_noteCycle fun _ p hp => ⟨hp.1, hp.2.record _⟩ }
  find A name p hp := by
    rw [find_outcome]
    cases hc : p.workspace.registry.lookup name with
    | none => exact ⟨trivial, hereditary_completing (Set.empty_subset A) p hp⟩
    | some c =>
      obtain ⟨e, he, hname⟩ := Registry.name_of_lookup hc
      have hown : r.lookup (r.className c) = some c := by
        rw [← hp.1.className_eq, ← hp.1.lookup_eq, Registry.className, he]
        change p.workspace.registry.lookup e.name = some c
        rw [hname, hc]
      change (res.request c p).2.Completing r source n t (A ∪ {c})
      rw [Set.union_singleton]
      exact (completing_request hask hrecords hon c hp).2 ⟨e, he⟩ hown
  fails _ _ := trivial

/-- What is committed may mention whatever is reached. -/
theorem gains_commit {c : ClassId} {f : ClassEntry → ClassEntry} (note : Note)
    (hname : ∀ e, (f e).name = e.name) (hf : ∀ e, (f e).stage ≠ .unresolved)
    (hA : ∀ e, ∀ u ∈ (f e).committed (source c), ∀ d ∈ u.classes, d ∈ A) :
    Gains (Progress.Completing r source n t) (fun _ => True) A
      (commit (fun r => r.modifyClass c f) note) fun _ => A := by
  rintro p ⟨hnames, hp⟩
  refine ⟨hnames.trans fun d => ?_, (hp.modifyClass hf ?_).record _⟩
  · rw [Registry.classAt?_modifyClass]
    split
    · rename_i hd
      rw [hd, Option.map_map]
      exact congrArg (Option.map · _) (funext hname)
    · rfl
  · exact fun e _ u hu d hd => .inl (.inr (hA e u hu d hd))

theorem gains_commitClass {c : ClassId} {text : String} (hsource : source c = some text)
    {types : ClassTypes} (hA : ∀ d ∈ classesAll types.all, d ∈ A) :
    Gains (Progress.Completing r source n t) (fun _ => True) A (res.commitClass c types)
      fun _ => A := by
  have hcommit : Gains (Progress.Completing r source n t) (fun _ => True) A
      (commit (fun r => r.modifyClass c types.fill)
        (.classResolved res.owner types.typeParams.length)) fun _ => A := by
    refine gains_commit _ (fun _ => rfl) (fun _ => nofun) fun e u hu d hd => ?_
    rw [hsource, ClassEntry.committed, ClassTypes.types_fill] at hu
    exact hA d (mem_classesAll.2 ⟨u, hu, hd⟩)
  refine Gains.ofRegistry fun r' => ?_
  have hchecked : Gains (Progress.Completing r source n t) (fun _ => True) A
      (if (r'.classAt? c).isNone then
        (throw (.unknownDeclaration (.ofClass c)) : Attempt PUnit) >>= fun _ =>
          commit (fun r => r.modifyClass c types.fill)
            (.classResolved res.owner types.typeParams.length)
        else commit (fun r => r.modifyClass c types.fill)
          (.classResolved res.owner types.typeParams.length)) fun _ => A := by
    split
    · exact gains_throw hereditary_completing trivial
    · exact hcommit
  by_cases hv : res.options.verifyErasure = true
  · simp only [hv, if_true]
    exact (gains_ofExcept hereditary_completing fun _ _ => trivial).bind fun _ => hchecked
  · simp only [hv]
    exact hchecked

/-- **A resolution leaves everything complete**, if it is from what `source` says. -/
theorem gains_body (h : res.Collects (Progress.Completing r source n t) fun _ => True) (c : ClassId)
    (A : Set ClassId) :
    Gains (Progress.Completing r source n t) (fun _ => True) A
      (res.body (.ofClass c) (source c)) fun _ => A := by
  cases hsource : source c with
  | some text =>
    change Gains _ _ A (res.resolveClassText c text) _
    unfold resolveClassText
    split
    · exact gains_throw h.hereditary trivial
    · refine Gains.lift ((h.steady A).calm.scopeAround c) fun scope => ?_
      refine (gains_classTypes h (fun _ => trivial) c scope _ A).bind fun types => ?_
      exact (gains_commitClass hsource fun d hd => .inr hd).mono h.hereditary fun _ =>
        Set.subset_union_left
  | none =>
    change Gains _ _ A (res.resolveClassHeader c) _
    refine Gains.ofRegistry fun r' => ?_
    cases r'.classAt? c with
    | none => exact gains_throw h.hereditary trivial
    | some entry =>
      refine (Gains.mapM_option h.hereditary (fun name A => h.find A name) _ A).bind
        fun superclass => ?_
      refine (Gains.mapM h.hereditary (fun name A => h.find A name) _ _).bind fun interfaces => ?_
      refine Gains.mono h.hereditary (gains_commit _ ?_ ?_ fun e u hu d hd => ?_) fun _ =>
        Set.subset_union_left.trans Set.subset_union_left
      · exact fun _ => rfl
      · exact fun _ => nofun
      -- the types are the classes that were found, all of them raw
      simp only [hsource, ClassEntry.committed, ClassEntry.fillErased, List.mem_append,
        Option.mem_toList, Option.map_eq_some_iff, List.mem_map] at hu
      rcases hu with ⟨a, ha, rfl⟩ | ⟨a, ha, rfl⟩ <;> obtain rfl := List.mem_singleton.1 hd
      · exact .inl (.inr ⟨d, ha, rfl⟩)
      · exact .inr ⟨d, ha, rfl⟩

end Resolution

/-! ### Calls inside calls -/

namespace Workspace

variable {r : Registry} {source : ClassId → Option String} {n : Nat} {t : ClassId}
  {A : Set ClassId} {ask : ClassId → Work Bool} {w : Workspace}

/-- Reports only become more. -/
theorem troubles_le_of_records (hask : r.Records ask) (options : Options) (d : ClassId)
    (signature : Option String) (hnames : r.SameNames w.registry) :
    w.troubles ≤ (resolveAsking ask options (.ofClass d) signature w).2.troubles := by
  obtain ⟨body, -, hjournal⟩ := resolveAsking_callEntries (t := .ofClass d) hask options signature
    hnames (hnames.className_eq d)
  rw [troubles, troubles, hjournal, List.countP_append]
  exact Nat.le_add_right _ _

/-- A call that fails reports an error, and then nothing has to be ensured. -/
theorem complete_returning_error (h : n ≤ w.troubles) (owner : String) (d : ClassId)
    (signature : Option String) (e : ResolveError) :
    (returning (.ofClass d) owner signature (.error e, w)).Complete source n A := by
  refine Complete.record (complete_record_of_isTrouble h ?_) _
  cases e <;> rfl

/-- What a resolution leaves complete stays so when it ends. -/
theorem complete_returning_ok {p : Progress} (h : p.workspace.Complete source n A)
    (owner : String) (d : ClassId) (signature : Option String) :
    (returning (.ofClass d) owner signature
      (.ok (), closing (.ofClass d) (.ok (), p))).Complete source n A :=
  (h.record (.ended (.ofClass d))).record (.returned (.ofClass d) true)

/-- When the resolution of a class begins, the class is reached. -/
theorem completing_beginning (hnames : r.SameNames w.registry) (hw : w.Complete source n A)
    {d : ClassId} (ht : t = d ∨ t ∈ A) (hs : w.registry.stage? (.ofClass d) = some .unresolved) :
    (beginning (.ofClass d) w).Completing r source n t (insert d A) := by
  obtain ⟨entry, hentry, -⟩ := Option.map_eq_some_iff.1 hs
  refine ⟨hnames.trans (w.registry.sameNames_setStage .resolving (.ofClass d)),
    (((hw.mark hentry).record (.called (.ofClass d))).record (.began (.ofClass d))).anti ?_⟩
  rintro c ((rfl | hc) | ⟨hc, -⟩)
  · exact ht
  · exact hc
  · cases hc

/-- A call that sets to work leaves everything complete. -/
theorem complete_of_mark (hask : r.Completes source n t ask) (hrecords : r.Records ask)
    {options : Options} (hon : options.resolveReferenced = true) (d : ClassId)
    (hnames : r.SameNames w.registry) (hw : w.Complete source n A) (ht : t = d ∨ t ∈ A)
    {marked : Registry} (hm : w.registry.mark (.ofClass d) = .ok marked) :
    let out := resolveAsking ask options (.ofClass d) (source d) w
    out.2.Complete source n A ∧ (out.1.isOk = true → out.2.Complete source n (insert d A)) := by
  intro out
  have hout : out = _ := resolveBy_of_mark_ok ask options (source d)
    (fun res => res.body (.ofClass d) (source d)) hm
  rw [hout]
  let res : Resolution := ⟨options, w.registry.targetName (.ofClass d), ask⟩
  have hcollects : res.Collects (Progress.Completing r source n t) fun _ => True :=
    Resolution.collects_completing hask hrecords hon
  have hbody := Resolution.gains_body hcollects d (insert d A) _
    (completing_beginning hnames hw ht (Registry.mark_eq_ok.1 hm).1)
  dsimp only
  rcases hout : (res.body (.ofClass d) (source d)).outcome (beginning (.ofClass d) w) with
    ⟨e | _, q⟩ <;> rw [hout] at hbody
  · have hle : n ≤ (closing (.ofClass d) (.error e, q)).troubles :=
      (hbody.2.2.record (.ended (.ofClass d))).le
    exact ⟨complete_returning_error hle _ d _ e, fun h => absurd h Bool.false_ne_true⟩
  · have hkept : q.workspace.Complete source n (insert d A) :=
      hbody.2.anti (Set.subset_union_left.trans' (Set.subset_insert _ _))
    have hended := complete_returning_ok hkept res.owner d (source d)
    exact ⟨hended.anti (Set.subset_insert d A), fun _ => hended⟩

/-- **One call leaves everything complete**, and its class reached if it succeeds. -/
theorem resolveAsking_complete (hask : r.Completes source n t ask) (hrecords : r.Records ask)
    {options : Options} (hon : options.resolveReferenced = true) (d : ClassId)
    (signature : Option String) (hnames : r.SameNames w.registry) (hw : w.Complete source n A)
    (ht : t = d ∨ t ∈ A) (hsource : source d = signature ∨ d ∈ A) :
    let out := resolveAsking ask options (.ofClass d) signature w
    out.2.Complete source n A ∧ (out.1.isOk = true → out.2.Complete source n (insert d A)) := by
  intro out
  rcases Nat.lt_or_ge n w.troubles with hlt | hge
  · have hmore : n < out.2.troubles :=
      Nat.lt_of_lt_of_le hlt (troubles_le_of_records hrecords options d signature hnames)
    exact ⟨complete_of_lt hmore, fun _ => complete_of_lt hmore⟩
  rcases hm : w.registry.mark (.ofClass d) with e | marked
  · have hout : out = _ := resolveBy_of_mark_error ask options signature
      (fun res => res.body (.ofClass d) signature) hm
    rw [hout]
    exact ⟨complete_returning_error (hw.record (.called (.ofClass d))).le _ d signature e,
      fun h => absurd h Bool.false_ne_true⟩
  · -- a class that is unresolved has not been reached
    obtain rfl : source d = signature := hsource.resolve_right fun hd => by
      obtain ⟨e, he, hne⟩ := hw.reached (Nat.le_antisymm hge hw.le) d hd
      have hs := (Registry.mark_eq_ok.1 hm).1
      rw [Registry.stage?, he] at hs
      exact hne (Option.some.inj hs)
    exact complete_of_mark hask hrecords hon d hnames hw ht hm

end Workspace

namespace Collaborator

variable {r : Registry} {source : ClassId → Option String} {n : Nat} {t : ClassId} {p : Pool}

/-- A pool leaves everything complete if what it resolves classes by does. -/
theorem completes_answer (hredirect : p.redirect = [])
    (hsource : ∀ d, d ≠ t → source d = p.signature? r d)
    {resolve : Options → ClassId → Option String → Work Bool}
    (hresolve : ∀ d signature A w, t ∈ A → r.SameNames w.registry → w.Complete source n A →
      source d = signature ∨ d ∈ A →
      (resolve p.options d signature w).2.Complete source n A ∧
        ((resolve p.options d signature w).1 = true →
          (resolve p.options d signature w).2.Complete source n (insert d A))) :
    r.Completes source n t ((Collaborator.pool p).answer resolve) := by
  intro c A w ht hnames hw
  rcases (Collaborator.pool p).answer_cases resolve c w with
    ⟨ok, hok, hanswer⟩ | ⟨_, d, hp, hd, hanswer⟩ <;> rw [hanswer]
  · exact ⟨(hw.record _).record _, fun h => nomatch hok h⟩
  · cases hp
    have htarget : p.targetName (w.registry.className c) = r.className c := by
      rw [hnames.className_eq, Pool.targetName, hredirect]
      rfl
    rw [htarget, hnames.lookup_eq] at hd
    rw [htarget]
    -- the class is resolved from what the pool has for it, unless it is the one called for
    have hfrom : source d = p.signatures.lookup (r.className c) ∨ d ∈ A := by
      by_cases hdt : d = t
      · exact .inr (hdt ▸ ht)
      · obtain ⟨e, he, hname⟩ := Registry.name_of_lookup hd
        left
        rw [hsource d hdt, Pool.signature?, he, Option.bind_some, hname]
    obtain ⟨hkept, hgained⟩ := hresolve d _ A (record (.asked c (w.registry.className c)) w).2 ht
      hnames (hw.record _) hfrom
    dsimp only
    refine ⟨hkept.record _, fun hok hc => ?_⟩
    cases hd.symm.trans hc
    exact (hgained hok).record _

theorem completes_askWithin (hredirect : p.redirect = [])
    (hon : p.options.resolveReferenced = true)
    (hsource : ∀ d, d ≠ t → source d = p.signature? r d) (depth : Nat) :
    r.Completes source n t ((Collaborator.pool p).askWithin depth) := by
  induction depth with
  | zero => exact completes_answer hredirect hsource fun _ _ _ _ _ _ hw _ => ⟨hw, nofun⟩
  | succ depth ih =>
    refine completes_answer hredirect hsource fun d signature A w ht hnames hw hfrom => ?_
    have hcall := resolveAsking_complete ih ((Collaborator.pool p).records_askWithin depth) hon
      d signature hnames hw (.inr ht) hfrom
    rw [resolveAsking_ofClass] at hcall
    exact hcall

end Collaborator

/-! ### The call from outside -/

/-- Where no class is being resolved, everything that can be reached from a resolved class
of a closed registry is resolved. -/
theorem Registry.Closed.resolved_of_reachable {r : Registry} {source : ClassId → Option String}
    (h : r.Closed source) (hnone : ∀ c, r.stage? (.ofClass c) ≠ some .resolving) {c d : ClassId}
    (hc : r.Reached c) (hcd : Relation.ReflTransGen (r.Refers source) c d) :
    r.stage? (.ofClass d) = some .resolved := by
  have hblack : ∀ a, r.Reached a → r.stage? (.ofClass a) = some .resolved := by
    rintro a ⟨e, he, hne⟩
    have hgrey := hnone a
    rw [stage?, he, Option.map_some] at hgrey ⊢
    cases hs : e.stage with
    | unresolved => exact absurd hs hne
    | resolving => exact absurd (congrArg some hs) hgrey
    | resolved => rfl
  induction hcd with
  | refl => exact hblack c hc
  | tail _ hrefers ih => exact hblack _ (h _ _ ih hrefers)

namespace Workspace

variable {source : ClassId → Option String} {w w' : Workspace}

theorem stage?_of_unresolved (h : ∀ e ∈ w.registry.classes.toList, e.stage = .unresolved)
    {c : ClassId} {s : Stage} (hs : w.registry.stage? (.ofClass c) = some s) : s = .unresolved := by
  obtain ⟨e, he, rfl⟩ := Option.map_eq_some_iff.1 hs
  exact h e (Array.mem_toList_iff.2 (Array.mem_of_getElem? he))

/-- Where no class is resolved, there is nothing that could be incomplete. -/
theorem complete_of_unresolved (h : ∀ e ∈ w.registry.classes.toList, e.stage = .unresolved) :
    w.Complete source w.troubles ∅ where
  le := Nat.le_refl _
  closed _ _ _ hc := by cases stage?_of_unresolved h hc
  reached _ c hc := absurd hc (Set.notMem_empty c)

theorem troubles_eq_of_quiet {es : List JournalEntry}
    (hes : w'.journal.toList = w.journal.toList ++ es)
    (hquiet : ∀ x, .reported x ∈ es → x.code = "type-argument-arity") :
    w'.troubles = w.troubles := by
  have hnone : es.countP JournalEntry.isTrouble = 0 := by
    refine List.countP_eq_zero.2 fun x hx => ?_
    cases x with
    | reported x => simp [JournalEntry.isTrouble, hquiet x hx]
    | _ => simp [JournalEntry.isTrouble]
  rw [troubles, hes, List.countP_append, hnone, troubles, Nat.add_zero]

end Workspace

/-- **Resolution on demand is complete**: a call that begins with unresolved classes only,
with a pool that answers for the class it is asked for, and that succeeds without a report
other than of a number of type arguments, resolves every class that can be reached from the
class called for along what was committed. -/
theorem Workspace.resolve_complete (p : Pool) (options : Options) (c : ClassId)
    (signature : Option String) (w : Workspace) (es : List JournalEntry)
    (hunresolved : ∀ e ∈ w.registry.classes.toList, e.stage = .unresolved)
    (hredirect : p.redirect = []) (hon : options.resolveReferenced = true)
    (hpool : p.options.resolveReferenced = true)
    (hok : (resolve (.pool p) options (.ofClass c) signature w).1.isOk = true)
    (hes : (resolve (.pool p) options (.ofClass c) signature w).2.journal.toList =
      w.journal.toList ++ es)
    (hquiet : ∀ x, .reported x ∈ es → x.code = "type-argument-arity") :
    let r' := (resolve (.pool p) options (.ofClass c) signature w).2.registry
    ∀ d, Relation.ReflTransGen (r'.Refers (p.source w.registry c signature)) c d →
      r'.stage? (.ofClass d) = some .resolved := by
  intro r' d hcd
  have hask : w.registry.Completes (p.source w.registry c signature) w.troubles c
      ((Collaborator.pool p).ask w.registry) :=
    Collaborator.completes_askWithin hredirect hpool (fun _ hne => if_neg hne) _
  obtain ⟨-, hcomplete⟩ := resolveAsking_complete hask ((Collaborator.pool p).records_askWithin _)
    hon c signature (fun _ => rfl) (complete_of_unresolved hunresolved) (.inl rfl)
    (.inl (if_pos rfl))
  have hcourse := resolve_course_trivial (.pool p) options (.ofClass c) signature w
  have htroubles := troubles_eq_of_quiet hes hquiet
  have hr' : r' = (resolve (.pool p) options (.ofClass c) signature w).2.registry := rfl
  rw [resolve_apply] at hok htroubles hr'
  have hdone := hcomplete hok
  refine Registry.Closed.resolved_of_reachable ?_ (fun a ha => ?_) ?_ hcd
  · rw [hr']
    exact hdone.closed htroubles
  · -- what is being resolved in the end was so in the beginning
    cases stage?_of_unresolved hunresolved ((hcourse.frame.resolving_iff a).1 ha)
  · rw [hr']
    exact hdone.reached htroubles c (Set.mem_insert c ∅)

/-- A class whose superclass refers back to it, and to itself. -/
theorem Workspace.resolve_complete_of_circle :
    let p : Pool := { options := {}, signatures := [("B", "<T:LB<TT;>;>LA;")] }
    let w : Workspace := { registry := .ofHeaders [{ name := "A" }, { name := "B" }] }
    let out := resolve (.pool p) {} (.ofClass ⟨0⟩) (some "LB<LA;>;") w
    let es := out.2.journal.toList
    ((∀ e ∈ w.registry.classes.toList, e.stage = .unresolved) ∧ p.redirect = [] ∧
      out.1.isOk = true ∧ ∀ x, .reported x ∈ es → x.code = "type-argument-arity") ∧
    ∀ d, Relation.ReflTransGen
        (out.2.registry.Refers (p.source w.registry ⟨0⟩ (some "LB<LA;>;"))) ⟨0⟩ d →
      out.2.registry.stage? (.ofClass d) = some .resolved := by
  intro p w out es
  have hunresolved : ∀ e ∈ w.registry.classes.toList, e.stage = .unresolved := by decide +kernel
  have hok : out.1.isOk = true := by decide +kernel
  have hquiet : ∀ x, .reported x ∈ es → x.code = "type-argument-arity" := by
    have hnone : es.all (!·.isTrouble) = true := by decide +kernel
    intro x hx
    simpa [isTrouble] using List.all_eq_true.1 hnone _ hx
  exact ⟨⟨hunresolved, rfl, hok, hquiet⟩, resolve_complete p {} ⟨0⟩ (some "LB<LA;>;") w es
    hunresolved rfl rfl rfl hok rfl hquiet⟩

/-- A class that an earlier call has resolved from a signature, and that is unresolved
again, keeps its type parameter. Without a signature it is resolved from its header, and
the class that bounds the type parameter stays unresolved, though nothing is reported. -/
theorem Workspace.resolve_misses_old_bounds :
    let p : Pool := { options := {} }
    let w₀ : Workspace := { registry := .ofHeaders [{ name := "A" }, { name := "B" }] }
    let w₁ := (resolve (.pool p) { resolveReferenced := false } (.ofClass ⟨0⟩)
      (some "<T:LB;>LA;") w₀).2
    let w : Workspace := { w₁ with registry := w₁.registry.setStage .unresolved (.ofClass ⟨0⟩) }
    let out := resolve (.pool p) {} (.ofClass ⟨0⟩) none w
    (∀ e ∈ w.registry.classes.toList, e.stage = .unresolved) ∧ out.1.isOk = true ∧
      (out.2.journal.toList.all fun e => e.diagnostic?.isNone) = true ∧
      (out.2.registry.classAt? ⟨0⟩).map (fun e => classesAll e.types) = some [⟨1⟩] ∧
      out.2.registry.stage? (.ofClass ⟨1⟩) = some .unresolved := by
  decide +kernel

end JavaGenerics
