import Mathlib.Data.Set.Insert
import JavaGenerics.Proofs.Consistency
import JavaGenerics.Proofs.Partway
import JavaGenerics.Proofs.Repetition
import JavaGenerics.Proofs.Success
import JavaGenerics.Proofs.VariableNames

/-!
# What can be had on demand

Before a class signature is read, the classes around it are asked for. A pool answers by
resolving them there and then, and what a class declares is known once that has worked. It
need not work: a class that is being resolved already is not resolved again, and a class
whose signature uses names from further out cannot be resolved before these are known.

That is all that can be in the way. A class can be *obtained* while others are being resolved
(`JavaGenerics.Pool.Obtainable`) if what it declares is known beforehand, or if it is not one
of those and every name that its signature borrows is declared around it by a class that can
be obtained. Where all signatures fit their classes (`JavaGenerics.Pool.Fits`), asking for
such a class has it show what it declares (`JavaGenerics.Pool.obtains_askWithin`), by
induction on the depth of the nest of resolutions.
-/

namespace JavaGenerics

open Attempt Workspace

/-! ### Signatures that fit, type variables apart -/

namespace Registry

variable {r r' : Registry} {verify : Bool} {c : ClassId} {sig : ClassSig}

/-- What a registry asks of the signature of a class, the type variables apart that it uses. -/
structure AdmitsForm (r : Registry) (verify : Bool) (c : ClassId) (sig : ClassSig) : Prop where
  distinct : (sig.typeParams.map (·.name)).Nodup
  /-- Type parameters that are declared already are declared again. -/
  declared : r.paramNames c = [] ∨ sig.typeParams.map (·.name) = r.paramNames c
  classes : ∀ name ∈ Target.Signature.classNames (t := .ofClass c) sig, r.Registers name
  erased : verify = true → r.Erases (.ofClass c) sig

/-- **What is asked of a signature** is its form, and that the names it borrows are shown by
classes around it. -/
theorem admits_class_iff : r.Admits verify (.ofClass c) sig ↔ r.AdmitsForm verify c sig ∧
    ∀ name ∈ sig.borrowedNames, ∃ a ∈ r.around c, name ∈ r.paramNames a := by
  have haround : ∀ a, a ∈ r.around c ↔ r.InForce (.ofClass c) a := fun a =>
    List.mem_reverse.trans mem_enclosingChain_iff
  have hborrows : ∀ name, name ∈ sig.borrowedNames ↔
      name ∈ Target.Signature.varNames (t := .ofClass c) sig ∧
        name ∉ sig.typeParams.map (·.name) := fun name =>
    ClassSig.mem_borrowedNames_iff.trans (and_congr_left' List.mem_flatMap.symm)
  constructor
  · intro h
    refine ⟨⟨h.distinct, h.declared, h.classes, h.erased⟩, fun name hname => ?_⟩
    obtain ⟨hvar, hown⟩ := (hborrows name).1 hname
    obtain ⟨a, ha, hshown⟩ := (h.vars name hvar).resolve_left hown
    exact ⟨a, (haround a).2 ha, hshown⟩
  · rintro ⟨h, hborrowed⟩
    refine ⟨h.distinct, h.declared, h.classes, fun name hvar => ?_, h.erased⟩
    by_cases hown : name ∈ sig.typeParams.map (·.name)
    · exact .inl hown
    · obtain ⟨a, ha, hshown⟩ := hborrowed name ((hborrows name).2 ⟨hvar, hown⟩)
      exact .inr ⟨a, (haround a).1 ha, hshown⟩

/-- What a class signature erases to is held against the header of the class alone. -/
theorem erases_class_congr (h : (r'.classAt? c).map (fun e => (e.erasedSuper, e.erasedInterfaces)) =
    (r.classAt? c).map fun e => (e.erasedSuper, e.erasedInterfaces))
    (herases : r.Erases (.ofClass c) sig) : r'.Erases (.ofClass c) sig := by
  intro e' erased he' herased
  rw [he', Option.map_some, eq_comm, Option.map_eq_some_iff] at h
  obtain ⟨e, he, heq⟩ := h
  obtain ⟨hsuper, hinterfaces⟩ := Prod.mk.inj heq
  rw [← hinterfaces]
  exact herases e erased he (hsuper.trans herased)

end Registry

namespace Pool

variable {p : Pool} {r r' r'' : Registry} {verify : Bool} {a c d : ClassId} {sig : ClassSig}
  {busy : Set ClassId}

/-- **A class fits** if what the pool has for it can be read and has the form that the
registry asks for. -/
def Fits (p : Pool) (r : Registry) (c : ClassId) : Prop :=
  ∀ text, p.signature? r c = some text →
    ∃ sig, ClassSig.parse text = .ok sig ∧ r.AdmitsForm p.options.verifyErasure c sig

/-- A class that is not resolved is asked for the same form on the way as to begin with. -/
theorem Partway.admitsForm_iff (h : p.Partway r r') (hs : r'.stage? (.ofClass c) ≠ some .resolved) :
    r'.AdmitsForm verify c sig ↔ r.AdmitsForm verify c sig := by
  have hnames : r'.paramNames c = r.paramNames c := by
    rw [h.paramNames_eq Registry.mem_resolvedClasses, shownNames,
      if_neg fun hc => hs (Registry.mem_resolvedClasses.1 hc)]
  have hregisters : ∀ name, r'.Registers name ↔ r.Registers name := fun name => by
    rw [← not_iff_not, ← Registry.lookup_eq_none_iff, ← Registry.lookup_eq_none_iff,
      h.sameNames.lookup_eq]
  have hheader := h.map_classAt? (fun e => (e.erasedSuper, e.erasedInterfaces)) (fun _ _ => rfl)
    (fun _ _ _ _ hout => by cases hout <;> rfl) c
  constructor
  · intro hform
    refine ⟨hform.distinct, hnames ▸ hform.declared, fun name hname => ?_, fun hv => ?_⟩
    · exact (hregisters name).1 (hform.classes name hname)
    · exact Registry.erases_class_congr hheader.symm (hform.erased hv)
  · intro hform
    refine ⟨hform.distinct, hnames ▸ hform.declared, fun name hname => ?_, fun hv => ?_⟩
    · exact (hregisters name).2 (hform.classes name hname)
    · exact Registry.erases_class_congr hheader (hform.erased hv)

/-! ### Showing what is declared -/

/-- On the way, the class `c` shows what it declares. -/
def Shows (p : Pool) (r r' : Registry) (c : ClassId) : Prop :=
  r'.paramNames c = p.declaredNames r c

/-- What is known beforehand is shown at any time. -/
theorem Partway.shows_of_known (h : p.Partway r r') (hknown : p.Shows r r c) : p.Shows r r' c := by
  rw [Shows, h.paramNames_eq Registry.mem_resolvedClasses, shownNames]
  split
  · rfl
  · exact hknown

theorem Partway.shows_of_resolved (h : p.Partway r r')
    (hs : r'.stage? (.ofClass c) = some .resolved) : p.Shows r r' c := by
  rw [Shows, h.paramNames_eq Registry.mem_resolvedClasses, shownNames,
    if_pos (Registry.mem_resolvedClasses.2 hs)]

/-- What is shown stays shown. -/
theorem Partway.shows_of_advances (h : p.Partway r r') (h' : p.Partway r r'')
    (hadv : r'.Advances r'') (hshows : p.Shows r r' c) : p.Shows r r'' c := by
  by_cases hs : r'.stage? (.ofClass c) = some .resolved
  · obtain ⟨e, he, hresolved⟩ := Option.map_eq_some_iff.1 hs
    refine h'.shows_of_resolved ?_
    rw [Registry.stage?, hadv.classAt?_eq_some he (by simp [hresolved]), Option.map_some, hresolved]
  · refine h'.shows_of_known ?_
    rw [Shows, h.paramNames_eq Registry.mem_resolvedClasses, shownNames,
      if_neg fun hc => hs (Registry.mem_resolvedClasses.1 hc)] at hshows
    exact hshows

/-- A class without a signature declares what is known of it beforehand. -/
theorem shows_of_unsigned (h : p.signature? r c = none) : p.Shows r r c := by
  unfold Shows declaredNames Registry.paramNames
  rw [classSig?_eq_none h]
  split
  · rename_i hnil
    rw [List.isEmpty_iff.1 hnil]
    rfl
  · rfl

/-! ### Classes that can be obtained -/

/-- **A class that can be obtained** while the classes in `busy` are being resolved: what it
declares is known beforehand; or it is not one of those, and each name that its signature
borrows is declared around it by a class that can be obtained. -/
inductive Obtainable (p : Pool) (r : Registry) (busy : Set ClassId) : ClassId → Prop where
  | known {a : ClassId} (shown : p.Shows r r a) : Obtainable p r busy a
  | resolvable {a : ClassId} (idle : a ∉ busy) (declarer : String → ClassId)
      (around : ∀ name ∈ p.borrowedNames r a, declarer name ∈ r.around a)
      (declares : ∀ name ∈ p.borrowedNames r a, name ∈ p.declaredNames r (declarer name))
      (obtainable : ∀ name ∈ p.borrowedNames r a, Obtainable p r busy (declarer name)) :
      Obtainable p r busy a

theorem obtainable_of_exists (idle : a ∉ busy) (h : ∀ name ∈ p.borrowedNames r a,
    ∃ d ∈ r.around a, name ∈ p.declaredNames r d ∧ p.Obtainable r busy d) :
    p.Obtainable r busy a := by
  have htotal : ∀ name, ∃ d, name ∈ p.borrowedNames r a →
      d ∈ r.around a ∧ name ∈ p.declaredNames r d ∧ p.Obtainable r busy d := fun name => by
    by_cases hname : name ∈ p.borrowedNames r a
    · obtain ⟨d, hd⟩ := h name hname
      exact ⟨d, fun _ => hd⟩
    · exact ⟨a, fun hname' => absurd hname' hname⟩
  choose declarer hdeclarer using htotal
  exact .resolvable idle declarer (fun name hname => (hdeclarer name hname).1)
    (fun name hname => (hdeclarer name hname).2.1) fun name hname => (hdeclarer name hname).2.2

theorem Obtainable.mono {busy' : Set ClassId} (hsub : busy' ⊆ busy) (h : p.Obtainable r busy a) :
    p.Obtainable r busy' a := by
  induction h with
  | known shown => exact .known shown
  | resolvable idle declarer around declares _ ih =>
    exact .resolvable (fun hbusy => idle (hsub hbusy)) declarer around declares ih

/-- What a resolution of `a` needs that begins while the classes in `busy` are being
resolved. -/
def Attainable (p : Pool) (r : Registry) (busy : Set ClassId) (a : ClassId) : Prop :=
  a ∉ busy ∧ ∀ name ∈ p.borrowedNames r a, ∃ d ∈ r.around a, name ∈ p.declaredNames r d ∧
    p.Obtainable r (insert a busy) d

/-- **Nothing is gained by resolving `a` for its own sake**: what can be obtained can be
obtained while `a` is being resolved as well, unless `a` has all it needs without itself. -/
theorem Obtainable.while_busy (h : p.Obtainable r busy d) (a : ClassId) :
    p.Obtainable r (insert a busy) d ∨ p.Attainable r busy a := by
  by_cases ha : p.Attainable r busy a
  · exact .inr ha
  left
  induction h with
  | known shown => exact .known shown
  | @resolvable d idle declarer around declares _ ih =>
    have hda : d ≠ a := by
      rintro rfl
      exact ha ⟨idle, fun name hname => ⟨declarer name, around name hname, declares name hname,
        ih name hname⟩⟩
    refine .resolvable ?_ declarer around declares ih
    rintro (rfl | hd)
    · exact hda rfl
    · exact idle hd

/-- A class that can be obtained is known, or can be resolved. -/
theorem Obtainable.cases_attainable (h : p.Obtainable r busy a) :
    p.Shows r r a ∨ p.Attainable r busy a := by
  rcases h.while_busy a with hbusy | ha
  · cases hbusy with
    | known shown => exact .inl shown
    | resolvable idle => exact absurd (Set.mem_insert a busy) idle
  · exact .inr ha

/-! ### Asking for the classes around a class -/

end Pool

/-- No class becomes unresolved. -/
theorem ClassEntry.Advances.stage_eq {c : ClassId} {e e' : ClassEntry} (h : e.Advances c e')
    (hs : e'.stage = .unresolved) : e'.stage = e.stage := by
  cases h with
  | same => rfl
  | resolved => cases hs

namespace Registry

/-- The classes that are being resolved. -/
def beingResolved (r : Registry) : Set ClassId := {c | r.stage? (.ofClass c) = some .resolving}

variable {r r' : Registry} {c : ClassId}

/-- What goes on inside a resolution does not change which classes are being resolved. -/
theorem Advances.beingResolved_eq (h : r.Advances r') : r'.beingResolved = r.beingResolved := by
  refine Set.ext fun c => ⟨fun hs' => ?_, h.stage?_eq⟩
  obtain ⟨e', he', hmarked⟩ := Option.map_eq_some_iff.1 hs'
  rcases he : r.classAt? c with _ | e
  · rw [h.classAt?_eq_none he] at he'
    cases he'
  · obtain ⟨e₁, he₁, hadv⟩ := h.exists_classAt? he
    cases he₁.symm.trans he'
    cases hadv with
    | same => exact Option.map_eq_some_iff.2 ⟨_, he, hmarked⟩
    | resolved => cases hmarked

theorem beingResolved_mark (hc : r.stage? (.ofClass c) = some .unresolved) :
    (r.setStage .resolving (.ofClass c)).beingResolved = insert c r.beingResolved := by
  ext d
  change (r.setStage .resolving (.ofClass c)).stage? (.ofClass d) = _ ↔ d = c ∨ _
  by_cases hd : d = c
  · subst hd
    simp [stage?_setStage, hc]
  · rw [or_iff_right hd, stage?_setStage_of_ne (by simpa using Ne.symm hd)]
    rfl

/-- So there are no more unresolved classes than before. -/
theorem Advances.unresolvedCount_le (h : r.Advances r') :
    r'.unresolvedCount ≤ r.unresolvedCount := by
  have hentries : List.Forall₂
      (fun e e' : ClassEntry => e'.stage = .unresolved → e'.stage = e.stage)
      r.classes.toList r'.classes.toList := by
    refine List.forall₂_iff_get.2 ⟨by simp [h.size_eq], fun i hi hi' hs => ?_⟩
    have hadv := h.classes ⟨i⟩ _ _ (Array.getElem?_eq_getElem hi) (Array.getElem?_eq_getElem hi')
    exact hadv.stage_eq hs
  unfold unresolvedCount
  generalize r.classes.toList = es, r'.classes.toList = es' at hentries
  induction hentries with
  | nil => rfl
  | @cons e e' es es' hee' _ ih =>
    rw [List.countP_cons, List.countP_cons]
    by_cases hs : e'.stage = .unresolved
    · rw [← hee' hs]
      exact Nat.add_le_add_right ih _
    · simp only [beq_iff_eq, hs, if_false]
      omega

/-- A class whose resolution commits is resolved. -/
theorem Course.resolved {J : Registry → Prop} {signature : Option String}
    (h : r.Course J (.ofClass c) signature true r') : r'.stage? (.ofClass c) = some .resolved := by
  cases h with
  | committed hs during commits =>
    obtain ⟨e, he, -⟩ := Option.map_eq_some_iff.1 hs
    have hkept := during.1.classAt?_eq_some (c := c) (e := { e with stage := .resolving })
      (by simp [setStage, he]) (by simp)
    cases commits with
    | classSignature => simp [stage?, hkept, ClassTypes.fill]
    | classHeader => simp [stage?, hkept, ClassEntry.fillErased]

theorem isUnresolved_iff : r.isUnresolved c = true ↔ r.stage? (.ofClass c) = some .unresolved := by
  rcases he : r.classAt? c with _ | e
  · simp [isUnresolved, stage?, he]
  · simp [isUnresolved, stage?, he]

end Registry

namespace Pool

variable {p : Pool} {r r' : Registry} {a c : ClassId} {busy : Set ClassId} {depth : Nat}

/-- **Asked for a class that can be obtained**, `ask` has it show what it declares, as long as
at most `depth` classes are unresolved. -/
def Obtains (p : Pool) (r : Registry) (depth : Nat) (ask : ClassId → Work Bool) : Prop :=
  ∀ a w, p.Partway r w.registry → w.registry.stage? (.ofClass a) = some .unresolved →
    w.registry.unresolvedCount ≤ depth → p.Obtainable r w.registry.beingResolved a →
    p.Shows r (ask a w).2.registry a

/-- A resolution that asks for classes around its own: those that it has asked for and that
can be obtained show what they declare. -/
structure Seeking (p : Pool) (r : Registry) (busy : Set ClassId) (depth : Nat) (q : Progress) :
    Prop where
  way : p.Partway r q.workspace.registry
  busy_eq : q.workspace.registry.beingResolved = busy
  count : q.workspace.registry.unresolvedCount ≤ depth
  asked : ∀ a ∈ q.requested, p.Obtainable r busy a → p.Shows r q.workspace.registry a

namespace Seeking

variable {q : Progress} {res : Resolution}

/-- A class that can be obtained and is not unresolved shows what it declares. -/
theorem shows_of_stage (h : p.Seeking r busy depth q)
    (hs : q.workspace.registry.stage? (.ofClass a) ≠ some .unresolved)
    (ha : p.Obtainable r busy a) : p.Shows r q.workspace.registry a := by
  rcases ha.cases_attainable with hknown | ⟨hidle, -⟩
  · exact h.way.shows_of_known hknown
  · rcases hstage : q.workspace.registry.stage? (.ofClass a) with _ | _ | _ | _
    · -- what is not registered has no signature
      refine h.way.shows_of_known (shows_of_unsigned ?_)
      rw [← h.way.signature?_eq, signature?, Option.map_eq_none_iff.1 hstage, Option.bind_none]
    · exact absurd hstage hs
    · exact absurd (h.busy_eq ▸ hstage) hidle
    · exact h.way.shows_of_resolved hstage

/-- What is seen to on the way of a request. -/
theorem request (h : p.Seeking r busy depth q)
    (hon : res.options.resolveReferenced = true)
    (hask : ∀ c, Work.Evolves (p.Partway r) (res.ask c)) (hobtains : p.Obtains r depth res.ask)
    (c : ClassId) : p.Seeking r busy depth (res.request c q).2 ∧
      (p.Obtainable r busy c → p.Shows r (res.request c q).2.workspace.registry c) := by
  rw [Resolution.request_apply]
  split
  · rename_i hrequest
    simp only [hon, Bool.true_and, Bool.and_eq_true] at hrequest
    have hevolves := hask c (Resolution.asking c q).workspace
    have hway := hevolves.2 h.way
    have hgained : p.Obtainable r busy c →
        p.Shows r (res.answered c q).workspace.registry c :=
      fun hc => hobtains c (Resolution.asking c q).workspace h.way
        (Registry.isUnresolved_iff.1 hrequest.1) h.count (h.busy_eq ▸ hc)
    have hafter : p.Seeking r busy depth (res.answered c q) := by
      refine ⟨hway, hevolves.1.beingResolved_eq.trans h.busy_eq,
        hevolves.1.unresolvedCount_le.trans h.count, ?_⟩
      rintro a (_ | ⟨_, ha⟩) hobtainable
      · exact hgained hobtainable
      · exact h.way.shows_of_advances hway hevolves.1 (h.asked a ha hobtainable)
    split
    · exact ⟨hafter, hgained⟩
    · exact ⟨⟨hafter.way, hafter.busy_eq, hafter.count, hafter.asked⟩, hgained⟩
  · rename_i hrequest
    refine ⟨h, fun hobtainable => ?_⟩
    by_cases hs : q.workspace.registry.stage? (.ofClass c) = some .unresolved
    · -- it was asked for before
      rw [hon, Registry.isUnresolved_iff.2 hs] at hrequest
      exact h.asked c (by simpa using hrequest) hobtainable
    · exact h.shows_of_stage hs hobtainable

/-- **All classes that can be obtained show what they declare** once they are asked for. -/
theorem forM (h : p.Seeking r busy depth q) (hon : res.options.resolveReferenced = true)
    (hask : ∀ c, Work.Evolves (p.Partway r) (res.ask c)) (hobtains : p.Obtains r depth res.ask)
    (cs : List ClassId) : p.Seeking r busy depth (cs.forM res.request q).2 ∧
      ∀ c ∈ cs, p.Obtainable r busy c →
        p.Shows r (cs.forM res.request q).2.workspace.registry c := by
  induction cs generalizing q with
  | nil => exact ⟨h, fun c hc => absurd hc List.not_mem_nil⟩
  | cons c cs ih =>
    obtain ⟨hfirst, hgained⟩ := h.request hon hask hobtains c
    obtain ⟨hrest, hothers⟩ := ih hfirst
    have hadv := Keeps.forM (Resolution.steady_of_evolves hask _).request cs (res.request c q).2
      (.refl (p.Partway r) _)
    refine ⟨hrest, ?_⟩
    rintro d (_ | ⟨_, hd⟩) hobtainable
    · exact hfirst.way.shows_of_advances hrest.way hadv.1 (hgained hobtainable)
    · exact hothers d hd hobtainable

end Seeking

/-- **Where a signature is read, every class around shows what it declares** that could be
obtained when the resolution began. -/
theorem shows_reading {res : Resolution} (hon : res.options.resolveReferenced = true)
    (hask : ∀ c, Work.Evolves (p.Partway r) (res.ask c)) (hobtains : p.Obtains r depth res.ask)
    {q : Progress} (hway : p.Partway r q.workspace.registry)
    (hcount : q.workspace.registry.unresolvedCount ≤ depth) (hfresh : q.requested = [])
    (c : ClassId) : p.Partway r (res.reading c q) ∧
      ∀ a ∈ r.around c, p.Obtainable r q.workspace.registry.beingResolved a →
        p.Shows r (res.reading c q) a := by
  have hkept := noteCycle_registry c q.workspace
  have hseeking : p.Seeking r q.workspace.registry.beingResolved depth
      { q with workspace := (noteCycle c q.workspace).2 } := by
    exact ⟨hkept ▸ hway, hkept ▸ rfl, hkept ▸ hcount, by simp [hfresh]⟩
  have hreading : res.reading c q = ((q.workspace.registry.enclosingChain c).forM res.request
      { q with workspace := (noteCycle c q.workspace).2 }).2.workspace.registry := by
    rw [← hkept]
    exact noteCycle_registry c ((((noteCycle c q.workspace).2.registry.enclosingChain c).forM
      res.request { q with workspace := (noteCycle c q.workspace).2 }).2.workspace)
  obtain ⟨hfound, hshown⟩ := hseeking.forM hon hask hobtains
    (q.workspace.registry.enclosingChain c)
  rw [hreading]
  refine ⟨hfound.way, fun a ha => hshown a ?_⟩
  rw [Registry.enclosingChain_congr hway.enclosing?_eq]
  exact List.mem_reverse.1 ha

/-! ### Class signatures on the way -/

section Reading

variable {res : Resolution} {q : Progress} {entry : ClassEntry} {text : String} {sig : ClassSig}

theorem evolves_reading {J : Registry → Prop} (hask : ∀ c, Work.Evolves J (res.ask c)) (c : ClassId)
    (q : Progress) : q.workspace.registry.Evolves J (res.reading c q) :=
  (Resolution.steady_of_evolves hask _).calm.scopeAround c q (.refl _ _)

/-- **When a class is resolved from its signature on the way**: if the signature fits, and
each name that it borrows is shown around where it is read. -/
theorem classText_eq_ok_iff (hask : ∀ c, Work.Evolves (p.Partway r) (res.ask c))
    (hverify : res.options.verifyErasure = p.options.verifyErasure)
    (hway : p.Partway r q.workspace.registry) (hc : q.workspace.registry.classAt? c = some entry)
    (hmarked : entry.stage = .resolving) :
    ((res.resolveClassText c text).outcome q).1 = .ok () ↔ ∃ sig, ClassSig.parse text = .ok sig ∧
      r.AdmitsForm p.options.verifyErasure c sig ∧
      ∀ name ∈ sig.borrowedNames, ∃ a ∈ r.around c, name ∈ (res.reading c q).paramNames a := by
  rcases hparse : ClassSig.parse text with e | sig
  · have hthrow : ((res.resolveClassText c text).outcome q).1 =
        .error (.malformed (.unreadable e)) := by
      unfold Resolution.resolveClassText
      rw [hparse]
      rfl
    simp [hthrow]
  · have hevolves := evolves_reading hask c q
    have hreading := hevolves.2 hway
    have hfound := hevolves.1.classAt?_eq_some hc (by simp [hmarked])
    have hs : (res.reading c q).stage? (.ofClass c) ≠ some .resolved := by
      simp [Registry.stage?, hfound, hmarked]
    have hadmits := ((res.failsBy_classText hask hc (by simp [hmarked]) hparse).eq_ok_iff.trans
      Registry.admits_iff.symm).trans Registry.admits_class_iff
    rw [hverify, hreading.admitsForm_iff hs, hreading.around_eq] at hadmits
    rw [hadmits]
    simp

/-- What a class comes to that is resolved from its signature: the meaning of the signature
where it is read. -/
theorem exists_types_of_classText (hask : ∀ c, Work.Evolves (p.Partway r) (res.ask c))
    (hc : q.workspace.registry.classAt? c = some entry) (hmarked : entry.stage = .resolving)
    (hparse : ClassSig.parse text = .ok sig)
    (hok : ((res.resolveClassText c text).outcome q).1 = .ok ()) :
    ∃ types, ((res.reading c q).lexiconAround c).classTypes entry.typeParams c sig = .ok types ∧
      ((res.resolveClassText c text).outcome q).2.workspace.registry.classAt? c =
        some (types.fill entry) := by
  have hfound := (evolves_reading hask c q).1.classAt?_eq_some hc (by simp [hmarked])
  generalize hread : res.reading c q = r₁ at hfound
  -- the class is marked, so its entry stays as it is
  have hkept : ∀ q, Progress.Since (p.Partway r) r₁ q →
      q.workspace.registry.classAt? c = some entry := fun q hq =>
    hq.1.classAt?_eq_some hfound (by simp [hmarked])
  have hdeclared : ∀ q, Progress.Since (p.Partway r) r₁ q →
      q.workspace.registry.typeParams (.ofClass c) = entry.typeParams := fun q hq =>
    Registry.typeParams_ofClass (hkept q hq)
  have hl := Resolution.settled_of_evolves hask (r := r₁) (l := r₁.lexiconAround c) fun _ => rfl
  have hends : Ends (Progress.Since (p.Partway r) r₁) (fun r r' => ∃ types,
      (r₁.lexiconAround c).classTypes entry.typeParams c sig = .ok types ∧
        r' = r.modifyClass c types.fill)
      (res.resolveClassTypes c (({} : Scope).pushEnclosing r₁ c) sig >>= res.commitClass c) :=
    (Resolution.computes_classTypes hl rfl hdeclared sig).ends fun types htypes =>
      (Resolution.ends_commitClass c types).mono fun _ _ _ heq => ⟨types, htypes, heq⟩
  rw [Resolution.outcome_classText hparse q, hread] at hok ⊢
  have hend := hends (res.scopeAround c q).2 (hread ▸ .refl _ _)
  rcases hout : (res.resolveClassTypes c (({} : Scope).pushEnclosing r₁ c) sig >>=
    res.commitClass c).outcome (res.scopeAround c q).2 with ⟨e | _, q'⟩ <;> rw [hout] at hok hend
  · cases hok
  · obtain ⟨q₁, hq₁, types, htypes, heq⟩ := hend
    refine ⟨types, htypes, ?_⟩
    dsimp only at heq ⊢
    rw [heq, Registry.classAt?_modifyClass_self, hkept q₁ hq₁]
    rfl

end Reading

/-! ### Collaborators that obtain classes -/

/-- A pool that refuses nothing resolves the class that it finds. -/
theorem answer_of_lookup (hrefused : p.refused = [])
    {resolve : ClassId → Option String → Work Bool} {name : String} {w : Workspace}
    (hc : w.registry.lookup (p.targetName name) = some c) :
    p.answer resolve name w = resolve c (p.signatures.lookup (p.targetName name)) w := by
  unfold answer
  rw [hrefused, if_neg (by simp), bind_apply, getRegistry_apply]
  dsimp only
  rw [hc]

/-- How a pool that refuses and redirects nothing answers the request for a class. -/
theorem askWithin_succ (hrefused : p.refused = []) (hredirect : p.redirect = [])
    (hdistinct : r.HasDistinctNames) {e : ClassEntry} {w : Workspace}
    (hway : p.Partway r w.registry) (ha : w.registry.classAt? a = some e) (depth : Nat) :
    (Collaborator.pool p).askWithin (depth + 1) a w =
      let out := resolveClassAsking ((Collaborator.pool p).askWithin depth) p.options a
        (p.signature? r a) (record (.asked a e.name) w).2
      (out.1.isOk, (record (.answered a out.1.isOk) out.2).2) := by
  have hname : w.registry.className a = e.name := by simp [Registry.className, ha]
  have htarget : p.targetName e.name = e.name := by simp [targetName, hredirect]
  have hnamed : r.IsNamed a e.name := by simp [Registry.IsNamed, ← hway.sameNames a, ha]
  have hlookup : (record (.asked a e.name) w).2.registry.lookup (p.targetName e.name) = some a := by
    rw [htarget]
    exact (hway.sameNames.lookup_eq _).trans (hdistinct.lookup_eq_some_iff.2 hnamed)
  have hsignature : p.signature? r a = p.signatures.lookup (p.targetName e.name) := by
    rw [← hway.signature?_eq, signature?, ha, Option.bind_some, htarget]
  have hanswer : (Collaborator.pool p).askWithin (depth + 1) a w =
      let out := p.answer (fun c signature => do
        return (← resolveClassAsking ((Collaborator.pool p).askWithin depth) p.options c
          signature).isOk) (w.registry.className a) (record (.asked a (w.registry.className a)) w).2
      (out.1, (record (.answered a out.1) out.2).2) := rfl
  rw [hanswer, hname, answer_of_lookup hrefused hlookup, hsignature]
  rfl

/-- **A call for a class succeeds** if its signature fits, and each name that it borrows is
declared around it by a class that can be obtained meanwhile. -/
theorem isOk_resolveClassAsking {ask : ClassId → Work Bool} {w : Workspace} {text : String}
    (hon : p.options.resolveReferenced = true)
    (hn : ∀ c, TypeParam.Numbered (.ofClass c) (r.typeParams (.ofClass c)))
    (hask : ∀ c, Work.Evolves (p.Partway r) (ask c)) (hobtains : p.Obtains r depth ask)
    (hway : p.Partway r w.registry) (hs : w.registry.stage? (.ofClass a) = some .unresolved)
    (hcount : w.registry.unresolvedCount ≤ depth + 1) (hsignature : p.signature? r a = some text)
    (hfits : p.Fits r a) (ha : p.Attainable r w.registry.beingResolved a) :
    (resolveClassAsking ask p.options a (some text) w).1 = .ok () := by
  let res : Resolution := ⟨p.options, w.registry.targetName (.ofClass a), ask⟩
  obtain ⟨e, he, -⟩ := Option.map_eq_some_iff.1 hs
  have hmarked : (w.registry.setStage .resolving (.ofClass a)).classAt? a =
      some { e with stage := .resolving } := by
    simp [Registry.setStage, he]
  have hbegun : p.Partway r (beginning (.ofClass a) w).workspace.registry :=
    (stable_partway hn).mark hway hs
  have hleft : (beginning (.ofClass a) w).workspace.registry.unresolvedCount ≤ depth :=
    Nat.le_of_succ_le_succ ((Registry.unresolvedCount_mark hs).trans_le hcount)
  have hshown : ∀ d ∈ r.around a,
      p.Obtainable r (beginning (.ofClass a) w).workspace.registry.beingResolved d →
      p.Shows r (res.reading a (beginning (.ofClass a) w)) d :=
    (shows_reading hon hask hobtains hbegun hleft rfl a).2
  obtain ⟨sig, hparse, hform⟩ := hfits text hsignature
  have hok : ((res.resolveClassText a text).outcome (beginning (.ofClass a) w)).1 = .ok () := by
    refine (classText_eq_ok_iff hask rfl hbegun hmarked rfl).2 ⟨sig, hparse, hform, ?_⟩
    intro name hname
    obtain ⟨d, hd, hdeclared, hobtainable⟩ := ha.2 name (by
      rw [borrowedNames, classSig?_eq_some hsignature hparse]
      exact hname)
    rw [← Registry.beingResolved_mark hs] at hobtainable
    exact ⟨d, hd, (hshown d hd hobtainable).symm ▸ hdeclared⟩
  rw [← resolveAsking_ofClass, resolveAsking, resolveBy_of_mark_ok _ _ _ _
    (Registry.mark_eq_ok.2 ⟨hs, rfl⟩)]
  exact hok

/-- **A pool obtains every class that can be obtained**, if all signatures fit. -/
theorem obtains_askWithin (hrefused : p.refused = []) (hredirect : p.redirect = [])
    (hon : p.options.resolveReferenced = true) (hdistinct : r.HasDistinctNames)
    (hn : ∀ c, TypeParam.Numbered (.ofClass c) (r.typeParams (.ofClass c)))
    (hfits : ∀ c, p.Fits r c) (depth : Nat) :
    p.Obtains r depth ((Collaborator.pool p).askWithin depth) := by
  have hevolves : ∀ depth c, Work.Evolves (p.Partway r) ((Collaborator.pool p).askWithin depth c) :=
    (Collaborator.pool p).askWithin_evolves (stable_partway hn) (p.serves_signature? r)
  induction depth with
  | zero =>
    intro a w hway hs hcount
    have hpos := Registry.unresolvedCount_pos (Registry.isUnresolved_iff.2 hs)
    omega
  | succ depth ih =>
    intro a w hway hs hcount ha
    have hafter : p.Partway r ((Collaborator.pool p).askWithin (depth + 1) a w).2.registry :=
      (hevolves (depth + 1) a w).2 hway
    rcases ha.cases_attainable with hknown | ⟨hidle, hborrowed⟩
    · exact hafter.shows_of_known hknown
    rcases hsignature : p.signature? r a with _ | text
    · exact hafter.shows_of_known (shows_of_unsigned hsignature)
    -- it is resolved from its signature, while it is marked itself
    obtain ⟨e, he, -⟩ := Option.map_eq_some_iff.1 hs
    have hok := isOk_resolveClassAsking (w := (record (.asked a e.name) w).2) hon hn
      (hevolves depth) ih hway hs hcount hsignature (hfits a) ⟨hidle, hborrowed⟩
    have hcourse := resolveAsking_course (hevolves depth) p.options (.ofClass a) (some text)
      (record (.asked a e.name) w).2
    rw [resolveAsking_ofClass, hok] at hcourse
    rw [askWithin_succ hrefused hredirect hdistinct hway he, hsignature] at hafter ⊢
    exact hafter.shows_of_resolved hcourse.resolved

end Pool

end JavaGenerics
