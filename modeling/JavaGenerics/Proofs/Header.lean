import JavaGenerics.Proofs.Success
import JavaGenerics.Proofs.Verification

/-!
# A class and its header

A class can be resolved from its signature, or from the erased header that its class file
records besides. The two have no code in common: one reads a text and resolves generic
types in a scope, the other looks names up. This file proves that they come to the same
classes (`JavaGenerics.Workspace.resolveClass_header`), provided that the signature was
checked against the header – and that the check lets nothing else through.

What connects them are names. The check compares the names that supertypes erase to; the
header is resolved by looking such names up. A supertype that was resolved from a signature
was looked up itself, so the registry finds its class under the very name that the type
erases to (`JavaGenerics.Registry.Finds`), and this name stands for the same class wherever
it is looked up. For the same reason no interface is left out of the comparison: every one
erases to a name.
-/

namespace JavaGenerics

open Attempt

/-! ### Names that stay -/

namespace Registry

variable {r r' : Registry}

theorem sameNames_fill (r : Registry) (c : ClassId) (types : ClassTypes) :
    r.SameNames (r.modifyClass c types.fill) := by
  intro d
  rw [classAt?_modifyClass]
  split
  · rename_i hd
    rw [hd, Option.map_map]
    rfl
  · rfl

theorem Frame.sameNames {t : Target} (h : r.Frame t r') : r.SameNames r' := by
  intro c
  rcases he : r.classAt? c with _ | e
  · rw [h.absent c he]
  · obtain ⟨e', he', hadv⟩ := h.advanced c e he
    rw [he', Option.map_some, Option.map_some, hadv.name_eq]

/-! ### Types whose names lead back to them -/

/-- The registry finds the class of a type under the name that the type erases to. -/
def Finds (r : Registry) (t : ResolvedType) : Prop :=
  ∃ name c, r.erasedName? t = some name ∧ t.class? = some c ∧ r.lookup name = some c

theorem Finds.lookup_eq {t : ResolvedType} {name : String} (h : r.Finds t)
    (ht : r.erasedName? t = some name) : r.lookup name = t.class? := by
  obtain ⟨name', c, hname, hclass, hlookup⟩ := h
  cases hname.symm.trans ht
  rw [hlookup, hclass]

theorem SameNames.finds {t : ResolvedType} (h : r.SameNames r') (ht : r.Finds t) : r'.Finds t := by
  obtain ⟨name, c, hname, hclass, hlookup⟩ := ht
  exact ⟨name, c, (h.erasedName?_eq t).trans hname, hclass, (h.lookup_eq name).trans hlookup⟩

end Registry

/-- A class type of a signature comes to a type that is found. -/
theorem Lexicon.finds_typeAt {l : Lexicon} {r : Registry} (hl : l.class? = r.lookup)
    {s : TypeSig} {t : ResolvedType} (hs : s.IsClass) (h : l.typeAt .classType s = .ok t) :
    r.Finds t := by
  have hvalue : s.IsValue := .reference (.ofClass hs)
  have htype := (typeAt_eq_ok.1 h).2
  have hname := erasedName?_type hl hvalue htype
  cases hs with
  | mk hname' hargs hinner =>
    obtain ⟨c, hc, ht⟩ := class?_type hvalue.name_ne htype
    exact ⟨_, c, hname, ht, hl ▸ hc⟩

/-! ### The check against the header -/

namespace Registry

variable {r : Registry}

/-- Whether what the registry holds of a class erases to its header, where that records a
superclass. -/
def ErasesToHeader (r : Registry) (c : ClassId) : Prop :=
  ∃ e superclass, r.classAt? c = some e ∧ e.superclass = some superclass ∧
    ∀ erased, e.erasedSuper = some erased → r.erasedName? superclass = some erased ∧
      e.interfaces.filterMap r.erasedName? = e.erasedInterfaces

/-- What is committed for a class erases to its header if the types do that were found for
it. -/
theorem erasesToHeader_fill {c : ClassId} {entry : ClassEntry} (hc : r.classAt? c = some entry)
    (types : ClassTypes) : (r.modifyClass c types.fill).ErasesToHeader c ↔
      r.checkHeader c types.superclass types.interfaces = .ok () := by
  have hentry : (r.modifyClass c types.fill).classAt? c = some (types.fill entry) := by
    rw [classAt?_modifyClass_self, hc]
    rfl
  have hnames : (r.modifyClass c types.fill).erasedName? = r.erasedName? :=
    funext (r.sameNames_fill c types).erasedName?_eq
  rw [checkHeader_eq_ok hc]
  constructor
  · rintro ⟨e, superclass, hfound, hsuper, herases⟩
    cases hentry.symm.trans hfound
    cases hsuper
    rw [hnames] at herases
    exact herases
  · intro herases
    refine ⟨_, types.superclass, hentry, rfl, ?_⟩
    rw [hnames]
    exact herases

end Registry

namespace Resolution

variable {res : Resolution} {I : Progress → Prop}

theorem scopeAround_verifying (res : Resolution) (verify : Bool) (c : ClassId) :
    (res.verifying verify).scopeAround c = res.scopeAround c :=
  eq_of_alike (alike_scopeAround (res.parallel_verifying verify) c)

theorem resolveClassTypes_verifying (res : Resolution) (verify : Bool) (c : ClassId)
    (scope : Scope) (sig : ClassSig) :
    (res.verifying verify).resolveClassTypes c scope sig = res.resolveClassTypes c scope sig :=
  eq_of_together (together_classTypes (res.parallel_verifying verify) c scope sig)

theorem isChecked_commitClass (c : ClassId) (types : ClassTypes) :
    IsChecked I (Registry.ErasesToHeader · c) ((res.verifying true).commitClass c types)
      ((res.verifying false).commitClass c types) := by
  refine IsChecked.ofRegistry fun p _ => ?_
  rw [verifyErasure_verifying, verifyErasure_verifying]
  simp only [if_true, Bool.false_eq_true, if_false]
  rcases hc : p.workspace.registry.classAt? c with _ | entry
  · -- a class that is not registered has no header, and nothing to commit to
    simp only [Registry.checkHeader, hc, Option.isNone_none, if_true]
    rfl
  · simp only [Option.isNone_some, Bool.false_eq_true, if_false]
    exact checks_ofExcept rfl (Registry.erasesToHeader_fill hc types)
      fun e => Registry.checkHeader_eq_error

theorem isChecked_classText (c : ClassId) (text : String) :
    IsChecked (fun _ => True) (Registry.ErasesToHeader · c)
      ((res.verifying true).resolveClassText c text)
      ((res.verifying false).resolveClassText c text) := by
  unfold resolveClassText
  split
  · exact isChecked_throw _
  · rename_i sig _
    unfold resolveClassSig
    simp only [scopeAround_verifying, resolveClassTypes_verifying]
    refine IsChecked.after_lift (fun _ _ => trivial) fun scope => ?_
    exact IsChecked.after (fun _ _ => trivial) fun types => isChecked_commitClass c types

end Resolution

/-- **Verification of a class is agreement with its header**, as that of a member is
agreement with its descriptor. -/
theorem Workspace.verified_resolveClass (k : Collaborator) (options : Options) (c : ClassId)
    (text : String) (w : Workspace) :
    Verified (Registry.ErasesToHeader · c)
      (resolveClass k { options with verifyErasure := true } c (some text) w)
      (resolveClass k { options with verifyErasure := false } c (some text) w) := by
  rw [resolveClass, resolveClass, bind_apply, bind_apply, getRegistry_apply]
  exact verified_resolveBy (k.resolution options w.registry (.ofClass c)) (some text) rfl
    (Resolution.isChecked_classText c text _ trivial)

/-! ### The header alone -/

theorem Lexicon.failsBy_mapM_option {α β : Type} {l : Lexicon} {f : α → Except ResolveError β}
    {classes vars : α → List String} {a : Option α}
    (hf : ∀ b ∈ a, FailsBy (l.Missing (classes b) (vars b)) (f b)) :
    FailsBy (l.Missing (a.toList.flatMap classes) (a.toList.flatMap vars)) (a.mapM f) := by
  cases a with
  | none => exact failsBy_pure none
  | some a =>
    rw [Option.toList_some, List.flatMap_singleton, List.flatMap_singleton]
    exact (hf a rfl).map some

/-- The names in the erased header of a class. -/
def ClassEntry.headerNames (e : ClassEntry) : List String :=
  e.erasedSuper.toList ++ e.erasedInterfaces

namespace Resolution

variable {res : Resolution} {J : Registry → Prop} {r₀ : Registry}

/-- **A header fails by the names in it that are not registered.** -/
theorem isFailedBy_classHeader (hask : ∀ c, Work.Evolves J (res.ask c)) {c : ClassId}
    {entry : ClassEntry} (hc : r₀.classAt? c = some entry) (hs : entry.stage ≠ .unresolved) :
    IsFailedBy (Progress.Since J r₀) ((r₀.lexiconAround c).Missing entry.headerNames [])
      (res.resolveClassHeader c) := by
  have hl := settled_of_evolves hask (l := r₀.lexiconAround c) fun _ => rfl
  refine IsFailedBy.ofRegistry fun p hp => ?_
  rw [hp.1.classAt?_eq_some hc hs]
  refine ((Computes.mapM_option (computes_find hl.named) entry.erasedSuper).isFailedBy
    (Lexicon.failsBy_mapM_option fun name _ => Lexicon.failsBy_classNamed name)
    fun superclass _ =>
      (Computes.mapM (computes_find hl.named) entry.erasedInterfaces).isFailedBy
        (Lexicon.failsBy_mapM fun name _ => Lexicon.failsBy_classNamed name)
        fun interfaces _ => isFailedBy_commit _ _).congr fun e => ?_
  have hnone : ∀ names : List String, names.flatMap (fun _ => ([] : List String)) = [] :=
    fun names => List.flatMap_eq_nil_iff.2 fun _ _ => rfl
  rw [or_false, ← Lexicon.missing_append, hnone, hnone]
  simp [ClassEntry.headerNames]

end Resolution

/-- **When a class is resolved from its header**: if every name in it is registered; and an
error is that one is not. -/
theorem Workspace.failsBy_resolveClass_none (k : Collaborator) (options : Options) {c : ClassId}
    {entry : ClassEntry} {w : Workspace} (hc : w.registry.classAt? c = some entry)
    (hu : entry.stage = .unresolved) :
    FailsBy (fun e => ∃ name ∈ entry.headerNames, w.registry.lookup name = none ∧
      e = .unknownClass name) (resolveClass k options c none w).1 := by
  have hstage : w.registry.stage? (.ofClass c) = some .unresolved := by
    rw [Registry.stage?, hc, Option.map_some, hu]
  have hmarked : (w.registry.setStage .resolving (.ofClass c)).classAt? c
      = some { entry with stage := .resolving } := by
    simp [Registry.setStage, hc]
  have hask := k.askWithin_evolves Registry.stable_trivial (k.serves_trivial _)
    w.registry.unresolvedCount
  change FailsBy _ (resolve k options (.ofClass c) none w).1
  rw [resolve_apply, resolveAsking, resolveBy_of_mark_ok _ _ _ _ (Registry.mark_eq_ok.2
    ⟨hstage, rfl⟩)]
  refine FailsBy.congr (Resolution.isFailedBy_classHeader hask hmarked (by simp) _ (.refl _ _))
    fun e => ?_
  have hlookup := (w.registry.sameNames_setStage .resolving (.ofClass c)).lookup_eq
  constructor
  · rintro (⟨used, missing⟩ | ⟨⟨⟩, -⟩)
    exact ⟨_, used, (hlookup _).symm.trans missing, rfl⟩
  · rintro ⟨name, used, missing, rfl⟩
    exact .ofClass used ((hlookup _).trans missing)

namespace Lexicon

variable {l : Lexicon}

/-- Classes that are found by their names are what the names stand for. -/
theorem map_class?_of_mapM_option {name : Option String} {c : Option ClassId}
    (h : name.mapM l.classNamed = .ok c) :
    (c.map ResolvedType.raw).map (·.class?) = name.map l.class? := by
  cases name with
  | none =>
    cases h
    rfl
  | some name =>
    obtain ⟨d, hd, hc⟩ := bind_eq_ok.1 h
    cases hc
    exact congrArg some (classNamed_eq_ok.1 hd).symm

theorem map_class?_of_mapM {names : List String} {cs : List ClassId}
    (h : names.mapM l.classNamed = .ok cs) :
    (cs.map ResolvedType.raw).map (·.class?) = names.map l.class? := by
  have hall := mapM_eq_ok.1 h
  clear h
  induction hall with
  | nil => rfl
  | cons hc _ ih =>
    rw [List.map_cons, List.map_cons, List.map_cons, ih, classNamed_eq_ok.1 hc]
    rfl

end Lexicon

/-! ### The same classes either way -/

/-- The classes of the supertypes of a class, type arguments and outer types left aside. -/
def ClassEntry.superclasses (e : ClassEntry) : Option (Option ClassId) × List (Option ClassId) :=
  (e.superclass.map (·.class?), e.interfaces.map (·.class?))

namespace Registry

variable {J : Registry → Prop} {r r₁ r' : Registry} {c : ClassId} {entry : ClassEntry}

/-- The classes that the names in the header of a class stand for. -/
def headerClasses (r : Registry) (e : ClassEntry) :
    Option (Option ClassId) × List (Option ClassId) :=
  (e.erasedSuper.map r.lookup, e.erasedInterfaces.map r.lookup)

theorem SameNames.headerClasses_eq (h : r.SameNames r') (e : ClassEntry) :
    r'.headerClasses e = r.headerClasses e := by
  unfold headerClasses
  rw [funext h.lookup_eq]

/-- No type that is found is left out of a list of names. -/
theorem map_erasedName?_of_finds {ts : List ResolvedType} (h : ∀ t ∈ ts, r.Finds t) :
    ts.map r.erasedName? = (ts.filterMap r.erasedName?).map some := by
  induction ts with
  | nil => rfl
  | cons t ts ih =>
    obtain ⟨⟨name, c, hname, -⟩, hts⟩ := List.forall_mem_cons.1 h
    rw [List.map_cons, List.filterMap_cons_some hname, List.map_cons, ih hts, hname]

/-- Types that are found are of the classes that their names stand for. -/
theorem map_lookup_of_finds {ts : List ResolvedType} (h : ∀ t ∈ ts, r.Finds t) :
    (ts.filterMap r.erasedName?).map r.lookup = ts.map (·.class?) := by
  induction ts with
  | nil => rfl
  | cons t ts ih =>
    obtain ⟨ht, hts⟩ := List.forall_mem_cons.1 h
    have ⟨name, _, hname, _⟩ := ht
    rw [List.filterMap_cons_some hname, List.map_cons, List.map_cons, ih hts, ht.lookup_eq hname]

/-- A class that is resolved from a signature gets supertypes that are found. -/
theorem Course.finds_supertypes {text : String} (hc : r.classAt? c = some entry)
    (h : r.Course J (.ofClass c) (some text) true r') :
    ∃ types : ClassTypes, r'.classAt? c = some (types.fill entry) ∧ r'.Finds types.superclass ∧
      ∀ t ∈ types.interfaces, r'.Finds t := by
  have hmarked : (r.setStage .resolving (.ofClass c)).classAt? c
      = some { entry with stage := .resolving } := by
    simp [setStage, hc]
  cases h with
  | committed stage during commits =>
    cases commits with
    | classSignature r₁ parse before after meaning =>
      rename_i r₂ sig types
      have hfound := during.1.classAt?_eq_some hmarked (by simp)
      obtain ⟨-, hsuper, hinterfaces⟩ := Lexicon.classTypes_eq_ok.1 meaning
      obtain ⟨hreadable, -⟩ := ClassSig.parse_eq_ok.1 parse
      -- names stand for the same from where the signature was read to the end
      have hkept : r₁.SameNames (r₂.modifyClass c types.fill) :=
        after.1.sameNames.trans (r₂.sameNames_fill c types)
      refine ⟨types, ?_, ?_, fun t ht => ?_⟩
      · rw [classAt?_modifyClass_self, hfound]
        rfl
      · exact hkept.finds (Lexicon.finds_typeAt rfl hreadable.superclass hsuper)
      · have hfinds := forall_of_mapM_eq_ok
          (fun s hs u => Lexicon.finds_typeAt (r := r₁) rfl (hreadable.interfaces s hs)) hinterfaces
        exact hkept.finds (hfinds t ht)

/-- A class that is resolved from its header gets the classes that the names in it stand
for. -/
theorem Course.superclasses_eq (hc : r.classAt? c = some entry)
    (h : r.Course J (.ofClass c) none true r') :
    ∃ e, r'.classAt? c = some e ∧ e.superclasses = r.headerClasses entry := by
  have hmarked : (r.setStage .resolving (.ofClass c)).classAt? c
      = some { entry with stage := .resolving } := by
    simp [setStage, hc]
  rw [← (r.sameNames_setStage .resolving (.ofClass c)).headerClasses_eq]
  cases h with
  | committed stage during commits =>
    cases commits with
    | classHeader found superclass_eq interfaces_eq =>
      rename_i r₂ entry' superclass interfaces
      cases hmarked.symm.trans found
      refine ⟨entry.fillErased superclass interfaces, ?_, ?_⟩
      · rw [classAt?_modifyClass_self, during.1.classAt?_eq_some hmarked (by simp)]
        rfl
      · exact Prod.ext (Lexicon.map_class?_of_mapM_option superclass_eq)
          (Lexicon.map_class?_of_mapM interfaces_eq)

/-- Supertypes that are found and erase to a header are of the classes that the names in it
stand for. -/
theorem superclasses_fill {types : ClassTypes} (hsuper : r.Finds types.superclass)
    (hinterfaces : ∀ t ∈ types.interfaces, r.Finds t)
    (hname : r.erasedName? types.superclass = entry.erasedSuper)
    (hnames : types.interfaces.filterMap r.erasedName? = entry.erasedInterfaces) :
    (types.fill entry).superclasses = r.headerClasses entry := by
  refine Prod.ext ?_ ?_
  · have ⟨name, _, hfound, _⟩ := hsuper
    change some types.superclass.class? = entry.erasedSuper.map r.lookup
    rw [← hname, hfound, Option.map_some, hsuper.lookup_eq hfound]
  · change types.interfaces.map (·.class?) = entry.erasedInterfaces.map r.lookup
    rw [← hnames, map_lookup_of_finds hinterfaces]

/-- A header that supertypes erase to which are found has no name that is not registered. -/
theorem lookup_ne_none_of_finds {types : ClassTypes} (hsuper : r.Finds types.superclass)
    (hinterfaces : ∀ t ∈ types.interfaces, r.Finds t)
    (hname : r.erasedName? types.superclass = entry.erasedSuper)
    (hnames : types.interfaces.filterMap r.erasedName? = entry.erasedInterfaces)
    {name : String} (h : name ∈ entry.headerNames) : r.lookup name ≠ none := by
  have hfinds : ∃ t, r.Finds t ∧ r.erasedName? t = some name := by
    rcases List.mem_append.1 h with h | h
    · rw [Option.mem_toList, ← hname] at h
      exact ⟨_, hsuper, h⟩
    · rw [← hnames] at h
      obtain ⟨t, ht, htname⟩ := List.mem_filterMap.1 h
      exact ⟨t, hinterfaces t ht, htname⟩
  obtain ⟨t, ht, htname⟩ := hfinds
  rw [ht.lookup_eq htname]
  obtain ⟨-, c, -, hclass, -⟩ := ht
  simp [hclass]

end Registry

namespace Workspace

theorem course_of_ok {k : Collaborator} {options : Options} {c : ClassId}
    {signature : Option String} {w : Workspace}
    (h : (resolveClass k options c signature w).1 = .ok ()) :
    w.registry.Course (fun _ => True) (.ofClass c) signature true
      (resolveClass k options c signature w).2.registry := by
  have hcourse := resolve_course_trivial k options (.ofClass c) signature w
  rwa [show (resolve k options (.ofClass c) signature w).1 = .ok () from h] at hcourse

/-- **A class resolved from its signature and from its header comes to the same classes.**
If the call with a signature succeeds that is checked against the header, the call without
a signature succeeds as well, and both leave the same superclass and interfaces, type
arguments and outer types left aside. If the signature can be resolved, but to classes that
are not those in the header, the call that checks fails with a mismatch. -/
theorem resolveClass_header (k k' : Collaborator) (options options' : Options)
    (text : String) {c : ClassId} {entry : ClassEntry} {erased : String} {w : Workspace}
    (hc : w.registry.classAt? c = some entry) (herased : entry.erasedSuper = some erased) :
    let checked := resolveClass k { options with verifyErasure := true } c (some text) w
    let unchecked := resolveClass k { options with verifyErasure := false } c (some text) w
    let header := resolveClass k' options' c none w
    (checked.1 = .ok () → header.1 = .ok () ∧ ∃ e e', checked.2.registry.classAt? c = some e ∧
      header.2.registry.classAt? c = some e' ∧ e.superclasses = e'.superclasses) ∧
    (unchecked.1 = .ok () → ∃ e, unchecked.2.registry.classAt? c = some e ∧
      (e.superclass.bind unchecked.2.registry.erasedName? ≠ some erased ∨
        e.interfaces.map unchecked.2.registry.erasedName? ≠ entry.erasedInterfaces.map some →
        ∃ cause, checked.1 = .error (.mismatch cause))) := by
  intro checked unchecked header
  have hverified := verified_resolveClass k options c text w
  refine ⟨fun hok => ?_, fun hok => ?_⟩
  · have hcourse := course_of_ok hok
    have hsame := hcourse.frame.sameNames
    obtain ⟨types, hentry, hsuper, hinterfaces⟩ := hcourse.finds_supertypes hc
    -- the check has compared the names with those in the header
    obtain ⟨-, e, superclass, hfound, hfoundSuper, herases⟩ := hverified.ok_iff.1 hok
    rw [← hverified.state_eq hok] at hfound herases
    cases hentry.symm.trans hfound
    cases hfoundSuper
    obtain ⟨hname, hnames⟩ := herases erased herased
    have hname := hname.trans herased.symm
    have hu : entry.stage = .unresolved := by
      cases hcourse with
      | committed stage => simpa [Registry.stage?, hc] using stage
    have hheader : header.1 = .ok () := by
      rw [(failsBy_resolveClass_none k' options' hc hu).eq_ok_iff]
      rintro _ ⟨name, hmem, hmissing, rfl⟩
      refine Registry.lookup_ne_none_of_finds hsuper hinterfaces hname hnames hmem ?_
      exact (hsame.lookup_eq name).trans hmissing
    obtain ⟨e', hentry', hclasses⟩ := (course_of_ok hheader).superclasses_eq hc
    refine ⟨hheader, _, e', hentry, hentry', ?_⟩
    rw [hclasses, ← hsame.headerClasses_eq]
    exact Registry.superclasses_fill hsuper hinterfaces hname hnames
  · obtain ⟨types, hentry, hsuper, hinterfaces⟩ := (course_of_ok hok).finds_supertypes hc
    refine ⟨_, hentry, fun hdiffers => ?_⟩
    rcases hresult : checked.1 with e | ⟨⟨⟩⟩
    · rcases hverified.error e hresult with heq | ⟨-, cause, rfl⟩
      · exact absurd ((congrArg (·.1) heq).symm.trans hresult) (by rw [hok]; simp)
      · exact ⟨cause, rfl⟩
    · -- a check that succeeds has found no difference
      obtain ⟨-, e, superclass, hfound, hfoundSuper, herases⟩ := hverified.ok_iff.1 hresult
      cases hentry.symm.trans hfound
      cases hfoundSuper
      obtain ⟨hname, hnames⟩ := herases erased herased
      rcases hdiffers with hdiffers | hdiffers
      · exact absurd hname hdiffers
      · refine absurd ?_ hdiffers
        change types.interfaces.map _ = _
        rw [Registry.map_erasedName?_of_finds hinterfaces]
        exact congrArg (List.map some) hnames

/-- A class with a generic interface, resolved from a signature that fits its header, and
from one that names the interface twice. -/
theorem resolveClass_header_of_interface :
    let w : Workspace :=
      { registry := .ofHeaders [{ name := "O" },
          { name := "I", isInterface := true, superclass := some "O", typeParams := ["T"] },
          { name := "A", superclass := some "O", interfaces := ["I"] }] }
    let call := fun verify signature =>
      resolveClass .silent { verifyErasure := verify } ⟨2⟩ signature w
    ∃ entry, w.registry.classAt? ⟨2⟩ = some entry ∧ entry.erasedSuper = some "O" ∧
      (call true (some "LO;LI<LA;>;")).1 = .ok () ∧ (call true none).1 = .ok () ∧
      (call false (some "LO;LI<LA;>;LI;")).1 = .ok () ∧
      ∃ cause, (call true (some "LO;LI<LA;>;LI;")).1 = .error (.mismatch cause) := by
  intro w call
  have hok : ∀ {x : Except ResolveError Unit}, x.isOk = true → x = .ok () := by
    rintro (_ | ⟨⟨⟩⟩) h
    · cases h
    · rfl
  have hheader : (w.registry.classAt? ⟨2⟩).map (fun e => (e.erasedSuper, e.erasedInterfaces))
      = some (some "O", ["I"]) := by decide +kernel
  obtain ⟨entry, hc, hentry⟩ := Option.map_eq_some_iff.1 hheader
  obtain ⟨hsuper, hinterfaces⟩ := Prod.mk.inj hentry
  have hfits : (call true (some "LO;LI<LA;>;")).1 = .ok () := hok (by decide +kernel)
  have htwice : (call false (some "LO;LI<LA;>;LI;")).1 = .ok () := hok (by decide +kernel)
  have hnames : ((call false (some "LO;LI<LA;>;LI;")).2.registry.classAt? ⟨2⟩).map
      (fun e => e.interfaces.map (call false (some "LO;LI<LA;>;LI;")).2.registry.erasedName?)
        = some [some "I", some "I"] := by decide +kernel
  obtain ⟨hsame, -⟩ := (resolveClass_header .silent .silent {} {} "LO;LI<LA;>;" hc hsuper).1 hfits
  obtain ⟨e, hfound, hdiffers⟩ :=
    (resolveClass_header .silent .silent {} {} "LO;LI<LA;>;LI;" hc hsuper).2 htwice
  refine ⟨entry, hc, hsuper, hfits, hsame, htwice, hdiffers (.inr ?_)⟩
  have hfound : (call false (some "LO;LI<LA;>;LI;")).2.registry.classAt? ⟨2⟩ = some e := hfound
  rw [hfound] at hnames
  rw [hinterfaces]
  intro heq
  cases (Option.some.inj hnames).symm.trans heq

end Workspace

end JavaGenerics
