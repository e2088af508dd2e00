import JavaGenerics.Proofs.Nesting

/-!
# Registries that look alike

What a resolution does depends on little of the registry that it finds. To read a
signature it takes from there which class a name stands for, which class lies in which,
and what type parameters are called; two registries that *agree* on this
(`JavaGenerics.Registry.Agrees`) give every signature the same meaning. The checks behind
it also look at the erased records of classes, and at members; in registries that
*resemble* each other (`JavaGenerics.Registry.Resembles`) they come to the same, down to
the words of a complaint.

Neither relation asks for the supertypes of a class, for the bounds of its type parameters
or for how far it is resolved. These are what other resolutions change.
-/

namespace JavaGenerics

/-! ### The names of classes -/

namespace Registry

variable {r r' : Registry}

/-- Registries whose classes have the same names. -/
def SameNames (r r' : Registry) : Prop :=
  ∀ c, (r'.classAt? c).map (·.name) = (r.classAt? c).map (·.name)

theorem Advances.sameNames (h : r.Advances r') : r.SameNames r' :=
  h.map_classAt? (·.name) fun _ _ _ => ClassEntry.Advances.name_eq

theorem sameNames_setStage (r : Registry) (s : Stage) (t : Target) :
    r.SameNames (r.setStage s t) := map_classAt?_setStage (fun _ => rfl) r t

namespace SameNames

theorem trans {r'' : Registry} (h : r.SameNames r') (h' : r'.SameNames r'') : r.SameNames r'' :=
  fun c => (h' c).trans (h c)

theorem lookup_eq (h : r.SameNames r') (name : String) : r'.lookup name = r.lookup name :=
  lookup_congr h name

theorem className_eq (h : r.SameNames r') (c : ClassId) : r'.className c = r.className c := by
  have hname : ∀ r : Registry, r.className c = ((r.classAt? c).map (·.name)).getD
      ("<unknown class #" ++ toString c.index ++ ">") := fun r => by
    unfold className
    cases r.classAt? c <;> rfl
  rw [hname, hname, h c]

theorem erasedName?_eq (h : r.SameNames r') (t : ResolvedType) :
    r'.erasedName? t = r.erasedName? t := by
  unfold erasedName?
  exact congrArg (Option.map · _) (funext h.className_eq)

end SameNames

end Registry

/-! ### Registries in which names stand for the same -/

/-- Registries that look names of classes up alike, and agree on the links outwards and
on the names and the numbers of type parameters. -/
structure Registry.Agrees (r r' : Registry) : Prop where
  lookup : ∀ name, r'.lookup name = r.lookup name
  enclosing : ∀ c, r'.enclosing? c = r.enclosing? c
  declared : ∀ owner, (r'.typeParams owner).map (fun p => (p.name, p.var)) =
    (r.typeParams owner).map fun p => (p.name, p.var)

/-- Which names type parameters bring into force depends on their names and numbers. -/
theorem Scope.pushTypeParams_congr (s : Scope) {ps ps' : List TypeParam}
    (h : ps'.map (fun p => (p.name, p.var)) = ps.map fun p => (p.name, p.var)) :
    s.pushTypeParams ps' = s.pushTypeParams ps := by
  have hnames : ps'.map (fun q => (q.name, q.var.index)) =
      ps.map fun q => (q.name, q.var.index) := by
    simpa [Function.comp_def] using
      congrArg (List.map fun q : String × TypeVar => (q.1, q.2.index)) h
  rcases ps with _ | ⟨p, ps⟩ <;> rcases ps' with _ | ⟨p', ps'⟩
  · rfl
  · simp at h
  · simp at h
  · have hvar : p'.var = p.var := by
      simp only [List.map_cons, List.cons.injEq, Prod.mk.injEq] at h
      exact h.1.2
    simp only [pushTypeParams, hnames, hvar]

/-- The names of type parameters that are declared alike. -/
theorem TypeParam.names_congr {ps ps' : List TypeParam}
    (h : ps'.map (fun p => (p.name, p.var)) = ps.map fun p => (p.name, p.var)) :
    ps'.map (·.name) = ps.map (·.name) := by
  simpa [Function.comp_def] using congrArg (List.map Prod.fst) h

/-- Whether a signature declares what is declared already is a question of names. -/
theorem checkDeclared_congr {declared declared' : List TypeParam}
    (h : declared'.map (fun p => (p.name, p.var)) = declared.map fun p => (p.name, p.var))
    (ps : List TypeParamSig) : checkDeclared declared' ps = checkDeclared declared ps := by
  unfold checkDeclared
  rw [TypeParam.names_congr h]

namespace Registry.Agrees

variable {r r' r'' : Registry}

theorem refl (r : Registry) : r.Agrees r := ⟨fun _ => rfl, fun _ => rfl, fun _ => rfl⟩

theorem symm (h : r.Agrees r') : r'.Agrees r :=
  ⟨fun name => (h.lookup name).symm, fun c => (h.enclosing c).symm,
    fun owner => (h.declared owner).symm⟩

theorem trans (h : r.Agrees r') (h' : r'.Agrees r'') : r.Agrees r'' :=
  ⟨fun name => (h'.lookup name).trans (h.lookup name),
    fun c => (h'.enclosing c).trans (h.enclosing c),
    fun owner => (h'.declared owner).trans (h.declared owner)⟩

theorem enclosingChain (h : r.Agrees r') (c : ClassId) :
    r'.enclosingChain c = r.enclosingChain c := enclosingChain_congr h.enclosing c

theorem pushClass (h : r.Agrees r') (s : Scope) (c : ClassId) :
    s.pushClass r' c = s.pushClass r c := s.pushTypeParams_congr (h.declared _)

theorem pushEnclosing (h : r.Agrees r') (s : Scope) (c : ClassId) :
    s.pushEnclosing r' c = s.pushEnclosing r c := by
  unfold Scope.pushEnclosing
  rw [h.enclosingChain]
  congr 1
  funext s c
  exact h.pushClass s c

theorem pushBody (h : r.Agrees r') (s : Scope) (c : ClassId) :
    s.pushBody r' c = s.pushBody r c := by
  unfold Scope.pushBody
  rw [h.pushEnclosing, h.pushClass]

end Registry.Agrees

/-! ### Registries that a check cannot tell apart -/

/-- What the class file records of a class, as far as a resolution looks at it. -/
structure ClassEntry.Record where
  name : String
  enclosing : Option ClassId
  erasedSuper : Option String
  erasedInterfaces : List String

/-- The record of a class. -/
def ClassEntry.record (e : ClassEntry) : ClassEntry.Record :=
  ⟨e.name, e.enclosing, e.erasedSuper, e.erasedInterfaces⟩

theorem ClassEntry.Advances.record_eq {c : ClassId} {e e' : ClassEntry} (h : e.Advances c e') :
    e'.record = e.record := by cases h <;> rfl

/-- The records of classes are the same. -/
def Registry.SameRecords (r r' : Registry) : Prop :=
  ∀ c, (r'.classAt? c).map (·.record) = (r.classAt? c).map (·.record)

namespace Registry

variable {r r₁ r₂ r' : Registry}

theorem Advances.sameRecords (h : r.Advances r') : r.SameRecords r' :=
  h.map_classAt? _ fun _ _ _ hadv => hadv.record_eq

theorem sameRecords_setStage (r : Registry) (s : Stage) (t : Target) :
    r.SameRecords (r.setStage s t) := map_classAt?_setStage (fun _ => rfl) r t

namespace SameRecords

theorem trans (h : r.SameRecords r₁) (h₁ : r₁.SameRecords r₂) : r.SameRecords r₂ :=
  fun c => (h₁ c).trans (h c)

variable (h : r.SameRecords r')

include h

/-- What depends on the record of a class only. -/
theorem map_classAt? {α : Type} (f : ClassEntry.Record → α) (c : ClassId) :
    (r'.classAt? c).map (fun e => f e.record) = (r.classAt? c).map fun e => f e.record := by
  simpa [Function.comp_def] using congrArg (Option.map f) (h c)

theorem sameNames : r.SameNames r' := h.map_classAt? (·.name)

/-- A class is registered on both sides, with the same record, or on neither. -/
theorem classAt?_cases (c : ClassId) : (r.classAt? c = none ∧ r'.classAt? c = none) ∨
    ∃ e e', r.classAt? c = some e ∧ r'.classAt? c = some e' ∧ e'.record = e.record := by
  have hrecord := h c
  rcases hc : r.classAt? c with _ | e <;> rcases hc' : r'.classAt? c with _ | e' <;>
    rw [hc, hc'] at hrecord
  · exact .inl ⟨rfl, rfl⟩
  · cases hrecord
  · cases hrecord
  · exact .inr ⟨e, e', rfl, rfl, Option.some.inj hrecord⟩

theorem isNone_classAt? (c : ClassId) : (r'.classAt? c).isNone = (r.classAt? c).isNone := by
  simpa using congrArg Option.isNone (h c)

theorem areSynthetic_eq {e e' : ClassEntry} (he : e'.record = e.record) (leading : List FieldType) :
    r'.areSynthetic e' leading = r.areSynthetic e leading := by
  unfold areSynthetic
  rw [show e'.erasedSuper = e.erasedSuper from congrArg ClassEntry.Record.erasedSuper he,
    show e'.enclosing = e.enclosing from congrArg ClassEntry.Record.enclosing he,
    funext h.sameNames.className_eq]

/-- Which parameters a signature leaves out shows in the records of classes. -/
theorem syntheticCount_eq (m : MethodEntry) (declared : Nat) :
    r'.syntheticCount m declared = r.syntheticCount m declared := by
  have hany : ∀ leading, (r'.classAt? m.owner).any (r'.areSynthetic · leading) =
      (r.classAt? m.owner).any (r.areSynthetic · leading) := by
    intro leading
    rcases h.classAt?_cases m.owner with ⟨hc, hc'⟩ | ⟨e, e', hc, hc', hrecord⟩
    · rw [hc, hc', Option.any_none, Option.any_none]
    · rw [hc, hc', Option.any_some, Option.any_some, h.areSynthetic_eq hrecord]
  unfold syntheticCount
  dsimp only
  rw [hany]

end SameRecords

/-- **Registries that look alike to a check**: they agree on names and on the records of
classes. -/
structure LooksLike (r r' : Registry) : Prop extends r.Agrees r' where
  records : r.SameRecords r'

/-- **Registries that resemble each other**: they look alike, and all members are the same. -/
structure Resembles (r r' : Registry) : Prop extends r.LooksLike r' where
  methods : r'.methods = r.methods
  fields : r'.fields = r.fields

/-- Registries that agree resemble each other if they come from the same one. -/
theorem Agrees.resembles (h : r₁.Agrees r₂) (h₁ : r.Advances r₁) (h₂ : r.Advances r₂) :
    r₁.Resembles r₂ where
  toAgrees := h
  records c := (h₂.sameRecords c).trans (h₁.sameRecords c).symm
  methods := h₂.methods_eq.trans h₁.methods_eq.symm
  fields := h₂.fields_eq.trans h₁.fields_eq.symm

namespace Resembles

theorem refl (r : Registry) : r.Resembles r := ⟨⟨.refl r, fun _ => rfl⟩, rfl, rfl⟩

variable (h : r.Resembles r')

include h

theorem methodAt?_eq (m : MethodId) : r'.methodAt? m = r.methodAt? m :=
  congrArg (·[m.index]?) h.methods

theorem fieldAt?_eq (f : FieldId) : r'.fieldAt? f = r.fieldAt? f :=
  congrArg (·[f.index]?) h.fields

end Resembles

/-! ### Types as text -/

namespace LooksLike

section Names

variable (h : r.LooksLike r')

include h

theorem memberName_eq (c : ClassId) : r'.memberName c = r.memberName c := by
  unfold memberName
  rcases h.records.classAt?_cases c with ⟨hc, hc'⟩ | ⟨e, e', hc, hc', hrecord⟩ <;> rw [hc, hc']
  · exact h.records.sameNames.className_eq c
  · exact congrArg simpleName (congrArg ClassEntry.Record.name hrecord)

theorem varName_eq (v : TypeVar) : r'.varName v = r.varName v := by
  have hnames : (r'.typeParams v.owner).map (·.name) = (r.typeParams v.owner).map (·.name) :=
    TypeParam.names_congr (h.declared v.owner)
  have hname : ∀ r : Registry, r.varName v = ((r.typeParams v.owner).map (·.name))[v.index]?.getD
      ("<type var #" ++ toString v.index ++ ">") := fun r => by
    unfold varName typeParam?
    rw [List.getElem?_map]
    cases (r.typeParams v.owner)[v.index]? <;> rfl
  rw [hname, hname, hnames]

end Names

mutual

/-- Types are displayed alike. -/
theorem display_eq (h : r.LooksLike r') : ∀ t, r'.display t = r.display t
  | .base _ => by simp only [display]
  | .void => by simp only [display]
  | .raw c => by simp only [display, h.records.sameNames.className_eq]
  | .parameterized c args => by
    simp only [display, h.records.sameNames.className_eq, displayArgs_eq h args]
  | .member outer c args => by
    simp only [display, display_eq h outer, h.memberName_eq, displayArgs_eq h args]
  | .var v => by simp only [display, h.varName_eq]
  | .array elem => by simp only [display, display_eq h elem]
  | .unbounded => by simp only [display]
  | .upper bound => by simp only [display, display_eq h bound]
  | .lower bound => by simp only [display, display_eq h bound]

theorem displayArgs_eq (h : r.LooksLike r') : ∀ ts, r'.displayArgs ts = r.displayArgs ts
  | [] => by simp only [displayArgs]
  | t :: ts => by simp only [displayArgs, display_eq h t, displayMore_eq h ts]

theorem displayMore_eq (h : r.LooksLike r') : ∀ ts, r'.displayMore ts = r.displayMore ts
  | [] => by simp only [displayMore]
  | t :: ts => by simp only [displayMore, display_eq h t, displayMore_eq h ts]

end

/-! ### Checks -/

section Checks

variable (h : r.LooksLike r')

include h

theorem checkErasure_eq (d : FieldType) (t : ResolvedType) :
    r'.checkErasure d t = r.checkErasure d t := by
  have hname : ∀ (c? : Option ClassId) (name : String),
      (c?.bind r'.classAt?).any (·.name == name) = (c?.bind r.classAt?).any (·.name == name) := by
    intro c? name
    rcases c? with _ | c
    · rfl
    · have hany : ∀ e? : Option ClassEntry, e?.any (·.name == name) =
          (e?.map (·.name)).any (· == name) := fun e? => by cases e? <;> rfl
      rw [Option.bind_some, Option.bind_some, hany, hany, h.records.sameNames c]
  induction d generalizing t with
  | base b => cases t <;> simp only [checkErasure, h.display_eq]
  | object name => cases t <;> simp only [checkErasure, h.display_eq, hname]
  | array d ih =>
    cases t with
    | array elem => simp only [checkErasure, ih elem]
    | _ => simp only [checkErasure, h.display_eq]

theorem checkResultErasure_eq (d : Option FieldType) (t : ResolvedType) :
    r'.checkResultErasure d t = r.checkResultErasure d t := by
  unfold checkResultErasure
  rw [h.display_eq]
  cases d with
  | none => rfl
  | some d => exact h.checkErasure_eq d t

theorem checkParams_eq (ds : List FieldType) (ts : List ResolvedType) :
    r'.checkParams ds ts = r.checkParams ds ts := by
  induction ds generalizing ts with
  | nil => rfl
  | cons d ds ih =>
    cases ts with
    | nil => rfl
    | cons t ts => rw [checkParams, checkParams, h.checkErasure_eq, ih]

theorem checkDescriptor_eq (m : MethodEntry) (synthetic : Nat) (params : List ResolvedType)
    (result : ResolvedType) :
    r'.checkDescriptor m synthetic params result = r.checkDescriptor m synthetic params result := by
  unfold checkDescriptor
  rw [h.checkParams_eq, h.checkResultErasure_eq]

theorem checkHeader_eq (c : ClassId) (superclass : ResolvedType) (interfaces : List ResolvedType) :
    r'.checkHeader c superclass interfaces = r.checkHeader c superclass interfaces := by
  unfold checkHeader
  rcases h.records.classAt?_cases c with ⟨hc, hc'⟩ | ⟨e, e', hc, hc', hrecord⟩ <;> rw [hc, hc']
  dsimp only
  rw [show e'.erasedSuper = e.erasedSuper from congrArg ClassEntry.Record.erasedSuper hrecord,
    show e'.erasedInterfaces = e.erasedInterfaces from
      congrArg ClassEntry.Record.erasedInterfaces hrecord,
    funext h.records.sameNames.erasedName?_eq, h.display_eq]

end Checks

end LooksLike

end Registry

end JavaGenerics
