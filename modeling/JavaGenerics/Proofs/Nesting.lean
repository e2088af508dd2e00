import JavaGenerics.Proofs.Commit
import JavaGenerics.Resolution.Collaborator

/-!
# Resolutions inside resolutions

A resolution asks its collaborator for classes, which may resolve them there and then,
each by a resolution that asks again. This file follows what such a nest of
resolutions does to the registry.

It is one induction on the depth of the nest. A resolution whose questions only make
the registry evolve fails in the end and takes its mark back, or commits, and either
way what happened is, seen from outside, once more an advance
(`JavaGenerics.Workspace.resolveClassAsking_evolves`). So the next resolution further out
may rely on the same.

The induction carries an invariant `J` of registries along, for which only the three
moves of a resolution on a class have to be looked at – marking it, taking the mark
back, and committing (`JavaGenerics.Registry.Stable`).
-/

namespace JavaGenerics

open Attempt

/-! ### Marks -/

/-- What the registry holds of a declaration. -/
inductive Declaration where
  | ofClass (e : ClassEntry)
  | ofMethod (e : MethodEntry)
  | ofField (e : FieldEntry)
deriving Repr

namespace Registry

/-- What the registry holds of a declaration, if that is registered. -/
def declaration? (r : Registry) : Target → Option Declaration
  | .ofClass c => (r.classAt? c).map .ofClass
  | .ofMethod m => (r.methodAt? m).map .ofMethod
  | .ofField f => (r.fieldAt? f).map .ofField

variable {r r' marked : Registry} {t : Target}

theorem mark_eq_ok :
    r.mark t = .ok marked ↔ r.stage? t = some .unresolved ∧ marked = r.setStage .resolving t := by
  rcases hs : r.stage? t with _ | _ | _ | _ <;> simp [hs, mark, eq_comm]

theorem stage?_setStage (r : Registry) (s : Stage) (t : Target) :
    (r.setStage s t).stage? t = (r.stage? t).map fun _ => s := by
  cases t with
  | ofClass c => simp [stage?, setStage, Function.comp_def]
  | ofMethod m => simp [stage?, setStage, methodAt?_modifyMethod, Function.comp_def]
  | ofField f => simp [stage?, setStage, fieldAt?_modifyField, Function.comp_def]

/-- What a change of elements leaves alone can be read off before it or after. -/
theorem map_getElem?_modify {α β : Type} {f : α → β} {g : α → α} (h : ∀ a, f (g a) = f a)
    (xs : Array α) (i j : Nat) : (xs.modify i g)[j]?.map f = xs[j]?.map f := by
  rw [Array.getElem?_modify]
  split
  · rw [Option.map_map]
    exact congrArg (Option.map · _) (funext h)
  · rfl

/-- Two changes of one element are one. -/
theorem modify_modify {α : Type} (xs : Array α) (i : Nat) (f g : α → α) :
    (xs.modify i f).modify i g = xs.modify i fun a => g (f a) := by
  refine Array.ext_getElem? fun j => ?_
  simp only [Array.getElem?_modify]
  split
  · rw [Option.map_map]
    rfl
  · rfl

theorem modifyClass_modifyClass (r : Registry) (c : ClassId) (k k' : ClassEntry → ClassEntry) :
    (r.modifyClass c k).modifyClass c k' = r.modifyClass c fun e => k' (k e) :=
  congrArg (Registry.mk · r.methods r.fields) (modify_modify _ _ _ _)

theorem modifyMethod_modifyMethod (r : Registry) (m : MethodId) (k k' : MethodEntry → MethodEntry) :
    (r.modifyMethod m k).modifyMethod m k' = r.modifyMethod m fun e => k' (k e) :=
  congrArg (Registry.mk r.classes · r.fields) (modify_modify _ _ _ _)

/-- A mark leaves everything else that is known of a class. -/
theorem map_classAt?_setStage {α : Type} {f : ClassEntry → α} {s : Stage}
    (hf : ∀ e, f { e with stage := s } = f e) (r : Registry) (t : Target) (c : ClassId) :
    ((r.setStage s t).classAt? c).map f = (r.classAt? c).map f := by
  cases t with
  | ofClass d => exact map_getElem?_modify hf _ _ _
  | ofMethod m => rfl
  | ofField f => rfl

theorem map_methodAt?_setStage {α : Type} {f : MethodEntry → α} {s : Stage}
    (hf : ∀ e, f { e with stage := s } = f e) (r : Registry) (t : Target) (m : MethodId) :
    ((r.setStage s t).methodAt? m).map f = (r.methodAt? m).map f := by
  cases t with
  | ofClass c => rfl
  | ofMethod n => exact map_getElem?_modify hf _ _ _
  | ofField f => rfl

theorem map_fieldAt?_setStage {α : Type} {f : FieldEntry → α} {s : Stage}
    (hf : ∀ e, f { e with stage := s } = f e) (r : Registry) (t : Target) (x : FieldId) :
    ((r.setStage s t).fieldAt? x).map f = (r.fieldAt? x).map f := by
  cases t with
  | ofClass c => rfl
  | ofMethod m => rfl
  | ofField y => exact map_getElem?_modify hf _ _ _

/-- A mark is not taken away by what happens meanwhile. -/
theorem Advances.stage?_eq (h : r.Advances r') (hs : r.stage? t = some .resolving) :
    r'.stage? t = some .resolving := by
  cases t with
  | ofClass c =>
    obtain ⟨e, he, hstage⟩ := Option.map_eq_some_iff.1 hs
    have he' := h.classAt?_eq_some he (by simp [hstage])
    simp [stage?, he', hstage]
  | ofMethod m =>
    rw [stage?, h.methodAt?_eq]
    exact hs
  | ofField f =>
    rw [stage?, h.fieldAt?_eq]
    exact hs

/-- Two changes of which the second undoes the first. -/
theorem modify_undo {α : Type} {xs : Array α} {i : Nat} {a : α} {f g : α → α}
    (ha : xs[i]? = some a) (hgf : g (f a) = a) : (xs.modify i f).modify i g = xs := by
  refine Array.ext_getElem? fun j => ?_
  rw [Array.getElem?_modify, Array.getElem?_modify]
  by_cases hj : i = j
  · subst hj
    simp [ha, hgf]
  · simp [hj]

/-- **A resolution that takes its mark away has made the registry advance**, and its own
declaration is what it was. -/
theorem Advances.unmark (h : (r.setStage .resolving t).Advances r')
    (hs : r.stage? t = some .unresolved) :
    r.Advances (r'.unmark t) ∧ (r'.unmark t).declaration? t = r.declaration? t := by
  -- the mark is still there, so it is taken away
  have hmark : r'.stage? t = some .resolving := h.stage?_eq (by rw [stage?_setStage, hs]; rfl)
  unfold Registry.unmark
  rw [if_pos hmark]
  cases t with
  | ofClass c =>
    obtain ⟨e, he, hu⟩ := Option.map_eq_some_iff.1 hs
    have hback : { e with stage := .unresolved } = e := by rw [← hu]
    have hc : r'.classAt? c = some { e with stage := .resolving } :=
      h.classAt?_eq_some (by simp [setStage, he]) (by simp)
    refine ⟨h.close he (f := fun e => { e with stage := .unresolved }) ?_, ?_⟩
    · dsimp only
      rw [hback]
      exact .same
    · simp [declaration?, setStage, hc, he, hback]
  | ofMethod m =>
    obtain ⟨e, he, hu⟩ := Option.map_eq_some_iff.1 hs
    have hmethods : (r'.setStage .unresolved (.ofMethod m)).methods = r.methods := by
      change (r'.methods.modify m.index fun e => { e with stage := .unresolved }) = r.methods
      rw [h.methods_eq]
      change ((r.methods.modify m.index fun e => { e with stage := .resolving }).modify m.index
        fun e => { e with stage := .unresolved }) = r.methods
      exact modify_undo he (by rw [← hu])
    refine ⟨⟨hmethods, h.fields_eq, h.size_eq, h.classes⟩, ?_⟩
    simp only [declaration?, methodAt?, hmethods]
  | ofField f =>
    obtain ⟨e, he, hu⟩ := Option.map_eq_some_iff.1 hs
    have hfields : (r'.setStage .unresolved (.ofField f)).fields = r.fields := by
      change (r'.fields.modify f.index fun e => { e with stage := .unresolved }) = r.fields
      rw [h.fields_eq]
      change ((r.fields.modify f.index fun e => { e with stage := .resolving }).modify f.index
        fun e => { e with stage := .unresolved }) = r.fields
      exact modify_undo he (by rw [← hu])
    refine ⟨⟨h.methods_eq, hfields, h.size_eq, h.classes⟩, ?_⟩
    simp only [declaration?, fieldAt?, hfields]

end Registry

/-! ### The course of a resolution -/

/-- The main part of the resolution of a declaration. -/
def Resolution.body (res : Resolution) : Target → Option String → Attempt Unit
  | .ofClass c, some text => res.resolveClassText c text
  | .ofClass c, none => res.resolveClassHeader c
  | .ofMethod m, some text => res.resolveMethodText m text
  | .ofMethod m, none => res.resolveMethodDescriptor m
  | .ofField f, signature => res.resolveFieldEntry f signature

namespace Workspace

/-- Resolves a declaration from its signature, or from its erased record if there is
none. -/
def resolveAsking (ask : ClassId → Work Bool) (options : Options) (t : Target)
    (signature : Option String) : Work (Except ResolveError Unit) :=
  resolveBy ask options t signature fun res => res.body t signature

theorem resolveAsking_ofClass (ask : ClassId → Work Bool) (options : Options) (c : ClassId)
    (signature : Option String) :
    resolveAsking ask options (.ofClass c) signature
      = resolveClassAsking ask options c signature := by
  cases signature <;> rfl

theorem resolveAsking_ofMethod (ask : ClassId → Work Bool) (options : Options) (m : MethodId)
    (signature : Option String) :
    resolveAsking ask options (.ofMethod m) signature
      = resolveMethodAsking ask options m signature := by
  cases signature <;> rfl

theorem bind_apply {α β : Type} (x : Work α) (f : α → Work β) (w : Workspace) :
    (x >>= f) w = f (x w).1 (x w).2 := rfl

theorem getRegistry_apply (w : Workspace) : getRegistry w = (w.registry, w) := rfl

/-- A marked resolution ends as its main part does, except that a failure takes the
mark away. -/
theorem resolveMarked_apply (t : Target) (res : Resolution) (body : Resolution → Attempt Unit)
    (w : Workspace) :
    let p : Progress := { workspace := (record (.began t) w).2 }
    (resolveMarked t res body w).1 = ((body res).outcome p).1 ∧
      (resolveMarked t res body w).2.registry = match (body res).outcome p with
        | (.error _, p) => p.workspace.registry.unmark t
        | (.ok _, p) => p.workspace.registry := by
  intro p
  have hrun : (body res).run (record (.began t) w).2
    = (((body res).outcome p).1, ((body res).outcome p).2.workspace) := rfl
  rcases hout : (body res).outcome p with ⟨_ | _, q⟩ <;> rw [hout] at hrun
  · simp only [resolveMarked, bind_apply, hrun]
    exact ⟨rfl, rfl⟩
  · simp only [resolveMarked, bind_apply, hrun]
    exact ⟨rfl, rfl⟩

variable (ask : ClassId → Work Bool) (options : Options) {t : Target}
  (signature : Option String) (body : Resolution → Attempt Unit) {w : Workspace}

/-- A resolution whose declaration is not unresolved fails and does nothing. -/
theorem resolveBy_of_stage (h : w.registry.stage? t ≠ some .unresolved) :
    (resolveBy ask options t signature body w).1.isOk = false ∧
      (resolveBy ask options t signature body w).2.registry = w.registry := by
  rcases hm : w.registry.mark t with e | marked
  · simp only [resolveBy, bind_apply, getRegistry_apply, hm]
    exact ⟨rfl, rfl⟩
  · exact absurd (Registry.mark_eq_ok.1 hm).1 h

/-- The state in which a declaration is marked. -/
def marking (t : Target) (w : Workspace) : Workspace :=
  { registry := w.registry.setStage .resolving t, journal := w.journal.push (.called t) }

/-- A resolution whose declaration is unresolved goes on with the mark. -/
theorem resolveBy_of_unresolved (h : w.registry.stage? t = some .unresolved) :
    let res : Resolution := ⟨options, w.registry.targetName t, ask⟩
    (resolveBy ask options t signature body w).1 = (resolveMarked t res body (marking t w)).1 ∧
      (resolveBy ask options t signature body w).2.registry
        = (resolveMarked t res body (marking t w)).2.registry := by
  intro res
  have hm := Registry.mark_eq_ok.2 ⟨h, rfl⟩
  have hmarked : resolveMarked t ⟨options, w.registry.targetName t, ask⟩ body
      (modifyRegistry (fun _ => w.registry.setStage .resolving t) (record (.called t) w).2).2
    = resolveMarked t res body (marking t w) := rfl
  rcases hout : resolveMarked t res body (marking t w) with ⟨_ | _, v⟩ <;> rw [hout] at hmarked
  · simp only [resolveBy, bind_apply, getRegistry_apply, hm, hmarked]
    exact ⟨rfl, rfl⟩
  · simp only [resolveBy, bind_apply, getRegistry_apply, hm, hmarked]
    exact ⟨rfl, rfl⟩

/-- What is left to do when the main part of a resolution of `t` has ended. -/
def closing (t : Target) : Except ResolveError Unit × Progress → Workspace
  | (.error _, p) => (record (.ended t)
      { p.workspace with registry := p.workspace.registry.unmark t }).2
  | (.ok _, p) => (record (.ended t) p.workspace).2

/-- The state that a marked resolution leaves, with its journal. -/
theorem resolveMarked_eq (t : Target) (res : Resolution) (body : Resolution → Attempt Unit)
    (w : Workspace) :
    resolveMarked t res body w =
      let out := (body res).outcome { workspace := (record (.began t) w).2 }
      (out.1, closing t out) := by
  have hrun : (body res).run (record (.began t) w).2 =
      (((body res).outcome { workspace := (record (.began t) w).2 }).1,
        ((body res).outcome { workspace := (record (.began t) w).2 }).2.workspace) := rfl
  rcases hout : (body res).outcome { workspace := (record (.began t) w).2 } with ⟨_ | _, p⟩ <;>
    rw [hout] at hrun <;> simp only [resolveMarked, bind_apply, hrun] <;> rfl

/-- What is left to do when a call for `t` has its result. -/
def returning (t : Target) (owner : String) (signature : Option String)
    (out : Except ResolveError Unit × Workspace) : Workspace :=
  (record (.returned t out.1.isOk) (match out with
    | (.error e, w) => (record (.reported (e.diagnostic owner signature)) w).2
    | (.ok _, w) => w)).2

theorem returning_registry (t : Target) (owner : String) (signature : Option String)
    (out : Except ResolveError Unit × Workspace) :
    (returning t owner signature out).registry = out.2.registry := by
  rcases out with ⟨_ | _, v⟩ <;> rfl

/-- The state in which the main part of a resolution of `t` begins. -/
def beginning (t : Target) (w : Workspace) : Progress where
  workspace := (record (.began t) (marking t w)).2

/-- A call that is refused, its journal included. -/
theorem resolveBy_of_mark_error {e : ResolveError} (h : w.registry.mark t = .error e) :
    resolveBy ask options t signature body w =
      (.error e, returning t (w.registry.targetName t) signature
        (.error e, (record (.called t) w).2)) := by
  simp only [resolveBy, bind_apply, getRegistry_apply, h]
  rfl

/-- A call that sets to work, its journal included. -/
theorem resolveBy_of_mark_ok {marked : Registry} (h : w.registry.mark t = .ok marked) :
    resolveBy ask options t signature body w =
      let owner := w.registry.targetName t
      let out := (body ⟨options, owner, ask⟩).outcome (beginning t w)
      (out.1, returning t owner signature (out.1, closing t out)) := by
  obtain ⟨-, rfl⟩ := Registry.mark_eq_ok.1 h
  have hmarked : resolveMarked t ⟨options, w.registry.targetName t, ask⟩ body
      (modifyRegistry (fun _ => w.registry.setStage .resolving t) (record (.called t) w).2).2
    = resolveMarked t ⟨options, w.registry.targetName t, ask⟩ body (marking t w) := rfl
  simp only [resolveBy, bind_apply, getRegistry_apply, h, hmarked, resolveMarked_eq, beginning]
  rcases (body ⟨options, w.registry.targetName t, ask⟩).outcome
    { workspace := (record (.began t) (marking t w)).2 } with ⟨_ | _, v⟩ <;> rfl

end Workspace

variable {J : Registry → Prop} {ask : ClassId → Work Bool} {options : Options} {t : Target}
  {signature : Option String}

theorem Resolution.ends_body (res : Resolution) {r : Registry}
    (hask : ∀ c, Work.Evolves J (res.ask c)) (signature : Option String)
    (h : r.stage? t = some .unresolved) :
    Ends (Progress.Since J (r.setStage .resolving t))
      (fun r₁ r₂ => (r.setStage .resolving t).Commits J r₁ t signature r₂)
      (res.body t signature) := by
  cases t with
  | ofClass c =>
    obtain ⟨e, he, -⟩ := Option.map_eq_some_iff.1 h
    have hmarked : (r.setStage .resolving (.ofClass c)).classAt? c
        = some { e with stage := .resolving } := by
      simp [Registry.setStage, he]
    cases signature with
    | some text => exact ends_resolveClassText hask hmarked (by simp) text
    | none => exact ends_resolveClassHeader hask hmarked (by simp)
  | ofMethod m =>
    cases signature with
    | some text => exact ends_resolveMethodText hask m text
    | none => exact ends_resolveMethodDescriptor hask m
  | ofField f => exact ends_resolveFieldEntry hask f signature

/-- **The course of a resolution** of `t` that finds the registry `r`: whether it
succeeds, and what it leaves. -/
inductive Registry.Course (J : Registry → Prop) (r : Registry) (t : Target)
    (signature : Option String) : Bool → Registry → Prop where
  /-- It is refused from the start. -/
  | refused (stage : r.stage? t ≠ some .unresolved) : Course J r t signature false r
  /-- It fails, having found `r₁` in the end. -/
  | failed {r₁ : Registry} (stage : r.stage? t = some .unresolved)
      (during : (r.setStage .resolving t).Evolves J r₁) :
      Course J r t signature false (r₁.unmark t)
  /-- It commits, having found `r₁` in the end. -/
  | committed {r₁ r₂ : Registry} (stage : r.stage? t = some .unresolved)
      (during : (r.setStage .resolving t).Evolves J r₁)
      (commits : (r.setStage .resolving t).Commits J r₁ t signature r₂) :
      Course J r t signature true r₂

/-- Every resolution takes one of these courses, if the answers to its questions only
make the registry evolve. -/
theorem Workspace.resolveAsking_course (hask : ∀ c, Work.Evolves J (ask c)) (options : Options)
    (t : Target) (signature : Option String) (w : Workspace) :
    w.registry.Course J t signature (resolveAsking ask options t signature w).1.isOk
      (resolveAsking ask options t signature w).2.registry := by
  unfold resolveAsking
  by_cases hs : w.registry.stage? t = some .unresolved
  · let res : Resolution := ⟨options, w.registry.targetName t, ask⟩
    obtain ⟨hresult, hleft⟩ := resolveBy_of_unresolved ask options signature
      (fun res => res.body t signature) hs
    obtain ⟨hresult', hleft'⟩ := resolveMarked_apply t res (fun res => res.body t signature)
      (marking t w)
    rw [hresult, hleft, hresult', hleft']
    have hends := res.ends_body hask signature hs
      { workspace := (record (.began t) (marking t w)).2 } (.refl J _)
    rcases hout : (res.body t signature).outcome
      { workspace := (record (.began t) (marking t w)).2 } with ⟨_ | _, q⟩ <;> rw [hout] at hends
    · exact .failed hs hends
    · obtain ⟨p, hp, hc⟩ := hends
      exact .committed hs hp hc
  · obtain ⟨hresult, hleft⟩ := resolveBy_of_stage ask options signature
      (fun res => res.body t signature) hs
    rw [hresult, hleft]
    exact .refused hs

/-! ### Nests of resolutions -/

namespace Registry

variable {r r₁ r₂ : Registry} {c : ClassId}

/-- What is committed for a class is an advance of its entry, the mark apart. -/
theorem Commits.advances {e : ClassEntry} (he : r.classAt? c = some e)
    (hu : e.stage = .unresolved)
    (h : (r.setStage .resolving (.ofClass c)).Commits J r₁ (.ofClass c) signature r₂) :
    ∃ f, r₂ = r₁.modifyClass c f ∧ e.Advances c (f { e with stage := .resolving }) := by
  have hmarked : (r.setStage .resolving (.ofClass c)).classAt? c
      = some { e with stage := .resolving } := by
    simp [setStage, he]
  cases h with
  | classSignature _ _ _ _ meaning =>
    rw [typeParams_ofClass hmarked] at meaning
    have hrenewed := Lexicon.introduce_renewed (Lexicon.classTypes_eq_ok.1 meaning).1
    exact ⟨_, rfl, .resolved _ _ hu hrenewed⟩
  | classHeader =>
    exact ⟨_, rfl, .resolved _ _ hu (.refl _ _)⟩

/-- The invariant `J` survives the three moves of a resolution on a class, where
`serves` says what a class may be resolved from. -/
structure Stable (J : Registry → Prop) (serves : ClassId → Option String → Prop) : Prop where
  mark : ∀ {r : Registry} {c : ClassId}, J r → r.stage? (.ofClass c) = some .unresolved →
    J (r.setStage .resolving (.ofClass c))
  unmark : ∀ {r : Registry} {c : ClassId}, J r → r.stage? (.ofClass c) = some .resolving →
    J (r.setStage .unresolved (.ofClass c))
  commit : ∀ {r r₁ r₂ : Registry} {c : ClassId} {signature : Option String},
    serves c signature → J r → J r₁ → r.Advances r₁ →
    r.stage? (.ofClass c) = some .resolving → r.Commits J r₁ (.ofClass c) signature r₂ → J r₂

/-- Every registry that a resolution of a class leaves has evolved. -/
theorem Course.evolves {serves : ClassId → Option String → Prop} (hJ : Stable J serves)
    (hc : J r → serves c signature) {ok : Bool} (h : r.Course J (.ofClass c) signature ok r₂) :
    r.Evolves J r₂ := by
  cases h with
  | refused => exact .refl J r
  | failed hs during =>
    rename_i r₁
    refine ⟨(during.1.unmark hs).1, fun hr => ?_⟩
    have hmark : r₁.stage? (.ofClass c) = some .resolving :=
      during.1.stage?_eq (by rw [stage?_setStage, hs]; rfl)
    unfold Registry.unmark
    rw [if_pos hmark]
    exact hJ.unmark (during.2 (hJ.mark hr hs)) hmark
  | committed hs during commits =>
    obtain ⟨e, he, hu⟩ := Option.map_eq_some_iff.1 hs
    obtain ⟨f, rfl, hf⟩ := commits.advances he hu
    refine ⟨during.1.close he hf, fun hr => ?_⟩
    have hmarked := hJ.mark hr hs
    exact hJ.commit (hc hr) hmarked (during.2 hmarked) during.1
      (by rw [stage?_setStage, hs]; rfl) commits

end Registry

/-- **A resolution of a class, with all that happens inside it, makes the registry
evolve.** -/
theorem Workspace.resolveClassAsking_evolves {serves : ClassId → Option String → Prop}
    (hJ : Registry.Stable J serves) (hask : ∀ c, Work.Evolves J (ask c)) {c : ClassId}
    {w : Workspace} (hc : J w.registry → serves c signature) :
    w.registry.Evolves J (resolveClassAsking ask options c signature w).2.registry := by
  have hcourse := resolveAsking_course hask options (.ofClass c) signature w
  rw [resolveAsking_ofClass] at hcourse
  exact hcourse.evolves hJ hc

namespace Collaborator

variable {serves : ClassId → Option String → Prop}

/-- As long as `J` holds, the collaborator resolves classes only from what `serves`
allows. -/
def Serves (J : Registry → Prop) (serves : ClassId → Option String → Prop) :
    Collaborator → Prop
  | silent => True
  | refusing => True
  | pool p => ∀ r name c, J r → r.lookup (p.targetName name) = some c →
      serves c (p.signatures.lookup (p.targetName name))

theorem serves_trivial (k : Collaborator) (J : Registry → Prop) :
    k.Serves J fun _ _ => True := by
  cases k with
  | silent => exact trivial
  | refusing => exact trivial
  | pool p => exact fun _ _ _ _ _ => trivial

/-- An answer makes the registry evolve if the resolution does that it is sought by. -/
theorem answer_evolves {k : Collaborator} (hk : k.Serves J serves)
    {resolve : Options → ClassId → Option String → Work Bool}
    (hresolve : ∀ options c signature (w : Workspace), (J w.registry → serves c signature) →
      w.registry.Evolves J (resolve options c signature w).2.registry) (c : ClassId) :
    Work.Evolves J (k.answer resolve c) := by
  intro w
  cases k with
  | silent => exact .refl J _
  | refusing => exact .refl J _
  | pool p =>
    let asked : Workspace := (Workspace.record (.asked c (w.registry.className c)) w).2
    change w.registry.Evolves J
      (p.answer (resolve p.options) (w.registry.className c) asked).2.registry
    unfold Pool.answer
    split
    · exact .refl J _
    · rw [Workspace.bind_apply, Workspace.getRegistry_apply]
      cases hd : asked.registry.lookup (p.targetName (w.registry.className c)) with
      | none => exact .refl J _
      | some d => exact hresolve _ _ _ asked fun hw => hk _ _ _ hw hd

theorem askWithin_evolves {k : Collaborator} (hJ : Registry.Stable J serves)
    (hk : k.Serves J serves) (depth : Nat) (c : ClassId) :
    Work.Evolves J (k.askWithin depth c) := by
  -- at depth zero nothing is resolved; one level up, the questions of the resolution that
  -- answers are the requests one level down
  induction depth generalizing c with
  | zero => exact answer_evolves hk (fun _ _ _ _ _ => .refl J _) c
  | succ depth ih =>
    refine answer_evolves hk (fun options c signature w hc => ?_) c
    exact Workspace.resolveClassAsking_evolves hJ ih hc

end Collaborator

/-! ### Calls from outside -/

/-- Resolves a declaration. -/
def Workspace.resolve (k : Collaborator) (options : Options) :
    Target → Option String → Work (Except ResolveError Unit)
  | .ofClass c => resolveClass k options c
  | .ofMethod m => resolveMethod k options m
  | .ofField f => resolveField k options f

theorem Workspace.resolve_apply (k : Collaborator) (options : Options) (t : Target)
    (signature : Option String) (w : Workspace) :
    resolve k options t signature w = resolveAsking (k.ask w.registry) options t signature w := by
  cases t with
  | ofClass c =>
    rw [resolveAsking_ofClass]
    change resolveClass k options c signature w = _
    unfold resolveClass
    rw [bind_apply, getRegistry_apply]
  | ofMethod m =>
    rw [resolveAsking_ofMethod]
    change resolveMethod k options m signature w = _
    unfold resolveMethod
    rw [bind_apply, getRegistry_apply]
  | ofField f =>
    change resolveField k options f signature w = resolveFieldAsking _ options f signature w
    unfold resolveField
    rw [bind_apply, getRegistry_apply]

/-- **Every call takes one of the courses of a resolution.** -/
theorem Workspace.resolve_course {serves : ClassId → Option String → Prop} {k : Collaborator}
    (hJ : Registry.Stable J serves) (hk : k.Serves J serves) (options : Options) (t : Target)
    (signature : Option String) (w : Workspace) :
    w.registry.Course J t signature (resolve k options t signature w).1.isOk
      (resolve k options t signature w).2.registry := by
  rw [resolve_apply]
  exact resolveAsking_course (k.askWithin_evolves hJ hk w.registry.unresolvedCount) options t
    signature w

end JavaGenerics
