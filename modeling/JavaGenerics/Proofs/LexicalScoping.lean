import JavaGenerics.Proofs.Binding
import JavaGenerics.Proofs.Consistency
import JavaGenerics.Proofs.Success
import JavaGenerics.Proofs.Transparency
import JavaGenerics.Proofs.Verification

/-!
# Lexical scoping

Which type parameter a name stands for is settled by where it is written: first come the
type parameters of the signature itself, then those of the class around it, then those of
the class around that one, and so on outwards. The library gets there by three detours. It
walks along links that may lead in a circle, it leaves out the classes without type
parameters, and it keeps the names of each class in a table of its own, which is filled
either from names or from type parameters that know their positions.

In every registry that a session can come to, type parameters are numbered by their
positions (`JavaGenerics.Session.perform_isNumbered`), and this is all it takes for the
detours to make no difference (`JavaGenerics.Registry.IsNumbered.scopesLexically`). What is
committed for a signature is then what it comes to if names are read lexically
(`JavaGenerics.Session.perform_scopes_lexically`), for classes, methods and fields alike.
-/

namespace JavaGenerics

open Attempt

/-! ### Names and the classes that bind them -/

namespace Registry

/-- The type variable that a name stands for by some classes, innermost first: that of the
first one that has a type parameter of this name. -/
def innermost? (r : Registry) (classes : List ClassId) (name : String) : Option TypeVar :=
  classes.findSome? fun a => ((r.paramNames a).idxOf? name).map (TypeVar.mk (.ofClass a))

/-- **The innermost binding of a name**: of some classes, innermost first, `v` belongs to the
first one that has a type parameter of this name, and is its first of this name. -/
def BindsInnermost (r : Registry) (classes : List ClassId) (name : String) (v : TypeVar) : Prop :=
  ∃ inner a outer i, classes = inner ++ a :: outer ∧ (∀ b ∈ inner, name ∉ r.paramNames b) ∧
    (r.paramNames a).idxOf? name = some i ∧ v = ⟨.ofClass a, i⟩

variable {r : Registry} {classes : List ClassId} {name : String}

theorem innermost?_eq_some_iff {v : TypeVar} :
    r.innermost? classes name = some v ↔ r.BindsInnermost classes name v := by
  unfold innermost? BindsInnermost
  rw [List.findSome?_eq_some_iff]
  constructor
  · rintro ⟨inner, a, outer, rfl, hv, hinner⟩
    obtain ⟨i, hi, rfl⟩ := Option.map_eq_some_iff.1 hv
    refine ⟨inner, a, outer, i, rfl, fun b hb => ?_, hi, rfl⟩
    exact List.idxOf?_eq_none_iff.1 (Option.map_eq_none_iff.1 (hinner b hb))
  · rintro ⟨inner, a, outer, i, rfl, hinner, hi, rfl⟩
    refine ⟨inner, a, outer, rfl, by rw [hi, Option.map_some], fun b hb => ?_⟩
    rw [List.idxOf?_eq_none_iff.2 (hinner b hb), Option.map_none]

theorem innermost?_eq_none_iff :
    r.innermost? classes name = none ↔ ∀ a ∈ classes, name ∉ r.paramNames a := by
  unfold innermost?
  rw [List.findSome?_eq_none_iff]
  exact forall₂_congr fun a _ => by rw [Option.map_eq_none_iff, List.idxOf?_eq_none_iff]

/-- A name is bound if one of the classes has a type parameter of this name. -/
theorem exists_innermost?_iff :
    (∃ v, r.innermost? classes name = some v) ↔ ∃ a ∈ classes, name ∈ r.paramNames a := by
  rw [← Option.ne_none_iff_exists', ne_eq, innermost?_eq_none_iff]
  push Not
  rfl

end Registry

/-! ### Scopes -/

namespace Scope

/-- **What a name stands for where `names` are declared**: the first of them, or what it
stands for without them. -/
theorem resolve_push (s : Scope) (owner : Declarer) (names : List String) (name : String) :
    (s.push owner names).resolve name =
      ((names.idxOf? name).map (TypeVar.mk owner)).or (s.resolve name) := by
  simp only [push, resolve, List.findSome?_cons, resolveIn, Resolution.lookup_zipIdx, Nat.add_zero,
    Option.map_id']
  cases names.idxOf? name <;> rfl

theorem lookup_map_eq_find? (ps : List TypeParam) (name : String) :
    (ps.map fun q => (q.name, q.var.index)).lookup name =
      (ps.find? (·.name == name)).map (·.var.index) := by
  induction ps with
  | nil => rfl
  | cons p ps ih =>
    rw [List.map_cons, List.lookup_cons, ih, List.find?_cons, BEq.comm]
    cases p.name == name <;> rfl

/-- **What a name stands for where type parameters are declared**, whatever numbers they
have: the number that the first of this name has, with the owner of the very first. -/
theorem resolve_pushTypeParams_cons (s : Scope) (p : TypeParam) (ps : List TypeParam)
    (name : String) :
    (s.pushTypeParams (p :: ps)).resolve name =
      (((p :: ps).find? (·.name == name)).map fun q => ⟨p.var.owner, q.var.index⟩).or
        (s.resolve name) := by
  simp only [pushTypeParams, resolve, List.findSome?_cons, resolveIn, lookup_map_eq_find?,
    Option.map_map]
  cases (p :: ps).find? (·.name == name) <;> rfl

/-- Numbered type parameters are declared as their names are. -/
theorem pushTypeParams_eq_push {owner : Declarer} {ps : List TypeParam}
    (h : TypeParam.Numbered owner ps) (hne : ps ≠ []) (s : Scope) :
    s.pushTypeParams ps = s.push owner (ps.map (·.name)) := by
  cases ps with
  | nil => exact absurd rfl hne
  | cons p ps =>
    have howner : p.var.owner = owner := by rw [h.var_eq (i := 0) rfl]
    rw [pushTypeParams, names_eq_zipIdx h, howner]
    rfl

variable {r : Registry}

/-- Around a class the type parameters of the classes around it are in force. -/
theorem resolve_pushEnclosing_eq_innermost? (h : r.IsNumbered) (c : ClassId) (name : String) :
    (({} : Scope).pushEnclosing r c).resolve name = r.innermost? (r.around c) name :=
  resolve_pushEnclosing (fun _ => h _) c name

/-- In the body of a class its own type parameters come first. -/
theorem resolve_pushBody_eq_innermost? (h : r.IsNumbered) (c : ClassId) (name : String) :
    (({} : Scope).pushBody r c).resolve name = r.innermost? (c :: r.around c) name := by
  rw [pushBody, pushClass, resolve_pushTypeParams (h _), resolve_pushEnclosing_eq_innermost? h]
  change (((r.paramNames c).idxOf? name).map _).or _ = _
  rw [Registry.innermost?, Registry.innermost?, List.findSome?_cons]
  cases (r.paramNames c).idxOf? name <;> rfl

end Scope

/-- **A registry whose scopes are lexical**, where a class, the class around it, and so on
outwards are asked in this order. -/
structure Registry.ScopesLexically (r : Registry) : Prop where
  /-- In the body of `c` the class itself comes first. -/
  body : ∀ c name v, (({} : Scope).pushBody r c).resolve name = some v ↔
    r.BindsInnermost (c :: (r.enclosingChain c).reverse) name v
  body_isBound : ∀ c name, (∃ v, (({} : Scope).pushBody r c).resolve name = some v) ↔
    ∃ a ∈ c :: r.enclosingChain c, name ∈ r.paramNames a
  around : ∀ c name v, (({} : Scope).pushEnclosing r c).resolve name = some v ↔
    r.BindsInnermost (r.enclosingChain c).reverse name v
  around_isBound : ∀ c name, (∃ v, (({} : Scope).pushEnclosing r c).resolve name = some v) ↔
    ∃ a ∈ r.enclosingChain c, name ∈ r.paramNames a
  /-- Declaring the type parameters of a class or of a method is declaring their names. -/
  declared : ∀ (s : Scope) owner, r.typeParams owner ≠ [] →
    s.pushTypeParams (r.typeParams owner) = s.push owner ((r.typeParams owner).map (·.name))

/-- **Where type parameters are numbered by their positions, scopes are lexical.** -/
theorem Registry.IsNumbered.scopesLexically {r : Registry} (h : r.IsNumbered) :
    r.ScopesLexically where
  body c name v := by
    rw [Scope.resolve_pushBody_eq_innermost? h]
    exact innermost?_eq_some_iff
  body_isBound c name := by
    simp only [Scope.resolve_pushBody_eq_innermost? h, exists_innermost?_iff, around,
      List.mem_cons, List.mem_reverse]
  around c name v := by
    rw [Scope.resolve_pushEnclosing_eq_innermost? h]
    exact innermost?_eq_some_iff
  around_isBound c name := by
    simp only [Scope.resolve_pushEnclosing_eq_innermost? h, exists_innermost?_iff, Registry.around,
      List.mem_reverse]
  declared s owner hne := Scope.pushTypeParams_eq_push (h owner) hne s

namespace Session

/-- **Type parameters are numbered by their positions** whatever is done in a session. -/
theorem Action.run_isNumbered (a : Action) {w : Workspace} (h : w.registry.IsNumbered) :
    (a.run w).2.registry.IsNumbered := by
  have hrenews : w.registry.Renews (a.run w).2.registry → (a.run w).2.registry.IsNumbered :=
    fun hr => hr.isNumbered h
  cases a with
  | assembleClass k options c scope ms =>
    exact (Workspace.assembleClass_retains k options c scope ms w).numbered h
  | assembleMethod k options m scope ms =>
    exact (Workspace.assembleMethod_retains k options m scope ms w).numbered h
  | step s =>
    cases s with
    | addClass header =>
      refine hrenews ?_
      change w.registry.Renews (Workspace.addClass header w).2.registry
      rw [Workspace.addClass_registry]
      exact w.registry.renews_addClass header
    | addMethod owner name descriptor argNames names =>
      exact hrenews (w.registry.renews_addMethod owner name descriptor argNames names)
    | addField owner name descriptor =>
      exact hrenews (w.registry.renews_addField owner name descriptor)
    | setEnclosing c enclosing =>
      exact hrenews (Registry.renews_modifyClass fun _ _ => .refl _ _)
    | setHeader c superclass interfaces =>
      exact hrenews (Registry.renews_modifyClass fun _ _ => .refl _ _)
    | setStage t stage => exact hrenews (Registry.renews_setStage _ stage t)
    | resolve k options t signature =>
      exact (Workspace.resolve_retains k options t signature w).numbered h

theorem perform_isNumbered (withPlatform : Bool) (actions : List Action) :
    (perform actions (start withPlatform)).2.registry.IsNumbered := by
  have hrun : ∀ (actions : List Action) (w : Workspace), w.registry.IsNumbered →
      (perform actions w).2.registry.IsNumbered := by
    intro actions
    induction actions with
    | nil => exact fun _ h => h
    | cons a actions ih => exact fun w h => ih (a.run w).2 (a.run_isNumbered h)
  exact hrun actions _ (start_consistent withPlatform).numbered

end Session

/-! ### Signatures -/

/-- The type variable of the type parameter at a position; a field has none. -/
def Target.ownVar? : Target → Nat → Option TypeVar
  | .ofClass c, i => some ⟨.ofClass c, i⟩
  | .ofMethod m, i => some ⟨.ofMethod m, i⟩
  | .ofField _, _ => none

/-- Some declared type parameters are resolved as `l` reads them. -/
def Lexicon.Declares (l : Lexicon) (ps : List TypeParamSig) (qs : List TypeParam) : Prop :=
  List.Forall₂ (fun p q => q.name = p.name ∧
    List.Forall₂ (fun s u => l.type s = .ok u) p.bounds q.bounds) ps qs

namespace Registry

/-- The classes around the signature of a declaration, innermost first: around that of a
member, its owner comes first. -/
def classesAround (r : Registry) : Target → List ClassId
  | .ofClass c => r.around c
  | .ofMethod m => ((r.methodAt? m).map fun e => e.owner :: r.around e.owner).getD []
  | .ofField f => ((r.fieldAt? f).map fun e => e.owner :: r.around e.owner).getD []

/-- **What the names in a signature stand for lexically**: a type parameter of the signature
itself, or one of the innermost class around it that has one of this name. -/
def lexical (r : Registry) (t : Target) (sig : t.Signature) : Lexicon where
  class? := r.lookup
  var? name := ((sig.paramNames.idxOf? name).bind t.ownVar?).or
    (r.innermost? (r.classesAround t) name)

/-- **What the registry holds of a declaration is what its signature comes to**, part by
part, where `l` says what the names in it stand for. -/
def ReadsAs (r : Registry) (l : Lexicon) : (t : Target) → t.Signature → Prop
  | .ofClass c, (sig : ClassSig) => ∃ entry, r.classAt? c = some entry ∧
      l.Declares sig.typeParams entry.typeParams ∧
      (∃ u, entry.superclass = some u ∧ l.type sig.superclass = .ok u) ∧
      List.Forall₂ (fun s u => l.type s = .ok u) sig.interfaces entry.interfaces
  | .ofMethod m, (sig : MethodSig) => ∃ entry, r.methodAt? m = some entry ∧
      l.Declares sig.typeParams entry.typeParams ∧
      List.Forall₂ (fun s u => l.type s = .ok u) sig.params (entry.params.map (·.2)) ∧
      (∃ u, l.type sig.result = .ok u ∧
        entry.result = if entry.isConstructor then none else some u) ∧
      List.Forall₂ (fun s u => l.type s = .ok u) sig.throws entry.throws
  | .ofField f, (sig : TypeSig) => ∃ entry u, r.fieldAt? f = some entry ∧
      entry.type = some u ∧ l.type sig = .ok u

end Registry

namespace Lexicon

variable {l : Lexicon}

theorem forall₂_of_mapM_typeAt {position : Position} {ss : List TypeSig} {us : List ResolvedType}
    (h : ss.mapM (l.typeAt position) = .ok us) :
    List.Forall₂ (fun s u => l.type s = .ok u) ss us :=
  (mapM_eq_ok.1 h).imp fun _ _ h => (typeAt_eq_ok.1 h).2

theorem declares_of_params {owner : Declarer} {first : Nat} {ps : List TypeParamSig}
    {qs : List TypeParam} (h : l.params owner first ps = .ok qs) : l.Declares ps qs := by
  induction ps generalizing first qs with
  | nil =>
    cases h
    exact .nil
  | cons p ps ih =>
    obtain ⟨bounds, rest, hbounds, hrest, rfl⟩ := params_cons_eq_ok.1 h
    exact .cons ⟨rfl, forall₂_of_mapM_typeAt hbounds⟩ (ih hrest)

end Lexicon

/-! ### Resolutions -/

namespace Registry

variable {r : Registry} {s : Stage} {t : Target} {l : Lexicon} {declared : List TypeParam}

theorem readsAs_class {c : ClassId} {entry : ClassEntry} (hc : r.classAt? c = some entry)
    {sig : ClassSig} {types : ClassTypes} (h : l.classTypes declared c sig = .ok types) :
    (r.modifyClass c types.fill).ReadsAs (l.declare (.ofClass c) sig.typeParams) (.ofClass c)
      sig := by
  obtain ⟨htps, hsuper, hints⟩ := Lexicon.classTypes_eq_ok.1 h
  have hfilled : (r.modifyClass c types.fill).classAt? c = some (types.fill entry) := by simp [hc]
  exact ⟨types.fill entry, hfilled,
    Lexicon.declares_of_params (Lexicon.introduce_eq_ok.1 htps).2.2,
    ⟨types.superclass, rfl, (Lexicon.typeAt_eq_ok.1 hsuper).2⟩,
    Lexicon.forall₂_of_mapM_typeAt hints⟩

theorem readsAs_method {m : MethodId} {entry : MethodEntry} (hm : r.methodAt? m = some entry)
    {sig : MethodSig} {types : MethodTypes} (h : l.methodTypes declared m sig = .ok types)
    {names : List String} (hnames : names.length = types.params.length) :
    (r.modifyMethod m (types.fill names)).ReadsAs (l.declare (.ofMethod m) sig.typeParams)
      (.ofMethod m) sig := by
  obtain ⟨htps, hparams, hresult, hthrows⟩ := Lexicon.methodTypes_eq_ok.1 h
  have hfilled : (r.modifyMethod m (types.fill names)).methodAt? m =
      some (types.fill names entry) := by
    rw [methodAt?_modifyMethod, if_pos rfl, hm]
    rfl
  have hzip : (types.fill names entry).params.map (·.2) = types.params :=
    List.map_snd_zip (Nat.le_of_eq hnames.symm)
  refine ⟨types.fill names entry, hfilled,
    Lexicon.declares_of_params (Lexicon.introduce_eq_ok.1 htps).2.2, ?_,
    ⟨types.result, hresult, rfl⟩, Lexicon.forall₂_of_mapM_typeAt hthrows⟩
  rw [hzip]
  exact Lexicon.forall₂_of_mapM_typeAt hparams

theorem readsAs_field {f : FieldId} {entry : FieldEntry} (hf : r.fieldAt? f = some entry)
    {sig : TypeSig} {type : ResolvedType} (h : l.typeAt .reference sig = .ok type) :
    (r.modifyField f (FieldEntry.fill type)).ReadsAs l (.ofField f) sig := by
  refine ⟨FieldEntry.fill type entry, type, ?_, rfl, (Lexicon.typeAt_eq_ok.1 h).2⟩
  rw [fieldAt?_modifyField, if_pos rfl, hf]
  rfl

/-- A mark does not change what is in force around a class. -/
theorem lexiconAround_setStage (c : ClassId) :
    (r.setStage s t).lexiconAround c = r.lexiconAround c := by
  have h := r.agrees_setStage s t
  unfold lexiconAround
  rw [h.pushEnclosing]
  exact congrArg (Lexicon.mk · _) (funext h.lookup)

theorem lexiconInside_setStage (c : ClassId) :
    (r.setStage s t).lexiconInside c = r.lexiconInside c := by
  have h := r.agrees_setStage s t
  unfold lexiconInside
  rw [h.pushBody]
  exact congrArg (Lexicon.mk · _) (funext h.lookup)

/-- The signature of a class is read lexically. -/
theorem IsNumbered.declare_lexiconAround (h : r.IsNumbered) (c : ClassId) (sig : ClassSig) :
    (r.lexiconAround c).declare (.ofClass c) sig.typeParams = r.lexical (.ofClass c) sig := by
  refine congrArg (Lexicon.mk r.lookup) (funext fun name => ?_)
  change (((sig.typeParams.map (·.name)).idxOf? name).map (TypeVar.mk (.ofClass c))).or
    ((({} : Scope).pushEnclosing r c).resolve name) = _
  rw [Scope.resolve_pushEnclosing_eq_innermost? h, Option.map_eq_bind]
  rfl

/-- The signature of a method is read lexically. -/
theorem IsNumbered.declare_lexiconInside (h : r.IsNumbered) {m : MethodId} {entry : MethodEntry}
    (hm : r.methodAt? m = some entry) (sig : MethodSig) :
    (r.lexiconInside entry.owner).declare (.ofMethod m) sig.typeParams =
      r.lexical (.ofMethod m) sig := by
  have haround : r.classesAround (.ofMethod m) = entry.owner :: r.around entry.owner := by
    rw [classesAround, hm]
    rfl
  refine congrArg (Lexicon.mk r.lookup) (funext fun name => ?_)
  change (((sig.typeParams.map (·.name)).idxOf? name).map (TypeVar.mk (.ofMethod m))).or
    ((({} : Scope).pushBody r entry.owner).resolve name) = _
  rw [Scope.resolve_pushBody_eq_innermost? h, Option.map_eq_bind, haround]
  rfl

/-- The signature of a field is read lexically. -/
theorem IsNumbered.lexiconInside_eq (h : r.IsNumbered) {f : FieldId} {entry : FieldEntry}
    (hf : r.fieldAt? f = some entry) (sig : TypeSig) :
    r.lexiconInside entry.owner = r.lexical (.ofField f) sig := by
  have haround : r.classesAround (.ofField f) = entry.owner :: r.around entry.owner := by
    rw [classesAround, hf]
    rfl
  refine congrArg (Lexicon.mk r.lookup) (funext fun name => ?_)
  rw [Scope.resolve_pushBody_eq_innermost? h, haround]
  rfl

end Registry

namespace Resolution

variable {res : Resolution} {r : Registry}

/-- A method is committed with as many parameters as its signature has. -/
theorem ends_commitMethod_named {I : Progress → Prop} (h : res.Steady I) (m : MethodId)
    (types : MethodTypes) :
    Ends I (fun r r' => ∃ names, names.length = types.params.length ∧
      r' = r.modifyMethod m (types.fill names)) (res.commitMethod m types) := by
  refine Ends.ofRegistry fun r => ?_
  cases r.methodAt? m with
  | none => exact ends_throw _
  | some entry =>
    have hnames : Ends I (fun r r' => ∃ names, names.length = types.params.length ∧
        r' = r.modifyMethod m (types.fill names))
        (liftM (res.nameParams entry.argNames types.params.length
          (r.syntheticCount entry types.params.length)) >>= fun names =>
            commit (fun r => r.modifyMethod m (types.fill names)) (.methodResolved res.owner)) := by
      refine ends_lift fun p hp => ⟨I, fun _ => id, h.nameParams _ _ _ p hp, ?_⟩
      exact (ends_commit _ _).mono fun _ _ _ heq => ⟨_, res.length_nameParams _ _ _ p, heq⟩
    by_cases hv : res.options.verifyErasure = true
    · simp only [hv, if_true]
      exact (computes_ofExcept _).ends fun _ _ => hnames
    · simp only [hv]
      exact hnames

/-- What is committed for the signature of a method, if nothing else happens meanwhile. -/
theorem ends_resolveMethodText_still (hask : ∀ c, Work.Evolves (· = r) (res.ask c))
    (m : MethodId) (text : String) :
    Ends (Progress.Still r) (fun r₁ r₂ => r₁ = r ∧ ∃ entry sig types names,
      r.methodAt? m = some entry ∧ MethodSig.parse text = .ok sig ∧
      names.length = types.params.length ∧
      (r.lexiconInside entry.owner).methodTypes (r.typeParams (.ofMethod m)) m sig = .ok types ∧
      r₂ = r.modifyMethod m (types.fill names)) (res.resolveMethodText m text) := by
  unfold resolveMethodText
  cases hparse : MethodSig.parse text with
  | error e => exact ends_throw _
  | ok sig =>
    refine ends_lift fun p hp => ⟨_, fun _ => id, hp, ?_⟩
    have hmethod : (getRegistry p).1.methodAt? m = r.methodAt? m :=
      congrArg (Registry.methodAt? · m) (Progress.Still.registry_eq hp)
    rw [hmethod]
    cases hm : r.methodAt? m with
    | none => exact ends_throw _
    | some entry =>
      refine ends_scopeInside hask entry.owner fun r₁ h₁ => ?_
      obtain rfl : r₁ = r := h₁.2 rfl
      have hl := settled_of_evolves hask (l := r₁.lexiconInside entry.owner) fun _ => rfl
      have hdeclared : ∀ p, Progress.Still r₁ p →
          p.workspace.registry.typeParams (.ofMethod m) = r₁.typeParams (.ofMethod m) :=
        fun p hp => by rw [Progress.Still.registry_eq hp]
      refine (computes_methodTypes hl rfl hdeclared sig).ends fun types htypes => ?_
      refine (ends_commitMethod_named hl.steady m types).mono ?_
      rintro p _ hp ⟨names, hnames, rfl⟩
      rw [Progress.Still.registry_eq hp]
      exact ⟨rfl, entry, sig, types, names, rfl, rfl, hnames, htypes, rfl⟩

end Resolution

namespace Workspace

variable {options : Options} {t : Target} {text : String} {w : Workspace}

/-- A resolution that succeeds has committed what its body commits, and if the collaborator
does nothing, it has found the registry with which it began throughout. -/
theorem resolve_silent_of_ends {signature : Option String} {C : Registry → Registry → Prop}
    (hends : w.registry.stage? t = some .unresolved →
      Ends (Progress.Still (w.registry.setStage .resolving t)) C (Resolution.body
        ⟨options, w.registry.targetName t, Collaborator.silent.ask w.registry⟩ t signature))
    (hok : (resolve .silent options t signature w).1 = .ok ()) :
    w.registry.stage? t = some .unresolved ∧
      C (w.registry.setStage .resolving t) (resolve .silent options t signature w).2.registry := by
  rw [resolve_apply, resolveAsking] at hok ⊢
  by_cases hs : w.registry.stage? t = some .unresolved
  · refine ⟨hs, ?_⟩
    let res : Resolution := ⟨options, w.registry.targetName t, Collaborator.silent.ask w.registry⟩
    obtain ⟨hresult, hleft⟩ := resolveBy_of_unresolved res.ask options signature
      (fun res => res.body t signature) hs
    obtain ⟨hresult', hleft'⟩ := resolveMarked_apply t res (fun res => res.body t signature)
      (marking t w)
    rw [hresult, hresult'] at hok
    rw [hleft, hleft']
    have hcommitted := hends hs { workspace := (record (.began t) (marking t w)).2 } (.refl _ _)
    rcases hout : (res.body t signature).outcome
      { workspace := (record (.began t) (marking t w)).2 } with ⟨_ | _, q⟩ <;>
      rw [hout] at hok hcommitted
    · cases hok
    · obtain ⟨p, hp, hc⟩ := hcommitted
      rw [← Progress.Still.registry_eq hp]
      exact hc
  · have hfails := (resolveBy_of_stage (Collaborator.silent.ask w.registry) options signature
      (fun res => res.body t signature) hs).1
    rw [hok] at hfails
    cases hfails

/-- **What is committed is what the signature comes to lexically.** -/
theorem resolve_readsAs_lexical (h : w.registry.IsNumbered)
    (hok : (resolve .silent options t (some text) w).1 = .ok ()) :
    ∃ sig, t.parse text = .ok sig ∧
      (resolve .silent options t (some text) w).2.registry.ReadsAs (w.registry.lexical t sig) t
        sig := by
  have hask : ∀ c, Work.Evolves (· = w.registry.setStage .resolving t)
      (Collaborator.silent.ask w.registry c) := Collaborator.silent_evolves _ _
  cases t with
  | ofClass c =>
    obtain ⟨hs, hcommits⟩ := resolve_silent_of_ends
      (fun hs => Resolution.ends_body _ hask (some text) hs) hok
    obtain ⟨entry, hc, -⟩ := Option.map_eq_some_iff.1 hs
    have hmarked : (w.registry.setStage .resolving (.ofClass c)).classAt? c =
        some { entry with stage := .resolving } := by
      simp [Registry.setStage, hc]
    generalize (resolve .silent options (.ofClass c) (some text) w).2.registry = r' at hcommits ⊢
    cases hcommits with
    | classSignature r₁ parse before after meaning =>
      rename_i sig types
      obtain rfl := before.2 rfl
      rw [Registry.lexiconAround_setStage] at meaning
      refine ⟨sig, parse, ?_⟩
      rw [← h.declare_lexiconAround]
      exact Registry.readsAs_class hmarked meaning
  | ofMethod m =>
    obtain ⟨hs, -, entry, sig, types, names, hm, hparse, hnames, hmeaning, hr'⟩ :=
      resolve_silent_of_ends (fun _ => Resolution.ends_resolveMethodText_still hask m text) hok
    have howner := Registry.map_methodAt?_setStage (f := (·.owner)) (s := .resolving)
      (fun _ => rfl) w.registry (.ofMethod m) m
    rw [hm] at howner
    obtain ⟨entry₀, hm₀, howner⟩ := Option.map_eq_some_iff.1 howner.symm
    rw [Registry.lexiconInside_setStage,
      show entry.owner = entry₀.owner from howner.symm] at hmeaning
    refine ⟨sig, hparse, ?_⟩
    rw [← h.declare_lexiconInside hm₀, hr']
    exact Registry.readsAs_method hm hmeaning hnames
  | ofField f =>
    obtain ⟨hs, hcommits⟩ := resolve_silent_of_ends
      (fun hs => Resolution.ends_body _ hask (some text) hs) hok
    generalize (resolve .silent options (.ofField f) (some text) w).2.registry = r' at hcommits ⊢
    cases hcommits with
    | fieldSignature r₁ parse found before after meaning =>
      rename_i sig entry type
      obtain rfl := before.2 rfl
      have howner := Registry.map_fieldAt?_setStage (f := (·.owner)) (s := .resolving)
        (fun _ => rfl) w.registry (.ofField f) f
      rw [found] at howner
      obtain ⟨entry₀, hf₀, howner⟩ := Option.map_eq_some_iff.1 howner.symm
      rw [Registry.lexiconInside_setStage,
        show entry.owner = entry₀.owner from howner.symm] at meaning
      refine ⟨sig, parse, ?_⟩
      rw [← h.lexiconInside_eq hf₀]
      exact Registry.readsAs_field found meaning

end Workspace

/-- **Scoping is lexical, innermost first.** In every registry that a session can come to, and
whatever the links between its classes are, a name in the body of a class or around it stands
for the first type parameter of this name that the innermost class has that has one at all. One
more declaration hides the names that it has, leaves the others, and is undone by taking it out
of force. So whenever a signature is resolved, with a collaborator that does nothing, what is
committed is what it comes to if a name stands for a type parameter of the signature first, then
for one of the owner, and then for one further out. -/
theorem Session.perform_scopes_lexically (withPlatform : Bool) (actions : List Action) :
    let w := (perform actions (start withPlatform)).2
    w.registry.ScopesLexically ∧
      (∀ (s : Scope) owner names, (s.push owner names).pop = s ∧
        ∀ name, (s.push owner names).resolve name =
          ((names.idxOf? name).map (TypeVar.mk owner)).or (s.resolve name)) ∧
      (∀ (s : Scope) p ps, (s.pushTypeParams (p :: ps)).pop = s ∧
        ∀ name, (s.pushTypeParams (p :: ps)).resolve name =
          (((p :: ps).find? (·.name == name)).map fun q => ⟨p.var.owner, q.var.index⟩).or
            (s.resolve name)) ∧
      ∀ options t text, (Workspace.resolve .silent options t (some text) w).1 = .ok () →
        ∃ sig, t.parse text = .ok sig ∧
          (Workspace.resolve .silent options t (some text) w).2.registry.ReadsAs
            (w.registry.lexical t sig) t sig := by
  intro w
  have hnumbered : w.registry.IsNumbered := perform_isNumbered withPlatform actions
  refine ⟨hnumbered.scopesLexically, fun s owner names => ⟨rfl, s.resolve_push owner names⟩,
    fun s p ps => ⟨rfl, s.resolve_pushTypeParams_cons p ps⟩, ?_⟩
  exact fun options t text hok => Workspace.resolve_readsAs_lexical hnumbered hok

/-- A member class hides a type parameter of the class around it, and uses another. -/
theorem Session.perform_scopes_lexically_of_hidden :
    let w := (perform [.step (.addClass { name := "O", typeParams := ["T", "U"] }),
      .step (.addClass { name := "A", enclosing := some ⟨0⟩ })] (start false)).2
    let text := "<T:TU;>LO<TT;TU;>;"
    let resolved := Workspace.resolve .silent {} (.ofClass ⟨1⟩) (some text) w
    w.registry.innermost? (w.registry.classesAround (.ofClass ⟨1⟩)) "T" =
        some ⟨.ofClass ⟨0⟩, 0⟩ ∧
      resolved.1 = .ok () ∧
      ∃ sig, (Target.ofClass ⟨1⟩).parse text = .ok sig ∧
        resolved.2.registry.ReadsAs (w.registry.lexical (.ofClass ⟨1⟩) sig) (.ofClass ⟨1⟩) sig := by
  intro w text resolved
  have hok : resolved.1 = .ok () := by
    have h : resolved.1.isOk = true := by decide +kernel
    rcases hresult : resolved.1 with e | ⟨⟨⟩⟩
    · rw [hresult] at h
      cases h
    · rfl
  exact ⟨by decide +kernel, hok,
    (perform_scopes_lexically false _).2.2.2 {} (.ofClass ⟨1⟩) text hok⟩

end JavaGenerics
