import JavaGenerics.Proofs.Admission
import JavaGenerics.Proofs.Logging
import JavaGenerics.Proofs.Sightings

/-!
# Resolutions that succeed

A resolution that succeeds has come upon everything there is to come upon: the classes around
its declaration and all mentions in its signature, or the mentions in the erased record of
the declaration (`JavaGenerics.Registry.sightings`). What it does behind that is little: it
names the parameters of a method, and commits (`JavaGenerics.Resolution.seen_body`). So
whatever happens in the course of such a resolution can be proved by induction on a list that
is known before it begins.
-/

namespace JavaGenerics

open Attempt

/-- A signature that is there is read. -/
theorem Target.mapM_parse {t : Target} {text : String} {sig : t.Signature}
    (h : t.parse text = .ok sig) : (some text).mapM t.parse = .ok (some sig) := by
  rw [Option.mapM_some, h]
  rfl

/-! ### What a call comes upon -/

namespace Registry

variable (r : Registry)

/-- The way outwards from a class, and then the classes around it, outermost first. -/
def outwards (c : ClassId) : List Sighting := .outwards c :: (r.enclosingChain c).map .met

/-- The way into the body of a class, behind the classes around it. -/
def inwards (c : ClassId) : List Sighting := r.outwards c ++ [.met c, .outwards c]

/-- What is come upon before a signature is read: the classes around the declaration, and the
one that a member belongs to. -/
def surroundings : Target → List Sighting
  | .ofClass c => r.outwards c ++ [.outwards c]
  | .ofMethod m => ((r.methodAt? m).map fun e => r.inwards e.owner).getD []
  | .ofField f => ((r.fieldAt? f).map fun e => r.inwards e.owner).getD []

/-- The mentions in the erased record of a declaration: the header of a class, superclass
first, or the descriptor of a member, without the result of a constructor. -/
def erasedMentions : Target → List Mention
  | .ofClass c => ((r.classAt? c).map fun e =>
      (e.erasedSuper.toList ++ e.erasedInterfaces).map .named).getD []
  | .ofMethod m => ((r.methodAt? m).map fun e =>
      e.descriptor.params.flatMap FieldType.mentions ++
        if e.isConstructor then []
        else e.descriptor.result.toList.flatMap FieldType.mentions).getD []
  | .ofField f => ((r.fieldAt? f).map fun e => e.descriptor.mentions).getD []

/-- **What the resolution of a declaration comes upon**: the classes around it and all
mentions in its signature, or the mentions in its erased record. -/
def sightings (t : Target) : Option t.Signature → List Sighting
  | some sig => r.surroundings t ++ Mention.sightings r.lookup (sig.types.flatMap TypeSig.mentions)
  | none => Mention.sightings r.lookup (r.erasedMentions t)

/-! A mark is no matter to any of this. -/

theorem outwards_setStage (s : Stage) (t : Target) (c : ClassId) :
    (r.setStage s t).outwards c = r.outwards c := by
  rw [outwards, enclosingChain_congr (r.enclosing?_setStage s t), outwards]

theorem inwards_setStage (s : Stage) (t : Target) (c : ClassId) :
    (r.setStage s t).inwards c = r.inwards c := by rw [inwards, outwards_setStage, inwards]

theorem surroundings_setStage (s : Stage) (t : Target) :
    (r.setStage s t).surroundings t = r.surroundings t := by
  cases t with
  | ofClass c => rw [surroundings, outwards_setStage, surroundings]
  | ofMethod m =>
    simp only [surroundings, inwards_setStage]
    rw [map_methodAt?_setStage fun _ => rfl]
  | ofField f =>
    simp only [surroundings, inwards_setStage]
    rw [map_fieldAt?_setStage fun _ => rfl]

theorem erasedMentions_setStage (s : Stage) (t : Target) :
    (r.setStage s t).erasedMentions t = r.erasedMentions t := by
  cases t with
  | ofClass c => rw [erasedMentions, map_classAt?_setStage fun _ => rfl, erasedMentions]
  | ofMethod m => rw [erasedMentions, map_methodAt?_setStage fun _ => rfl, erasedMentions]
  | ofField f => rw [erasedMentions, map_fieldAt?_setStage fun _ => rfl, erasedMentions]

theorem sightings_setStage (s : Stage) (t : Target) (sig : Option t.Signature) :
    (r.setStage s t).sightings t sig = r.sightings t sig := by
  have hlookup : (r.setStage s t).lookup = r.lookup := funext (r.sameNames_setStage s t).lookup_eq
  cases sig with
  | none => rw [sightings, hlookup, erasedMentions_setStage, sightings]
  | some sig => rw [sightings, hlookup, surroundings_setStage, sightings]

end Registry

namespace Attempt

variable {α β : Type}

theorem outcome_bind_eq_ok {x : Attempt α} {f : α → Attempt β} {p q : Progress} {b : β} :
    (x >>= f).outcome p = (.ok b, q) ↔
      ∃ a p', x.outcome p = (.ok a, p') ∧ (f a).outcome p' = (.ok b, q) := by
  rw [outcome_bind]
  rcases x.outcome p with ⟨_ | a, p'⟩
  · simp
  · simp

theorem state_ofExcept {v : Except ResolveError α} {p q : Progress} {a : α}
    (h : (Attempt.ofExcept v).outcome p = (.ok a, q)) : p = q := by
  cases v with
  | error e => cases h
  | ok b => exact congrArg Prod.snd h

end Attempt

namespace Resolution

variable {res : Resolution} {I : Progress → Prop} {l : Lexicon} {α : Type}

theorem Sees.state_eq {x : Attempt α} {ss : List Sighting} {p q : Progress} {a : α}
    (hx : res.Sees I x ss) (hp : I p) (h : x.outcome p = (.ok a, q)) : q = res.after ss p := by
  obtain ⟨seen, -, hstate, hall⟩ := hx p hp
  rw [h] at hstate hall
  rw [← hall a rfl]
  exact hstate

theorem state_requests (res : Resolution) (cs : List ClassId) (p : Progress) :
    (cs.forM res.request p).2 = res.after (cs.map .met) p := by
  induction cs generalizing p with
  | nil => rfl
  | cons c cs ih => exact ih (res.request c p).2

theorem state_requestEnclosing (res : Resolution) (c : ClassId) (p : Progress) :
    (res.requestEnclosing c p).2 = res.after (p.workspace.registry.outwards c) p := by
  have hchain : (Workspace.noteCycle c p.workspace).2.registry.enclosingChain c =
      p.workspace.registry.enclosingChain c := by rw [Workspace.noteCycle_registry]
  rw [Registry.outwards, after_cons, ← hchain]
  exact state_requests res _ _

theorem state_scopeAround (res : Resolution) (c : ClassId) (p : Progress) :
    (res.scopeAround c p).2 = res.after (p.workspace.registry.surroundings (.ofClass c)) p := by
  rw [Registry.surroundings, after_append, ← state_requestEnclosing]
  rfl

theorem state_scopeInside (res : Resolution) (c : ClassId) (p : Progress) :
    (res.scopeInside c p).2 = res.after (p.workspace.registry.inwards c) p := by
  rw [Registry.inwards, after_append, ← state_requestEnclosing]
  rfl

theorem nameParams_of_some {names supplied : List String} {declared synthetic : Nat}
    (h : suppliedArgNames? names declared synthetic = some supplied) (p : Progress) :
    res.nameParams names declared synthetic p = (supplied, p) := by
  unfold nameParams
  rw [h]
  rfl

theorem nameParams_of_none {names : List String} {declared synthetic : Nat}
    (h : suppliedArgNames? names declared synthetic = none) (p : Progress) :
    res.nameParams names declared synthetic p = (numberedNames declared, if names.isEmpty then p
      else (res.warn (.argumentNames names.length declared res.owner) p).2) := by
  unfold nameParams
  rw [h]
  cases names <;> rfl

/-- **How a resolution is finished**: by a commit, in front of which the parameters of a
method are named. -/
inductive Finishes (res : Resolution) (p : Progress) : Progress → Prop where
  | commit (f : Registry → Registry) (n : Note) : Finishes res p ((commit f n).outcome p).2
  | name (names : List String) (declared synthetic : Nat) (f : Registry → Registry) (n : Note) :
      Finishes res p ((Attempt.commit f n).outcome (res.nameParams names declared synthetic p).2).2

theorem finishes_commit {f : Registry → Registry} {n : Note} {p q : Progress}
    (h : (Attempt.commit f n).outcome p = (.ok (), q)) : res.Finishes p q := by
  obtain rfl : ((Attempt.commit f n).outcome p).2 = q := congrArg Prod.snd h
  exact .commit f n

theorem finishes_commitClass {c : ClassId} {types : ClassTypes} {p q : Progress}
    (h : (res.commitClass c types).outcome p = (.ok (), q)) : res.Finishes p q := by
  have hcloses : Closes (Eq p) (Completes res.owner (.ofClass c) (some ""))
      (res.commitClass c types) := closes_commitClass c "" types
  have hclosed := hcloses p rfl
  rw [h] at hclosed
  obtain ⟨_, f, n, rfl, -, rfl⟩ := hclosed
  exact .commit f n

/-- **What is done with the types in the signature of a method**: its parameters are named,
as the registry then has it, and the method is completed. -/
theorem outcome_commitMethod {m : MethodId} {types : MethodTypes} {p q : Progress}
    (h : (res.commitMethod m types).outcome p = (.ok (), q)) :
    ∃ entry, p.workspace.registry.methodAt? m = some entry ∧
      let named := res.nameParams entry.argNames types.params.length
        (p.workspace.registry.syntheticCount entry types.params.length) p
      q = ((commit (fun r => r.modifyMethod m (types.fill named.1))
        (.methodResolved res.owner)).outcome named.2).2 := by
  obtain ⟨r, p', hr, h⟩ := outcome_bind_eq_ok.1 h
  obtain ⟨rfl, rfl⟩ : p.workspace.registry = r ∧ p = p' := by
    simpa using (show (Except.ok p.workspace.registry, p) = (Except.ok r, p') from hr)
  dsimp only at h
  cases hm : p.workspace.registry.methodAt? m with
  | none =>
    rw [hm] at h
    cases h
  | some entry =>
    rw [hm] at h
    refine ⟨entry, rfl, ?_⟩
    -- whether the check is made or not, what comes behind it is the same
    have hfill : ((liftM (res.nameParams entry.argNames types.params.length
          (p.workspace.registry.syntheticCount entry types.params.length)) >>= fun names =>
        commit (fun r => r.modifyMethod m (types.fill names)) (.methodResolved res.owner)
          : Attempt Unit).outcome p) = (.ok (), q) := by
      by_cases hv : res.options.verifyErasure = true
      · simp only [hv, if_true] at h
        obtain ⟨_, p', hcheck, h⟩ := outcome_bind_eq_ok.1 h
        obtain rfl : p = p' := state_ofExcept hcheck
        exact h
      · simp only [hv] at h
        exact h
    exact (congrArg Prod.snd hfill).symm

/-- Nothing that is asked for changes what names stand for. -/
abbrev Asks (res : Resolution) : Prop := ∀ c, Work.Evolves (fun _ => True) (res.ask c)

theorem Asks.settled (hask : res.Asks) (p : Progress) (var? : String → Option TypeVar) :
    res.Settled (Progress.Since (fun _ => True) p.workspace.registry)
      ⟨p.workspace.registry.lookup, var?⟩ := settled_of_evolves hask fun _ => rfl

theorem outcome_getRegistry {f : Registry → Attempt α} {p : Progress} :
    (liftM getRegistry >>= f).outcome p = (f p.workspace.registry).outcome p := rfl

theorem outcome_lift {x : StateM Progress α} {β : Type} {f : α → Attempt β} {p : Progress} :
    (liftM x >>= f).outcome p = (f (x p).1).outcome (x p).2 := rfl

/-- The text of a signature is read, and the method looked up, before anything else is done. -/
theorem outcome_methodText {p q : Progress} {m : MethodId} {text : String}
    (h : (res.resolveMethodText m text).outcome p = (.ok (), q)) :
    ∃ sig entry, MethodSig.parse text = .ok sig ∧ p.workspace.registry.methodAt? m = some entry ∧
      (res.resolveMethodSig m entry.owner sig).outcome p = (.ok (), q) := by
  unfold resolveMethodText at h
  cases hparse : MethodSig.parse text with
  | error e =>
    rw [hparse] at h
    cases h
  | ok sig =>
    rw [hparse] at h
    dsimp only at h
    rw [outcome_getRegistry] at h
    cases hm : p.workspace.registry.methodAt? m with
    | none =>
      rw [hm] at h
      cases h
    | some entry =>
      rw [hm] at h
      exact ⟨sig, entry, rfl, rfl, h⟩

section Bodies

variable (hask : res.Asks) {p q : Progress}

include hask

theorem finishes_classText {c : ClassId} {text : String}
    (h : (res.resolveClassText c text).outcome p = (.ok (), q)) :
    ∃ sig, ClassSig.parse text = .ok sig ∧ res.Finishes
      (res.after (p.workspace.registry.surroundings (.ofClass c) ++ Mention.sightings
        p.workspace.registry.lookup (sig.types.flatMap TypeSig.mentions)) p) q := by
  unfold resolveClassText at h
  cases hparse : ClassSig.parse text with
  | error e =>
    rw [hparse] at h
    cases h
  | ok sig =>
    rw [hparse] at h
    dsimp only at h
    rw [resolveClassSig, outcome_lift] at h
    obtain ⟨types, p', htypes, h⟩ := outcome_bind_eq_ok.1 h
    have hsettled := hask.settled p fun _ => none
    have hstate := (sees_classTypes hsettled c _ sig).state_eq
      (hsettled.steady.calm.scopeAround c p (.refl _ _)) htypes
    refine ⟨sig, rfl, ?_⟩
    rw [after_append, ← state_scopeAround]
    exact hstate ▸ finishes_commitClass h

theorem finishes_classHeader {c : ClassId}
    (h : (res.resolveClassHeader c).outcome p = (.ok (), q)) : res.Finishes
      (res.after (Mention.sightings p.workspace.registry.lookup
        (p.workspace.registry.erasedMentions (.ofClass c))) p) q := by
  unfold resolveClassHeader at h
  rw [outcome_getRegistry] at h
  cases hc : p.workspace.registry.classAt? c with
  | none =>
    rw [hc] at h
    cases h
  | some entry =>
    rw [hc] at h
    dsimp only at h
    have hsettled := hask.settled p fun _ => none
    obtain ⟨superclass, p₁, hsuper, hrest⟩ := outcome_bind_eq_ok.1 h
    obtain ⟨interfaces, p₂, hinterfaces, hcommit⟩ := outcome_bind_eq_ok.1 hrest
    have hp₁ := (Sees.mapM_option (sees_find hsettled) hsettled.steady.see
      entry.erasedSuper).state_eq (.refl _ _) hsuper
    subst hp₁
    have hp₂ := (Sees.mapM (sees_find hsettled) hsettled.steady.see
      entry.erasedInterfaces).state_eq (keeps_after hsettled.steady.see _ (.refl _ _)) hinterfaces
    rw [← after_append, ← List.flatMap_append, ← Mention.sightings_named] at hp₂
    have hmentions : p.workspace.registry.erasedMentions (.ofClass c) =
        (entry.erasedSuper.toList ++ entry.erasedInterfaces).map .named := by
      simp [Registry.erasedMentions, hc]
    rw [hmentions, ← hp₂]
    exact finishes_commit hcommit

/-- **What the signature of a method comes to**, and how the method is completed: the types of
its parameters are those that they have in the body of its class, once this and the classes
around it are asked for. -/
theorem outcome_methodSig {m : MethodId} {entry : MethodEntry} {sig : MethodSig}
    (hm : p.workspace.registry.methodAt? m = some entry)
    (h : (res.resolveMethodSig m entry.owner sig).outcome p = (.ok (), q)) :
    ∃ types : MethodTypes, sig.params.mapM (((⟨p.workspace.registry.lookup,
          (res.scopeInside entry.owner p).1.resolve⟩ : Lexicon).declare (.ofMethod m)
          sig.typeParams).typeAt .param) = .ok types.params ∧
      let before := res.after (p.workspace.registry.surroundings (.ofMethod m) ++
        Mention.sightings p.workspace.registry.lookup (sig.types.flatMap TypeSig.mentions)) p
      let named := res.nameParams entry.argNames types.params.length
        (before.workspace.registry.syntheticCount entry types.params.length) before
      q = ((commit (fun r => r.modifyMethod m (types.fill named.1))
        (.methodResolved res.owner)).outcome named.2).2 := by
  rw [resolveMethodSig, outcome_lift] at h
  obtain ⟨types, p', htypes, hcommit⟩ := outcome_bind_eq_ok.1 h
  have hsettled := hask.settled p (res.scopeInside entry.owner p).1.resolve
  have hinside := hsettled.steady.calm.scopeInside entry.owner p (.refl _ _)
  have hdeclared : ∀ p', Progress.Since (fun _ => True) p.workspace.registry p' →
      p'.workspace.registry.typeParams (.ofMethod m) =
        p.workspace.registry.typeParams (.ofMethod m) :=
    fun p' hp' => hp'.1.typeParams_ofMethod_eq m
  have hmeaning := (computes_methodTypes hsettled rfl hdeclared sig _ hinside).1
  rw [htypes] at hmeaning
  have hstate := (sees_methodTypes hsettled m _ sig).state_eq hinside htypes
  have hafter : res.after (p.workspace.registry.surroundings (.ofMethod m) ++
      Mention.sightings p.workspace.registry.lookup (sig.types.flatMap TypeSig.mentions)) p
        = p' := by
    rw [after_append, Registry.surroundings, hm, Option.map_some, Option.getD_some,
      ← state_scopeInside, hstate]
  -- no method has changed on the way
  have hp' : Progress.Since (fun _ => True) p.workspace.registry p' :=
    hstate ▸ keeps_after hsettled.steady.see _ hinside
  obtain ⟨entry', hentry', hq⟩ := outcome_commitMethod hcommit
  rw [hp'.1.methodAt?_eq, hm] at hentry'
  obtain rfl : entry = entry' := Option.some.inj hentry'
  refine ⟨types, (Lexicon.methodTypes_eq_ok.1 hmeaning.symm).2.1, ?_⟩
  rw [hafter]
  exact hq

/-- **What the descriptor of a method comes to**, and how the method is completed. -/
theorem outcome_methodDescriptor {m : MethodId}
    (h : (res.resolveMethodDescriptor m).outcome p = (.ok (), q)) :
    ∃ entry types result, p.workspace.registry.methodAt? m = some entry ∧
      entry.descriptor.params.mapM
        (⟨p.workspace.registry.lookup, fun _ => none⟩ : Lexicon).raw = .ok types ∧
      let before := res.after (Mention.sightings p.workspace.registry.lookup
        (p.workspace.registry.erasedMentions (.ofMethod m))) p
      let named := res.nameParams entry.argNames types.length 0 before
      q = ((commit (fun r => r.modifyMethod m
        (MethodEntry.fillErased (named.1.zip types) result))
        (.methodResolvedErased res.owner)).outcome named.2).2 := by
  unfold resolveMethodDescriptor at h
  rw [outcome_getRegistry] at h
  cases hm : p.workspace.registry.methodAt? m with
  | none =>
    rw [hm] at h
    cases h
  | some entry =>
    rw [hm] at h
    dsimp only at h
    have hsettled := hask.settled p fun _ => none
    obtain ⟨types, p₁, htypes, hrest⟩ := outcome_bind_eq_ok.1 h
    obtain ⟨result, p₂, hresult, hcommit⟩ := outcome_bind_eq_ok.1 hrest
    have hmeaning := (Computes.mapM (computes_raw hsettled.named) entry.descriptor.params p
      (.refl _ _)).1
    rw [htypes] at hmeaning
    have hp₁ := (Sees.mapM (sees_raw hsettled) hsettled.steady.see
      entry.descriptor.params).state_eq (.refl _ _) htypes
    subst hp₁
    have hp₂ := (sees_erasedResult hsettled entry).state_eq
      (keeps_after hsettled.steady.see _ (.refl _ _)) hresult
    rw [← after_append, ← Mention.sightings_flatMap, ← Mention.sightings_append] at hp₂
    have hmentions : p.workspace.registry.erasedMentions (.ofMethod m) =
        entry.descriptor.params.flatMap FieldType.mentions ++
          if entry.isConstructor then []
          else entry.descriptor.result.toList.flatMap FieldType.mentions := by
      simp [Registry.erasedMentions, hm]
    refine ⟨entry, types, result, rfl, hmeaning.symm, ?_⟩
    rw [hmentions, ← hp₂]
    exact (congrArg Prod.snd hcommit).symm

theorem outcome_fieldText {owner : ClassId} {descriptor : FieldType} {text : String}
    {type : ResolvedType}
    (h : (res.resolveFieldText owner descriptor text).outcome p = (.ok type, q)) :
    ∃ sig, TypeSig.parse text = .ok sig ∧
      q = res.after (p.workspace.registry.inwards owner ++
        Mention.sightings p.workspace.registry.lookup sig.mentions) p := by
  unfold resolveFieldText at h
  rw [outcome_lift] at h
  cases hparse : TypeSig.parse text with
  | error e =>
    rw [hparse] at h
    cases h
  | ok sig =>
    rw [hparse] at h
    dsimp only at h
    obtain ⟨u, p', hu, hrest⟩ := outcome_bind_eq_ok.1 h
    have hsettled := hask.settled p fun _ => none
    have hinside := hsettled.steady.calm.scopeInside owner p (.refl _ _)
    have hstate := (sees_typeAt hsettled .reference _ sig).state_eq hinside hu
    refine ⟨sig, rfl, ?_⟩
    rw [after_append, ← state_scopeInside]
    refine Eq.trans ?_ hstate
    -- the check behind it, if it is made, leaves the state as it is
    by_cases hv : res.options.verifyErasure = true
    · simp only [hv, if_true] at hrest
      rw [outcome_getRegistry] at hrest
      obtain ⟨_, p'', hcheck, hpure⟩ := outcome_bind_eq_ok.1 hrest
      obtain rfl : p' = p'' := state_ofExcept hcheck
      exact (congrArg Prod.snd hpure).symm
    · simp only [hv] at hrest
      exact (congrArg Prod.snd hrest).symm

theorem finishes_fieldEntry {f : FieldId} {signature : Option String}
    (h : (res.resolveFieldEntry f signature).outcome p = (.ok (), q)) :
    ∃ sig, signature.mapM (Target.ofField f).parse = .ok sig ∧ res.Finishes
      (res.after (p.workspace.registry.sightings (.ofField f) sig) p) q := by
  unfold resolveFieldEntry at h
  rw [outcome_getRegistry] at h
  cases hf : p.workspace.registry.fieldAt? f with
  | none =>
    rw [hf] at h
    cases h
  | some entry =>
    rw [hf] at h
    dsimp only at h
    cases signature with
    | none =>
      obtain ⟨type, p', htype, hcommit⟩ := outcome_bind_eq_ok.1 h
      have hstate := (sees_raw (hask.settled p fun _ => none) entry.descriptor).state_eq
        (.refl _ _) htype
      have hmentions : p.workspace.registry.erasedMentions (.ofField f) =
          entry.descriptor.mentions := by
        simp [Registry.erasedMentions, hf]
      refine ⟨none, rfl, ?_⟩
      change res.Finishes (res.after (Mention.sightings p.workspace.registry.lookup
        (p.workspace.registry.erasedMentions (.ofField f))) p) q
      rw [hmentions]
      exact hstate ▸ finishes_commit hcommit
    | some text =>
      obtain ⟨type, p', htype, hcommit⟩ := outcome_bind_eq_ok.1 h
      obtain ⟨sig, hparse, hstate⟩ := outcome_fieldText hask htype
      have hsurroundings : p.workspace.registry.surroundings (.ofField f) =
          p.workspace.registry.inwards entry.owner := by
        simp [Registry.surroundings, hf]
      refine ⟨some sig, Target.mapM_parse (t := .ofField f) hparse, ?_⟩
      change res.Finishes (res.after (p.workspace.registry.surroundings (.ofField f) ++
        Mention.sightings p.workspace.registry.lookup ([sig].flatMap TypeSig.mentions)) p) q
      rw [hsurroundings, List.flatMap_singleton]
      exact hstate ▸ finishes_commit hcommit

/-- **A resolution that succeeds has seen all there is to see**: the classes around its
declaration and the mentions in its signature, or the mentions in the erased record. Then it
is finished. -/
theorem seen_body {t : Target} {signature : Option String}
    (h : (res.body t signature).outcome p = (.ok (), q)) :
    ∃ sig, signature.mapM t.parse = .ok sig ∧
      res.Finishes (res.after (p.workspace.registry.sightings t sig) p) q := by
  cases t with
  | ofClass c =>
    cases signature with
    | none => exact ⟨none, rfl, finishes_classHeader hask h⟩
    | some text =>
      obtain ⟨sig, hparse, hfinishes⟩ := finishes_classText hask h
      exact ⟨some sig, Target.mapM_parse (t := .ofClass c) hparse, hfinishes⟩
  | ofMethod m =>
    cases signature with
    | none =>
      obtain ⟨entry, types, result, -, -, rfl⟩ := outcome_methodDescriptor hask h
      exact ⟨none, rfl, .name _ _ _ _ _⟩
    | some text =>
      obtain ⟨sig, entry, hparse, hm, h⟩ := outcome_methodText h
      obtain ⟨types, -, rfl⟩ := outcome_methodSig hask hm h
      exact ⟨some sig, Target.mapM_parse (t := .ofMethod m) hparse, .name _ _ _ _ _⟩
  | ofField f => exact finishes_fieldEntry hask h

end Bodies

end Resolution

/-! ### Calls that succeed -/

namespace Resolution

variable {res : Resolution} {p q : Progress}

/-- What finishes a resolution asks for nothing, and finds fault with no more than the names of
parameters. -/
theorem Finishes.journal (h : res.Finishes p q) :
    ∃ es, q.workspace.journal.toList = p.workspace.journal.toList ++ es ∧
      ∀ e ∈ es, (∃ n, e = .noted n) ∨ ∃ supplied declared, e =
        .reported ((Warning.argumentNames supplied declared res.owner).diagnostic res.owner) := by
  cases h with
  | commit f n => exact ⟨[.noted n], toList_commit f n p, by simp⟩
  | name names declared synthetic f n =>
    rw [toList_commit]
    rcases hsupplied : suppliedArgNames? names declared synthetic with _ | supplied
    · rw [nameParams_of_none hsupplied]
      cases names with
      | nil => exact ⟨[.noted n], rfl, by simp⟩
      | cons name names =>
        refine ⟨[.reported ((Warning.argumentNames (name :: names).length declared
          res.owner).diagnostic res.owner), .noted n], ?_, ?_⟩
        · change (Workspace.record _ _).2.journal.toList ++ _ = _
          rw [Workspace.toList_record, List.append_assoc]
          rfl
        · rintro e (_ | ⟨_, _ | ⟨_, ⟨⟩⟩⟩)
          · exact .inr ⟨_, _, rfl⟩
          · exact .inl ⟨n, rfl⟩
    · rw [nameParams_of_some hsupplied]
      exact ⟨[.noted n], rfl, by simp⟩

end Resolution

namespace Workspace

variable {k : Collaborator} {options : Options} {t : Target} {signature : Option String}
  {w : Workspace}

/-- A call succeeds if its main part does; what comes behind that leaves the registry as it
is. -/
theorem outcome_of_resolve (h : (resolve k options t signature w).1 = .ok ()) :
    ∃ q, ((k.resolution options w.registry t).body t signature).outcome (beginning t w) =
        (.ok (), q) ∧
      w.registry.stage? t = some .unresolved ∧
      (resolve k options t signature w).2.registry = q.workspace.registry ∧
      (resolve k options t signature w).2.journal.toList =
        q.workspace.journal.toList ++ [.ended t, .returned t true] := by
  rw [resolve_apply] at h ⊢
  unfold resolveAsking at h ⊢
  rcases hm : w.registry.mark t with e | marked
  · rw [resolveBy_of_mark_error _ _ _ _ hm] at h
    cases h
  · rw [resolveBy_of_mark_ok _ _ _ _ hm] at h ⊢
    dsimp only at h ⊢
    rcases hout : (Resolution.mk options (w.registry.targetName t) (k.ask w.registry)
      |>.body t signature).outcome (beginning t w) with ⟨v, q⟩
    rw [hout] at h
    obtain rfl : v = .ok () := h
    refine ⟨q, hout, (Registry.mark_eq_ok.1 hm).1, returning_registry _ _ _ _, ?_⟩
    rw [toList_returning rfl, toList_closing]
    simp [Registry.verdict, Except.isOk, Except.toBool]

theorem asks_resolution (k : Collaborator) (options : Options) (r : Registry) (t : Target) :
    (k.resolution options r t).Asks :=
  k.askWithin_evolves Registry.stable_trivial (k.serves_trivial _) _

/-- **A call that succeeds** has come upon all there is to come upon in its signature, and has
then been finished. -/
theorem resolve_seen (h : (resolve k options t signature w).1 = .ok ()) :
    ∃ sig q, signature.mapM t.parse = .ok sig ∧
      w.registry.stage? t = some .unresolved ∧
      (let res := k.resolution options w.registry t
      res.Finishes (res.after (w.registry.sightings t sig) (beginning t w)) q) ∧
      (resolve k options t signature w).2.journal.toList =
        q.workspace.journal.toList ++ [.ended t, .returned t true] := by
  obtain ⟨q, hout, hstage, -, hjournal⟩ := outcome_of_resolve h
  obtain ⟨sig, hparse, hfinishes⟩ :=
    Resolution.seen_body (asks_resolution k options w.registry t) hout
  refine ⟨sig, q, hparse, hstage, ?_, hjournal⟩
  rw [← Registry.sightings_setStage]
  exact hfinishes

end Workspace

end JavaGenerics
