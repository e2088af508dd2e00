import JavaGenerics.Proofs.Admission
import JavaGenerics.Proofs.Frame
import JavaGenerics.Proofs.Parallel
import JavaGenerics.Proofs.Session

/-!
# What a collaborator can change

While a declaration is resolved, the collaborator may resolve any number of other classes,
and which ones depends on whom is asked. This file says when none of that shows in the
result (`JavaGenerics.Workspace.resolve_transparent`): when the other classes are never given
type parameters that they did not have.

The argument compares two calls from the same registry, with different collaborators. What
either finds on the way is the registry both began with, as other resolutions have changed
it; and as long as these introduce no new type parameters, they leave alone everything that
a signature is read by and everything that a check looks at. So the two registries resemble
each other at any time, and the two calls go side by side to their ends.

The one thing they could change is the scope: a class that is given type parameters while
a member of it is being resolved may put them in force for the member, or not, depending on
whether it was asked for in time.
-/

namespace JavaGenerics

open Attempt

/-! ### Type parameters that stay -/

/-- Numbered type parameters are given by their names. -/
theorem TypeParam.Numbered.declared_eq {owner : Declarer} {ps ps' : List TypeParam}
    (h : Numbered owner ps) (h' : Numbered owner ps')
    (hnames : ps'.map (·.name) = ps.map (·.name)) :
    ps'.map (fun p => (p.name, p.var)) = ps.map fun p => (p.name, p.var) := by
  have hlength : ps'.length = ps.length := by simpa using congrArg List.length hnames
  have hvars : ps'.map (·.var) = ps.map (·.var) := by rw [h, h', hlength]
  rw [← List.zip_map', ← List.zip_map', hnames, hvars]

namespace Registry

variable {r r' base : Registry}

/-- A signature, if there is one, declares no type parameters of `c` if `c` has none. -/
def DeclaresNoMore (r : Registry) (c : ClassId) (signature : Option String) : Prop :=
  ∀ text sig, signature = some text → ClassSig.parse text = .ok sig →
    r.typeParams (.ofClass c) = [] → sig.typeParams = []

theorem agrees_setStage (r : Registry) (s : Stage) (t : Target) : r.Agrees (r.setStage s t) where
  lookup := lookup_congr (map_classAt?_setStage (fun _ => rfl) r t)
  enclosing := enclosing?_setStage r s t
  declared owner := by rw [typeParams_setStage]

/-- A registry agrees with what it becomes when a class changes, its names and links apart. -/
theorem agrees_modifyClass {c : ClassId} {f : ClassEntry → ClassEntry}
    (hname : ∀ e, (f e).name = e.name) (henclosing : ∀ e, (f e).enclosing = e.enclosing)
    (hdeclared : ∀ e, r.classAt? c = some e →
      (f e).typeParams.map (fun p => (p.name, p.var)) = e.typeParams.map fun p => (p.name, p.var)) :
    r.Agrees (r.modifyClass c f) where
  lookup := lookup_congr (map_getElem?_modify hname _ _ ·.index)
  enclosing d := by
    have hmap := map_getElem?_modify henclosing r.classes c.index d.index
    simpa [enclosing?, classAt?, modifyClass, Option.bind_map] using
      congrArg (Option.bind · id) hmap
  declared owner := by
    cases owner with
    | ofMethod m => rfl
    | ofClass d =>
      by_cases hd : d = c
      · subst hd
        cases hc : r.classAt? d with
        | none => rw [typeParams, typeParams, classAt?_modifyClass_self, hc]; rfl
        | some e =>
          rw [typeParams, typeParams, classAt?_modifyClass_self, hc]
          exact hdeclared e hc
      · rw [typeParams, typeParams, classAt?_modifyClass_of_ne _ hd]

theorem Agrees.numbered (h : base.Agrees r) {owner : Declarer}
    (hnumbered : TypeParam.Numbered owner (base.typeParams owner)) :
    TypeParam.Numbered owner (r.typeParams owner) := by
  have hvars : (r.typeParams owner).map (·.var) = (base.typeParams owner).map (·.var) := by
    simpa [Function.comp_def] using congrArg (List.map Prod.snd) (h.declared owner)
  have hlength : (r.typeParams owner).length = (base.typeParams owner).length := by
    simpa using congrArg List.length hvars
  rw [TypeParam.Numbered, hvars, hlength, hnumbered]

/-- **Agreement is stable** under resolutions that declare no more type parameters. -/
theorem stable_agrees
    (hnumbered : ∀ c, TypeParam.Numbered (.ofClass c) (base.typeParams (.ofClass c))) :
    Stable base.Agrees base.DeclaresNoMore where
  mark h _ := h.trans (agrees_setStage _ _ _)
  unmark h _ := h.trans (agrees_setStage _ _ _)
  commit := by
    intro r r₁ r₂ c signature hserves h h₁ hadv hmarked hcommits
    obtain ⟨e, he, hstage⟩ := Option.map_eq_some_iff.1 hmarked
    have he₁ : r₁.classAt? c = some e := hadv.classAt?_eq_some he (by simp [hstage])
    refine h₁.trans ?_
    cases hcommits with
    | classHeader =>
      exact agrees_modifyClass (fun _ => rfl) (fun _ => rfl) fun _ _ => rfl
    | classSignature _ parse _ _ meaning =>
      rename_i types _ _ _
      refine agrees_modifyClass (fun _ => rfl) (fun _ => rfl) fun e' he' => ?_
      cases he₁.symm.trans he'
      change types.typeParams.map _ = _
      obtain ⟨hintroduce, -⟩ := Lexicon.classTypes_eq_ok.1 meaning
      obtain ⟨htps, hlength⟩ := Lexicon.introduce_numbered hintroduce
      obtain ⟨-, hdeclared, hparams⟩ := Lexicon.introduce_eq_ok.1 hintroduce
      have hold := h.numbered (hnumbered c)
      have hbase := h.declared (.ofClass c)
      rw [Registry.typeParams_ofClass he] at hdeclared hold hbase
      rcases Lexicon.checkDeclared_eq_ok.1 hdeclared with hempty | hnames
      · -- the class has no type parameters, so the signature declares none
        have hnone := hserves _ _ rfl parse (by simpa [hempty] using hbase.symm)
        rw [hnone, List.length_nil, List.length_eq_zero_iff] at hlength
        rw [hlength, hempty]
      · refine hold.declared_eq htps ?_
        rw [Lexicon.params_names hparams, hnames]

end Registry

/-! ### Collaborators -/

/-- **A collaborator that declares no more**: none of its signatures declares type
parameters of a class that has none in the registry. -/
def Collaborator.DeclaresNoMore (r : Registry) : Collaborator → Prop
  | silent => True
  | refusing => True
  | pool p => ∀ c entry text sig, r.classAt? c = some entry → entry.typeParams = [] →
      p.signatures.lookup entry.name = some text → ClassSig.parse text = .ok sig →
        sig.typeParams = []

theorem Collaborator.serves_declaresNoMore {base : Registry} {k : Collaborator}
    (h : k.DeclaresNoMore base) : k.Serves base.Agrees base.DeclaresNoMore := by
  cases k with
  | silent => exact trivial
  | refusing => exact trivial
  | pool p =>
    intro r name c hr hc text sig htext hparse hempty
    rw [hr.lookup] at hc
    obtain ⟨entry, hentry, hname⟩ := Registry.name_of_lookup hc
    rw [Registry.typeParams_ofClass hentry] at hempty
    exact h c entry text sig hentry hempty (hname ▸ htext) hparse

/-! ### Two calls side by side -/

namespace Registry

variable {r r' : Registry} {t : Target}

/-- A declaration that is marked stays as it is. -/
theorem Advances.declaration?_eq (h : r.Advances r') (hs : r.stage? t = some .resolving) :
    r'.declaration? t = r.declaration? t := by
  cases t with
  | ofClass c =>
    obtain ⟨e, he, hstage⟩ := Option.map_eq_some_iff.1 hs
    rw [declaration?, declaration?, he, h.classAt?_eq_some he (by simp [hstage])]
  | ofMethod m => rw [declaration?, declaration?, h.methodAt?_eq]
  | ofField f => rw [declaration?, declaration?, h.fieldAt?_eq]

/-- What is filled in keeps declarations alike. -/
theorem Fills.declaration?_eq {f : Registry → Registry} (hf : Fills f)
    (h : r'.declaration? t = r.declaration? t) : (f r').declaration? t = (f r).declaration? t := by
  cases hf with
  | ofClass c =>
    rename_i g _
    cases t with
    | ofMethod m => exact h
    | ofField x => exact h
    | ofClass d =>
      have hentry : r'.classAt? d = r.classAt? d :=
        Option.map_injective (fun _ _ => Declaration.ofClass.inj) h
      simp only [declaration?, classAt?_modifyClass]
      split
      · rename_i hd
        rw [← hd, hentry]
      · exact h
  | ofMethod m g =>
    cases t with
    | ofClass c => exact h
    | ofField x => exact h
    | ofMethod n =>
      have hentry : r'.methodAt? n = r.methodAt? n :=
        Option.map_injective (fun _ _ => Declaration.ofMethod.inj) h
      simp only [declaration?, methodAt?_modifyMethod]
      split
      · rename_i hn
        rw [← hn, hentry]
      · exact h
  | ofField x g =>
    cases t with
    | ofClass c => exact h
    | ofMethod m => exact h
    | ofField y =>
      have hentry : r'.fieldAt? y = r.fieldAt? y :=
        Option.map_injective (fun _ _ => Declaration.ofField.inj) h
      simp only [declaration?, fieldAt?_modifyField]
      split
      · rename_i hy
        rw [← hy, hentry]
      · exact h

end Registry

/-- The states of two resolutions under way that began with the registry `r`. -/
def Progress.BothSince (J : Registry → Prop) (r : Registry) (p q : Progress) : Prop :=
  Progress.Since J r p ∧ Progress.Since J r q

/-- The two states hold the same of the declaration `t`. -/
def Progress.SameOf (t : Target) (p q : Progress) : Prop :=
  q.workspace.registry.declaration? t = p.workspace.registry.declaration? t

namespace Resolution

variable {res res' : Resolution} {J : Registry → Prop} {r : Registry}

/-- What keeps an invariant on its own keeps it beside anything else that does, if neither
returns a result. -/
theorem alike_of_keeps {x y : StateM Progress Unit} (hx : Keeps (Progress.Since J r) x)
    (hy : Keeps (Progress.Since J r) y) : Alike (Progress.BothSince J r) x y :=
  fun p q ⟨hp, hq⟩ => ⟨rfl, hx p hp, hy q hq⟩

/-- **Two resolutions of a marked declaration are abreast**, whomever they ask, as long as
the answers keep the registry in agreement with some other. -/
theorem abreast_of_agrees {base : Registry} {t : Target} (hr : base.Agrees r)
    (hmarked : r.stage? t = some .resolving)
    (hask : ∀ c, Work.Evolves base.Agrees (res.ask c))
    (hask' : ∀ c, Work.Evolves base.Agrees (res'.ask c))
    (hverify : res'.options.verifyErasure = res.options.verifyErasure)
    (howner : res'.owner = res.owner) :
    res.Abreast res' (Progress.BothSince base.Agrees r) (Progress.SameOf t) := by
  have hsteady := steady_of_evolves hask r
  have hsteady' := steady_of_evolves hask' r
  have hagrees : ∀ p q, Progress.BothSince base.Agrees r p q →
      p.workspace.registry.Agrees q.workspace.registry :=
    fun p q ⟨hp, hq⟩ => (hp.2 hr).symm.trans (hq.2 hr)
  have hsame : ∀ p q, Progress.BothSince base.Agrees r p q → Progress.SameOf t p q :=
    fun p q ⟨hp, hq⟩ => (hq.1.declaration?_eq hmarked).trans (hp.1.declaration?_eq hmarked).symm
  exact
    { parallel :=
        { request := fun c => alike_of_keeps (hsteady.request c) (hsteady'.request c)
          warnArity := fun c supplied =>
            alike_of_keeps (hsteady.warnArity c supplied) (hsteady'.warnArity c supplied)
          noteCycle := fun c => alike_of_keeps (hsteady.noteCycle c) (hsteady.noteCycle c)
          agrees := hagrees }
      resembles := fun p q h => (hagrees p q h).resembles h.1.1 h.2.1
      weaken := hsame
      warn := fun supplied declared =>
        alike_of_keeps (hsteady.warn (.argumentNames supplied declared _) fun _ => nofun)
          (hsteady'.warn (.argumentNames supplied declared _) fun _ => nofun)
      commits := fun f n hf p q h => ⟨rfl, hf.declaration?_eq (hsame p q h)⟩
      verifyErasure := hverify
      owner := howner }

end Resolution

/-! ### Calls -/

/-- Whatever happens in a session, type parameters are numbered. -/
theorem Session.numbered (withPlatform : Bool) (steps : List Step) (owner : Declarer) :
    TypeParam.Numbered owner ((run steps (start withPlatform)).2.registry.typeParams owner) :=
  (run_wellScoped (start_wellScoped withPlatform) steps).1.numbered owner

namespace Workspace

variable {k k' : Collaborator} {options options' : Options} {t : Target}
  {signature : Option String} {w : Workspace}

/-- A member that a call is not for is the same afterwards. -/
theorem declaration?_resolve_of_ne {d : Target} (hne : d ≠ t) (hmember : ∀ c, d ≠ .ofClass c) :
    (resolve k options t signature w).2.registry.declaration? d = w.registry.declaration? d := by
  have hframe := (resolve_course_trivial k options t signature w).frame
  cases d with
  | ofClass c => exact absurd rfl (hmember c)
  | ofMethod m => exact congrArg (Option.map _) (hframe.methods m hne.symm)
  | ofField f => exact congrArg (Option.map _) (hframe.fields f hne.symm)

/-- What two calls leave of their declaration is the same if it was when their main parts
ended well. -/
theorem declaration?_returning_of_ok {t : Target} {owner owner' : String}
    {signature : Option String} {out out' : Except ResolveError Unit × Progress}
    (hok : out.1 = .ok ()) (hends : out.1 = out'.1 ∧ Progress.SameOf t out.2 out'.2) :
    (returning t owner' signature (out'.1, closing t out')).registry.declaration? t =
      (returning t owner signature (out.1, closing t out)).registry.declaration? t := by
  rw [returning_registry, returning_registry]
  obtain ⟨_, p⟩ := out
  obtain ⟨_, q⟩ := out'
  obtain ⟨hresult, hsame⟩ := hends
  cases hok
  cases hresult
  exact hsame

/-- **Whom a call asks does not show in what it comes to.** Two calls for the same declaration
with the same signature, the check against the erased record made in both or in neither,
return the same and leave the same of the declaration, with whatever collaborators and
whether or not they have referenced classes resolved, as long as no collaborator has a
signature that declares type parameters of a class without any. Of all other declarations
only classes may differ afterwards. The type parameters of every class have to be numbered,
as they are whatever happens in a session (`JavaGenerics.Session.numbered`). -/
theorem resolve_transparent (k k' : Collaborator) {options options' : Options} (t : Target)
    (signature : Option String) {w : Workspace}
    (hverify : options'.verifyErasure = options.verifyErasure)
    (hnumbered : ∀ c, TypeParam.Numbered (.ofClass c) (w.registry.typeParams (.ofClass c)))
    (hk : k.DeclaresNoMore w.registry) (hk' : k'.DeclaresNoMore w.registry) :
    (resolve k' options' t signature w).1 = (resolve k options t signature w).1 ∧
      ∀ d, (d = t ∨ ∀ c, d ≠ .ofClass c) →
        (resolve k' options' t signature w).2.registry.declaration? d =
          (resolve k options t signature w).2.registry.declaration? d := by
  have hmain : (resolve k' options' t signature w).1 = (resolve k options t signature w).1 ∧
      ((resolve k options t signature w).1 = .ok () →
        (resolve k' options' t signature w).2.registry.declaration? t =
          (resolve k options t signature w).2.registry.declaration? t) := by
    rw [resolve_apply, resolve_apply, resolveAsking, resolveAsking]
    rcases hm : w.registry.mark t with e | marked
    · rw [resolveBy_of_mark_error _ _ _ _ hm, resolveBy_of_mark_error _ _ _ _ hm]
      exact ⟨rfl, nofun⟩
    · obtain ⟨hstage, -⟩ := Registry.mark_eq_ok.1 hm
      have hmarked : (w.registry.setStage .resolving t).stage? t = some .resolving := by
        rw [Registry.stage?_setStage, hstage, Option.map_some]
      have hstable := Registry.stable_agrees hnumbered
      have habreast : (k.resolution options w.registry t).Abreast
          (k'.resolution options' w.registry t)
          (Progress.BothSince w.registry.Agrees (w.registry.setStage .resolving t))
          (Progress.SameOf t) :=
        Resolution.abreast_of_agrees (Registry.agrees_setStage w.registry .resolving t) hmarked
          (k.askWithin_evolves hstable (k.serves_declaresNoMore hk) _)
          (k'.askWithin_evolves hstable (k'.serves_declaresNoMore hk') _) hverify rfl
      have hends := Resolution.together_body habreast t signature (beginning t w)
        (beginning t w) ⟨.refl _ _, .refl _ _⟩
      rw [resolveBy_of_mark_ok _ _ _ _ hm, resolveBy_of_mark_ok _ _ _ _ hm]
      exact ⟨hends.1.symm, fun hok => declaration?_returning_of_ok hok hends⟩
  have htarget : (resolve k' options' t signature w).2.registry.declaration? t =
      (resolve k options t signature w).2.registry.declaration? t := by
    rcases hout : (resolve k options t signature w).1 with e | ⟨⟨⟩⟩
    · -- a call that fails leaves its declaration as it was
      have hcourse := resolve_course_trivial k options t signature w
      have hcourse' := resolve_course_trivial k' options' t signature w
      rw [hmain.1, hout] at hcourse'
      rw [hout] at hcourse
      rw [hcourse.declaration?_eq, hcourse'.declaration?_eq]
    · exact hmain.2 hout
  refine ⟨hmain.1, fun d hd => ?_⟩
  by_cases hdt : d = t
  · rw [hdt, htarget]
  · have hmember := hd.resolve_left hdt
    rw [declaration?_resolve_of_ne hdt hmember, declaration?_resolve_of_ne hdt hmember]

/-- A class that uses another, which a pool resolves first and a refusing collaborator does
not. -/
theorem resolve_transparent_of_pool :
    let steps : List Session.Step :=
      [.addClass { name := "A", typeParams := ["T"] }, .addClass { name := "B" }]
    let w := (Session.run steps (Session.start false)).2
    let p : Pool := { options := {}, signatures := [("A", "<T:LB;>LB;")] }
    (Collaborator.pool p).DeclaresNoMore w.registry ∧
      (resolve (.pool p) {} (.ofClass ⟨1⟩) (some "LA<LB;>;") w).1.isOk = true ∧
      (resolve .refusing { resolveReferenced := false } (.ofClass ⟨1⟩) (some "LA<LB;>;") w).1 =
        (resolve (.pool p) {} (.ofClass ⟨1⟩) (some "LA<LB;>;") w).1 := by
  intro steps w p
  have hunsigned : w.registry.classes.toList.all (fun e => !e.typeParams.isEmpty ||
      (p.signatures.lookup e.name).isNone) = true := by decide +kernel
  have hp : (Collaborator.pool p).DeclaresNoMore w.registry := by
    intro c entry text sig hc hempty htext
    have hmem : entry ∈ w.registry.classes.toList :=
      Array.mem_toList_iff.2 (Array.mem_of_getElem? hc)
    have hentry := List.all_eq_true.1 hunsigned entry hmem
    rw [hempty, htext] at hentry
    cases hentry
  have hok : (resolve (.pool p) {} (.ofClass ⟨1⟩) (some "LA<LB;>;") w).1.isOk = true := by
    decide +kernel
  have hnumbered := fun c => Session.numbered false steps (.ofClass c)
  have hverify : ({ resolveReferenced := false } : Options).verifyErasure =
      ({} : Options).verifyErasure := rfl
  exact ⟨hp, hok, (resolve_transparent (.pool p) .refusing (.ofClass ⟨1⟩) (some "LA<LB;>;")
    hverify hnumbered hp trivial).1⟩

end Workspace

end JavaGenerics
