import JavaGenerics.Proofs.Assembling
import JavaGenerics.Proofs.Frame

/-!
# What resolving leaves alone

To resolve a declaration is to fill in its entry. What was said when it was registered is not
touched, and no declaration comes in or goes away: a class keeps its name, its kind and its
members, and a member its owner, its name and its descriptor. The type parameters of a
declaration may be given anew, but if they were numbered, they still are.

The relation that says so (`JavaGenerics.Registry.Retains`) asks less than
`JavaGenerics.Registry.Advances`, and so it holds of more: of setting back what was resolved, of
a call however it ends (`JavaGenerics.Workspace.resolve_retains`), and of an assembler, which
may overwrite a class that is resolved already, and may be fed anything
(`JavaGenerics.ClassAssembler.feed_retains`, `JavaGenerics.MethodAssembler.feed_retains`).
-/

namespace JavaGenerics

open Assembly Attempt

/-! ### Entries -/

/-- What is fixed of a class: its name, its kind and its members. -/
def ClassEntry.registration (e : ClassEntry) : String × Bool × List MethodId × List FieldId :=
  (e.name, e.isInterface, e.methods, e.fields)

/-- What is fixed of a method; a constructor is told by the name. -/
def MethodEntry.registration (e : MethodEntry) :
    ClassId × String × MethodDescriptor × List String :=
  (e.owner, e.name, e.descriptor, e.argNames)

/-- What is fixed of a field. -/
def FieldEntry.registration (e : FieldEntry) : ClassId × String × FieldType :=
  (e.owner, e.name, e.descriptor)

namespace Registry

/-- The type parameters of all declarations are numbered, each list as those of its own
declaration. -/
def IsNumbered (r : Registry) : Prop := ∀ owner, TypeParam.Numbered owner (r.typeParams owner)

/-- **From `r` to `r'`, declarations have been filled in and nothing else**: the same ones
are registered, and as they were. -/
structure Retains (r r' : Registry) : Prop where
  classes : ∀ c, (r'.classAt? c).map (·.registration) = (r.classAt? c).map (·.registration)
  methods : ∀ m, (r'.methodAt? m).map (·.registration) = (r.methodAt? m).map (·.registration)
  fields : ∀ f, (r'.fieldAt? f).map (·.registration) = (r.fieldAt? f).map (·.registration)
  numbered : r.IsNumbered → r'.IsNumbered

variable {r r' r'' : Registry}

namespace Retains

theorem refl (r : Registry) : r.Retains r := ⟨fun _ => rfl, fun _ => rfl, fun _ => rfl, id⟩

theorem trans (h : r.Retains r') (h' : r'.Retains r'') : r.Retains r'' :=
  ⟨fun c => (h'.classes c).trans (h.classes c), fun m => (h'.methods m).trans (h.methods m),
    fun f => (h'.fields f).trans (h.fields f), h'.numbered ∘ h.numbered⟩

end Retains

/-- What happens while something else is resolved leaves all declarations what they are. -/
theorem Advances.retains (h : r.Advances r') : r.Retains r' where
  classes := h.map_classAt? (·.registration) fun _ _ _ hadv => by cases hadv <;> rfl
  methods m := by rw [h.methodAt?_eq]
  fields f := by rw [h.fieldAt?_eq]
  numbered hr owner := (h.renewed owner).numbered (hr owner)

/-! ### Changing an entry -/

theorem retains_modifyClass {c : ClassId} {f : ClassEntry → ClassEntry}
    (hf : ∀ e, (f e).registration = e.registration)
    (hparams : ∀ e, TypeParam.Numbered (.ofClass c) e.typeParams →
      TypeParam.Numbered (.ofClass c) (f e).typeParams) : r.Retains (r.modifyClass c f) where
  classes _ := map_getElem?_modify hf _ _ _
  methods _ := rfl
  fields _ := rfl
  numbered hr owner := by
    cases owner with
    | ofMethod m => exact hr (.ofMethod m)
    | ofClass d =>
      have hd := hr (.ofClass d)
      rw [typeParams, classAt?_modifyClass]
      split
      · rename_i hdc
        subst hdc
        rcases he : r.classAt? d with _ | e
        · exact TypeParam.numbered_nil
        · rw [typeParams_ofClass he] at hd
          exact hparams e hd
      · exact hd

theorem retains_modifyMethod {m : MethodId} {f : MethodEntry → MethodEntry}
    (hf : ∀ e, (f e).registration = e.registration)
    (hparams : ∀ e, TypeParam.Numbered (.ofMethod m) e.typeParams →
      TypeParam.Numbered (.ofMethod m) (f e).typeParams) : r.Retains (r.modifyMethod m f) where
  classes _ := rfl
  methods _ := map_getElem?_modify hf _ _ _
  fields _ := rfl
  numbered hr owner := by
    cases owner with
    | ofClass c => exact hr (.ofClass c)
    | ofMethod n =>
      have hn := hr (.ofMethod n)
      rw [typeParams, methodAt?_modifyMethod]
      split
      · rename_i hnm
        subst hnm
        rcases he : r.methodAt? n with _ | e
        · exact TypeParam.numbered_nil
        · rw [typeParams, he] at hn
          exact hparams e hn
      · exact hn

theorem retains_modifyField {f : FieldId} {g : FieldEntry → FieldEntry}
    (hg : ∀ e, (g e).registration = e.registration) : r.Retains (r.modifyField f g) where
  classes _ := rfl
  methods _ := rfl
  fields _ := map_getElem?_modify hg _ _ _
  numbered hr owner := by
    cases owner with
    | ofClass c => exact hr (.ofClass c)
    | ofMethod m => exact hr (.ofMethod m)

theorem retains_setStage (r : Registry) (s : Stage) (t : Target) : r.Retains (r.setStage s t) := by
  cases t with
  | ofClass c => exact retains_modifyClass (fun _ => rfl) fun _ => id
  | ofMethod m => exact retains_modifyMethod (fun _ => rfl) fun _ => id
  | ofField f => exact retains_modifyField fun _ => rfl

theorem retains_unmark (r : Registry) (t : Target) : r.Retains (r.unmark t) := by
  unfold unmark
  split
  · exact retains_setStage r _ t
  · exact .refl r

/-! ### Calls -/

variable {J : Registry → Prop} {r₀ : Registry} {t : Target} {signature : Option String}

/-- What is committed leaves all declarations what they are; the type parameters that a
signature introduces are numbered. -/
theorem Commits.retains (h : r₀.Commits J r t signature r') : r.Retains r' := by
  cases h with
  | classSignature _ _ _ _ meaning =>
    have htps := (Lexicon.introduce_numbered (Lexicon.classTypes_eq_ok.1 meaning).1).1
    exact retains_modifyClass (fun _ => rfl) fun _ _ => htps
  | classHeader => exact retains_modifyClass (fun _ => rfl) fun _ => id
  | methodSignature _ _ _ _ _ _ meaning =>
    have htps := (Lexicon.introduce_numbered (Lexicon.methodTypes_eq_ok.1 meaning).1).1
    exact retains_modifyMethod (fun _ => rfl) fun _ _ => htps
  | methodDescriptor => exact retains_modifyMethod (fun _ => rfl) fun _ => id
  | fieldSignature => exact retains_modifyField fun _ => rfl
  | fieldDescriptor => exact retains_modifyField fun _ => rfl

theorem Course.retains {ok : Bool} (h : r.Course J t signature ok r') : r.Retains r' := by
  have hmarked : r.Retains (r.setStage .resolving t) := retains_setStage r _ t
  cases h with
  | refused => exact .refl r
  | failed _ during => exact (hmarked.trans during.1.retains).trans (retains_unmark _ t)
  | committed _ during commits => exact (hmarked.trans during.1.retains).trans commits.retains

end Registry

/-- **A call leaves all declarations what they are**, however it ends. -/
theorem Workspace.resolve_retains (k : Collaborator) (options : Options) (t : Target)
    (signature : Option String) (w : Workspace) :
    w.registry.Retains (resolve k options t signature w).2.registry :=
  (resolve_course_trivial k options t signature w).retains

/-! ### Parts of an assembler -/

namespace Resolution

variable {res : Resolution} {p q : Progress}

theorem advances_resolveAt (hask : ∀ d, Work.Evolves (fun _ => True) (res.ask d))
    {position : Position} {scope : Scope} {t : TypeSig} {out : Except ResolveError ResolvedType}
    (hout : (res.resolveAt position scope t).outcome p = (out, q)) :
    p.workspace.registry.Advances q.workspace.registry := by
  have hl := settled_of_evolves hask (l := ⟨p.workspace.registry.lookup, scope.resolve⟩)
    fun _ => rfl
  obtain ⟨-, hq⟩ := computes_typeAt hl rfl position t p (.refl _ _)
  rw [hout] at hq
  exact hq.1

theorem advances_resolve (hask : ∀ d, Work.Evolves (fun _ => True) (res.ask d)) {scope : Scope}
    {t : TypeSig} {out : Except ResolveError ResolvedType}
    (hout : (res.resolve scope t).outcome p = (out, q)) :
    p.workspace.registry.Advances q.workspace.registry :=
  advances_resolveAt hask (show (res.resolveAt .anything scope t).outcome p = _ from hout)

theorem numbered_resolveBounds (hask : ∀ d, Work.Evolves (fun _ => True) (res.ask d))
    {scope : Scope} {owner : Declarer} {ps : List TypeParamSig}
    {out : Except ResolveError (List TypeParam)}
    (hout : (res.resolveBounds scope owner 0 ps).outcome p = (out, q)) :
    p.workspace.registry.Advances q.workspace.registry ∧
      ∀ tps, out = .ok tps → TypeParam.Numbered owner tps := by
  have hl := settled_of_evolves hask (l := ⟨p.workspace.registry.lookup, scope.resolve⟩)
    fun _ => rfl
  obtain ⟨hv, hq⟩ := computes_params hl rfl owner 0 ps p (.refl _ _)
  rw [hout] at hv hq
  exact ⟨hq.1, fun tps htps => (Lexicon.params_numbered (hv.symm.trans htps)).1⟩

end Resolution

/-- An assembler, begun with the registry `r`, whose type parameters are numbered as those of
`owner`. -/
structure TypeParamSection.Retains (owner : Declarer) (r : Registry) (s : TypeParamSection)
    (p : Progress) : Prop where
  numbered : TypeParam.Numbered owner s.resolved
  registry : r.Retains p.workspace.registry

namespace TypeParamSection.Retains

variable {owner : Declarer} {r : Registry} {s : TypeParamSection} {p q : Progress}
  {res : Resolution}

theorem advance (h : s.Retains owner r p)
    (hq : p.workspace.registry.Advances q.workspace.registry) : s.Retains owner r q :=
  ⟨h.numbered, h.registry.trans hq.retains⟩

theorem leads_collect (h : s.Retains owner r p) (name : String) :
    Leads (collect name) s p (fun _ s q => s.Retains owner r q)
      fun _ s q => s.Retains owner r q := by
  rw [TypeParamSection.leads_collect]
  split
  · exact h
  · exact ⟨h.numbered, h.registry⟩

theorem leads_collectBound (h : s.Retains owner r p) (kind : BoundKind) (bound : TypeSig) :
    Leads (collectBound kind bound) s p (fun _ s q => s.Retains owner r q)
      fun _ s q => s.Retains owner r q := by
  rw [TypeParamSection.leads_collectBound]
  split
  · exact h
  · split
    · exact h
    · exact ⟨h.numbered, h.registry⟩

theorem leads_introduce (hask : ∀ d, Work.Evolves (fun _ => True) (res.ask d))
    (h : s.Retains owner r p) :
    Leads (introduce res owner) s p (fun _ s q => s.Retains owner r q)
      fun _ s q => s.Retains owner r q := by
  rw [TypeParamSection.leads_introduce]
  dsimp only
  split
  · exact ⟨h.numbered, h.registry⟩
  · split
    · rename_i hout
      have hq := h.advance (Resolution.numbered_resolveBounds hask hout).1
      exact ⟨hq.numbered, hq.registry⟩
    · rename_i hout
      obtain ⟨hadv, htps⟩ := Resolution.numbered_resolveBounds hask hout
      exact ⟨htps _ rfl, (h.advance hadv).registry⟩

end TypeParamSection.Retains

/-- What every move keeps, whether it is refused or not, holds where some moves lead. -/
theorem Assembly.reached_of_leads {σ : Type} {step : Move → Assembly σ Unit}
    {I : σ → Progress → Prop}
    (hstep : ∀ m a p, I a p → Leads (step m) a p (fun _ => I) fun _ => I) (ms : List Move)
    {a : σ} {p : Progress} (ha : I a p) : I (reached step ms a p).1 (reached step ms a p).2 := by
  induction ms generalizing a p with
  | nil => exact ha
  | cons m ms ih =>
    rcases (hstep m a p ha).ok_or_error with ⟨-, -, hb⟩ | ⟨-, -, hb⟩
    · exact ih hb
    · exact ih hb

/-! ### Assembling a class -/

namespace ClassAssembler

/-- An assembler of `c`, begun with the registry `r`, that has left all declarations what they
are. -/
structure Retains (c : ClassId) (r : Registry) (a : ClassAssembler) (p : Progress) : Prop where
  target : a.target = c
  params : a.params.Retains (.ofClass c) r p

variable {c : ClassId} {r : Registry} {a : ClassAssembler} {p q : Progress} {res : Resolution}

theorem Retains.advance (h : a.Retains c r p)
    (hq : p.workspace.registry.Advances q.workspace.registry) : a.Retains c r q :=
  ⟨h.target, h.params.advance hq⟩

theorem leads_fill_retains (hask : ∀ d, Work.Evolves (fun _ => True) (res.ask d))
    (h : a.Retains c r p) (t : TypeSig) (slot : ClassSlot) :
    Leads (fill res t slot) a p (fun _ => Retains c r) fun _ => Retains c r := by
  cases slot with
  | bound kind =>
    rw [fill, onParams, leads_within]
    exact (h.params.leads_collectBound kind t).mono (fun _ _ _ hs => ⟨h.target, hs⟩)
      fun _ _ _ hs => ⟨h.target, hs⟩
  | superclass | interface =>
    simp only [fill, leads_bind, leads_get, leads_attempt, leads_modify]
    refine ⟨fun u q hout => ?_, fun e q hout => h.advance (Resolution.advances_resolveAt hask hout)⟩
    have hq := h.advance (Resolution.advances_resolveAt hask hout)
    exact ⟨hq.target, hq.params⟩

/-- **Every event** leaves all declarations what they are, also if it is refused. -/
theorem leads_accept_retains (hask : ∀ d, Work.Evolves (fun _ => True) (res.ask d))
    (h : a.Retains c r p) (e : Event) :
    Leads (accept res e) a p (fun _ => Retains c r) fun _ => Retains c r := by
  have htype : Leads (acceptTypeEvent res e) a p (fun _ => Retains c r) fun _ => Retains c r :=
    leads_acceptTypeEvent_of_kept e h (fun _ => ⟨h.target, h.params⟩) fun slot type t _ =>
      leads_fill_retains (a := { a with type, slot := none }) hask ⟨h.target, h.params⟩ t slot
  cases e
  case formalTypeParameter name =>
    simp only [accept, leads_bind, leads_expectSection, onParams, leads_within]
    split
    · exact (h.params.leads_collect name).mono (fun _ _ _ hs => ⟨h.target, hs⟩)
        fun _ _ _ hs => ⟨h.target, hs⟩
    · exact h
  case classBound | interfaceBound =>
    simp only [accept, leads_openBound]
    split
    · exact ⟨h.target, h.params⟩
    · exact h
  case superclass =>
    obtain rfl := h.target
    simp only [accept, leads_bind, leads_expectSection]
    split
    · simp only [leads_get, onParams, leads_within, leads_modify]
      exact (h.params.leads_introduce hask).mono (fun _ _ _ hs => ⟨rfl, hs⟩)
        fun _ _ _ hs => ⟨rfl, hs⟩
    · exact h
  case interface =>
    simp only [accept, leads_bind, leads_expectSection, leads_modify]
    split
    · exact ⟨h.target, h.params⟩
    · exact h
  case parameterType | returnType | exceptionType => exact h
  all_goals exact htype

/-- **A class is finished**: its entry is filled in, or nothing is written. -/
theorem leads_finish_retains (h : a.Retains c r p) :
    Leads (finish res) a p (fun _ => Retains c r) fun _ => Retains c r := by
  obtain rfl := h.target
  refine leads_finish res (fun superclass q _ _ _ hq => ⟨rfl, h.params.numbered, ?_⟩)
    (fun _ _ => h) fun _ _ => ⟨rfl, TypeParam.numbered_nil, h.params.registry⟩
  rw [hq]
  exact h.params.registry.trans
    (Registry.retains_modifyClass (fun _ => rfl) fun _ _ => h.params.numbered)

/-- **An assembler leaves all declarations what they are**, whatever it is fed. -/
theorem feed_retains (k : Collaborator) (options : Options) (c : ClassId) (scope : Scope)
    (ms : List Move) (p : Progress) :
    let res := k.resolution options p.workspace.registry (.ofClass c)
    p.workspace.registry.Retains
      (feed (move res) ms (start c scope) p).2.workspace.registry := by
  intro res
  have hask : ∀ d, Work.Evolves (fun _ => True) (res.ask d) :=
    k.askWithin_evolves Registry.stable_trivial (k.serves_trivial _) _
  rw [← reached_snd]
  refine (reached_of_leads (I := Retains c p.workspace.registry) (fun m a q h => ?_) ms
    ⟨rfl, TypeParam.numbered_nil, .refl _⟩).params.registry
  cases m with
  | accept e => exact leads_accept_retains hask h e
  | finish => exact leads_finish_retains h

end ClassAssembler

/-! ### Assembling a method -/

namespace MethodAssembler

/-- An assembler of `m`, begun with the registry `r`, that has left all declarations what they
are. -/
structure Retains (m : MethodId) (r : Registry) (a : MethodAssembler) (p : Progress) : Prop where
  target : a.target = m
  typeParams : a.typeParams.Retains (.ofMethod m) r p

variable {m : MethodId} {r : Registry} {a : MethodAssembler} {p q : Progress} {res : Resolution}

theorem Retains.advance (h : a.Retains m r p)
    (hq : p.workspace.registry.Advances q.workspace.registry) : a.Retains m r q :=
  ⟨h.target, h.typeParams.advance hq⟩

theorem leads_fill_retains (hask : ∀ d, Work.Evolves (fun _ => True) (res.ask d))
    (h : a.Retains m r p) (t : TypeSig) (slot : MethodSlot) :
    Leads (fill res t slot) a p (fun _ => Retains m r) fun _ => Retains m r := by
  cases slot with
  | bound kind =>
    rw [fill, onTypeParams, leads_within]
    exact (h.typeParams.leads_collectBound kind t).mono (fun _ _ _ hs => ⟨h.target, hs⟩)
      fun _ _ _ hs => ⟨h.target, hs⟩
  | param | throws =>
    simp only [fill, leads_bind, leads_get, leads_attempt, leads_modify]
    refine ⟨fun u q hout => ?_, fun e q hout => h.advance (Resolution.advances_resolveAt hask hout)⟩
    have hq := h.advance (Resolution.advances_resolveAt hask hout)
    exact ⟨hq.target, hq.typeParams⟩
  | result =>
    simp only [fill, leads_bind, leads_get, leads_attempt, leads_modify]
    refine ⟨fun u q hout => ?_, fun e q hout => h.advance (Resolution.advances_resolve hask hout)⟩
    have hq := h.advance (Resolution.advances_resolve hask hout)
    exact ⟨hq.target, hq.typeParams⟩

/-- A parameter or the result ends the type parameters. -/
theorem leads_openType_retains (hask : ∀ d, Work.Evolves (fun _ => True) (res.ask d))
    (h : a.Retains m r p) (e : Event) (phase : MethodPhase) (slot : MethodSlot) :
    Leads (openType res e phase slot) a p (fun _ => Retains m r) fun _ => Retains m r := by
  obtain rfl := h.target
  rw [leads_openType]
  split
  · split
    · exact (h.typeParams.leads_introduce hask).mono (fun _ _ _ hs => ⟨rfl, hs⟩)
        fun _ _ _ hs => ⟨rfl, hs⟩
    · exact ⟨rfl, h.typeParams⟩
  · exact h

/-- **Every event** leaves all declarations what they are, also if it is refused. -/
theorem leads_accept_retains (hask : ∀ d, Work.Evolves (fun _ => True) (res.ask d))
    (h : a.Retains m r p) (e : Event) :
    Leads (accept res e) a p (fun _ => Retains m r) fun _ => Retains m r := by
  have htype : Leads (acceptTypeEvent res e) a p (fun _ => Retains m r) fun _ => Retains m r :=
    leads_acceptTypeEvent_of_kept e h (fun _ => ⟨h.target, h.typeParams⟩) fun slot type t _ =>
      leads_fill_retains (a := { a with type, slot := none }) hask ⟨h.target, h.typeParams⟩ t slot
  cases e
  case formalTypeParameter name =>
    simp only [accept, leads_bind, leads_expectSection, onTypeParams, leads_within]
    split
    · exact (h.typeParams.leads_collect name).mono (fun _ _ _ hs => ⟨h.target, hs⟩)
        fun _ _ _ hs => ⟨h.target, hs⟩
    · exact h
  case classBound | interfaceBound =>
    simp only [accept, leads_openBound]
    split
    · exact ⟨h.target, h.typeParams⟩
    · exact h
  case parameterType | returnType => exact leads_openType_retains hask h _ _ _
  case exceptionType =>
    simp only [accept, leads_bind, leads_expectSection, leads_modify]
    split
    · exact ⟨h.target, h.typeParams⟩
    · exact h
  case superclass | interface => exact h
  all_goals exact htype

/-- **A method is finished**: its entry is filled in, or nothing is written. -/
theorem leads_finish_retains (hask : ∀ d, Work.Evolves (fun _ => True) (res.ask d))
    (h : a.Retains m r p) :
    Leads (finish res) a p (fun _ => Retains m r) fun _ => Retains m r := by
  obtain rfl := h.target
  refine leads_finish res (fun result q _ _ _ hout => ⟨rfl, h.typeParams.numbered, ?_⟩)
    fun _ _ => h
  have hends := Resolution.ends_commitMethod
    (Resolution.steady_of_evolves hask p.workspace.registry) a.target (a.methodTypes result) p
    (.refl _ _)
  rw [hout] at hends
  obtain ⟨p', hp', names, hq⟩ := hends
  rw [hq]
  exact (h.typeParams.registry.trans hp'.1.retains).trans
    (Registry.retains_modifyMethod (fun _ => rfl) fun _ _ => h.typeParams.numbered)

/-- **An assembler of a method leaves all declarations what they are**, whatever it is fed. -/
theorem feed_retains (k : Collaborator) (options : Options) (m : MethodId) (scope : Scope)
    (ms : List Move) (p : Progress) :
    let res := k.resolution options p.workspace.registry (.ofMethod m)
    p.workspace.registry.Retains
      (feed (move res) ms { target := m, typeParams := { scope } } p).2.workspace.registry := by
  intro res
  have hask : ∀ d, Work.Evolves (fun _ => True) (res.ask d) :=
    k.askWithin_evolves Registry.stable_trivial (k.serves_trivial _) _
  rw [← reached_snd]
  refine (reached_of_leads (I := Retains m p.workspace.registry) (fun move a q h => ?_) ms
    ⟨rfl, TypeParam.numbered_nil, .refl _⟩).typeParams.registry
  cases move with
  | accept e => exact leads_accept_retains hask h e
  | finish => exact leads_finish_retains hask h

end MethodAssembler

end JavaGenerics
