import JavaGenerics.Proofs.Admission
import JavaGenerics.Proofs.Assembling
import JavaGenerics.Proofs.Binding
import JavaGenerics.Proofs.Collecting
import JavaGenerics.Proofs.Frame
import JavaGenerics.Proofs.Registering

/-!
# Type variables in an assembled class

An assembler has the type parameters of its class and the scope in which it resolves types
side by side, and may be fed on after a refusal. Whatever it was fed, the type parameters that
it knows of its own class are those that its scope has – with one exception: where the bounds
of the type parameters fail to be resolved, their names have come into force already, and the
type parameters are gone.

So in a class that is committed at last, every type variable of another class leads to a type
parameter, and every type variable of the class itself does so too, unless the declaration of
its type parameters has failed halfway. The invariant that says so
(`JavaGenerics.ClassAssembler.Scoped`) is kept by every single move
(`JavaGenerics.ClassAssembler.leads_move_of_scoped`), and is lost only when the class is
committed, after which nothing is accepted any more.
-/

namespace JavaGenerics

open Assembly Attempt

/-! ### Scopes around a class -/

/-- What a name stands for around a class is a type parameter of another class. -/
theorem Scope.foreign_of_pushEnclosing {r : Registry} {c : ClassId}
    (h : ∀ d, TypeParam.Numbered (.ofClass d) (r.typeParams (.ofClass d))) {name : String}
    {v : TypeVar} (hv : (({} : Scope).pushEnclosing r c).resolve name = some v) :
    v.owner ≠ .ofClass c ∧ r.Binds v := by
  rw [resolve_pushEnclosing h] at hv
  obtain ⟨d, hd, hv⟩ := List.exists_of_findSome?_eq_some hv
  obtain ⟨i, hi, rfl⟩ := Option.map_eq_some_iff.1 hv
  obtain ⟨hlt, -⟩ := List.findIdx?_eq_some_iff_getElem.1 hi
  refine ⟨fun howner => ?_, Registry.binds_of_numbered (h d) (by simpa using hlt)⟩
  cases howner
  exact (Registry.mem_enclosingChain_iff.1 (List.mem_reverse.1 hd)).1 rfl

namespace ClassAssembler

/-! ### The invariant -/

/-- The types that an assembler has come to so far. -/
def types (a : ClassAssembler) : List ResolvedType :=
  a.params.resolved.flatMap (·.bounds) ++ a.superclass.toList ++ a.interfaces

theorem mem_types {a : ClassAssembler} {t : ResolvedType} :
    t ∈ a.types ↔
      t ∈ a.params.resolved.flatMap (·.bounds) ∨ a.superclass = some t ∨ t ∈ a.interfaces := by
  rw [types, List.append_assoc, List.mem_append, List.mem_append, Option.mem_toList]

/-- What becomes of the type variable `v` if the class `c` gets `n` type parameters: one of
another declaration leads to a type parameter in `r`, and one of `c` itself, as far as it is
`own`, to one of these. -/
def Reaches (own : Prop) (c : ClassId) (r : Registry) (n : Nat) (v : TypeVar) : Prop :=
  (v.owner ≠ .ofClass c → r.Binds v) ∧ (own → v.owner = .ofClass c → v.index < n)

/-- **An assembler of `c`, begun with the registry `r`, of which every type variable reaches
a type parameter**: those in the types that it has come to, and those that its scope still
has to offer. -/
structure Scoped (own : Prop) (c : ClassId) (r : Registry) (a : ClassAssembler) (p : Progress) :
    Prop where
  target : a.target = c
  advances : r.Advances p.workspace.registry
  /-- No type parameter is known before they are declared. -/
  early : a.phase = .typeParams → a.params.resolved = []
  scope : ∀ name v, a.params.scope.resolve name = some v →
    Reaches own c p.workspace.registry a.params.resolved.length v
  types : ∀ t ∈ a.types, ∀ v ∈ t.vars,
    Reaches own c p.workspace.registry a.params.resolved.length v

/-- What the names in the rest of the signature stand for, where classes are looked up in
`r`. -/
def lexicon (a : ClassAssembler) (r : Registry) : Lexicon where
  class? := r.lookup
  var? := a.params.scope.resolve

/-- An assembler that has committed its class, and so accepts nothing more. -/
def IsDone (a : ClassAssembler) : Prop := a.phase = .done ∧ a.slot = none

/-- An event that ends the type parameters fails halfway: they are in force, but the
resolution of their bounds has failed. -/
def FailsHalfway (m : Move) (e : ResolveError) : Prop := m = .accept .superclass ∧ e.OfType

variable {own : Prop} {c : ClassId} {r r' : Registry} {n n' : Nat} {v : TypeVar}
  {res : Resolution} {a : ClassAssembler} {p q : Progress}

theorem Reaches.mono (h : Reaches own c r n v) (hr : r.Advances r') (hn : n ≤ n') :
    Reaches own c r' n' v :=
  ⟨fun hne => hr.renews.binds (h.1 hne), fun ho howner => (h.2 ho howner).trans_le hn⟩

namespace Scoped

/-- While other classes are resolved, every type variable keeps its type parameter. -/
theorem advance (h : Scoped own c r a p) (hq : p.workspace.registry.Advances q.workspace.registry) :
    Scoped own c r a q :=
  ⟨h.target, h.advances.trans hq, h.early, fun name v hv => (h.scope name v hv).mono hq le_rfl,
    fun t ht v hv => (h.types t ht v hv).mono hq le_rfl⟩

/-- What is collected, and what has not been understood yet, does not count. -/
theorem resume (h : Scoped own c r a p) (pending : List TypeParamSig) (slot : Option ClassSlot)
    (type : TypeAssembler) :
    Scoped own c r { a with params := { a.params with pending }, slot, type } p :=
  ⟨h.target, h.advances, h.early, h.scope, h.types⟩

theorem known (h : Scoped own c r a p) (hn : a.params.resolved.length ≤ n) :
    (a.lexicon r).Known (Reaches own c p.workspace.registry n) :=
  fun name v hv => (h.scope name v hv).mono (.refl _) hn

/-- A type that is resolved in the scope of the assembler refers to what reaches a type
parameter. -/
theorem resolveAt (hask : ∀ d, Work.Evolves (fun _ => True) (res.ask d)) (h : Scoped own c r a p)
    {position : Position} {t : TypeSig} {out : Except ResolveError ResolvedType}
    (hout : (res.resolveAt position a.params.scope t).outcome p = (out, q)) :
    Scoped own c r a q ∧ ∀ u, out = .ok u → ∀ v ∈ u.vars,
      Reaches own c q.workspace.registry a.params.resolved.length v := by
  have hl := Resolution.settled_of_evolves hask (l := a.lexicon r) h.advances.lookup_eq
  obtain ⟨hv, hq⟩ := Resolution.computes_typeAt hl rfl position t p (.refl _ _)
  rw [hout] at hv hq
  have h' : Scoped own c r a q := h.advance hq.1
  exact ⟨h', fun u hu => Lexicon.known_typeAt (h'.known le_rfl) (hv.symm.trans hu)⟩

/-- What the names stand for once the type parameters `ps` are declared, if there is room for
these. -/
theorem known_declare (h : Scoped own c r a p) {ps : List TypeParamSig}
    (hn : a.params.resolved.length ≤ n) (hps : own → ps.length ≤ n) :
    ((a.lexicon r).declare (.ofClass c) ps).Known
      (Reaches own c p.workspace.registry n) :=
  Lexicon.known_declare (h.known hn) fun _ hi =>
    ⟨fun hne => absurd rfl hne, fun ho _ => hi.trans_le (hps ho)⟩

theorem scope_pushDeclared (h : Scoped own c r a p) {ps : List TypeParamSig}
    (hn : a.params.resolved.length ≤ n) (hps : own → ps.length ≤ n) (name : String) (v : TypeVar)
    (hv : (a.params.scope.pushDeclared (.ofClass c) ps).resolve name = some v) :
    Reaches own c p.workspace.registry n v := by
  refine h.known_declare hn hps name v ?_
  rw [Resolution.var?_declare (rfl : (a.lexicon r).var? = a.params.scope.resolve)]
  exact hv

/-- **The type parameters are declared**, and their bounds are resolved. -/
theorem introduce (hask : ∀ d, Work.Evolves (fun _ => True) (res.ask d)) (h : Scoped own c r a p)
    (hphase : a.phase = .typeParams) {ps : List TypeParamSig}
    {out : Except ResolveError (List TypeParam)}
    (hout : (res.resolveBounds (a.params.scope.pushDeclared (.ofClass c) ps) (.ofClass c) 0
      ps).outcome p = (out, q)) :
    Scoped own c r a q ∧ ∀ tps, out = .ok tps → ∀ slot, Scoped own c r
      { a with
        params := ⟨a.params.scope.pushDeclared (.ofClass c) ps, [], tps⟩
        phase := .superclass
        slot } q := by
  have hl := Resolution.settled_of_evolves hask (l := a.lexicon r) h.advances.lookup_eq
  obtain ⟨hv, hq⟩ := Resolution.computes_params (hl.declare (.ofClass c) ps)
    (Resolution.var?_declare rfl (.ofClass c) ps) (.ofClass c) 0 ps p (.refl _ _)
  rw [hout] at hv hq
  have h' : Scoped own c r a q := h.advance hq.1
  refine ⟨h', fun tps htps slot => ?_⟩
  have hparams := hv.symm.trans htps
  have hlength : tps.length = ps.length := by
    simpa using congrArg List.length (Lexicon.params_names hparams)
  -- the assembler had no type parameters, so there are at least as many as before
  have hn : a.params.resolved.length ≤ tps.length := by
    rw [h.early hphase]
    exact Nat.zero_le _
  refine ⟨h'.target, h'.advances, nofun, h'.scope_pushDeclared hn fun _ => hlength.ge, ?_⟩
  intro t ht v hv
  rcases mem_types.1 ht with ht | ht
  · obtain ⟨tp, htp, ht⟩ := List.mem_flatMap.1 ht
    exact Lexicon.known_params (h'.known_declare hn fun _ => hlength.ge) hparams tp htp t ht v hv
  · exact (h'.types t (mem_types.2 (.inr ht)) v hv).mono (.refl _) hn

end Scoped

/-! ### Moves -/

/-- **The event that ends the type parameters.** -/
theorem leads_superclass_of_scoped (hask : ∀ d, Work.Evolves (fun _ => True) (res.ask d))
    (h : Scoped own c r a p) :
    Leads (accept res .superclass) a p (fun _ b q => Scoped own c r b q) fun e b q =>
      (own → ¬e.OfType) → Scoped own c r b q := by
  obtain rfl := h.target
  simp only [accept, leads_bind, leads_expectSection]
  split
  case isFalse => exact fun _ => h
  case isTrue hphase =>
    simp only [leads_get, onParams, leads_within, TypeParamSection.leads_introduce, leads_modify]
    split
    · exact fun _ => h.resume [] _ _
    · split
      · rename_i e q hout
        intro hown
        obtain ⟨hq, -⟩ := h.introduce hask hphase.1 hout
        refine ⟨hq.target, hq.advances, hq.early,
          hq.scope_pushDeclared le_rfl fun ho => ?_, hq.types⟩
        exact absurd (Resolution.ofType_resolveBounds hout) (hown ho)
      · rename_i tps q hout
        exact (h.introduce hask hphase.1 hout).2 tps rfl _

/-- **A finished type is put where it is for.** -/
theorem leads_fill_of_scoped (hask : ∀ d, Work.Evolves (fun _ => True) (res.ask d))
    (h : Scoped own c r a p) (t : TypeSig) (slot : ClassSlot) :
    Leads (fill res t slot) a p (fun _ b q => Scoped own c r b q) fun _ b q =>
      Scoped own c r b q := by
  cases slot with
  | bound kind =>
    rw [fill, onParams, leads_within, TypeParamSection.leads_collectBound]
    split
    · exact h
    · split
      · exact h
      · exact h.resume _ _ _
  | superclass =>
    simp only [fill, leads_bind, leads_get, leads_attempt, leads_modify]
    refine ⟨fun u q hout => ?_, fun e q hout => (h.resolveAt hask hout).1⟩
    obtain ⟨hq, hu⟩ := h.resolveAt hask hout
    refine ⟨hq.target, hq.advances, nofun, hq.scope, fun t ht => ?_⟩
    rcases mem_types.1 ht with ht | ht | ht
    · exact hq.types t (mem_types.2 (.inl ht))
    · cases ht
      exact hu u rfl
    · exact hq.types t (mem_types.2 (.inr (.inr ht)))
  | interface =>
    simp only [fill, leads_bind, leads_get, leads_attempt, leads_modify]
    refine ⟨fun u q hout => ?_, fun e q hout => (h.resolveAt hask hout).1⟩
    obtain ⟨hq, hu⟩ := h.resolveAt hask hout
    refine ⟨hq.target, hq.advances, hq.early, hq.scope, fun t ht => ?_⟩
    rcases mem_types.1 ht with ht | ht | ht
    · exact hq.types t (mem_types.2 (.inl ht))
    · exact hq.types t (mem_types.2 (.inr (.inl ht)))
    · rcases List.mem_append.1 ht with ht | ht
      · exact hq.types t (mem_types.2 (.inr (.inr ht)))
      · cases List.mem_singleton.1 ht
        exact hu u rfl

/-- **Every event keeps the invariant**, except one that fails halfway. -/
theorem leads_accept_of_scoped (hask : ∀ d, Work.Evolves (fun _ => True) (res.ask d))
    (h : Scoped own c r a p) (e : Event) :
    Leads (accept res e) a p (fun _ b q => Scoped own c r b q) fun err b q =>
      (own → ¬FailsHalfway (.accept e) err) → Scoped own c r b q := by
  have htype : Leads (acceptTypeEvent res e) a p (fun _ b q => Scoped own c r b q) fun err b q =>
      (own → ¬FailsHalfway (.accept e) err) → Scoped own c r b q :=
    (leads_acceptTypeEvent_of_kept e h (fun _ => h.resume _ _ _) fun _ _ _ _ =>
      leads_fill_of_scoped hask (h.resume _ _ _) _ _).mono (fun _ _ _ => id) fun _ _ _ hb _ => hb
  cases e
  case formalTypeParameter name =>
    simp only [accept, leads_bind, leads_expectSection, onParams, leads_within,
      TypeParamSection.leads_collect]
    split
    · split
      · exact fun _ => h
      · exact h.resume _ _ _
    · exact fun _ => h
  case classBound | interfaceBound =>
    simp only [accept, leads_openBound]
    split
    · exact h.resume _ _ _
    · exact fun _ => h
  case superclass =>
    refine (leads_superclass_of_scoped hask h).mono (fun _ _ _ => id) fun err b q hb hown => ?_
    exact hb fun ho he => hown ho ⟨rfl, he⟩
  case interface =>
    simp only [accept, leads_bind, leads_expectSection, leads_modify]
    split
    · exact h.resume _ _ _
    · exact fun _ => h
  case parameterType | returnType | exceptionType => exact fun _ => h
  all_goals exact htype

/-- An assembler that has committed its class refuses everything, and nothing changes. -/
theorem leads_move_of_isDone (h : a.IsDone) (m : Move) :
    Leads (move res m) a p (fun _ _ _ => False) fun e b q =>
      (∃ cause, e = .malformed cause) ∧ b = a ∧ q = p := by
  obtain ⟨hphase, hslot⟩ := h
  cases m with
  | accept e =>
    have htype : Leads (acceptTypeEvent res e) a p (fun _ _ _ => False) fun e b q =>
        (∃ cause, e = .malformed cause) ∧ b = a ∧ q = p := by
      rw [acceptTypeEvent, leads_acceptTypeEvent, show typePart.slot a = none from hslot]
      exact ⟨⟨_, rfl⟩, rfl, rfl⟩
    cases e
    case formalTypeParameter | superclass | interface =>
      simp [move, accept, leads_bind, leads_expectSection, hphase]
    case classBound | interfaceBound => simp [move, accept, leads_openBound, hphase]
    case parameterType | returnType | exceptionType => exact ⟨⟨_, rfl⟩, rfl, rfl⟩
    all_goals exact htype
  | finish => simp [move, finish, leads_bind, leads_get, leads_throw, hphase]

/-- **A class is finished** with the types that the assembler has come to; if it is not
registered, these are given up. -/
theorem leads_finish_of_scoped (hregistered : own → r.classAt? c ≠ none) (h : Scoped own c r a p) :
    Leads (finish res) a p
      (fun _ b q => b.IsDone ∧ ∃ superclass, a.superclass = some superclass ∧
        q.workspace.registry = p.workspace.registry.modifyClass c (a.classTypes superclass).fill)
      fun _ b q => Scoped own c r b q := by
  obtain rfl := h.target
  refine leads_finish res (fun superclass q _ hslot hsuper hq => ?_) (fun _ _ => h)
    fun hphase hnone => ?_
  · exact ⟨⟨rfl, hslot⟩, superclass, hsuper, hq⟩
  · -- a class that is there does not go away
    have hown : ¬own := fun ho => by
      obtain ⟨e, he⟩ := Option.ne_none_iff_exists'.1 (hregistered ho)
      obtain ⟨e', he', -⟩ := h.advances.exists_classAt? he
      cases hnone.symm.trans he'
    refine ⟨rfl, h.advances, fun _ => rfl, fun name v hv => ⟨(h.scope name v hv).1, ?_⟩, nofun⟩
    exact fun ho => absurd ho hown

/-- **Every move keeps the invariant**, except one that fails halfway, until the class is
committed. -/
theorem leads_move_of_scoped (hask : ∀ d, Work.Evolves (fun _ => True) (res.ask d))
    (hregistered : own → r.classAt? c ≠ none) (m : Move) (a : ClassAssembler) (p : Progress)
    (h : a.IsDone ∨ Scoped own c r a p) :
    Leads (move res m) a p (fun _ b q => b.IsDone ∨ Scoped own c r b q) fun err b q =>
      (own → ¬FailsHalfway m err) → b.IsDone ∨ Scoped own c r b q := by
  rcases h with h | h
  · refine (leads_move_of_isDone h m).mono (fun _ _ _ => False.elim) fun _ b _ hb _ => .inl ?_
    rw [hb.2.1]
    exact h
  · cases m with
    | accept e =>
      exact (leads_accept_of_scoped hask h e).mono (fun _ _ _ => .inr) fun _ _ _ hb hown =>
        .inr (hb hown)
    | finish =>
      exact (leads_finish_of_scoped hregistered h).mono (fun _ _ _ hb => .inl hb.1)
        fun _ _ _ hb _ => .inr hb

/-! ### What is committed -/

theorem typeParams_modifyClass_of_ne {f : ClassEntry → ClassEntry} {owner : Declarer}
    (h : owner ≠ .ofClass c) : (r.modifyClass c f).typeParams owner = r.typeParams owner := by
  cases owner with
  | ofMethod m => rfl
  | ofClass d =>
    have hd : d ≠ c := fun hd => h (by rw [hd])
    simp only [Registry.typeParams, Registry.classAt?_modifyClass_of_ne _ hd]

/-- **The types that are committed for a class** have the type variables of the assembler, and
these lead to type parameters, one's own included. -/
theorem Scoped.typeParam?_modifyClass (h : Scoped own c r a p) {superclass : ResolvedType}
    (hsuper : a.superclass = some superclass)
    (hr : r' = p.workspace.registry.modifyClass c (a.classTypes superclass).fill) {e : ClassEntry}
    (he : r'.classAt? c = some e) {t : ResolvedType} (ht : t ∈ e.types) (hv : v ∈ t.vars)
    (ho : v.owner ≠ .ofClass c ∨ own) : ∃ tp, r'.typeParam? v = some tp := by
  subst hr
  have hparams := Registry.typeParams_ofClass he
  rw [Registry.classAt?_modifyClass_self] at he
  obtain ⟨e, -, rfl⟩ := Option.map_eq_some_iff.1 he
  rw [ClassTypes.types_fill] at ht
  have hmem : t ∈ a.types := by
    refine mem_types.2 ?_
    rcases List.mem_append.1 ht with ht | ht
    · exact .inl ht
    · refine .inr ((List.mem_cons.1 ht).imp_left ?_)
      rintro rfl
      exact hsuper
  obtain ⟨hforeign, hindex⟩ := h.types t hmem v hv
  unfold Registry.typeParam?
  by_cases howner : v.owner = .ofClass c
  · have hlt := hindex (ho.resolve_left (not_not_intro howner)) howner
    rw [howner, hparams]
    exact ⟨_, List.getElem?_eq_getElem hlt⟩
  · obtain ⟨tp, htp, -⟩ := hforeign howner
    rw [typeParams_modifyClass_of_ne howner]
    exact ⟨tp, htp⟩

/-- **No type variable of a finished class dangles.** Let the class `c` be fed any moves,
refused ones among them, in the scope around it or in an empty one, and be finished in the
end. Then every type variable in its bounds, superclass and interfaces leads to a type
parameter – if it is one of another class, or if the declaration of the type parameters of `c`
has never failed halfway. -/
theorem feed_typeParam? (k : Collaborator) (options : Options) (c : ClassId) (p : Progress)
    (hp : ∀ d, TypeParam.Numbered (.ofClass d) (p.workspace.registry.typeParams (.ofClass d)))
    {scope : Scope}
    (hscope : scope = {} ∨ scope = ({} : Scope).pushEnclosing p.workspace.registry c)
    (ms : List Move) :
    let res := k.resolution options p.workspace.registry (.ofClass c)
    let out := feed (move res) (ms ++ [.finish]) (start c scope) p
    let r := out.2.workspace.registry
    out.1.getLast?.map (·.1) = some (.ok ()) →
      ∀ e, r.classAt? c = some e → ∀ t ∈ e.types, ∀ v ∈ t.vars,
        (v.owner ≠ .ofClass c ∨
          ∀ m err a, (m, .error err, a) ∈ ms.zip out.1 → ¬FailsHalfway m err) →
        ∃ tp, r.typeParam? v = some tp := by
  intro res out r hfinish e he t ht v hv ho
  have hask : ∀ d, Work.Evolves (fun _ => True) (res.ask d) :=
    k.askWithin_evolves Registry.stable_trivial (k.serves_trivial _) _
  -- the type parameters of `c` itself count only if they can be committed in the end
  let own : Prop := p.workspace.registry.classAt? c ≠ none ∧
    ∀ m err a, (m, .error err, a) ∈ ms.zip out.1 → ¬FailsHalfway m err
  have hstart : Scoped own c p.workspace.registry (start c scope) p := by
    refine ⟨rfl, .refl _, fun _ => rfl, fun name v hv => ?_, nofun⟩
    rcases hscope with rfl | rfl
    · cases hv
    · obtain ⟨hne, hbinds⟩ := Scope.foreign_of_pushEnclosing hp hv
      exact ⟨fun _ => hbinds, fun _ howner => absurd howner hne⟩
  obtain ⟨a, q, ha, hlast, hleft⟩ := feed_snoc
    (I := fun a q => a.IsDone ∨ Scoped own c p.workspace.registry a q)
    (leads_move_of_scoped hask And.left) .finish ms (.inr hstart) fun m err a hmem hown =>
      hown.2 m err a hmem
  have hok : ((move res .finish).outcome a q).1.1 = .ok () := by
    rw [hlast] at hfinish
    exact Option.some.inj hfinish
  rcases ha with hdone | ha
  · exact ((leads_move_of_isDone hdone .finish).of_ok hok).elim
  · obtain ⟨-, superclass, hsuper, hq⟩ := (leads_finish_of_scoped And.left ha).of_ok hok
    have hr : r = q.workspace.registry.modifyClass c (a.classTypes superclass).fill := by
      change out.2.workspace.registry = _
      rw [hleft]
      exact hq
    refine ha.typeParam?_modifyClass hsuper hr he ht hv (ho.imp_right fun hclean => ⟨?_, hclean⟩)
    intro hnone
    rw [hr, Registry.classAt?_modifyClass_self, ha.advances.classAt?_eq_none hnone] at he
    cases he

/-- A member class whose type parameter has a bound from the class around it, fed on after an
event out of place. -/
theorem feed_typeParam?_of_member :
    let p : Progress := { workspace := { registry := .ofHeaders [
      { name := "Outer", typeParams := ["U"] }, { name := "Box", typeParams := ["E"] },
      { name := "Outer$A", enclosing := some ⟨0⟩ }] } }
    let res := Collaborator.silent.resolution {} p.workspace.registry (.ofClass ⟨2⟩)
    let scope := ({} : Scope).pushEnclosing p.workspace.registry ⟨2⟩
    let ms := [Event.formalTypeParameter "T", .interfaceBound, .typeVariable "U", .interface,
      .superclass, .classType "Box", .typeArgument .exact, .typeVariable "T", .close].map .accept
    let out := feed (move res) (ms ++ [.finish]) (start ⟨2⟩ scope) p
    out.1.map (·.1.isOk) = [true, true, true, false, true, true, true, true, true, true] ∧
      out.2.workspace.registry.stage? (.ofClass ⟨2⟩) = some .resolved ∧
      ∀ e, out.2.workspace.registry.classAt? ⟨2⟩ = some e → ∀ t ∈ e.types, ∀ v ∈ t.vars,
        ∃ tp, out.2.workspace.registry.typeParam? v = some tp := by
  refine ⟨by decide +kernel, by decide +kernel, fun e he t ht v hv => ?_⟩
  refine feed_typeParam? .silent {} ⟨2⟩ _ (fun d => (Registry.wellScoped_ofHeaders _).numbered _)
    (.inr rfl) _ (by decide +kernel) e he t ht v hv (.inr ?_)
  rintro _ err a hmem ⟨rfl, -⟩
  -- the one event that ends the type parameters is accepted
  have haccepted := List.all_eq_true.1 (show List.all _ (fun o => match o.1 with
    | .accept .superclass => o.2.1.isOk
    | _ => true) = true by decide +kernel) _ hmem
  cases haccepted

/-- The declaration of `T` fails halfway, since its bound mentions `X`. The class is then
resolved without type parameters, but its superclass refers to `T`. -/
theorem feed_dangles :
    let p : Progress := { workspace := { registry := .ofHeaders [
      { name := "Box", typeParams := ["E"] }, { name := "A" }] } }
    let res := Collaborator.silent.resolution {} p.workspace.registry (.ofClass ⟨1⟩)
    let scope := ({} : Scope).pushEnclosing p.workspace.registry ⟨1⟩
    let ms := [Event.formalTypeParameter "T", .interfaceBound, .typeVariable "X", .superclass,
      .superclass, .classType "Box", .typeArgument .exact, .typeVariable "T", .close].map .accept
    let out := feed (move res) (ms ++ [.finish]) (start ⟨1⟩ scope) p
    let r := out.2.workspace.registry
    p.workspace.registry.WellScoped ∧
      out.1.map (·.1.isOk) = [true, true, true, false, true, true, true, true, true, true] ∧
      (r.classAt? ⟨1⟩).map (fun e => e.types.flatMap (·.vars)) = some [⟨.ofClass ⟨1⟩, 0⟩] ∧
      (r.typeParam? ⟨.ofClass ⟨1⟩, 0⟩).isNone = true :=
  ⟨Registry.wellScoped_ofHeaders _, by decide +kernel⟩

end ClassAssembler

end JavaGenerics
