import JavaGenerics.Proofs.Conclusion
import JavaGenerics.Proofs.Verification

/-!
# The parameters of a method and their names

The types of the parameters of a method come from its signature or its descriptor, and their
names from the class file; the two lists are joined at the very end. If their lengths do not
go together, the names are numbered, so that no parameter is lost
(`JavaGenerics.chosenNames`), and a warning says so if there were any names.

`JavaGenerics.Workspace.resolve_parameters` says this of every call for a method that
succeeds, the check against the descriptor made or not. There is one such warning or none:
what is resolved on the way are classes, and these have no parameters
(`JavaGenerics.Collaborator.asksNameless_askWithin`).
-/

namespace JavaGenerics

open Attempt Workspace JournalEntry

/-! ### Which names are chosen -/

/-- Whether the names that the class file supplies go with `declared` parameters, or with
these and `synthetic` ones in front of them. -/
def NamesFit (names : List String) (declared synthetic : Nat) : Prop :=
  names.length = declared ∨ 0 < synthetic ∧ names.length = declared + synthetic

instance (names : List String) (declared synthetic : Nat) :
    Decidable (NamesFit names declared synthetic) := inferInstanceAs (Decidable (_ ∨ _))

/-- **The names of `declared` parameters**: those that the class file supplies, without those of
`synthetic` parameters in front, if they fit; otherwise the parameters are numbered. -/
def chosenNames (names : List String) (declared synthetic : Nat) : List String :=
  if names.length = declared then names
  else if 0 < synthetic ∧ names.length = declared + synthetic then names.drop synthetic
  else numberedNames declared

theorem suppliedArgNames?_of_fit {names : List String} {declared synthetic : Nat}
    (h : NamesFit names declared synthetic) : suppliedArgNames? names declared synthetic =
      some (chosenNames names declared synthetic) := by
  unfold suppliedArgNames? chosenNames
  split
  · rfl
  · rename_i hlength
    rw [if_pos (h.resolve_left hlength), if_pos (h.resolve_left hlength)]

theorem suppliedArgNames?_of_not_fit {names : List String} {declared synthetic : Nat}
    (h : ¬NamesFit names declared synthetic) : suppliedArgNames? names declared synthetic = none ∧
      chosenNames names declared synthetic = numberedNames declared := by
  obtain ⟨hlength, hsynthetic⟩ := not_or.1 h
  unfold suppliedArgNames? chosenNames
  rw [if_neg hlength, if_neg hsynthetic, if_neg hlength, if_neg hsynthetic]
  exact ⟨rfl, rfl⟩

/-- There is a name for every parameter. -/
theorem length_chosenNames (names : List String) (declared synthetic : Nat) :
    (chosenNames names declared synthetic).length = declared := by
  by_cases h : NamesFit names declared synthetic
  · exact length_suppliedArgNames? (suppliedArgNames?_of_fit h)
  · rw [(suppliedArgNames?_of_not_fit h).2]
    exact (List.length_map _).trans List.length_range

/-- The report that the names of parameters do not go with them. -/
def JournalEntry.isNaming : JournalEntry → Bool
  | reported d => d.code == "argument-names"
  | _ => false

/-- **What is to be said of the names of parameters**: nothing, unless there are some and they
do not fit. -/
def namingReports (owner : String) (names : List String) (declared synthetic : Nat) :
    List JournalEntry :=
  if NamesFit names declared synthetic ∨ names = [] then []
  else [.reported ((Warning.argumentNames names.length declared owner).diagnostic owner)]

namespace Resolution

variable {res : Resolution} {p : Progress}

theorem nameParams_fst (names : List String) (declared synthetic : Nat) :
    (res.nameParams names declared synthetic p).1 = chosenNames names declared synthetic := by
  by_cases h : NamesFit names declared synthetic
  · rw [nameParams_of_some (suppliedArgNames?_of_fit h)]
  · obtain ⟨hnone, hnumbered⟩ := suppliedArgNames?_of_not_fit h
    rw [nameParams_of_none hnone, hnumbered]

/-- What is said of the names of parameters is what is to be said. -/
theorem filter_isNaming_nameParams (names : List String) (declared synthetic : Nat) :
    (res.nameParams names declared synthetic p).2.workspace.journal.toList.filter isNaming =
      p.workspace.journal.toList.filter isNaming ++
        namingReports res.owner names declared synthetic := by
  unfold namingReports
  by_cases h : NamesFit names declared synthetic
  · rw [nameParams_of_some (suppliedArgNames?_of_fit h), if_pos (.inl h), List.append_nil]
  · rw [nameParams_of_none (suppliedArgNames?_of_not_fit h).1]
    cases names with
    | nil =>
      rw [if_pos (Or.inr rfl : NamesFit [] declared synthetic ∨ _), List.append_nil]
      rfl
    | cons name names =>
      rw [if_neg (not_or.2 ⟨h, List.cons_ne_nil _ _⟩)]
      change (record _ p.workspace).2.journal.toList.filter isNaming = _
      rw [toList_record, List.filter_append]
      rfl

end Resolution

/-! ### Nothing else is said of names -/

/-- The code for names of parameters is not used for errors. -/
theorem ResolveError.code_ne_naming (e : ResolveError) : e.code ≠ "argument-names" := by
  cases e <;> simp [ResolveError.code]

/-- Whoever is asked has nothing to say of the names of parameters. -/
def AsksNameless (ask : ClassId → Work Bool) : Prop :=
  ∀ c w, (ask c w).2.journal.toList.filter isNaming = w.journal.toList.filter isNaming

/-- The states in which this has been said of the names of parameters. -/
def Progress.Naming (ds : List JournalEntry) (p : Progress) : Prop :=
  p.workspace.journal.toList.filter isNaming = ds

namespace Resolution

variable {res : Resolution} {ds : List JournalEntry}

theorem naming_record {e : JournalEntry} (he : e.isNaming = false) :
    Keeps (Progress.Naming ds) (work (Workspace.record e)) :=
  fun p hp => (filter_record he p.workspace).trans hp

/-- Nothing that a resolution comes upon has to do with the names of parameters. -/
theorem naming_see (hask : AsksNameless res.ask) (s : Sighting) :
    Keeps (Progress.Naming ds) (res.see s) := by
  cases s with
  | outwards c => exact keeps_noteCycle (fun _ => naming_record rfl) c
  | met c =>
    intro p hp
    change Progress.Naming ds (res.request c p).2
    rw [request_apply]
    split
    · have hasking : Progress.Naming ds (asking c p) :=
        naming_record (e := .noted (.resolvingReferenced (p.workspace.registry.className c)))
          rfl p hp
      have hanswered : Progress.Naming ds (res.answered c p) :=
        (hask c (asking c p).workspace).trans hasking
      split
      · exact hanswered
      · exact naming_record rfl _ hanswered
    · exact hp
  | applied c n =>
    intro p hp
    change Progress.Naming ds (res.warnArity c n p).2
    rw [warnArity_apply]
    split
    · cases hw : p.workspace.registry.arityWarning? c n with
      | none => exact hp
        | some w =>
        obtain ⟨name, declared, rfl⟩ := Registry.exists_of_arityWarning? hw
        exact naming_record rfl p hp
    · exact hp

/-- What every sighting keeps is kept beside itself. -/
theorem parallel_of_sees {I : Progress → Prop} (h : ∀ s, Keeps I (res.see s)) :
    res.Parallel res (Same I) where
  request c := (h (.met c)).alike
  warnArity c supplied := (h (.applied c supplied)).alike
  noteCycle c := (h (.outwards c)).alike
  agrees := by
    rintro p _ ⟨rfl, -⟩
    exact .refl _

/-- **The resolution of a class** has nothing to say of the names of parameters. -/
theorem naming_body (hask : AsksNameless res.ask) (c : ClassId) (signature : Option String)
    {p : Progress} (hp : p.Naming ds) :
    ((res.body (.ofClass c) signature).outcome p).2.Naming ds := by
  have hparallel := parallel_of_sees (I := Progress.Naming ds) (naming_see hask)
  have hcloses : Closes (Progress.Naming ds) (Completes res.owner (.ofClass c) signature)
      (res.body (.ofClass c) signature) := by
    cases signature with
    | none => exact closes_classHeader hparallel c
    | some text => exact closes_classText hparallel c text
  have hclosed := hcloses p hp
  rcases hout : (res.body (.ofClass c) signature).outcome p with ⟨_ | _, q⟩ <;> rw [hout] at hclosed
  · exact hclosed
  · obtain ⟨p', f, n, hp', -, rfl⟩ := hclosed
    exact naming_record (e := .noted n) rfl { p' with workspace := _ } hp'

end Resolution

/-! ### Calls for classes -/

namespace Workspace

variable {ask : ClassId → Work Bool}

/-- To begin a resolution says nothing of the names of parameters. -/
theorem naming_beginning (t : Target) (w : Workspace) :
    (beginning t w).Naming (w.journal.toList.filter isNaming) := by
  rw [Progress.Naming, toList_beginning, List.filter_append]
  exact List.append_nil _

theorem filter_isNaming_returning (t : Target) (owner : String) (signature : Option String)
    (out : Except ResolveError Unit × Workspace) :
    (returning t owner signature out).journal.toList.filter isNaming =
      out.2.journal.toList.filter isNaming := by
  rcases out with ⟨e | _, v⟩
  · have hreported : isNaming (.reported (e.diagnostic owner signature)) = false :=
      beq_eq_false_iff_ne.2 e.code_ne_naming
    exact (filter_record rfl _).trans (filter_record hreported v)
  · exact filter_record rfl v

/-- **A call for a class** has nothing to say of the names of parameters. -/
theorem naming_resolveAsking (hask : AsksNameless ask) (options : Options) (c : ClassId)
    (signature : Option String) (w : Workspace) :
    (resolveAsking ask options (.ofClass c) signature w).2.journal.toList.filter isNaming =
      w.journal.toList.filter isNaming := by
  unfold resolveAsking
  rcases hm : w.registry.mark (.ofClass c) with e | marked
  · rw [resolveBy_of_mark_error _ _ _ _ hm, filter_isNaming_returning]
    exact filter_record rfl w
  · rw [resolveBy_of_mark_ok _ _ _ _ hm, filter_isNaming_returning, toList_closing,
      List.filter_append]
    let res : Resolution := ⟨options, w.registry.targetName (.ofClass c), ask⟩
    have hbody : ((res.body (.ofClass c) signature).outcome (beginning (.ofClass c) w)).2.Naming
        (w.journal.toList.filter isNaming) :=
      Resolution.naming_body hask c signature (naming_beginning _ w)
    exact (List.append_nil _).trans hbody

end Workspace

namespace Collaborator

theorem asksNameless_answer (k : Collaborator)
    {resolve : Options → ClassId → Option String → Work Bool}
    (hresolve : ∀ options d signature w, (resolve options d signature w).2.journal.toList.filter
      isNaming = w.journal.toList.filter isNaming) : AsksNameless (k.answer resolve) := by
  intro c w
  rcases k.answer_cases resolve c w with ⟨ok, -, hanswer⟩ | ⟨p, d, -, -, hanswer⟩ <;> rw [hanswer]
  · exact (filter_record rfl _).trans (filter_record rfl w)
  · exact (filter_record rfl _).trans
      ((hresolve _ _ _ _).trans (filter_record rfl w))

/-- **However deep calls nest**, those that answer requests have nothing to say of the names of
parameters. -/
theorem asksNameless_askWithin (k : Collaborator) (depth : Nat) :
    AsksNameless (k.askWithin depth) := by
  induction depth with
  | zero => exact k.asksNameless_answer fun _ _ _ _ => rfl
  | succ depth ih =>
    refine k.asksNameless_answer fun options d signature w => ?_
    have hcall := naming_resolveAsking ih options d signature w
    rw [resolveAsking_ofClass] at hcall
    exact hcall

end Collaborator

/-! ### Calls for methods -/

/-- How many parameters the signature of a method declares, or its descriptor if it has no
signature. -/
def MethodEntry.declaredCount (e : MethodEntry) : Option MethodSig → Nat
  | some sig => sig.params.length
  | none => e.descriptor.params.length

/-- How many leading parameters of the descriptor are left out. -/
def Registry.leftOut (r : Registry) (e : MethodEntry) : Option MethodSig → Nat
  | some sig => r.syntheticCount e sig.params.length
  | none => 0

namespace Resolution

variable (res : Resolution)

/-- **What the parameters of a method resolve to**, one by one: those in its signature as they
stand in the body of its class, with the type parameters of the method in force, or those in
its descriptor. -/
def ParamsResolve (p : Progress) (m : MethodId) (e : MethodEntry) :
    Option MethodSig → List ResolvedType → Prop
  | some sig, types =>
    let scope := (res.scopeInside e.owner p).1.pushDeclared (.ofMethod m) sig.typeParams
    List.Forall₂ (fun t u => ((res.resolveAt .param scope t).outcome p).1 = .ok u) sig.params types
  | none, types =>
    List.Forall₂ (fun t u => ((res.resolveRaw t).outcome p).1 = .ok u) e.descriptor.params types

variable {res} {p q : Progress} {m : MethodId} {e : MethodEntry} {sig : Option MethodSig}
  {types : List ResolvedType}

theorem ParamsResolve.length_eq (h : res.ParamsResolve p m e sig types) :
    types.length = e.declaredCount sig := by
  cases sig with
  | none => exact (List.Forall₂.length_eq h).symm
  | some sig => exact (List.Forall₂.length_eq h).symm

/-- **What becomes of the parameters of a method**, where `e` is its entry before and `e'` the
one behind: there are as many as it declares, with the types that these resolve to, and with
the names that are chosen for them. -/
structure Names (res : Resolution) (p : Progress) (m : MethodId) (sig : Option MethodSig)
    (synthetic : Nat) (e e' : MethodEntry) : Prop where
  length : e'.params.length = e.declaredCount sig
  types : res.ParamsResolve p m e sig (e'.params.map (·.2))
  names : e'.params.map (·.1) = chosenNames e.argNames (e.declaredCount sig) synthetic

/-- Types and names can be joined, since there are as many of the ones as of the others. -/
theorem ParamsResolve.names (h : res.ParamsResolve p m e sig types) {synthetic : Nat}
    {e' : MethodEntry} (hparams : e'.params =
      (chosenNames e.argNames (e.declaredCount sig) synthetic).zip types) :
    res.Names p m sig synthetic e e' := by
  have hlength : (chosenNames e.argNames (e.declaredCount sig) synthetic).length = types.length :=
    (length_chosenNames _ _ _).trans h.length_eq.symm
  exact
    { length := by rw [hparams, List.length_zip, hlength, Nat.min_self, h.length_eq]
      types := by
        rw [hparams, List.map_snd_zip (Nat.le_of_eq hlength.symm)]
        exact h
      names := by rw [hparams, List.map_fst_zip (Nat.le_of_eq hlength)] }

/-- **How a method is resolved**: its parameters are resolved, then named, and joined with
their names in what is committed. -/
theorem outcome_method (hask : res.Asks) {signature : Option String}
    (h : (res.body (.ofMethod m) signature).outcome p = (.ok (), q)) :
    ∃ sig e types f n, signature.mapM MethodSig.parse = .ok sig ∧
      p.workspace.registry.methodAt? m = some e ∧ res.ParamsResolve p m e sig types ∧
      let before := res.after (p.workspace.registry.sightings (.ofMethod m) sig) p
      let named := res.nameParams e.argNames (e.declaredCount sig)
        (before.workspace.registry.leftOut e sig) before
      (∀ e, (f e).params = named.1.zip types) ∧
        q = ((commit (fun r => r.modifyMethod m f) n).outcome named.2).2 := by
  cases signature with
  | none =>
    obtain ⟨e, types, result, he, htypes, rfl⟩ := outcome_methodDescriptor hask h
    have hsettled := hask.settled p fun _ => none
    have hresolve : res.ParamsResolve p m e none types := (mapM_eq_ok.1 htypes).imp fun t u htu =>
      (computes_raw hsettled.named t p (.refl _ _)).1.trans htu
    rw [hresolve.length_eq]
    exact ⟨none, e, types, _, _, rfl, he, hresolve, fun _ => rfl, rfl⟩
  | some text =>
    obtain ⟨sig, e, hparse, he, h⟩ := outcome_methodText h
    obtain ⟨types, htypes, rfl⟩ := outcome_methodSig hask he h
    have hsettled := (hask.settled p (res.scopeInside e.owner p).1.resolve).declare (.ofMethod m)
      sig.typeParams
    have hresolve : res.ParamsResolve p m e (some sig) types.params :=
      (mapM_eq_ok.1 htypes).imp fun t u htu =>
        (computes_typeAt hsettled (var?_declare rfl _ _) .param t p (.refl _ _)).1.trans htu
    refine ⟨some sig, e, types.params, types.fill _, .methodResolved res.owner,
      by simp [hparse], he, hresolve, fun _ => rfl, ?_⟩
    rw [hresolve.length_eq]
    rfl

end Resolution

namespace Registry

variable {r r' : Registry}

theorem SameRecords.leftOut_eq (h : r.SameRecords r') (e : MethodEntry) (sig : Option MethodSig) :
    r'.leftOut e sig = r.leftOut e sig := by
  cases sig with
  | none => rfl
  | some sig => exact h.syntheticCount_eq e sig.params.length

/-- Only the signature of a constructor leaves parameters out. -/
theorem leftOut_eq_zero {e : MethodEntry} (he : e.isConstructor = false) (sig : Option MethodSig) :
    r.leftOut e sig = 0 := by
  cases sig with
  | none => rfl
  | some sig => simp [leftOut, syntheticCount, he]

end Registry

namespace Workspace

/-- What happens on the way leaves the records of classes and all methods as they are, and has
nothing to say of the names of parameters. -/
theorem after_beginning (k : Collaborator) (options : Options) (t : Target) (w : Workspace)
    (ss : List Sighting) :
    let before := (k.resolution options w.registry t).after ss (beginning t w)
    (w.registry.setStage .resolving t).Advances before.workspace.registry ∧
      before.Naming (w.journal.toList.filter isNaming) := by
  have hsettled := (asks_resolution k options w.registry t).settled (beginning t w) fun _ => none
  exact ⟨(Resolution.keeps_after hsettled.steady.see ss (.refl _ _)).1,
    Resolution.keeps_after (Resolution.naming_see (k.asksNameless_askWithin _)) ss
      (naming_beginning t w)⟩

/-- **No parameter is lost, and each gets its name.** When a call for a method succeeds,
whoever is asked and whether or not the result is checked against the descriptor, the method
has one parameter for each in its signature, or in its descriptor if it has no signature:
with the type that this resolves to, and with the name that the class file supplies, unless
the names do not go with the parameters. One warning says so if there were names and they are
not used, and otherwise there is none. -/
theorem resolve_parameters (k : Collaborator) (options : Options) (m : MethodId)
    (signature : Option String) {w : Workspace}
    (h : (resolve k options (.ofMethod m) signature w).1 = .ok ()) :
    ∃ sig e e', signature.mapM MethodSig.parse = .ok sig ∧
      w.registry.methodAt? m = some e ∧
      (resolve k options (.ofMethod m) signature w).2.registry.methodAt? m = some e' ∧
      let synthetic := w.registry.leftOut e sig
      (k.resolution options w.registry (.ofMethod m)).Names (beginning (.ofMethod m) w) m sig
          synthetic e e' ∧
        (resolve k options (.ofMethod m) signature w).2.journal.toList.filter isNaming =
          w.journal.toList.filter isNaming ++
            namingReports (w.registry.methodName m) e.argNames (e.declaredCount sig) synthetic ∧
        (e.isConstructor = false → synthetic = 0) := by
  obtain ⟨q, hout, -, hregistry, hjournal⟩ := outcome_of_resolve h
  let res := k.resolution options w.registry (.ofMethod m)
  obtain ⟨sig, marked, types, f, n, hparse, hmarked, hresolve, hfill, rfl⟩ :=
    Resolution.outcome_method (asks_resolution k options w.registry (.ofMethod m)) hout
  -- neither the mark nor what happens on the way is any matter to the method
  have hentry : (w.registry.methodAt? m).map (fun e => { e with stage := .resolving }) =
      some marked :=
    ((w.registry.methodAt?_modifyMethod m m _).trans (if_pos rfl)).symm.trans hmarked
  obtain ⟨e, he, rfl⟩ := Option.map_eq_some_iff.1 hentry
  obtain ⟨hadvances, hunnamed⟩ := after_beginning k options (.ofMethod m) w
    ((beginning (.ofMethod m) w).workspace.registry.sightings (.ofMethod m) sig)
  have hleftOut := ((w.registry.sameRecords_setStage .resolving (.ofMethod m)).trans
    hadvances.sameRecords).leftOut_eq { e with stage := .resolving } sig
  rw [Resolution.nameParams_fst, hleftOut] at hfill
  have hnames := hresolve.names (hfill { e with stage := .resolving })
  refine ⟨sig, e, f { e with stage := .resolving }, hparse, he, ?_,
    ⟨hnames.length, hnames.types, hnames.names⟩, ?_, fun hc => Registry.leftOut_eq_zero hc sig⟩
  · rw [hregistry]
    change ((res.nameParams _ _ _ _).2.workspace.registry.modifyMethod m f).methodAt? m = _
    rw [Registry.methodAt?_modifyMethod, if_pos rfl, Resolution.registry_nameParams,
      hadvances.methodAt?_eq]
    exact congrArg (Option.map f) hmarked
  · rw [hjournal, toList_commit, List.filter_append, List.filter_append,
      Resolution.filter_isNaming_nameParams, hunnamed, hleftOut]
    exact (List.append_nil _).trans (List.append_nil _)

/-- The constructor of a member class `O$I`, the first parameter of which is the instance of `O`
around it. The signature leaves it out, and so its name is left out. -/
theorem resolve_parameters_of_constructor :
    let headers : List ClassHeader := [{ name := "O" }, { name := "O$I", enclosing := some ⟨0⟩ }]
    let w : Workspace :=
      { registry := ((Registry.ofHeaders headers).addMethod ⟨1⟩ "<init>"
          ⟨[.object "O", .base .int], none⟩ ["outer", "x"] []).2 }
    let out := resolve .silent {} (.ofMethod ⟨0⟩) (some "(I)V") w
    out.1 = .ok () ∧ out.2.journal.toList.filter isNaming = [] ∧
      ∃ e', out.2.registry.methodAt? ⟨0⟩ = some e' ∧ e'.params.map (·.1) = ["x"] := by
  intro headers w out
  have hok : out.1.isOk = true := by decide +kernel
  have hchosen : (w.registry.methodAt? ⟨0⟩).all (fun e => NamesFit e.argNames 1
      (w.registry.syntheticCount e 1) ∧
      chosenNames e.argNames 1 (w.registry.syntheticCount e 1) = ["x"]) = true := by
    decide +kernel
  have hcount : (match MethodSig.parse "(I)V" with
      | .ok sig => sig.params.length == 1
      | .error _ => false) = true := by decide +kernel
  have hnew : w.journal.toList = [] := rfl
  have hcall : out = resolve .silent {} (.ofMethod ⟨0⟩) (some "(I)V") w := rfl
  -- what the call is has been evaluated as far as need be
  clear_value out w
  subst hcall
  rcases hout : (resolve .silent {} (.ofMethod ⟨0⟩) (some "(I)V") w).1 with _ | ⟨⟨⟩⟩
  · rw [hout] at hok
    cases hok
  obtain ⟨sig, e, e', hparse, he, he', hnames, hreports, -⟩ :=
    resolve_parameters .silent {} ⟨0⟩ (some "(I)V") hout
  rcases hread : MethodSig.parse "(I)V" with _ | read
  · rw [hread] at hcount
    cases hcount
  obtain rfl : some read = sig := by simpa [hread] using hparse
  have hone : read.params.length = 1 := by simpa [hread] using hcount
  obtain ⟨hfit, hx⟩ : NamesFit e.argNames 1 (w.registry.syntheticCount e 1) ∧
      chosenNames e.argNames 1 (w.registry.syntheticCount e 1) = ["x"] := by
    simpa [he] using hchosen
  have hdeclared : e.declaredCount (some read) = 1 := hone
  have hleftOut : w.registry.leftOut e (some read) = w.registry.syntheticCount e 1 :=
    congrArg (w.registry.syntheticCount e) hone
  refine ⟨rfl, ?_, e', he', ?_⟩
  · rw [hreports, hnew, hdeclared, hleftOut, namingReports, if_pos (.inl hfit)]
    rfl
  · rw [hnames.names, hdeclared, hleftOut, hx]

end Workspace

end JavaGenerics
