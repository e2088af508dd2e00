import JavaGenerics.Proofs.Definedness

/-!
# What a type tells of the names in it

A symbolic type mentions type variables by name, and the type that it comes to has them by
owner and position. No mention is lost on the way: the type variables of the latter are what
the names of the former stand for, one by one and in the same order
(`JavaGenerics.Lexicon.vars_type`). An outer type is dropped in places, but only where it has
no type arguments and so no type variables either.

So a type tells what its names stood for, and two lexicons in which a class signature comes
to the same agree on every name that it borrows
(`JavaGenerics.Lexicon.var?_eq_of_classTypes`).
-/

namespace JavaGenerics

namespace ResolvedType

/-- A type that a member class would not keep has no type variables. -/
def IsDroppable (t : ResolvedType) : Prop := t.carriesArgs = false → t.vars = []

theorem isDroppable_step (outer : Option ResolvedType) (c : ClassId) (args : List ResolvedType) :
    (step outer c args).IsDroppable := by
  unfold step
  split
  · exact nofun
  · split
    · exact fun _ => rfl
    · exact nofun

/-- **A step keeps all type variables**: those of the outer type, and behind them those of the
type arguments. -/
theorem vars_step_eq {outer : Option ResolvedType} (ho : ∀ t, outer = some t → t.IsDroppable)
    (c : ClassId) (args : List ResolvedType) :
    (step outer c args).vars = (outer.map vars).getD [] ++ varsAll args := by
  unfold step
  rcases outer with _ | t
  · cases args <;> simp [varsAll, vars]
  · by_cases ht : t.carriesArgs = true
    · have hkept : (some t).filter carriesArgs = some t := by simp [Option.filter, ht]
      rw [hkept, vars]
      rfl
    · have hdropped : (some t).filter carriesArgs = none := by simp [Option.filter, ht]
      have hnone := ho t rfl (Bool.not_eq_true _ ▸ ht)
      rw [hdropped]
      cases args <;> simp [hnone, varsAll, vars]

end ResolvedType

open ResolvedType

namespace Lexicon

variable {l l' : Lexicon}

mutual

/-- **The type variables of a type** are what the names in it stand for. -/
theorem vars_type : ∀ {s : TypeSig} {t : ResolvedType}, l.type s = .ok t →
    t.vars.map some = s.varNames.map l.var?
  | .base b, t, h => by
    cases h
    rfl
  | .void, t, h => by
    cases h
    rfl
  | .var name, t, h => by
    simp only [type] at h
    split at h
    · rename_i v hv
      cases h
      simp [vars, TypeSig.varNames, hv]
    · cases h
  | .array elem, t, h => by
    obtain ⟨-, e, he, rfl⟩ := type_array_eq_ok.1 h
    simpa only [vars, TypeSig.varNames] using vars_type he
  | .ofClass outer inner, t, h => by
    simp only [type] at h
    obtain ⟨⟨name, u⟩, hu, h⟩ := bind_eq_ok.1 h
    have hnone : ∀ t : ResolvedType, none = some t → t.IsDroppable := fun _ => nofun
    obtain ⟨houter, hdrop⟩ := vars_step hnone hu
    rw [vars_steps hdrop h, TypeSig.varNames, List.map_append, houter]
    rfl

theorem vars_step {outer : Option ResolvedType} (ho : ∀ t, outer = some t → t.IsDroppable) :
    ∀ {s : Segment} {name : String} {r : String × ResolvedType}, l.step name outer s = .ok r →
      r.2.vars.map some = ((outer.map vars).getD []).map some ++ s.varNames.map l.var? ∧
        r.2.IsDroppable
  | .mk segment args, name, r, h => by
    simp only [step] at h
    obtain ⟨c, -, h⟩ := bind_eq_ok.1 h
    obtain ⟨ts, hts, h⟩ := bind_eq_ok.1 h
    cases h
    refine ⟨?_, isDroppable_step outer c ts⟩
    rw [vars_step_eq ho, List.map_append, vars_types hts]
    rfl

theorem vars_steps {name : String} {u : ResolvedType} (hu : u.IsDroppable) :
    ∀ {ss : List Segment} {t : ResolvedType}, l.steps name u ss = .ok t →
      t.vars.map some = u.vars.map some ++ (Segment.varNamesAll ss).map l.var?
  | [], t, h => by
    simp only [steps] at h
    cases h
    simp [Segment.varNamesAll]
  | s :: ss, t, h => by
    simp only [steps] at h
    obtain ⟨⟨name', u'⟩, hu', h⟩ := bind_eq_ok.1 h
    obtain ⟨hstep, hdrop⟩ := vars_step (by rintro _ ⟨⟩; exact hu) hu'
    rw [vars_steps hdrop h, hstep, Segment.varNamesAll, List.map_append, List.append_assoc]
    rfl

theorem vars_types : ∀ {as : List TypeArg} {ts : List ResolvedType}, l.types as = .ok ts →
    (varsAll ts).map some = (TypeArg.varNamesAll as).map l.var?
  | [], ts, h => by
    simp only [types] at h
    cases h
    rfl
  | a :: as, ts, h => by
    simp only [types] at h
    obtain ⟨t, ht, h⟩ := bind_eq_ok.1 h
    obtain ⟨ts', hts, h⟩ := bind_eq_ok.1 h
    cases h
    rw [varsAll, TypeArg.varNamesAll, List.map_append, List.map_append, vars_argument ht,
      vars_types hts]

theorem vars_argument : ∀ {a : TypeArg} {t : ResolvedType}, l.argument a = .ok t →
    t.vars.map some = a.varNames.map l.var?
  | .unbounded, t, h => by
    simp only [argument] at h
    cases h
    rfl
  | .bounded variance s, t, h => by
    simp only [argument] at h
    split at h
    · cases h
    · obtain ⟨u, hu, h⟩ := bind_eq_ok.1 h
      cases h
      rw [ResolvedType.vars_argument]
      exact vars_type hu

end

/-- A name that is used in a type stands for something, if the type comes to something. -/
theorem exists_var?_of_type {s : TypeSig} {t : ResolvedType} (h : l.type s = .ok t)
    {name : String} (hname : name ∈ s.varNames) : ∃ v, l.var? name = some v := by
  have hmem : l.var? name ∈ t.vars.map some := vars_type h ▸ List.mem_map_of_mem hname
  obtain ⟨v, -, hv⟩ := List.mem_map.1 hmem
  exact ⟨v, hv.symm⟩

/-- Lexicons in which a type comes to the same agree on the names in it. -/
theorem var?_eq_of_type {s : TypeSig} {t : ResolvedType} (h : l.type s = .ok t)
    (h' : l'.type s = .ok t) : ∀ name ∈ s.varNames, l.var? name = l'.var? name :=
  List.map_inj_left.1 ((vars_type h).symm.trans (vars_type h'))

/-! ### Signatures -/

/-- In both lexicons, the type comes to the same. -/
def ComesToSame (l l' : Lexicon) (s : TypeSig) : Prop := ∃ t, l.type s = .ok t ∧ l'.type s = .ok t

theorem comesToSame_of_mapM {position : Position} {ss : List TypeSig} {ts : List ResolvedType}
    (h : ss.mapM (l.typeAt position) = .ok ts) (h' : ss.mapM (l'.typeAt position) = .ok ts) :
    ∀ s ∈ ss, l.ComesToSame l' s := by
  have hall := mapM_eq_ok.1 h
  have hall' := mapM_eq_ok.1 h'
  clear h h'
  induction hall with
  | nil => exact fun s hs => absurd hs List.not_mem_nil
  | cons hst _ ih =>
    cases hall' with
    | cons hst' hrest =>
      exact List.forall_mem_cons.2 ⟨⟨_, (typeAt_eq_ok.1 hst).2, (typeAt_eq_ok.1 hst').2⟩, ih hrest⟩

theorem comesToSame_of_params {owner : Declarer} {first : Nat} {ps : List TypeParamSig}
    {tps : List TypeParam} (h : l.params owner first ps = .ok tps)
    (h' : l'.params owner first ps = .ok tps) :
    ∀ s ∈ TypeParamSig.allBounds ps, l.ComesToSame l' s := by
  induction ps generalizing first tps with
  | nil => exact fun s hs => absurd hs List.not_mem_nil
  | cons p ps ih =>
    obtain ⟨bounds, rest, hbounds, hrest, rfl⟩ := params_cons_eq_ok.1 h
    obtain ⟨bounds', rest', hbounds', hrest', heq⟩ := params_cons_eq_ok.1 h'
    cases heq
    rintro s hs
    rcases List.mem_append.1 hs with hs | hs
    · exact comesToSame_of_mapM hbounds hbounds' s hs
    · exact ih hrest hrest' s hs

/-- Where a class signature comes to the same, so do all types in it. -/
theorem comesToSame_of_classTypes {declared : List TypeParam} {c : ClassId} {sig : ClassSig}
    {types : ClassTypes} (h : l.classTypes declared c sig = .ok types)
    (h' : l'.classTypes declared c sig = .ok types) : ∀ s ∈ sig.types,
      (l.declare (.ofClass c) sig.typeParams).ComesToSame
        (l'.declare (.ofClass c) sig.typeParams) s := by
  obtain ⟨hparams, hsuper, hinterfaces⟩ := classTypes_eq_ok.1 h
  obtain ⟨hparams', hsuper', hinterfaces'⟩ := classTypes_eq_ok.1 h'
  intro s hs
  rcases List.mem_append.1 hs with hs | hs
  · exact comesToSame_of_params (introduce_eq_ok.1 hparams).2.2 (introduce_eq_ok.1 hparams').2.2
      s hs
  rcases List.mem_cons.1 hs with rfl | hs
  · exact ⟨_, (typeAt_eq_ok.1 hsuper).2, (typeAt_eq_ok.1 hsuper').2⟩
  · exact comesToSame_of_mapM hinterfaces hinterfaces' s hs

/-- What is not declared stands for what it stands for outside. -/
theorem var?_declare_of_not_mem {owner : Declarer} {ps : List TypeParamSig} {name : String}
    (h : name ∉ ps.map (·.name)) : (l.declare owner ps).var? name = l.var? name := by
  change (((ps.map (·.name)).idxOf? name).map (TypeVar.mk owner)).or (l.var? name) = _
  rw [List.idxOf?_eq_none_iff.2 h]
  rfl

end Lexicon

/-- The names that a signature borrows are used in it and not declared by it. -/
theorem ClassSig.mem_borrowedNames_iff {sig : ClassSig} {name : String} :
    name ∈ sig.borrowedNames ↔
      (∃ s ∈ sig.types, name ∈ s.varNames) ∧ name ∉ sig.typeParams.map (·.name) := by
  rw [borrowedNames, List.mem_filter, decide_eq_true_iff, ← List.mem_flatMap]
  refine and_congr_left fun _ => ?_
  simp [types, TypeParamSig.allBounds, List.flatMap_assoc]

namespace Lexicon

variable {l l' : Lexicon} {declared : List TypeParam} {c : ClassId} {sig : ClassSig}
  {types : ClassTypes} {name : String}

/-- **A class signature that comes to something** borrows only names that stand for
something. -/
theorem exists_var?_of_classTypes (h : l.classTypes declared c sig = .ok types)
    (hname : name ∈ sig.borrowedNames) : ∃ v, l.var? name = some v := by
  obtain ⟨⟨s, hs, hused⟩, hown⟩ := ClassSig.mem_borrowedNames_iff.1 hname
  obtain ⟨t, ht, -⟩ := comesToSame_of_classTypes h h s hs
  obtain ⟨v, hv⟩ := exists_var?_of_type ht hused
  exact ⟨v, (var?_declare_of_not_mem hown).symm.trans hv⟩

/-- **Lexicons in which a class signature comes to the same** agree on the names that it
borrows. -/
theorem var?_eq_of_classTypes (h : l.classTypes declared c sig = .ok types)
    (h' : l'.classTypes declared c sig = .ok types) (hname : name ∈ sig.borrowedNames) :
    l.var? name = l'.var? name := by
  obtain ⟨⟨s, hs, hused⟩, hown⟩ := ClassSig.mem_borrowedNames_iff.1 hname
  obtain ⟨t, ht, ht'⟩ := comesToSame_of_classTypes h h' s hs
  have heq := var?_eq_of_type ht ht' name hused
  rwa [var?_declare_of_not_mem hown, var?_declare_of_not_mem hown] at heq

end Lexicon

end JavaGenerics
