import JavaGenerics.Proofs.Definedness
import JavaGenerics.Proofs.Frame

/-!
# Class types with several steps

A class type of a signature may lead inwards step by step, with type arguments at every step
or at some only. What it resolves to is a class type that is seen from another, and so on
outwards. `JavaGenerics.Resolution.resolve_memberType` says which of the steps are still
there: those from the first with type arguments on. The steps before it only name their
classes, as the dollar signs in an internal name do; so the two spellings of such a type
resolve to the same.

A step adds one layer to the type that it starts from, unless there is nothing to be kept of
that type (`JavaGenerics.ResolvedType.IsBuiltOf.step`). The rest is an induction along the
steps.
-/

namespace JavaGenerics

open Attempt

/-! ### Layers of a resolved type -/

namespace ResolvedType

/-- The class types from which a type is seen, innermost first. -/
def around : ResolvedType → List ResolvedType
  | member outer _ _ => outer :: outer.around
  | _ => []

/-- The class and the type arguments of a class type that is not raw. -/
def layer? : ResolvedType → Option (ClassId × List ResolvedType)
  | parameterized c args => some (c, args)
  | member _ c args => some (c, args)
  | _ => none

/-- **What the steps of a class type leave**: a raw class if no step has type arguments, and
otherwise a layer for each step from the first that has some, the last step innermost. -/
structure IsBuiltOf (t : ResolvedType) (path : List (ClassId × List ResolvedType)) : Prop where
  raw : (∀ s ∈ path, s.2 = []) → ∃ c, path.getLast?.map Prod.fst = some c ∧ t = .raw c
  layers : (∃ s ∈ path, s.2 ≠ []) →
    (t :: t.around).map layer? = (path.dropWhile (·.2.isEmpty)).reverse.map some

variable {t : ResolvedType} {path : List (ClassId × List ResolvedType)}

theorem carriesArgs_of_layer? {s : ClassId × List ResolvedType} (h : t.layer? = some s) :
    t.carriesArgs = true := by
  cases t with
  | parameterized c args => rfl
  | member outer c args => rfl
  | _ => cases h

/-- A first step. -/
theorem isBuiltOf_step_none (c : ClassId) (args : List ResolvedType) :
    (step none c args).IsBuiltOf [(c, args)] := by
  cases args with
  | nil => exact ⟨fun _ => ⟨c, rfl, rfl⟩, by simp⟩
  | cons a args => exact ⟨by simp, fun _ => rfl⟩

/-- **One step inwards** leaves one layer more, or no layer yet. -/
theorem IsBuiltOf.step (h : t.IsBuiltOf path) (c : ClassId) (args : List ResolvedType) :
    (ResolvedType.step (some t) c args).IsBuiltOf (path ++ [(c, args)]) := by
  by_cases hpath : ∀ s ∈ path, s.2 = []
  · -- nothing is kept of a raw type, so that this is like a first step
    obtain ⟨d, -, rfl⟩ := h.raw hpath
    have hfirst := isBuiltOf_step_none c args
    have hdrop : (path ++ [(c, args)]).dropWhile (·.2.isEmpty) =
        [(c, args)].dropWhile (·.2.isEmpty) :=
      List.dropWhile_append_of_pos fun s hs => by simp [hpath s hs]
    refine ⟨fun hall => ⟨c, by simp, ?_⟩, fun hsome => ?_⟩
    · obtain ⟨_, hc, ht⟩ := hfirst.raw fun s hs => hall s (List.mem_append_right _ hs)
      cases hc
      exact ht
    · obtain ⟨s, hs, hargs⟩ := hsome
      have hs' : s ∈ [(c, args)] :=
        (List.mem_append.1 hs).resolve_left fun hs => hargs (hpath s hs)
      rw [hdrop]
      exact hfirst.layers ⟨s, hs', hargs⟩
  · push Not at hpath
    obtain ⟨s, hs, hargs⟩ := hpath
    have hlayers := h.layers ⟨s, hs, hargs⟩
    have hkept : path.dropWhile (·.2.isEmpty) ≠ [] := by
      intro hnil
      exact hargs (by simpa using List.dropWhile_eq_nil_iff.1 hnil s hs)
    have hcarries : t.carriesArgs = true := by
      have hlayer : t.layer? ∈ (path.dropWhile (·.2.isEmpty)).reverse.map some := by
        rw [← hlayers]
        exact List.mem_cons_self
      obtain ⟨_, -, hlayer⟩ := List.mem_map.1 hlayer
      exact carriesArgs_of_layer? hlayer.symm
    have hstep : ResolvedType.step (some t) c args = .member t c args := by
      simp [ResolvedType.step, Option.filter, hcarries]
    refine ⟨fun hall => absurd (hall s (List.mem_append_left _ hs)) hargs, fun _ => ?_⟩
    rw [hstep, List.dropWhile_append, if_neg (by simpa using hkept), List.reverse_append]
    exact congrArg (some (c, args) :: ·) hlayers

end ResolvedType

/-! ### The steps of a class type -/

/-- The steps inwards from the class named `outer`, each with the name of the class that it
leads to. -/
def Segment.named (outer : String) : List Segment → List (String × Segment)
  | [] => []
  | s :: ss => (outer ++ "$" ++ s.name, s) :: Segment.named (outer ++ "$" ++ s.name) ss

/-- The steps of a class type, each with the binary name of the class that it leads to. -/
def Segment.path (outer : Segment) (inner : List Segment) : List (String × Segment) :=
  (internalToBinary outer.name, outer) :: named (internalToBinary outer.name) inner

/-- A class type with dollar signs in place of its steps, as a single step: with the type
arguments of the last step. -/
def Segment.joined (outer : Segment) (inner : List Segment) : Segment :=
  .mk (memberName outer.name inner) ((outer :: inner).getLast (List.cons_ne_nil outer inner)).args

theorem internalToBinary_append (name name' : String) :
    internalToBinary (name ++ name') = internalToBinary name ++ internalToBinary name' :=
  String.toList_inj.1 (by simp [internalToBinary])

theorem internalToBinary_of_noSlash {name : String} (h : '/' ∉ name.toList) :
    internalToBinary name = name := by
  have hchars : ∀ c ∈ name.toList, (if c = '/' then '.' else c) = c := by
    intro c hc
    refine if_neg ?_
    rintro rfl
    exact h hc
  refine String.toList_inj.1 ?_
  rw [internalToBinary, String.toList_map, List.map_congr_left hchars]
  exact List.map_id' _

theorem internalToBinary_memberName {outer : String} {inner : List Segment}
    (h : ∀ s ∈ inner, '/' ∉ s.name.toList) :
    internalToBinary (Segment.memberName outer inner) =
      Segment.memberName (internalToBinary outer) inner := by
  induction inner generalizing outer with
  | nil => rfl
  | cons s ss ih =>
    obtain ⟨hs, hss⟩ := List.forall_mem_cons.1 h
    have hdollar : internalToBinary "$" = "$" := internalToBinary_of_noSlash (by simp)
    have hjoined : internalToBinary (outer ++ "$" ++ s.name) =
        internalToBinary outer ++ "$" ++ s.name := by
      rw [internalToBinary_append, internalToBinary_append, internalToBinary_of_noSlash hs, hdollar]
    exact (ih hss).trans (by rw [hjoined]; rfl)

namespace Lexicon

variable {l : Lexicon} {t u : ResolvedType} {outer s : Segment} {inner ss : List Segment}

/-- What one step of a class type comes to by itself: its class and its type arguments. -/
structure Reaches (l : Lexicon) (s : String × Segment) (r : ClassId × List ResolvedType) :
    Prop where
  found : l.class? s.1 = some r.1
  args : l.types s.2.args = .ok r.2

theorem step_eq_ok_iff {name : String} {outer : Option ResolvedType}
    {r : String × ResolvedType} :
    l.step name outer s = .ok r ↔ ∃ c ts, l.Reaches (joinName name s.name, s) (c, ts) ∧
      r = (joinName name s.name, .step outer c ts) := by
  obtain ⟨segment, args⟩ := s
  simp only [step, bind_eq_ok, classNamed_eq_ok]
  constructor
  · rintro ⟨c, hc, ts, hts, h⟩
    cases h
    exact ⟨c, ts, ⟨hc, hts⟩, rfl⟩
  · rintro ⟨c, ts, ⟨hc, hts⟩, rfl⟩
    exact ⟨c, hc, ts, hts, rfl⟩

/-- Steps inwards build on what there is. -/
theorem isBuiltOf_steps {name : String} {path : List (ClassId × List ResolvedType)}
    (hname : name ≠ "") (ht : t.IsBuiltOf path) (h : l.steps name t ss = .ok u) :
    ∃ more, List.Forall₂ l.Reaches (Segment.named name ss) more ∧ u.IsBuiltOf (path ++ more) := by
  induction ss generalizing name t path with
  | nil =>
    simp only [steps] at h
    cases h
    exact ⟨[], .nil, by rwa [List.append_nil]⟩
  | cons s ss ih =>
    simp only [steps] at h
    obtain ⟨r, hstep, h⟩ := bind_eq_ok.1 h
    obtain ⟨c, ts, hreaches, rfl⟩ := step_eq_ok_iff.1 hstep
    rw [joinName_of_ne hname] at hreaches h
    obtain ⟨more, hmore, hu⟩ := ih (memberName_ne hname _) (ht.step c ts) h
    exact ⟨(c, ts) :: more, .cons hreaches hmore, by simpa using hu⟩

/-- **A class type is built of its steps.** -/
theorem isBuiltOf_type (hname : outer.name ≠ "") (h : l.type (.ofClass outer inner) = .ok u) :
    ∃ path, List.Forall₂ l.Reaches (Segment.path outer inner) path ∧ u.IsBuiltOf path := by
  simp only [type] at h
  obtain ⟨r, hstep, h⟩ := bind_eq_ok.1 h
  obtain ⟨c, ts, hreaches, rfl⟩ := step_eq_ok_iff.1 hstep
  rw [joinName_empty] at hreaches h
  obtain ⟨more, hmore, hu⟩ := isBuiltOf_steps (internalToBinary_ne hname)
    (ResolvedType.isBuiltOf_step_none c ts) h
  exact ⟨(c, ts) :: more, .cons hreaches hmore, hu⟩

/-- What a single step to the class `name` comes to. -/
def single (l : Lexicon) (name : String) (args : List TypeArg) :
    Except ResolveError ResolvedType := do
  let c ← l.classNamed name
  let ts ← l.types args
  pure (.step none c ts)

theorem type_single (l : Lexicon) (name : String) (args : List TypeArg) :
    l.type (.ofClass (.mk name args) []) = l.single (internalToBinary name) args := by
  simp only [type, step, joinName_empty, bind_assoc, pure_bind, steps]
  rfl

/-- Steps without type arguments do no more than name their classes. -/
theorem steps_of_bare {name : String} {c : ClassId} (hname : name ≠ "") (s : Segment)
    (ss : List Segment) (hbare : ∀ s' ∈ (s :: ss).dropLast, s'.args = [])
    (hfound : ∀ step ∈ (Segment.named name (s :: ss)).dropLast, (l.class? step.1).isSome) :
    l.steps name (.raw c) (s :: ss) = l.single (Segment.memberName name (s :: ss))
      ((s :: ss).getLast (List.cons_ne_nil s ss)).args := by
  induction ss generalizing name c s with
  | nil =>
    obtain ⟨segment, args⟩ := s
    simp only [steps, step, joinName_of_ne hname, bind_assoc, pure_bind]
    rfl
  | cons s' ss ih =>
    have hargs : s.args = [] := hbare s List.mem_cons_self
    obtain ⟨d, hd⟩ := Option.isSome_iff_exists.1
      (hfound (name ++ "$" ++ s.name, s) List.mem_cons_self)
    have hstep : l.step name (some (.raw c)) s = .ok (name ++ "$" ++ s.name, .raw d) :=
      step_eq_ok_iff.2 ⟨d, [], ⟨by rwa [joinName_of_ne hname], by rw [hargs]; rfl⟩,
        by rw [joinName_of_ne hname]; rfl⟩
    have hrest := ih (c := d) (memberName_ne hname s.name) s'
      (fun t ht => hbare t (List.mem_cons_of_mem _ ht))
      (fun t ht => hfound t (List.mem_cons_of_mem _ ht))
    rw [steps, hstep]
    exact hrest

/-- **Leading steps without type arguments** may as well be written with dollar signs. -/
theorem type_joined (hname : outer.name ≠ "") (hslash : ∀ s ∈ inner, '/' ∉ s.name.toList)
    (hbare : ∀ s ∈ (outer :: inner).dropLast, s.args = [])
    (hfound : ∀ s ∈ (Segment.path outer inner).dropLast, (l.class? s.1).isSome) :
    l.type (.ofClass outer inner) = l.type (.ofClass (Segment.joined outer inner) []) := by
  cases inner with
  | nil =>
    obtain ⟨segment, args⟩ := outer
    rfl
  | cons s ss =>
    have hargs : outer.args = [] := hbare outer List.mem_cons_self
    obtain ⟨c, hc⟩ := Option.isSome_iff_exists.1
      (hfound (internalToBinary outer.name, outer) List.mem_cons_self)
    have hstep : l.step "" none outer = .ok (internalToBinary outer.name, .raw c) :=
      step_eq_ok_iff.2 ⟨c, [], ⟨hc, by rw [hargs]; rfl⟩, rfl⟩
    have hrest := steps_of_bare (c := c) (internalToBinary_ne hname) s ss
      (fun t ht => hbare t (List.mem_cons_of_mem _ ht))
      (fun t ht => hfound t (List.mem_cons_of_mem _ ht))
    rw [type, hstep]
    refine hrest.trans ?_
    rw [Segment.joined, type_single, internalToBinary_memberName hslash]
    rfl

end Lexicon

/-! ### The types that a resolution comes to -/

namespace Resolution

/-- **What a resolution makes of one step** of a class type by itself: the class that is
registered under its name, and one type for each of its type arguments. -/
structure Reaches (res : Resolution) (scope : Scope) (p : Progress) (s : String × Segment)
    (r : ClassId × List ResolvedType) : Prop where
  found : p.workspace.registry.lookup s.1 = some r.1
  args : ((res.resolveArgs scope s.2.args).outcome p).1 = .ok r.2
  length : r.2.length = s.2.args.length

/-- **What a class type with several steps resolves to**, whoever is asked, and wherever the
resolution stands. The classes of all steps are registered, and the type is built of the
steps. Where only the last step has type arguments, dollar signs say the same. -/
theorem resolve_memberType (k : Collaborator) (options : Options) (r : Registry) (t : Target)
    (scope : Scope) (p : Progress) {outer : Segment} {inner : List Segment}
    (hname : outer.name ≠ "") :
    let res := k.resolution options r t
    (∀ u, ((res.resolve scope (.ofClass outer inner)).outcome p).1 = .ok u →
      ∃ path, List.Forall₂ (res.Reaches scope p) (Segment.path outer inner) path ∧
        (∃ c, p.workspace.registry.lookup
          (Segment.memberName (internalToBinary outer.name) inner) = some c ∧
          u.class? = some c) ∧
        u.IsBuiltOf path) ∧
    ((∀ s ∈ inner, '/' ∉ s.name.toList) → (∀ s ∈ (outer :: inner).dropLast, s.args = []) →
      (∀ s ∈ (Segment.path outer inner).dropLast, (p.workspace.registry.lookup s.1).isSome) →
      ((res.resolve scope (.ofClass outer inner)).outcome p).1 =
        ((res.resolve scope (.ofClass (Segment.joined outer inner) [])).outcome p).1) := by
  intro res
  let l : Lexicon := ⟨p.workspace.registry.lookup, scope.resolve⟩
  have hsettled : res.Settled (Progress.Since (fun _ => True) p.workspace.registry) l :=
    settled_of_evolves (k.askWithin_evolves Registry.stable_trivial (k.serves_trivial _) _)
      fun _ => rfl
  have hp : Progress.Since (fun _ => True) p.workspace.registry p := .refl _ _
  have htype : ∀ t, ((res.resolve scope t).outcome p).1 = l.type t :=
    fun t => (computes_type hsettled rfl t p hp).1
  have hargs : ∀ as, ((res.resolveArgs scope as).outcome p).1 = l.types as :=
    fun as => (computes_types hsettled rfl as p hp).1
  refine ⟨fun u hu => ?_, fun hslash hbare hfound => ?_⟩
  · rw [htype] at hu
    obtain ⟨path, hpath, hbuilt⟩ := Lexicon.isBuiltOf_type hname hu
    refine ⟨path, hpath.imp fun s t h => ?_, Lexicon.class?_type hname hu, hbuilt⟩
    exact ⟨h.found, (hargs _).trans h.args, Lexicon.length_types h.args⟩
  · rw [htype, htype]
    exact Lexicon.type_joined hname hslash hbare hfound

/-- In `LO.M<*>.N;` the step to `O` leaves no trace, and the one to `N` leaves a layer although
it has no type arguments; `LO.M.N<*>;` is the same as `LO$M$N<*>;`. -/
theorem resolve_memberType_of_nested :
    let res := Collaborator.silent.resolution {} {} (.ofField ⟨0⟩)
    let w : Workspace :=
      { registry := .ofHeaders [{ name := "O" }, { name := "O$M" }, { name := "O$M$N" }] }
    let p : Progress := { workspace := w }
    let u : ResolvedType := .member (.parameterized ⟨1⟩ [.unbounded]) ⟨2⟩ []
    ((res.resolve {} (.ofClass (.mk "O" []) [.mk "M" [.unbounded], .mk "N" []])).outcome p).1 =
        .ok u ∧
      (∃ path, List.Forall₂ (res.Reaches {} p)
        (Segment.path (.mk "O" []) [.mk "M" [.unbounded], .mk "N" []]) path ∧
        u.IsBuiltOf path) ∧
      ((res.resolve {} (.ofClass (.mk "O" []) [.mk "M" [], .mk "N" [.unbounded]])).outcome p).1 =
        ((res.resolve {} (.ofClass (.mk "O$M$N" [.unbounded]) [])).outcome p).1 := by
  intro res w p u
  have hresolved : ((res.resolve {} (.ofClass (.mk "O" [])
      [.mk "M" [.unbounded], .mk "N" []])).outcome p).1 = .ok u := by with_unfolding_all rfl
  have hname : (Segment.mk "O" []).name ≠ "" := by decide
  obtain ⟨path, hpath, -, hbuilt⟩ :=
    (resolve_memberType .silent {} {} (.ofField ⟨0⟩) {} p hname).1 u hresolved
  refine ⟨hresolved, ⟨path, hpath, hbuilt⟩, ?_⟩
  refine ((resolve_memberType .silent {} {} (.ofField ⟨0⟩) {} p hname).2 ?_ ?_ ?_).trans ?_
  · simp [Segment.name]
  · simp [Segment.args]
  · decide +kernel
  · rfl

end Resolution

end JavaGenerics
