import JavaGenerics.Proofs.Meaning

/-!
# Renaming type variables

The names of type variables in a signature are words like others, and if they are replaced by
other words that stand for other type variables, the types in the signature come out with
these variables instead of the old ones
(`JavaGenerics.Lexicon.type_renameVars`, `JavaGenerics.Lexicon.typeAt_renameVars`). It is an
equation between results, so errors come out alike as well; for that, a name that stands for
nothing must not be replaced.

Nothing is asked of the two maps, the one of names and the one of type variables, but that they
fit together (`JavaGenerics.Lexicon.Renames`).
-/

namespace JavaGenerics

/-! ### Renamed types -/

mutual

/-- A symbolic type with its type variables renamed. -/
def TypeSig.renameVars (g : String → String) : TypeSig → TypeSig
  | .base b => .base b
  | .void => .void
  | .var name => .var (g name)
  | .array elem => .array (elem.renameVars g)
  | .ofClass outer inner => .ofClass (outer.renameVars g) (Segment.renameVarsAll g inner)

/-- A step of a class type with the type variables in its arguments renamed. -/
def Segment.renameVars (g : String → String) : Segment → Segment
  | .mk name args => .mk name (TypeArg.renameVarsAll g args)

/-- Steps of a class type with the type variables in their arguments renamed. -/
def Segment.renameVarsAll (g : String → String) : List Segment → List Segment
  | [] => []
  | s :: ss => s.renameVars g :: Segment.renameVarsAll g ss

/-- Type arguments with their type variables renamed. -/
def TypeArg.renameVarsAll (g : String → String) : List TypeArg → List TypeArg
  | [] => []
  | a :: as => a.renameVars g :: TypeArg.renameVarsAll g as

/-- A type argument with its type variables renamed. -/
def TypeArg.renameVars (g : String → String) : TypeArg → TypeArg
  | .unbounded => .unbounded
  | .bounded v t => .bounded v (t.renameVars g)

end

mutual

/-- A resolved type with its type variables replaced. -/
def ResolvedType.mapVars (σ : TypeVar → TypeVar) : ResolvedType → ResolvedType
  | .base b => .base b
  | .void => .void
  | .raw c => .raw c
  | .parameterized c args => .parameterized c (mapVarsAll σ args)
  | .member outer c args => .member (outer.mapVars σ) c (mapVarsAll σ args)
  | .var v => .var (σ v)
  | .array elem => .array (elem.mapVars σ)
  | .unbounded => .unbounded
  | .upper bound => .upper (bound.mapVars σ)
  | .lower bound => .lower (bound.mapVars σ)

/-- Resolved types with their type variables replaced. -/
def ResolvedType.mapVarsAll (σ : TypeVar → TypeVar) : List ResolvedType → List ResolvedType
  | [] => []
  | t :: ts => t.mapVars σ :: mapVarsAll σ ts

end

namespace ResolvedType

variable (σ : TypeVar → TypeVar)

theorem mapVarsAll_eq_map (ts : List ResolvedType) : mapVarsAll σ ts = ts.map (mapVars σ) := by
  induction ts with
  | nil => rfl
  | cons t ts ih => rw [mapVarsAll, ih, List.map_cons]

/-- A type stays one of its class. -/
@[simp] theorem class?_mapVars (t : ResolvedType) : (t.mapVars σ).class? = t.class? := by
  cases t <;> simp [mapVars, class?]

@[simp] theorem carriesArgs_mapVars (t : ResolvedType) :
    (t.mapVars σ).carriesArgs = t.carriesArgs := by
  cases t <;> simp [mapVars, carriesArgs]

theorem mapVars_step (outer : Option ResolvedType) (c : ClassId) (args : List ResolvedType) :
    (step outer c args).mapVars σ =
      step (outer.map (mapVars σ)) c (args.map (mapVars σ)) := by
  have hfilter : (outer.map (mapVars σ)).filter carriesArgs =
      (outer.filter carriesArgs).map (mapVars σ) := by
    cases outer with
    | none => rfl
    | some t => by_cases h : t.carriesArgs = true <;> simp [Option.filter, h]
  unfold step
  rw [hfilter]
  cases outer.filter carriesArgs with
  | some t => simp [mapVars, mapVarsAll_eq_map]
  | none => cases args <;> simp [mapVars, mapVarsAll_eq_map]

theorem mapVars_argument (variance : Variance) (t : ResolvedType) :
    (argument variance t).mapVars σ = argument variance (t.mapVars σ) := by
  cases variance <;> simp [argument, mapVars]

end ResolvedType

/-- A type stays where it may stand. -/
theorem Position.complaint?_renameVars (position : Position) (g : String → String) (t : TypeSig) :
    position.complaint? (t.renameVars g) = position.complaint? t := by
  cases position <;> cases t <;> simp [TypeSig.renameVars, Position.complaint?]

theorem TypeSig.renameVars_ne_void {g : String → String} {t : TypeSig} (h : t ≠ .void) :
    t.renameVars g ≠ .void := by
  cases t <;> simp_all [renameVars]

/-! ### What renamed types come to -/

/-- Two computations in two parts have results that correspond, if those of their parts do. -/
theorem bind_eq_map_bind {α α' β β' : Type} {x : Except ResolveError α}
    {x' : Except ResolveError α'} {k : α → α'} {f : α → Except ResolveError β}
    {f' : α' → Except ResolveError β'} {h : β → β'} (hx : x' = x.map k)
    (hf : ∀ a, f' (k a) = (f a).map h) : (x' >>= f') = (x >>= f).map h := by
  subst hx
  cases x with
  | error e => rfl
  | ok a => exact hf a

namespace Lexicon

variable {l l' : Lexicon} {g : String → String} {σ : TypeVar → TypeVar} {names : List String}

/-- **`l'` gives the classes that `l` gives, and the type variables by other names**: for the
names in `names`, `g` says by which names, and `σ` which type variables these are. -/
structure Renames (l l' : Lexicon) (g : String → String) (σ : TypeVar → TypeVar)
    (names : List String) : Prop where
  class?_eq : l'.class? = l.class?
  var?_eq : ∀ name ∈ names, l'.var? (g name) = (l.var? name).map σ
  missing : ∀ name ∈ names, l.var? name = none → g name = name

theorem Renames.mono {names' : List String} (h : l.Renames l' g σ names')
    (hn : ∀ name ∈ names, name ∈ names') : l.Renames l' g σ names :=
  ⟨h.class?_eq, fun name hm => h.var?_eq name (hn name hm),
    fun name hm => h.missing name (hn name hm)⟩

mutual

/-- **A renamed type comes to what the type comes to**, with the type variables replaced. -/
theorem type_renameVars : ∀ {t : TypeSig}, l.Renames l' g σ t.varNames →
    l'.type (t.renameVars g) = (l.type t).map (·.mapVars σ)
  | .base b, _ => by simp [TypeSig.renameVars, type, Except.map, ResolvedType.mapVars]
  | .void, _ => by simp [TypeSig.renameVars, type, Except.map, ResolvedType.mapVars]
  | .var name, h => by
    have hmem : name ∈ TypeSig.varNames (.var name) := List.mem_singleton_self name
    simp only [TypeSig.renameVars, type, h.var?_eq name hmem]
    cases hv : l.var? name with
    | none => simp [Except.map, h.missing name hmem hv]
    | some v => simp [Except.map, ResolvedType.mapVars]
  | .array elem, h => by
    by_cases hvoid : elem = .void
    · subst hvoid
      simp [TypeSig.renameVars, type, Except.map]
    · rw [TypeSig.renameVars, type.eq_5 l elem hvoid,
        type.eq_5 l' _ (TypeSig.renameVars_ne_void hvoid)]
      refine bind_eq_map_bind (type_renameVars (t := elem) h) fun t => ?_
      simp [Except.map, pure, Except.pure, ResolvedType.mapVars]
  | .ofClass outer inner, h => by
    simp only [TypeSig.renameVars, type]
    have houter : l.Renames l' g σ outer.varNames := h.mono fun _ => List.mem_append_left _
    have hinner : l.Renames l' g σ (Segment.varNamesAll inner) :=
      h.mono fun _ => List.mem_append_right _
    have hstep : l'.step "" none (outer.renameVars g) =
        (l.step "" none outer).map (Prod.map id (·.mapVars σ)) := step_renameVars houter none
    exact bind_eq_map_bind hstep fun r => steps_renameVars hinner

theorem step_renameVars : ∀ {s : Segment} {name : String}, l.Renames l' g σ s.varNames →
    ∀ outer : Option ResolvedType,
      l'.step name (outer.map (·.mapVars σ)) (s.renameVars g) =
        (l.step name outer s).map (Prod.map id (·.mapVars σ))
  | .mk segment args, name, h, outer => by
    simp only [Segment.renameVars, step]
    have hclass : l'.classNamed (joinName name segment) =
        (l.classNamed (joinName name segment)).map id := by
      rw [classNamed_congr h.class?_eq]
      cases l.classNamed (joinName name segment) <;> rfl
    refine bind_eq_map_bind hclass fun c => bind_eq_map_bind (types_renameVars h) fun ts => ?_
    simp [Except.map, pure, Except.pure, ResolvedType.mapVars_step]

theorem steps_renameVars : ∀ {ss : List Segment} {name : String} {u : ResolvedType},
    l.Renames l' g σ (Segment.varNamesAll ss) →
      l'.steps name (u.mapVars σ) (Segment.renameVarsAll g ss) =
        (l.steps name u ss).map (·.mapVars σ)
  | [], name, u, _ => by simp [Segment.renameVarsAll, steps, Except.map]
  | s :: ss, name, u, h => by
    simp only [Segment.renameVarsAll, steps]
    have hs : l.Renames l' g σ s.varNames := h.mono fun _ => List.mem_append_left _
    have hss : l.Renames l' g σ (Segment.varNamesAll ss) := h.mono fun _ => List.mem_append_right _
    exact bind_eq_map_bind (step_renameVars hs (some u)) fun r => steps_renameVars hss

theorem types_renameVars : ∀ {as : List TypeArg}, l.Renames l' g σ (TypeArg.varNamesAll as) →
    l'.types (TypeArg.renameVarsAll g as) = (l.types as).map (List.map (·.mapVars σ))
  | [], _ => by simp [TypeArg.renameVarsAll, types, Except.map]
  | a :: as, h => by
    simp only [TypeArg.renameVarsAll, types]
    have ha : l.Renames l' g σ a.varNames := h.mono fun _ => List.mem_append_left _
    have has : l.Renames l' g σ (TypeArg.varNamesAll as) := h.mono fun _ => List.mem_append_right _
    refine bind_eq_map_bind (argument_renameVars ha) fun t =>
      bind_eq_map_bind (types_renameVars has) fun ts => ?_
    simp [Except.map, pure, Except.pure]

theorem argument_renameVars : ∀ {a : TypeArg}, l.Renames l' g σ a.varNames →
    l'.argument (a.renameVars g) = (l.argument a).map (·.mapVars σ)
  | .unbounded, _ => by simp [TypeArg.renameVars, argument, Except.map, ResolvedType.mapVars]
  | .bounded variance t, h => by
    simp only [TypeArg.renameVars, argument, Position.complaint?_renameVars]
    cases Position.reference.complaint? t with
    | some cause => rfl
    | none =>
      refine bind_eq_map_bind (type_renameVars (t := t) h) fun u => ?_
      simp [Except.map, pure, Except.pure, ResolvedType.mapVars_argument]

end

/-- A renamed type comes to the same at every position. -/
theorem typeAt_renameVars (position : Position) {t : TypeSig} (h : l.Renames l' g σ t.varNames) :
    l'.typeAt position (t.renameVars g) = (l.typeAt position t).map (·.mapVars σ) := by
  unfold typeAt
  rw [Position.complaint?_renameVars]
  cases position.complaint? t with
  | some cause => rfl
  | none => exact type_renameVars h

/-- Types that stand at positions of one kind, one after the other. -/
theorem mapM_typeAt_renameVars (position : Position) {ts : List TypeSig}
    (h : l.Renames l' g σ (ts.flatMap TypeSig.varNames)) :
    (ts.map (·.renameVars g)).mapM (l'.typeAt position) =
      (ts.mapM (l.typeAt position)).map (List.map (·.mapVars σ)) := by
  induction ts with
  | nil => rfl
  | cons t ts ih =>
    rw [List.flatMap_cons] at h
    have ht : l.Renames l' g σ t.varNames := h.mono fun _ => List.mem_append_left _
    have hts : l.Renames l' g σ (ts.flatMap TypeSig.varNames) :=
      h.mono fun _ => List.mem_append_right _
    rw [List.map_cons, List.mapM_cons, List.mapM_cons]
    exact bind_eq_map_bind (typeAt_renameVars position ht) fun u =>
      bind_eq_map_bind (ih hts) fun us => rfl

end Lexicon

end JavaGenerics
