import JavaGenerics.Signature.Event
import Mathlib.Data.List.Chain

/-!
# Grammatical signatures

The trees behind signatures are looser than what a signature text can say. This file
picks out the trees that follow the grammar – which names they may hold, which types
may stand where – without a word about reading.

Two more things decide whether the text of such a tree can be read: how deep arrays
and type argument lists nest in it (`JavaGenerics.TypeSig.nesting`), and whether a type
parameter without any bound stands directly before one whose name looks like the
beginning of a bound (`JavaGenerics.TypeParamSig.Separated`). The trees that meet all
of this are the *readable* ones.

As a list of events a tree loses nothing: different trees have different events
(`JavaGenerics.ClassSig.events_injective` and its companions), because the events of a
type tell where the type ends.
-/

namespace JavaGenerics

/-! ### Names -/

/-- An unqualified name: it is not empty and holds none of the characters that delimit
names. -/
def IsName (name : String) : Prop :=
  name.toList ≠ [] ∧ ∀ c ∈ name.toList, c ∉ ['.', ';', '[', '/', '<', '>', ':']

/-- The internal name of a class: names joined by single slashes. -/
def IsClassName (name : String) : Prop :=
  ∃ parts : List String, parts ≠ [] ∧ (∀ part ∈ parts, IsName part) ∧
    name = "/".intercalate parts

/-! ### Types -/

mutual

/-- A type of the grammar: a primitive type or a reference type. -/
inductive TypeSig.IsValue : TypeSig → Prop where
  | base (b : BaseType) : TypeSig.IsValue (.base b)
  | reference {t : TypeSig} (h : TypeSig.IsReference t) :
      TypeSig.IsValue t

/-- A reference type: a class type, a type variable or an array. -/
inductive TypeSig.IsReference : TypeSig → Prop where
  | ofClass {t : TypeSig} (h : TypeSig.IsClass t) :
      TypeSig.IsReference t
  | var {name : String} (h : IsName name) : TypeSig.IsReference (.var name)
  | array {elem : TypeSig} (h : TypeSig.IsValue elem) :
      TypeSig.IsReference (.array elem)

/-- A class type: the name of a class, perhaps type arguments, and member classes. -/
inductive TypeSig.IsClass : TypeSig → Prop where
  | mk {name : String} {args : List TypeArg} {inner : List Segment} (hname : IsClassName name)
      (hargs : ∀ a ∈ args, TypeArg.IsArgument a)
      (hinner : ∀ s ∈ inner, Segment.IsMember s) : TypeSig.IsClass (.ofClass (.mk name args) inner)

/-- A step to a member class: its name, and perhaps type arguments. -/
inductive Segment.IsMember : Segment → Prop where
  | mk {name : String} {args : List TypeArg} (hname : IsName name)
      (hargs : ∀ a ∈ args, TypeArg.IsArgument a) : Segment.IsMember (.mk name args)

/-- A type argument: a wildcard, or a reference type with its variance. -/
inductive TypeArg.IsArgument : TypeArg → Prop where
  | unbounded : TypeArg.IsArgument .unbounded
  | bounded {t : TypeSig} (v : Variance) (h : TypeSig.IsReference t) :
      TypeArg.IsArgument (.bounded v t)

end

/-- What may be thrown: a class type or a type variable. -/
inductive TypeSig.IsThrown : TypeSig → Prop where
  | ofClass {t : TypeSig} (h : t.IsClass) : IsThrown t
  | var {name : String} (h : IsName name) : IsThrown (.var name)

/-- What a method may return: `void` or a type. -/
inductive TypeSig.IsResult : TypeSig → Prop where
  | void : IsResult .void
  | value {t : TypeSig} (h : t.IsValue) : IsResult t

/-! ### Nesting -/

mutual

/-- How deep arrays and type argument lists nest in a type, on the deepest path. -/
def TypeSig.nesting : TypeSig → Nat
  | .base _ => 0
  | .void => 0
  | .var _ => 0
  | .array elem => elem.nesting + 1
  | .ofClass outer inner => max outer.nesting (Segment.nestingAll inner)

/-- How deep arrays and type argument lists nest in a step of a class type. -/
def Segment.nesting : Segment → Nat
  | .mk _ [] => 0
  | .mk _ (arg :: args) => max arg.nesting (TypeArg.nestingAll args) + 1

/-- The deepest nesting in some steps of a class type. -/
def Segment.nestingAll : List Segment → Nat
  | [] => 0
  | s :: ss => max s.nesting (Segment.nestingAll ss)

/-- The deepest nesting in some type arguments. -/
def TypeArg.nestingAll : List TypeArg → Nat
  | [] => 0
  | arg :: args => max arg.nesting (TypeArg.nestingAll args)

/-- How deep arrays and type argument lists nest in a type argument. -/
def TypeArg.nesting : TypeArg → Nat
  | .unbounded => 0
  | .bounded _ t => t.nesting

end

theorem Segment.nestingAll_le_iff {ss : List Segment} {n : Nat} :
    Segment.nestingAll ss ≤ n ↔ ∀ s ∈ ss, s.nesting ≤ n := by
  induction ss with
  | nil => simp [Segment.nestingAll]
  | cons s ss ih => rw [Segment.nestingAll, Nat.max_le, ih, List.forall_mem_cons]

theorem TypeArg.nestingAll_le_iff {args : List TypeArg} {n : Nat} :
    TypeArg.nestingAll args ≤ n ↔ ∀ a ∈ args, a.nesting ≤ n := by
  induction args with
  | nil => simp [TypeArg.nestingAll]
  | cons a args ih => rw [TypeArg.nestingAll, Nat.max_le, ih, List.forall_mem_cons]

/-- How deep the type argument list of a segment nests: one level more than what is in
it, and not at all if it is left out. -/
def TypeArg.listNesting (args : List TypeArg) : Nat :=
  if args.isEmpty then 0 else TypeArg.nestingAll args + 1

theorem Segment.nesting_mk (name : String) (args : List TypeArg) :
    (Segment.mk name args).nesting = TypeArg.listNesting args := by
  rcases args with _ | ⟨a, args⟩
  · rfl
  · rw [Segment.nesting, ← TypeArg.nestingAll]
    rfl

/-- A type argument list that is not left out takes up a level. -/
theorem TypeArg.listNesting_le_succ_iff {args : List TypeArg} {n : Nat} :
    TypeArg.listNesting args ≤ n + 1 ↔ ∀ a ∈ args, a.nesting ≤ n := by
  rcases args with _ | ⟨a, args⟩
  · simp [TypeArg.listNesting]
  · rw [← TypeArg.nestingAll_le_iff]
    exact Nat.add_le_add_iff_right

theorem TypeArg.listNesting_le_zero_iff {args : List TypeArg} :
    TypeArg.listNesting args ≤ 0 ↔ args = [] := by
  rcases args with _ | ⟨a, args⟩ <;> simp [TypeArg.listNesting]

theorem TypeSig.nesting_ofClass_le_iff {outer : Segment} {inner : List Segment} {n : Nat} :
    (TypeSig.ofClass outer inner).nesting ≤ n ↔
      outer.nesting ≤ n ∧ ∀ s ∈ inner, s.nesting ≤ n := by
  rw [TypeSig.nesting, Nat.max_le, Segment.nestingAll_le_iff]

/-! ### Signatures -/

/-- A type parameter of the grammar: a name, and reference types as bounds. -/
structure TypeParamSig.IsGrammatical (p : TypeParamSig) : Prop where
  name : IsName p.name
  bounds : ∀ t ∈ p.bounds, t.IsReference

/-- No type parameter without any bound is directly followed by one whose name begins
with `L` or `T`, as a bound could. -/
def TypeParamSig.Separated (ps : List TypeParamSig) : Prop :=
  ps.IsChain fun p q => p.bounds = [] → q.name.toList.head? ≠ some 'L' ∧
    q.name.toList.head? ≠ some 'T'

/-- The bounds of some type parameters. -/
def TypeParamSig.allBounds (ps : List TypeParamSig) : List TypeSig :=
  ps.flatMap TypeParamSig.bounds

/-- A class signature of the grammar whose text can be read. -/
structure ClassSig.IsReadable (s : ClassSig) : Prop where
  typeParams : ∀ p ∈ s.typeParams, p.IsGrammatical
  superclass : s.superclass.IsClass
  interfaces : ∀ t ∈ s.interfaces, t.IsClass
  nesting : ∀ t ∈ TypeParamSig.allBounds s.typeParams ++ s.superclass :: s.interfaces,
    t.nesting ≤ 255
  separated : TypeParamSig.Separated s.typeParams

/-- A method signature of the grammar whose text can be read. -/
structure MethodSig.IsReadable (s : MethodSig) : Prop where
  typeParams : ∀ p ∈ s.typeParams, p.IsGrammatical
  params : ∀ t ∈ s.params, t.IsValue
  result : s.result.IsResult
  throws : ∀ t ∈ s.throws, t.IsThrown
  nesting : ∀ t ∈ TypeParamSig.allBounds s.typeParams ++ s.params ++ s.result :: s.throws,
    t.nesting ≤ 255
  separated : TypeParamSig.Separated s.typeParams

/-- A field signature of the grammar whose text can be read. -/
structure TypeSig.IsReadable (t : TypeSig) : Prop where
  reference : t.IsReference
  nesting : t.nesting ≤ 255

/-! ### Trees and their events -/

/-- Whether a list of events goes on with a type argument. -/
def Event.argumentNext : List Event → Bool
  | .typeArgument _ :: _ => true
  | .unboundedTypeArgument :: _ => true
  | _ => false

theorem Segment.argumentNext_innerEvents (ss : List Segment) (es : List Event) :
    Event.argumentNext (Segment.innerEvents ss ++ .close :: es) = false := by
  rcases ss with _ | ⟨⟨name, args⟩, ss⟩
  · rfl
  · simp [Segment.innerEvents, Segment.eventsFrom, Event.argumentNext]

mutual

/-- The events of a type tell the type, and where it ends. -/
theorem TypeSig.events_append_inj : ∀ {s t : TypeSig} {xs ys : List Event},
    s.events ++ xs = t.events ++ ys → s = t ∧ xs = ys
  | .base b, t, xs, ys, h => by
    rcases t with _ | _ | _ | _ | ⟨⟨name, args⟩, inner⟩ <;>
      simp_all [TypeSig.events, Segment.eventsFrom]
  | .void, t, xs, ys, h => by
    rcases t with _ | _ | _ | _ | ⟨⟨name, args⟩, inner⟩ <;>
      simp_all [TypeSig.events, Segment.eventsFrom]
  | .var name, t, xs, ys, h => by
    rcases t with _ | _ | _ | _ | ⟨⟨name, args⟩, inner⟩ <;>
      simp_all [TypeSig.events, Segment.eventsFrom]
  | .array elem, t, xs, ys, h => by
    rcases t with _ | _ | _ | elem' | ⟨⟨name, args⟩, inner⟩
    case array =>
      simp only [TypeSig.events, List.cons_append, List.cons.injEq, true_and] at h
      obtain ⟨rfl, rfl⟩ := TypeSig.events_append_inj h
      exact ⟨rfl, rfl⟩
    all_goals simp [TypeSig.events, Segment.eventsFrom] at h
  | .ofClass (.mk name args) inner, t, xs, ys, h => by
    cases t with
    | ofClass outer inner' =>
      obtain ⟨name', args'⟩ := outer
      simp only [TypeSig.events, Segment.eventsFrom, List.cons_append, List.append_assoc,
        List.cons.injEq, Event.classType.injEq, List.nil_append] at h
      obtain ⟨rfl, hargs⟩ := h
      obtain ⟨rfl, hinner⟩ := TypeArg.allEvents_append_inj (Segment.argumentNext_innerEvents _ _)
        (Segment.argumentNext_innerEvents _ _) hargs
      obtain ⟨rfl, rfl⟩ := Segment.innerEvents_append_inj hinner
      exact ⟨rfl, rfl⟩
    | _ => simp [TypeSig.events, Segment.eventsFrom] at h

theorem Segment.innerEvents_append_inj : ∀ {ss ts : List Segment} {xs ys : List Event},
    Segment.innerEvents ss ++ .close :: xs = Segment.innerEvents ts ++ .close :: ys →
      ss = ts ∧ xs = ys
  | [], ts, xs, ys, h => by
    rcases ts with _ | ⟨⟨name, args⟩, ts⟩
    · simpa [Segment.innerEvents] using h
    · simp [Segment.innerEvents, Segment.eventsFrom] at h
  | .mk name args :: ss, ts, xs, ys, h => by
    rcases ts with _ | ⟨⟨name', args'⟩, ts⟩
    · simp [Segment.innerEvents, Segment.eventsFrom] at h
    · simp only [Segment.innerEvents, Segment.eventsFrom, List.cons_append, List.append_assoc,
        List.cons.injEq, Event.innerClassType.injEq] at h
      obtain ⟨rfl, hargs⟩ := h
      obtain ⟨rfl, hinner⟩ := TypeArg.allEvents_append_inj (Segment.argumentNext_innerEvents _ _)
        (Segment.argumentNext_innerEvents _ _) hargs
      obtain ⟨rfl, rfl⟩ := Segment.innerEvents_append_inj hinner
      exact ⟨rfl, rfl⟩

theorem TypeArg.allEvents_append_inj : ∀ {as bs : List TypeArg} {xs ys : List Event},
    Event.argumentNext xs = false → Event.argumentNext ys = false →
      TypeArg.allEvents as ++ xs = TypeArg.allEvents bs ++ ys → as = bs ∧ xs = ys
  | [], bs, xs, ys, hx, hy, h => by
    rcases bs with _ | ⟨_ | ⟨v, t⟩, bs⟩
    · simpa [TypeArg.allEvents] using h
    · simp only [TypeArg.allEvents, TypeArg.events, List.nil_append, List.cons_append] at h
      rw [h] at hx
      cases hx
    · simp only [TypeArg.allEvents, TypeArg.events, List.nil_append, List.cons_append] at h
      rw [h] at hx
      cases hx
  | .unbounded :: as, bs, xs, ys, hx, hy, h => by
    rcases bs with _ | ⟨_ | ⟨v, t⟩, bs⟩
    · simp only [TypeArg.allEvents, TypeArg.events, List.nil_append, List.cons_append] at h
      rw [← h] at hy
      cases hy
    · simp only [TypeArg.allEvents, TypeArg.events, List.nil_append, List.cons_append,
        List.cons.injEq, true_and] at h
      obtain ⟨rfl, rfl⟩ := TypeArg.allEvents_append_inj hx hy h
      exact ⟨rfl, rfl⟩
    · simp [TypeArg.allEvents, TypeArg.events] at h
  | .bounded v s :: as, bs, xs, ys, hx, hy, h => by
    rcases bs with _ | ⟨_ | ⟨w, t⟩, bs⟩
    · simp only [TypeArg.allEvents, TypeArg.events, List.nil_append, List.cons_append] at h
      rw [← h] at hy
      cases hy
    · simp [TypeArg.allEvents, TypeArg.events] at h
    · simp only [TypeArg.allEvents, TypeArg.events, List.cons_append, List.append_assoc,
        List.cons.injEq, Event.typeArgument.injEq] at h
      obtain ⟨rfl, htype⟩ := h
      obtain ⟨rfl, hargs⟩ := TypeSig.events_append_inj htype
      obtain ⟨rfl, rfl⟩ := TypeArg.allEvents_append_inj hx hy hargs
      exact ⟨rfl, rfl⟩

end

/-- Types that are each announced by `m` are told by their events, if something else
follows them. -/
theorem TypeSig.flatMap_events_append_inj {m : Event} {ss ts : List TypeSig} {xs ys : List Event}
    (hx : xs.head? ≠ some m) (hy : ys.head? ≠ some m)
    (h : ss.flatMap (fun t => m :: t.events) ++ xs = ts.flatMap (fun t => m :: t.events) ++ ys) :
    ss = ts ∧ xs = ys := by
  induction ss generalizing ts with
  | nil =>
    rcases ts with _ | ⟨t, ts⟩
    · exact ⟨rfl, h⟩
    · exact absurd (congrArg List.head? h) (by simpa using hx)
  | cons s ss ih =>
    rcases ts with _ | ⟨t, ts⟩
    · exact absurd (congrArg List.head? h).symm (by simpa using hy)
    · simp only [List.flatMap_cons, List.cons_append, List.append_assoc, List.cons.injEq,
        true_and] at h
      obtain ⟨rfl, hrest⟩ := TypeSig.events_append_inj h
      obtain ⟨rfl, rfl⟩ := ih hrest
      exact ⟨rfl, rfl⟩

/-- Different lists of types have different events when each type is announced by `m`. -/
theorem TypeSig.flatMap_events_injective {m : Event} :
    Function.Injective fun ts : List TypeSig => ts.flatMap fun t => m :: t.events := by
  intro ss ts h
  have h' : ss.flatMap (fun t => m :: t.events) ++ [] = ts.flatMap (fun t => m :: t.events) ++ [] :=
    congrArg (· ++ []) h
  exact (TypeSig.flatMap_events_append_inj (by simp) (by simp) h').1

theorem TypeParamSig.events_append_inj {p q : TypeParamSig} {xs ys : List Event}
    (hx : xs.head? ≠ some .interfaceBound ∧ xs.head? ≠ some .classBound)
    (hy : ys.head? ≠ some .interfaceBound ∧ ys.head? ≠ some .classBound)
    (h : p.events ++ xs = q.events ++ ys) : p = q ∧ xs = ys := by
  obtain ⟨name, classBound, interfaceBounds⟩ := p
  obtain ⟨name', classBound', interfaceBounds'⟩ := q
  have hbounds : ∀ {ts : List TypeSig} {es : List Event}, es.head? ≠ some .classBound →
      (ts.flatMap (fun t => Event.interfaceBound :: t.events) ++ es).head? ≠ some .classBound := by
    intro ts es hes
    rcases ts with _ | ⟨t, ts⟩
    · exact hes
    · simp
  rcases classBound with _ | s <;> rcases classBound' with _ | t <;>
    simp only [TypeParamSig.events, Option.elim_none, Option.elim_some, List.cons_append,
      List.nil_append, List.append_assoc, List.cons.injEq, Event.formalTypeParameter.injEq] at h
  · obtain ⟨rfl, hrest⟩ := h
    obtain ⟨rfl, rfl⟩ := TypeSig.flatMap_events_append_inj hx.1 hy.1 hrest
    exact ⟨rfl, rfl⟩
  · exact absurd (congrArg List.head? h.2) fun heq =>
      hbounds hx.2 (heq.trans rfl)
  · exact absurd (congrArg List.head? h.2).symm fun heq =>
      hbounds hy.2 (heq.trans rfl)
  · obtain ⟨rfl, -, hbound⟩ := h
    obtain ⟨rfl, hrest⟩ := TypeSig.events_append_inj hbound
    obtain ⟨rfl, rfl⟩ := TypeSig.flatMap_events_append_inj hx.1 hy.1 hrest
    exact ⟨rfl, rfl⟩

/-- Whether a list of events goes on with type parameters or their bounds. -/
def Event.typeParamNext : List Event → Bool
  | .formalTypeParameter _ :: _ => true
  | .classBound :: _ => true
  | .interfaceBound :: _ => true
  | _ => false

theorem TypeParamSig.flatMap_events_append_inj {ps qs : List TypeParamSig} {xs ys : List Event}
    (hx : Event.typeParamNext xs = false) (hy : Event.typeParamNext ys = false)
    (h : ps.flatMap TypeParamSig.events ++ xs = qs.flatMap TypeParamSig.events ++ ys) :
    ps = qs ∧ xs = ys := by
  have hend : ∀ {rs : List TypeParamSig} {es : List Event}, Event.typeParamNext es = false →
      (rs.flatMap TypeParamSig.events ++ es).head? ≠ some .interfaceBound ∧
        (rs.flatMap TypeParamSig.events ++ es).head? ≠ some .classBound := by
    intro rs es hes
    rcases rs with _ | ⟨r, rs⟩
    · rcases es with _ | ⟨e, es⟩
      · simp
      · cases e <;> simp_all [Event.typeParamNext]
    · simp [TypeParamSig.events]
  induction ps generalizing qs with
  | nil =>
    rcases qs with _ | ⟨q, qs⟩
    · exact ⟨rfl, h⟩
    · simp only [List.flatMap_nil, List.nil_append, List.flatMap_cons, TypeParamSig.events,
        List.cons_append] at h
      rw [h] at hx
      cases hx
  | cons p ps ih =>
    rcases qs with _ | ⟨q, qs⟩
    · simp only [List.flatMap_nil, List.nil_append, List.flatMap_cons, TypeParamSig.events,
        List.cons_append] at h
      rw [← h] at hy
      cases hy
    · rw [List.flatMap_cons, List.flatMap_cons, List.append_assoc, List.append_assoc] at h
      obtain ⟨rfl, hrest⟩ := TypeParamSig.events_append_inj (hend hx) (hend hy) h
      obtain ⟨rfl, rfl⟩ := ih hrest
      exact ⟨rfl, rfl⟩

/-- Different types have different events. -/
theorem TypeSig.events_injective : Function.Injective TypeSig.events := by
  intro s t h
  exact (TypeSig.events_append_inj (congrArg (· ++ []) h)).1

/-- Different class signatures have different events. -/
theorem ClassSig.events_injective : Function.Injective ClassSig.events := by
  rintro ⟨typeParams, superclass, interfaces⟩ ⟨typeParams', superclass', interfaces'⟩ h
  simp only [ClassSig.events, List.append_assoc, List.cons_append] at h
  obtain ⟨rfl, hsuper⟩ := TypeParamSig.flatMap_events_append_inj rfl rfl h
  obtain ⟨rfl, hinterfaces⟩ := TypeSig.events_append_inj (List.cons.inj hsuper).2
  rw [TypeSig.flatMap_events_injective hinterfaces]

/-- Different method signatures have different events. -/
theorem MethodSig.events_injective : Function.Injective MethodSig.events := by
  rintro ⟨typeParams, params, result, throws⟩ ⟨typeParams', params', result', throws'⟩ h
  simp only [MethodSig.events, List.append_assoc, List.cons_append] at h
  have hparams : ∀ (ts : List TypeSig) (es : List Event), Event.typeParamNext
      (ts.flatMap (fun t => Event.parameterType :: t.events) ++ Event.returnType :: es)
        = false := by
    intro ts es
    cases ts <;> rfl
  obtain ⟨rfl, hrest⟩ := TypeParamSig.flatMap_events_append_inj (hparams _ _) (hparams _ _) h
  obtain ⟨rfl, hresult⟩ := TypeSig.flatMap_events_append_inj (by simp) (by simp) hrest
  obtain ⟨rfl, hthrows⟩ := TypeSig.events_append_inj (List.cons.inj hresult).2
  rw [TypeSig.flatMap_events_injective hthrows]

end JavaGenerics
