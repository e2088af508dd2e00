import JavaGenerics.Proofs.Commit
import JavaGenerics.Proofs.Definedness

/-!
# What a resolution comes upon

A resolution reads its signature once, from left to right. Whenever the name of a class is
complete it may ask for the class, and whenever a list of type arguments closes it may find
fault with their number; nothing else that it does before its end depends on the text. So
what it does on the way is told by a list that can be read off the text
(`JavaGenerics.Mention`).

`JavaGenerics.Resolution.see` is what a resolution does at a single *sighting*, and
`JavaGenerics.Resolution.after` what it does at several, one after the other. An attempt
*sees* a list of sightings (`JavaGenerics.Resolution.Sees`) if this is all that it does when
it succeeds, and if it does the first part of it when it fails. The resolution of a type sees
the mentions in the type (`JavaGenerics.Resolution.sees_type`), and so do those of class
signatures and method signatures.
-/

namespace JavaGenerics

open Attempt

/-! ### Mentions -/

/-- What a reader of a signature comes upon. -/
inductive Mention where
  /-- The binary name of a class, when it is complete. -/
  | named (name : String)
  /-- The end of the type arguments of a class, so many in number. -/
  | applied (name : String) (supplied : Nat)
deriving DecidableEq, Repr

/-- The end of a list of type arguments, if there is such a list. -/
def Mention.closing (name : String) : Nat → List Mention
  | 0 => []
  | n + 1 => [.applied name (n + 1)]

mutual

/-- The mentions in a symbolic type, in the order of the text. -/
def TypeSig.mentions : TypeSig → List Mention
  | .base _ => []
  | .void => []
  | .var _ => []
  | .array elem => elem.mentions
  | .ofClass outer inner =>
    outer.mentions "" ++ Segment.allMentions (joinName "" outer.name) inner

/-- The mentions in one step of a class type, reached from the class named `outer`. -/
def Segment.mentions (outer : String) : Segment → List Mention
  | .mk name args => .named (joinName outer name) ::
      (TypeArg.allMentions args ++ Mention.closing (joinName outer name) args.length)

/-- The mentions in the steps inwards from the class named `outer`. -/
def Segment.allMentions (outer : String) : List Segment → List Mention
  | [] => []
  | s :: ss => s.mentions outer ++ Segment.allMentions (joinName outer s.name) ss

/-- The mentions in some type arguments. -/
def TypeArg.allMentions : List TypeArg → List Mention
  | [] => []
  | a :: as => a.mentions ++ TypeArg.allMentions as

/-- The mentions in a type argument. -/
def TypeArg.mentions : TypeArg → List Mention
  | .unbounded => []
  | .bounded _ t => t.mentions

end

/-- The mentions in an erased type. -/
def FieldType.mentions : FieldType → List Mention
  | .base _ => []
  | .object name => [.named (internalToBinary name)]
  | .array elem => elem.mentions

/-! ### Sightings -/

/-- What a resolution comes upon. -/
inductive Sighting where
  /-- The way outwards from a class. -/
  | outwards (c : ClassId)
  /-- A class. -/
  | met (c : ClassId)
  /-- A class with so many type arguments. -/
  | applied (c : ClassId) (supplied : Nat)

/-- A mention of a class that is found. -/
def Mention.sighting? (class? : String → Option ClassId) : Mention → Option Sighting
  | .named name => (class? name).map .met
  | .applied name n => (class? name).map (.applied · n)

/-- The mentions of classes that are found. -/
def Mention.sightings (class? : String → Option ClassId) (ms : List Mention) : List Sighting :=
  ms.filterMap (sighting? class?)

@[simp] theorem Mention.sightings_append (class? : String → Option ClassId)
    (ms ms' : List Mention) :
    sightings class? (ms ++ ms') = sightings class? ms ++ sightings class? ms' :=
  List.filterMap_append

theorem Mention.sightings_flatMap {α : Type} (class? : String → Option ClassId)
    (f : α → List Mention) (as : List α) :
    sightings class? (as.flatMap f) = as.flatMap fun a => sightings class? (f a) := by
  induction as with
  | nil => rfl
  | cons a as ih => rw [List.flatMap_cons, List.flatMap_cons, sightings_append, ih]

theorem Mention.sightings_named (class? : String → Option ClassId) (names : List String) :
    sightings class? (names.map .named) = names.flatMap fun name =>
      sightings class? [.named name] := by
  rw [← sightings_flatMap, List.map_eq_flatMap]

namespace Resolution

variable (res : Resolution)

/-- What a resolution does at a sighting. -/
def see : Sighting → StateM Progress Unit
  | .outwards c => work (Workspace.noteCycle c)
  | .met c => res.request c
  | .applied c supplied => res.warnArity c supplied

/-- The state behind some sightings. -/
def after (ss : List Sighting) (p : Progress) : Progress :=
  ss.foldl (fun p s => (res.see s p).2) p

@[simp] theorem after_nil (p : Progress) : res.after [] p = p := rfl

@[simp] theorem after_cons (s : Sighting) (ss : List Sighting) (p : Progress) :
    res.after (s :: ss) p = res.after ss (res.see s p).2 := rfl

@[simp] theorem after_append (ss ss' : List Sighting) (p : Progress) :
    res.after (ss ++ ss') p = res.after ss' (res.after ss p) := List.foldl_append

variable {res} {I : Progress → Prop}

/-- **What every sighting keeps**, several keep. -/
theorem keeps_after (h : ∀ s, Keeps I (res.see s)) (ss : List Sighting) {p : Progress} (hp : I p) :
    I (res.after ss p) := by
  induction ss generalizing p with
  | nil => exact hp
  | cons s ss ih => exact ih (h s p hp)

theorem Steady.see (h : res.Steady I) (s : Sighting) : Keeps I (res.see s) := by
  cases s with
  | outwards c => exact h.noteCycle c
  | met c => exact h.request c
  | applied c n => exact h.warnArity c n

/-! ### Attempts that see -/

variable {α β : Type}

/-- **What an attempt sees**: begun in a state with `I`, it does no more than what is done at
the sightings `ss`, and all of that if it succeeds. -/
def Sees (res : Resolution) (I : Progress → Prop) (x : Attempt α) (ss : List Sighting) : Prop :=
  ∀ p, I p → ∃ seen, seen <+: ss ∧ (x.outcome p).2 = res.after seen p ∧
    ∀ a, (x.outcome p).1 = .ok a → seen = ss

theorem sees_pure (a : α) : res.Sees I (pure a) [] :=
  fun _ _ => ⟨[], List.prefix_refl _, rfl, fun _ _ => rfl⟩

theorem sees_throw (e : ResolveError) (ss : List Sighting) : res.Sees I (throw e : Attempt α) ss :=
  fun _ _ => ⟨[], List.nil_prefix, rfl, nofun⟩

theorem sees_ofExcept (v : Except ResolveError α) : res.Sees I (Attempt.ofExcept v) [] := by
  cases v with
  | error e => exact sees_throw e []
  | ok a => exact sees_pure a

theorem Sees.bind {x : Attempt α} {f : α → Attempt β} {ss ss' : List Sighting}
    (hx : res.Sees I x ss) (hI : ∀ s, Keeps I (res.see s))
    (hf : ∀ a p, I p → (x.outcome p).1 = .ok a → res.Sees I (f a) ss') :
    res.Sees I (x >>= f) (ss ++ ss') := by
  intro p hp
  obtain ⟨seen, hprefix, hstate, hall⟩ := hx p hp
  have hfa := fun a => hf a p hp
  rw [outcome_bind]
  rcases hout : x.outcome p with ⟨_ | a, q⟩ <;> rw [hout] at hstate hall hfa
  · exact ⟨seen, hprefix.trans (List.prefix_append ss ss'), hstate, nofun⟩
  · obtain rfl := hall a rfl
    obtain rfl : q = res.after seen p := hstate
    obtain ⟨seen', hprefix', hstate', hall'⟩ := hfa a rfl _ (keeps_after hI seen hp)
    refine ⟨seen ++ seen', (List.prefix_append_right_inj seen).2 hprefix', ?_, fun b hb => ?_⟩
    · rw [after_append]
      exact hstate'
    · rw [hall' b hb]

/-- What is computed at the end does not show in what is seen. -/
theorem Sees.map {x : Attempt α} {ss : List Sighting} (hx : res.Sees I x ss)
    (hI : ∀ s, Keeps I (res.see s)) (f : α → β) : res.Sees I (x >>= fun a => pure (f a)) ss := by
  simpa using hx.bind hI fun a _ _ _ => sees_pure (f a)

theorem Sees.mapM {f : α → Attempt β} {g : α → List Sighting} (hf : ∀ a, res.Sees I (f a) (g a))
    (hI : ∀ s, Keeps I (res.see s)) (as : List α) : res.Sees I (as.mapM f) (as.flatMap g) := by
  induction as with
  | nil => exact sees_pure []
  | cons a as ih =>
    rw [List.mapM_cons, List.flatMap_cons]
    exact (hf a).bind hI fun b _ _ _ => ih.map hI (b :: ·)

theorem Sees.mapM_option {f : α → Attempt β} {g : α → List Sighting}
    (hf : ∀ a, res.Sees I (f a) (g a)) (hI : ∀ s, Keeps I (res.see s)) (a : Option α) :
    res.Sees I (a.mapM f) (a.toList.flatMap g) := by
  cases a with
  | none => exact sees_pure none
  | some a => simpa using (hf a).map hI some

/-- The registry may be looked at. -/
theorem Sees.ofRegistry {f : Registry → Attempt β} {ss : List Sighting}
    (hf : ∀ p, I p → res.Sees I (f p.workspace.registry) ss) :
    res.Sees I (liftM getRegistry >>= f) ss := fun p hp => hf p hp p hp

/-! ### Types -/

variable {l : Lexicon}

theorem sees_find (h : res.Settled I l) (name : String) :
    res.Sees I (res.find name) (Mention.sightings l.class? [.named name]) := by
  refine Sees.ofRegistry fun p hp => ?_
  rw [h.lookup p hp name]
  cases hc : l.class? name with
  | none => exact sees_throw _ _
  | some c =>
    refine fun q _ => ⟨[.met c], ?_, rfl, fun _ _ => ?_⟩ <;>
      simp [Mention.sightings, Mention.sighting?, hc]

theorem sees_raw (h : res.Settled I l) (t : FieldType) :
    res.Sees I (res.resolveRaw t) (Mention.sightings l.class? t.mentions) := by
  induction t with
  | base b => exact sees_pure _
  | object name => exact (sees_find h _).map h.steady.see ResolvedType.raw
  | array elem ih => exact ih.map h.steady.see ResolvedType.array

theorem sees_erasedResult (h : res.Settled I l) (m : MethodEntry) :
    res.Sees I (res.resolveErasedResult m) (Mention.sightings l.class?
      (if m.isConstructor then [] else m.descriptor.result.toList.flatMap FieldType.mentions)) := by
  unfold resolveErasedResult
  split
  · exact sees_pure _
  · cases m.descriptor.result with
    | none => exact sees_pure _
    | some erased => simpa using (sees_raw h erased).map h.steady.see some

theorem Settled.within (h : res.Settled I l) (scope : Scope) :
    res.Settled I ⟨l.class?, scope.resolve⟩ := ⟨h.steady, h.lookup⟩

theorem name_of_step (h : res.Settled I l) {scope : Scope} {name : String}
    {outer : Option ResolvedType} {s : Segment} {r : String × ResolvedType} {p : Progress}
    (hp : I p) (hr : ((res.resolveStep scope name outer s).outcome p).1 = .ok r) :
    r.1 = joinName name s.name := by
  rw [(computes_step (h.within scope) rfl s p hp).1] at hr
  exact (Lexicon.step_eq_ok hr).1

/-- When the type arguments of a class have been read, their number may be found fault with. -/
theorem sees_warnArity {name : String} {c : ClassId} (hc : l.class? name = some c) (supplied : Nat)
    (a : α) :
    res.Sees I (liftM (res.warnArity c supplied) >>= fun _ => pure a)
      (Mention.sightings l.class? (Mention.closing name supplied)) := by
  cases supplied with
  | zero =>
    rw [warnArity_zero]
    exact sees_pure a
  | succ n =>
    have hsighted : Mention.sightings l.class? (Mention.closing name (n + 1)) =
        [.applied c (n + 1)] := by
      simp [Mention.closing, Mention.sightings, Mention.sighting?, hc]
    rw [hsighted]
    exact fun p _ => ⟨_, List.prefix_refl _, rfl, fun _ _ => rfl⟩

mutual

/-- **The resolution of a type sees the mentions in it.** -/
theorem sees_type (h : res.Settled I l) (scope : Scope) :
    ∀ t : TypeSig, res.Sees I (res.resolve scope t) (Mention.sightings l.class? t.mentions)
  | .base b => sees_pure _
  | .void => sees_pure _
  | .var name => by
    simp only [resolve]
    cases scope.resolve name with
    | none => exact sees_throw _ _
    | some v => exact sees_pure _
  | .array elem => by
    by_cases he : elem = .void
    · subst he
      exact sees_throw _ _
    · rw [resolve.eq_5 res scope elem he, TypeSig.mentions]
      exact (sees_type h scope elem).map h.steady.see ResolvedType.array
  | .ofClass outer inner => by
    simp only [resolve, TypeSig.mentions, Mention.sightings_append]
    refine (sees_step h scope outer).bind h.steady.see fun r p hp hr => ?_
    rw [← name_of_step h hp hr]
    exact sees_steps h scope inner

theorem sees_step (h : res.Settled I l) (scope : Scope) :
    ∀ (s : Segment) {name : String} {outer : Option ResolvedType},
      res.Sees I (res.resolveStep scope name outer s)
        (Mention.sightings l.class? (s.mentions name))
  | .mk segment args, name, outer => by
    simp only [resolveStep, Segment.mentions]
    rw [← List.singleton_append, Mention.sightings_append, Mention.sightings_append]
    refine (sees_find h _).bind h.steady.see fun c p hp hc => ?_
    refine (sees_args h scope args).bind h.steady.see fun ts q hq hts => ?_
    rw [(computes_find h.named _ p hp).1] at hc
    rw [(computes_types (h.within scope) rfl args q hq).1] at hts
    rw [← Lexicon.length_types hts]
    exact sees_warnArity (Lexicon.classNamed_eq_ok.1 hc) ts.length _

theorem sees_steps (h : res.Settled I l) (scope : Scope) :
    ∀ (ss : List Segment) {name : String} {t : ResolvedType},
      res.Sees I (res.resolveInner scope name t ss)
        (Mention.sightings l.class? (Segment.allMentions name ss))
  | [], name, t => by
    simp only [resolveInner, Segment.allMentions]
    exact sees_pure _
  | s :: ss, name, t => by
    simp only [resolveInner, Segment.allMentions, Mention.sightings_append]
    refine (sees_step h scope s).bind h.steady.see fun r p hp hr => ?_
    rw [← name_of_step h hp hr]
    exact sees_steps h scope ss

theorem sees_args (h : res.Settled I l) (scope : Scope) :
    ∀ as : List TypeArg, res.Sees I (res.resolveArgs scope as)
      (Mention.sightings l.class? (TypeArg.allMentions as))
  | [] => sees_pure _
  | a :: as => by
    simp only [resolveArgs, TypeArg.allMentions, Mention.sightings_append]
    exact (sees_arg h scope a).bind h.steady.see fun t _ _ _ =>
      (sees_args h scope as).map h.steady.see (t :: ·)

theorem sees_arg (h : res.Settled I l) (scope : Scope) :
    ∀ a : TypeArg, res.Sees I (res.resolveArg scope a) (Mention.sightings l.class? a.mentions)
  | .unbounded => sees_pure _
  | .bounded variance t => by
    simp only [resolveArg, TypeArg.mentions]
    cases Position.reference.complaint? t with
    | some cause => exact sees_throw _ _
    | none => exact (sees_type h scope t).map h.steady.see (ResolvedType.argument variance)

end

/-! ### Signatures -/

theorem sees_typeAt (h : res.Settled I l) (position : Position) (scope : Scope) (t : TypeSig) :
    res.Sees I (res.resolveAt position scope t) (Mention.sightings l.class? t.mentions) := by
  unfold resolveAt
  cases position.complaint? t with
  | some cause => exact sees_throw _ _
  | none => exact sees_type h scope t

theorem sees_typesAt (h : res.Settled I l) (position : Position) (scope : Scope)
    (ts : List TypeSig) :
    res.Sees I (ts.mapM (res.resolveAt position scope))
      (Mention.sightings l.class? (ts.flatMap TypeSig.mentions)) := by
  rw [Mention.sightings_flatMap]
  exact Sees.mapM (sees_typeAt h position scope) h.steady.see ts

theorem sees_bounds (h : res.Settled I l) (scope : Scope) (owner : Declarer) (first : Nat)
    (ps : List TypeParamSig) :
    res.Sees I (res.resolveBounds scope owner first ps)
      (Mention.sightings l.class? ((TypeParamSig.allBounds ps).flatMap TypeSig.mentions)) := by
  induction ps generalizing first with
  | nil => exact sees_pure _
  | cons p ps ih =>
    rw [TypeParamSig.allBounds, List.flatMap_cons, List.flatMap_append, Mention.sightings_append]
    exact (sees_typesAt h .reference scope p.bounds).bind h.steady.see fun bounds _ _ _ =>
      (ih (first + 1)).map h.steady.see _

theorem sees_introduce (h : res.Settled I l) (scope : Scope) (owner : Declarer)
    (ps : List TypeParamSig) :
    res.Sees I (res.introduce scope owner ps)
      (Mention.sightings l.class? ((TypeParamSig.allBounds ps).flatMap TypeSig.mentions)) := by
  refine Sees.ofRegistry fun p _ => ?_
  rw [← List.nil_append (Mention.sightings _ _)]
  exact (sees_ofExcept _).bind h.steady.see fun _ _ _ _ =>
    (sees_bounds h _ owner 0 ps).map h.steady.see _

/-- **The resolution of a class signature sees the mentions in it**, bounds first. -/
theorem sees_classTypes (h : res.Settled I l) (c : ClassId) (scope : Scope) (sig : ClassSig) :
    res.Sees I (res.resolveClassTypes c scope sig)
      (Mention.sightings l.class? (sig.types.flatMap TypeSig.mentions)) := by
  rw [ClassSig.types, List.flatMap_append, List.flatMap_cons, Mention.sightings_append,
    Mention.sightings_append, ← List.nil_append (Mention.sightings _ _ ++ _)]
  refine (sees_ofExcept _).bind h.steady.see fun _ _ _ _ => ?_
  refine (sees_introduce h scope _ _).bind h.steady.see fun r _ _ _ => ?_
  refine (sees_typeAt h .classType r.2 sig.superclass).bind h.steady.see fun superclass _ _ _ => ?_
  exact (sees_typesAt h .classType r.2 sig.interfaces).map h.steady.see _

/-- **The resolution of a method signature sees the mentions in it**, bounds first. -/
theorem sees_methodTypes (h : res.Settled I l) (m : MethodId) (scope : Scope) (sig : MethodSig) :
    res.Sees I (res.resolveMethodTypes m scope sig)
      (Mention.sightings l.class? (sig.types.flatMap TypeSig.mentions)) := by
  rw [MethodSig.types, List.append_assoc, List.flatMap_append, List.flatMap_append,
    List.flatMap_cons, Mention.sightings_append, Mention.sightings_append,
    Mention.sightings_append, ← List.nil_append (Mention.sightings _ _ ++ _)]
  refine (sees_ofExcept _).bind h.steady.see fun _ _ _ _ => ?_
  refine (sees_introduce h scope _ _).bind h.steady.see fun r _ _ _ => ?_
  refine (sees_typesAt h .param r.2 sig.params).bind h.steady.see fun params _ _ _ => ?_
  refine (sees_type h r.2 sig.result).bind h.steady.see fun result _ _ _ => ?_
  exact (sees_typesAt h .reference r.2 sig.throws).map h.steady.see _

end Resolution

end JavaGenerics
