import JavaGenerics.Proofs.Consistency
import JavaGenerics.Registry.Index

/-!
# The index agrees with the classes

The index of a registry says again what the classes say of themselves: which names there are,
and which class has which. Nothing but the way in which classes are registered keeps the two
together. A name goes into the index with the number that the class is about to get, and only
if the index does not have the name yet; and no class changes its name afterwards. Hence the
index has exactly the names of the classes, at any point of any session
(`JavaGenerics.IndexedRegistry.Agrees`, `JavaGenerics.Session.performIndexed_agrees`).

It follows that no name is given twice, and that a search through the classes finds what the
index has (`JavaGenerics.IndexedRegistry.Agrees.lookup_eq`). So a session with an index goes as
the same session without one, step by step (`JavaGenerics.Session.plain_performIndexed`), and
what is known of registries that are searched holds of those with an index
(`JavaGenerics.Session.perform_consistent`).
-/

namespace JavaGenerics

namespace IndexedRegistry

/-- **The index agrees with the classes**: it has a number for a name if and only if the class
with this number has the name. -/
def Agrees (r : IndexedRegistry) : Prop :=
  ∀ name c, r.lookup name = some c ↔ r.toRegistry.IsNamed c name

variable {r : IndexedRegistry} {r' : Registry}

/-- The index has one number for a name, so no two classes have it. -/
theorem Agrees.hasDistinctNames (h : r.Agrees) : r.toRegistry.HasDistinctNames := by
  intro c d name hc hd
  have hfound := (h name c).2 hc
  rw [(h name d).2 hd] at hfound
  exact (Option.some.inj hfound).symm

/-- **A search finds what the index has.** -/
theorem Agrees.lookup_eq (h : r.Agrees) (name : String) :
    r.toRegistry.lookup name = r.lookup name :=
  Option.ext fun c => h.hasDistinctNames.lookup_eq_some_iff.trans (h name c).symm

/-- **The index stays right where classes keep their names.** -/
theorem Agrees.of_isNamed (h : r.Agrees) (hnames : ∀ c name, r'.IsNamed c name ↔
    r.toRegistry.IsNamed c name) : { r with toRegistry := r' }.Agrees :=
  fun name c => (h name c).trans (hnames c name).symm

/-- So a search finds the same in every registry that has the declarations of `r`. -/
theorem Agrees.lookup_retained (h : r.Agrees) (hr : r.toRegistry.Retains r') (name : String) :
    r'.lookup name = r.lookup name :=
  (h.of_isNamed fun _ _ => hr.isNamed_iff).lookup_eq name

theorem agrees_empty : ({} : IndexedRegistry).Agrees := by
  intro name c
  constructor <;> exact fun h => by cases h

/-- Registering a class comes to the same with and without the index. -/
theorem Agrees.addClass_eq (h : r.Agrees) (header : ClassHeader) :
    r.toRegistry.addClass header =
      ((r.addClass header).1, (r.addClass header).2.toRegistry) := by
  unfold Registry.addClass addClass
  rw [h.lookup_eq]
  cases r.lookup (internalToBinary header.name) <;> rfl

/-- **A class that is registered is entered into the index** under its name and number. -/
theorem Agrees.addClass (h : r.Agrees) (header : ClassHeader) : (r.addClass header).2.Agrees := by
  unfold IndexedRegistry.addClass
  cases hl : r.lookup (internalToBinary header.name) with
  | some c => exact h
  | none =>
    intro name c
    change List.lookup name ((internalToBinary header.name, _) :: r.byName) = some c ↔ _
    unfold Registry.IsNamed
    rw [Registry.classAt?_push]
    by_cases hname : name = internalToBinary header.name
    · -- the name is new, so the new class alone has it
      subst hname
      rw [List.lookup_cons_self]
      by_cases hc : c.index = r.classes.size
      · rw [if_pos hc, ← hc]
        exact iff_of_true rfl rfl
      · rw [if_neg hc]
        refine iff_of_false (fun heq => hc (by cases heq; rfl)) fun hnamed => ?_
        rw [(h _ c).2 hnamed] at hl
        cases hl
    · rw [List.lookup_cons, beq_false_of_ne hname]
      by_cases hc : c.index = r.classes.size
      · rw [if_pos hc]
        refine iff_of_false (fun hfound => ?_) fun heq => hname (Option.some.inj heq).symm
        -- the number is new
        obtain ⟨e, he, -⟩ := Option.map_eq_some_iff.1 ((h name c).1 hfound)
        exact absurd (Array.getElem?_eq_some_iff.1 he).1 (by omega)
      · rw [if_neg hc]
        exact h name c

theorem ofHeaders_agrees (headers : List ClassHeader) :
    (ofHeaders headers).Agrees ∧ (ofHeaders headers).toRegistry = .ofHeaders headers := by
  have hfold : ∀ (headers : List ClassHeader) (r : IndexedRegistry), r.Agrees →
      (headers.foldl (fun r h => (r.addClass h).2) r).Agrees ∧
        (headers.foldl (fun r h => (r.addClass h).2) r).toRegistry =
          headers.foldl (fun r h => (r.addClass h).2) r.toRegistry := by
    intro headers
    induction headers with
    | nil => exact fun r hr => ⟨hr, rfl⟩
    | cons header headers ih =>
      intro r hr
      rw [List.foldl_cons, List.foldl_cons, congrArg Prod.snd (hr.addClass_eq header)]
      exact ih _ (hr.addClass header)
  exact hfold headers {} agrees_empty

end IndexedRegistry

/-! ### Sessions with an index -/

namespace IndexedWorkspace

variable {w : IndexedWorkspace}

/-- To register a class is the same with and without the index. -/
theorem addClass_eq (hw : w.registry.Agrees) (header : ClassHeader) :
    Workspace.addClass header w.plain =
      ((addClass header w).1, (addClass header w).2.plain) := by
  have hregistered : w.plain.registry.addClass header = _ := hw.addClass_eq header
  have hlookup : w.plain.registry.lookup (internalToBinary header.name) = _ :=
    hw.lookup_eq (internalToBinary header.name)
  unfold Workspace.addClass addClass
  rw [Workspace.bind_apply, Workspace.getRegistry_apply]
  dsimp only
  by_cases hl : (w.registry.lookup (internalToBinary header.name)).isSome = true
  · simp only [hlookup, hregistered, hl, if_true]
    rfl
  · simp only [hlookup, hregistered, hl]
    rfl

end IndexedWorkspace

namespace Session

/-- Does it in a workspace with an index. -/
def Action.runIndexed : Action → StateM IndexedWorkspace Unit
  | step (.addClass h) => do
    let _ ← IndexedWorkspace.addClass h
  | a => IndexedWorkspace.run a.run

/-- Does some actions in order. -/
def performIndexed (actions : List Action) : StateM IndexedWorkspace Unit :=
  actions.forM Action.runIndexed

/-- Where a session begins: with the platform classes or without any. -/
def startIndexed (withPlatform : Bool) : IndexedWorkspace where
  registry := if withPlatform then .platform else {}

variable {w : IndexedWorkspace}

/-- **What an action is for the index**: the index still agrees with the classes, and has
changed nothing. -/
theorem Action.runIndexed_agrees (hw : w.registry.Agrees) (a : Action) :
    (a.runIndexed w).2.registry.Agrees ∧ (a.runIndexed w).2.plain = (a.run w.plain).2 := by
  -- the index is left as it is, and is right if the names are what they were
  have hkept : (∀ c name, (a.run w.plain).2.registry.IsNamed c name ↔
      w.registry.toRegistry.IsNamed c name) →
      (IndexedWorkspace.run a.run w).2.registry.Agrees ∧
        (IndexedWorkspace.run a.run w).2.plain = (a.run w.plain).2 :=
    fun hnames => ⟨hw.of_isNamed hnames, rfl⟩
  have hretained : ¬a.IsRegistration → (IndexedWorkspace.run a.run w).2.registry.Agrees ∧
      (IndexedWorkspace.run a.run w).2.plain = (a.run w.plain).2 :=
    fun ha => hkept fun _ _ => (run_retains ha w.plain).isNamed_iff
  cases a with
  | assembleClass | assembleMethod => exact hretained id
  | step s =>
    cases s with
    | addClass header =>
      refine ⟨hw.addClass header, ?_⟩
      exact (congrArg Prod.snd (IndexedWorkspace.addClass_eq hw header)).symm
    | addMethod owner name =>
      exact hkept fun _ _ => Registry.isNamed_addMethod w.registry.toRegistry owner name
    | addField owner name =>
      exact hkept fun _ _ => Registry.isNamed_addField w.registry.toRegistry owner name
    | setEnclosing | setHeader | setStage | resolve => exact hretained id

/-- **A session goes the same with and without an index**, which agrees with the classes at
its end. -/
theorem performIndexed_agrees (hw : w.registry.Agrees) (actions : List Action) :
    (performIndexed actions w).2.registry.Agrees ∧
      (performIndexed actions w).2.plain = (perform actions w.plain).2 := by
  induction actions generalizing w with
  | nil => exact ⟨hw, rfl⟩
  | cons a actions ih =>
    obtain ⟨hagrees, hplain⟩ := a.runIndexed_agrees hw
    obtain ⟨hend, hsame⟩ := ih hagrees
    refine ⟨hend, hsame.trans ?_⟩
    rw [hplain]
    rfl

theorem startIndexed_agrees (withPlatform : Bool) :
    (startIndexed withPlatform).registry.Agrees ∧
      (startIndexed withPlatform).plain = start withPlatform := by
  cases withPlatform
  · exact ⟨IndexedRegistry.agrees_empty, rfl⟩
  · obtain ⟨hagrees, hplain⟩ := IndexedRegistry.ofHeaders_agrees Registry.platformHeaders
    exact ⟨hagrees, congrArg (Workspace.mk · #[]) hplain⟩

/-- A class that is registered under a name that is taken is the class that has it. -/
theorem addClass_of_isNamed (hw : w.registry.Agrees) {header : ClassHeader} {c : ClassId}
    (hc : w.registry.toRegistry.IsNamed c (internalToBinary header.name)) :
    (IndexedWorkspace.addClass header w).1 = c ∧
      (IndexedWorkspace.addClass header w).2.registry = w.registry := by
  have hlookup := (hw _ c).2 hc
  have hkept : w.registry.addClass header = (c, w.registry) := by
    simp only [IndexedRegistry.addClass, hlookup]
  unfold IndexedWorkspace.addClass
  rw [hkept]
  exact ⟨rfl, rfl⟩

/-- **A registry agrees with itself at any point of a session**, and what is registered stays.
The session may register classes, members of registered classes, set what a class file
records and how far a declaration is resolved, and have declarations resolved by a call or
from events, whatever these come to. The index is kept along with the classes, and is no more
than that: without it the session would have gone the same. Names are distinct and the index
has the class for each, before, during and after a resolution, which retains the declarations;
a class registered again is the class that the index has, and nothing is changed. Owners list
their members, each once and in order, and type parameters are numbered. -/
theorem perform_consistent (withPlatform : Bool) (before after : List Action)
    (h : HaveOwners before (start withPlatform)) :
    let x := (performIndexed before (startIndexed withPlatform)).2
    let w := (perform before (start withPlatform)).2
    let w' := (perform (before ++ after) (start withPlatform)).2
    x.plain = w ∧ w.registry.Consistent ∧ w.registry.Extends w'.registry ∧
      (∀ name c, x.registry.lookup name = some c ↔ w.registry.IsNamed c name) ∧
      (∀ r', w.registry.Retains r' → ∀ name, r'.lookup name = x.registry.lookup name) ∧
      ∀ header c, w.registry.IsNamed c (internalToBinary header.name) →
        (IndexedWorkspace.addClass header x).1 = c ∧
          (IndexedWorkspace.addClass header x).2.registry = x.registry := by
  intro x w w'
  obtain ⟨hstart, hplain⟩ := startIndexed_agrees withPlatform
  obtain ⟨hx, hsame⟩ := performIndexed_agrees hstart before
  rw [hplain] at hsame
  have hregistry : x.registry.toRegistry = w.registry := congrArg Workspace.registry hsame
  have hw : w.registry.Consistent := consistent_perform (start_consistent withPlatform) h
  rw [← hregistry]
  refine ⟨hsame, hregistry ▸ hw, ?_, hx, fun r' hr name => hx.lookup_retained hr name,
    fun header c hc => addClass_of_isNamed hx hc⟩
  rw [hregistry]
  change w.registry.Extends (perform (before ++ after) (start withPlatform)).2.registry
  rw [perform_append]
  exact perform_extends after w

/-- Two classes get members in turns and are resolved, one of them from events; then a name is
registered again. -/
theorem perform_consistent_of_members :
    let before : List Action := [
      .step (.addClass { name := "O", typeParams := ["T"] }),
      .step (.addClass { name := "pkg/A", superclass := some "O" }),
      .step (.addMethod ⟨0⟩ "m" ⟨[.base .int], none⟩ [] ["U"]),
      .step (.addMethod ⟨1⟩ "<init>" ⟨[], none⟩ [] []),
      .step (.addMethod ⟨0⟩ "m" ⟨[], none⟩ [] []),
      .step (.addField ⟨1⟩ "f" (.object "O")),
      .assembleClass .silent {} ⟨1⟩ {} ([Event.formalTypeParameter "S", .superclass,
        .classType "O", .typeArgument .exact, .typeVariable "S", .close].map .accept ++ [.finish]),
      .step (.resolve (.pool { options := {} }) {} (.ofMethod ⟨0⟩) (some "<U:Lpkg/A;>(I)V"))]
    let after : List Action := [.step (.addClass { name := "pkg.A", isInterface := true })]
    let x := (performIndexed before (startIndexed false)).2
    let r := (perform before (start false)).2.registry
    let r' := (perform (before ++ after) (start false)).2.registry
    HaveOwners before (start false) ∧ r.Consistent ∧ r.Extends r' ∧
      (r.classAt? ⟨0⟩).map (·.methods) = some [⟨0⟩, ⟨2⟩] ∧
      (r.typeParams (.ofClass ⟨1⟩)).map (·.var) = [⟨.ofClass ⟨1⟩, 0⟩] ∧
      x.registry.byName = [("pkg.A", ⟨1⟩), ("O", ⟨0⟩)] ∧
      x.registry.lookup "pkg.A" = some ⟨1⟩ ∧ r.lookup "pkg.A" = x.registry.lookup "pkg.A" := by
  intro before after x r r'
  have howners : HaveOwners before (start false) := by
    refine ⟨trivial, trivial, ?_, ?_, ?_, ?_, trivial, trivial, trivial⟩ <;>
      exact fun hnone => absurd (congrArg Option.isNone hnone) (by decide +kernel)
  obtain ⟨-, hr, hext, hindex, hsearch, -⟩ := perform_consistent false before after howners
  exact ⟨howners, hr, hext, by decide +kernel, by decide +kernel, by decide +kernel,
    (hindex "pkg.A" ⟨1⟩).2 (by unfold Registry.IsNamed; decide +kernel),
    hsearch r (.refl r) "pkg.A"⟩

end Session

end JavaGenerics
