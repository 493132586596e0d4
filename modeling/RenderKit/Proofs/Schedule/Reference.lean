import RenderKit.Proofs.Schedule.Reordering

/-!
# Answers without a stored schedule

A reference that keeps the passes and a flag, and finds dependencies and order anew from the passes
for every question about them. A graph of passes gives the same answers to every sequence of
requests (`answers_eq_reference`): what it stores is what the reference finds, and the flag tells
whether it is stored.
-/

namespace RenderKit

variable {σ : Type}

/-- What is asked of a graph of passes: to change, to schedule or run its passes, or to tell of
them. -/
inductive Request (σ : Type) where
  | rename (name : String)
  | add (p : Pass σ)
  | remove (name : String)
  | build
  | execute (s : σ)
  | name
  | passes
  | pass (name : String)
  | dependencies (name : String)
  | orderedNames
  | levels
  | isBuilt

/-- What a request gives. -/
inductive Answer (σ : Type) where
  | done
  | outcome (result : Except ScheduleError Unit)
  | removed (result : Except ScheduleError (Pass σ))
  | ran (result : Except ScheduleError Unit) (s : σ)
  | name (name : String)
  | passes (passes : List (Pass σ))
  | pass (p? : Option (Pass σ))
  | dependencies (names? : Option (List String))
  | orderedNames (names : List String)
  | levels (levels : List (List String))
  | isBuilt (built : Bool)

/-- The answers to requests, one after the other, and the state behind them. -/
def serve {α : Type} (respond : α → Request σ → Answer σ × α) (state : α) :
    List (Request σ) → List (Answer σ) × α
  | [] => ([], state)
  | request :: requests =>
    let (answer, state) := respond state request
    let (answers, state) := serve respond state requests
    (answer :: answers, state)

/-- The answer of a graph, and the graph behind it. A refused change leaves the graph as it was. -/
def PassGraph.respond (g : PassGraph σ) : Request σ → Answer σ × PassGraph σ
  | .rename name => (.done, g.rename name)
  | .add p =>
    match g.add p with
    | .ok g' => (.outcome (.ok ()), g')
    | .error e => (.outcome (.error e), g)
  | .remove name =>
    match g.remove name with
    | .ok (p, g') => (.removed (.ok p), g')
    | .error e => (.removed (.error e), g)
  | .build => (.outcome g.build.1, g.build.2)
  | .execute s => (.ran (g.execute s).1 (g.execute s).2.2, (g.execute s).2.1)
  | .name => (.name g.name, g)
  | .passes => (.passes g.passes, g)
  | .pass name => (.pass (g.pass? name), g)
  | .dependencies name => (.dependencies (g.dependencies? name), g)
  | .orderedNames => (.orderedNames g.orderedNames, g)
  | .levels => (.levels g.levels, g)
  | .isBuilt => (.isBuilt g.isBuilt, g)

/-! ### The reference -/

/-- Passes, and a flag that tells whether their schedule is to be shown. -/
structure Reference (σ : Type) where
  name : String := "Render Graph"
  passes : List (Pass σ) := []
  built : Bool := false

namespace Reference

/-- The slot of a name, looked for among the passes. -/
def slot? (r : Reference σ) (name : String) : Option Nat :=
  r.passes.findIdx? (·.name == name)

/-- The pass with a name. -/
def pass? (r : Reference σ) (name : String) : Option (Pass σ) :=
  (r.slot? name).bind (r.passes[·]?)

/-- The name of the pass in a slot. -/
def nameAt (r : Reference σ) (slot : Nat) : String :=
  (r.passes[slot]?.map (·.name)).getD ""

/-- The schedule of the passes, found from nothing else. -/
def plan (r : Reference σ) : Except ScheduleError Plan := do
  let dependencies ← Schedule.dependencies r.passes (Schedule.slotsByName r.passes)
  let order ← (Schedule.order dependencies).mapError fun slot ↦ .cycle (r.nameAt slot)
  return ⟨dependencies, order⟩

/-- The schedule that questions are answered from. -/
def shown (r : Reference σ) : Option Plan :=
  if r.built then r.plan.toOption else none

/-- The passes that a pass follows. -/
def dependencies? (r : Reference σ) (name : String) : Option (List String) := do
  let slot ← r.slot? name
  let plan ← r.shown
  let slots ← plan.dependencies[slot]?
  return slots.map r.nameAt

/-- The names of the passes in the order of the schedule. -/
def orderedNames (r : Reference σ) : List String :=
  (r.shown.map fun plan ↦ plan.order.map r.nameAt).getD []

/-- The names of the passes, wave by wave. -/
def levels (r : Reference σ) : List (List String) :=
  (r.shown.map fun plan ↦
    (Schedule.waves plan.dependencies plan.order).map (·.map r.nameAt)).getD []

/-- The state after the passes of an order that have work did it, each once. -/
def runOrder (r : Reference σ) (order : List Nat) (s : σ) : σ :=
  ((order.filterMap (r.passes[·]?)).filterMap (·.callback)).foldl (fun s work ↦ work s) s

/-- The answer of the reference, and the reference behind it. -/
def respond (r : Reference σ) : Request σ → Answer σ × Reference σ
  | .rename name => (.done, { r with name := name })
  | .add p =>
    if p.name ∈ r.passes.map (·.name) then (.outcome (.error (.duplicatePass p.name)), r)
    else (.outcome (.ok ()), { r with passes := r.passes ++ [p], built := false })
  | .remove name =>
    match r.slot? name, r.pass? name with
    | some slot, some p =>
      (.removed (.ok p), { r with passes := r.passes.eraseIdx slot, built := false })
    | _, _ => (.removed (.error (.passNotFound name)), r)
  | .build =>
    match r.plan with
    | .ok _ => (.outcome (.ok ()), { r with built := true })
    | .error e => (.outcome (.error e), { r with built := false })
  | .execute s =>
    match r.plan with
    | .ok plan => (.ran (.ok ()) (r.runOrder plan.order s), { r with built := true })
    | .error e => (.ran (.error e) s, { r with built := false })
  | .name => (.name r.name, r)
  | .passes => (.passes r.passes, r)
  | .pass name => (.pass (r.pass? name), r)
  | .dependencies name => (.dependencies (r.dependencies? name), r)
  | .orderedNames => (.orderedNames r.orderedNames, r)
  | .levels => (.levels r.levels, r)
  | .isBuilt => (.isBuilt r.built, r)

theorem plan_of_shown {r : Reference σ} {plan : Plan} (h : r.shown = some plan) :
    r.plan = .ok plan := by
  rw [shown] at h
  split at h
  · cases hr : r.plan with
    | ok found => simpa [hr, Except.toOption] using h
    | error e => simp [hr, Except.toOption] at h
  · cases h

end Reference

/-! ### Equal answers -/

theorem Indexes.eq {κ : Type} {keys : List κ} {find? other? : κ → Option Nat}
    (h : Indexes keys find?) (ho : Indexes keys other?) : find? = other? := by
  funext key
  apply Option.ext
  intro slot
  rw [h key slot, ho key slot]

/-- Different names are found by looking at one pass after the other. -/
theorem Schedule.indexes_findIdx? {passes : List (Pass σ)} (h : (passes.map (·.name)).Nodup) :
    Indexes (passes.map (·.name)) fun name ↦ passes.findIdx? (·.name == name) := by
  intro name slot
  rw [List.findIdx?_eq_some_iff_getElem, List.getElem?_eq_some_iff]
  constructor
  · rintro ⟨hlt, hn, -⟩
    exact ⟨by simpa using hlt, by simpa using hn⟩
  · rintro ⟨hlt, rfl⟩
    refine ⟨by simpa using hlt, by simp, fun earlier he heq ↦ ?_⟩
    -- A pass of this name before the slot would have the same name twice.
    have hname : (passes.map (·.name))[earlier]? = (passes.map (·.name))[slot]? := by
      rw [List.getElem?_eq_getElem (he.trans hlt), List.getElem?_eq_getElem hlt]
      simpa using heq
    exact List.nodup_iff_getElem?_ne_getElem?.mp h earlier slot he hlt hname

/-- Dependencies depend on what an index finds, and not on how it is made. -/
theorem Schedule.dependencies_congr {passes : List (Pass σ)} {index other : Table Nat}
    (h : index.get? = other.get?) : dependencies passes index = dependencies passes other := by
  have hn : named (σ := σ) index = named other := by
    funext pass
    rw [named, named, h]
  have hd : dependenciesOf passes index = dependenciesOf passes other := by
    funext consumption entry
    rw [dependenciesOf, dependenciesOf, hn]
  rw [dependencies, dependencies, hd]

/-- Running passes does the work of those that have some. -/
theorem PassGraph.runAll_run (passes : List (Pass σ)) (s : σ) :
    runAll Pass.run passes s =
      (passes.filterMap (·.callback)).foldl (fun s work ↦ work s) s := by
  rw [runAll, List.foldl_filterMap]
  congr 1
  funext s p
  rw [Pass.run]
  cases p.callback <;> rfl

/-- A graph holds what a reference has: the passes under an index of their names and, when the flag
is set, the dependencies and the order that the reference finds. -/
structure Mirrors (r : Reference σ) (g : PassGraph σ) : Prop where
  name : g.name = r.name
  passes : g.passes = r.passes
  indexed : g.Indexed
  dependencies : g.dependencies = (r.shown.map (·.dependencies)).getD []
  sorted : g.sorted = r.shown.map (·.order)
  built : g.isBuilt = r.built

namespace Mirrors

variable {r : Reference σ} {g : PassGraph σ}

theorem get?_index (h : Mirrors r g) (name : String) : g.index.get? name = r.slot? name := by
  have hn : (g.passes.map (·.name)).Nodup := h.indexed.nodup
  have hi := h.indexed.eq (Schedule.indexes_findIdx? hn)
  rw [hi, Reference.slot?, h.passes]

theorem pass?_eq (h : Mirrors r g) (name : String) : g.pass? name = r.pass? name := by
  rw [PassGraph.pass?, Reference.pass?, h.get?_index, h.passes]

theorem nameAt_eq (h : Mirrors r g) : g.nameAt = r.nameAt := by
  funext slot
  rw [PassGraph.nameAt, Reference.nameAt, h.passes]

/-- A build finds what the reference finds. -/
theorem planned_eq (h : Mirrors r g) : g.planned = r.plan := by
  have hi := h.indexed.eq (Schedule.indexes_slotsByName h.indexed.nodup)
  rw [PassGraph.planned, Reference.plan, ← h.passes, Schedule.dependencies_congr hi, h.nameAt_eq]

/-- What a graph stores is what a build would find. -/
theorem inStep (h : Mirrors r g) : g.InStep := by
  have hd := h.dependencies
  have ho := h.sorted
  cases hs : r.shown with
  | none =>
    rw [hs] at hd ho
    exact .inl ⟨hd, ho⟩
  | some plan =>
    rw [hs] at hd ho
    exact .inr ⟨plan, ⟨hd, ho⟩, h.planned_eq.trans (Reference.plan_of_shown hs)⟩

/-- Passes without a schedule. -/
theorem unplanned {passes : List (Pass σ)} {name : String} (hn : g.name = name)
    (hp : g.passes = passes) (hi : g.Indexed) :
    Mirrors { name := name, passes := passes, built := false } g.unplanned where
  name := hn
  passes := hp
  indexed := hi
  dependencies := rfl
  sorted := rfl
  built := rfl

/-- A build sets the flag or clears it. -/
theorem build (h : Mirrors r g) :
    Mirrors { r with built := r.plan.isOk } g.build.2 := by
  have hp := h.planned_eq
  rw [PassGraph.build, hp]
  cases hr : r.plan with
  | ok plan =>
    have hshown : Reference.shown { r with built := true } = some plan :=
      congrArg Except.toOption hr
    refine ⟨h.name, h.passes, h.indexed, ?_, ?_, rfl⟩
    · simp only [Except.isOk, Except.toBool, hshown]
      rfl
    · simp only [Except.isOk, Except.toBool, hshown]
      rfl
  | error e => exact .unplanned h.name h.passes h.indexed

/-! #### One request -/

theorem respond_add (h : Mirrors r g) (p : Pass σ) :
    (g.respond (.add p)).1 = (r.respond (.add p)).1 ∧
      Mirrors (r.respond (.add p)).2 (g.respond (.add p)).2 := by
  have hm : g.index.contains p.name = true ↔ p.name ∈ r.passes.map (·.name) := by
    rw [Table.contains, h.indexed.isSome_iff, h.passes]
  rw [PassGraph.respond, Reference.respond, PassGraph.add]
  by_cases hp : p.name ∈ r.passes.map (·.name)
  · rw [if_pos (hm.mpr hp), if_pos hp]
    exact ⟨rfl, h⟩
  · rw [if_neg (mt hm.mp hp), if_neg hp]
    refine ⟨rfl, .unplanned h.name ?_ (h.indexed.push (h.passes ▸ hp))⟩
    exact congrArg (· ++ [p]) h.passes

theorem respond_remove (h : Mirrors r g) (name : String) :
    (g.respond (.remove name)).1 = (r.respond (.remove name)).1 ∧
      Mirrors (r.respond (.remove name)).2 (g.respond (.remove name)).2 := by
  rw [PassGraph.respond, Reference.respond, PassGraph.remove, h.pass?_eq, h.get?_index,
    Reference.pass?]
  cases r.slot? name with
  | none => exact ⟨rfl, h⟩
  | some slot =>
    cases hp : r.passes[slot]? with
    | none =>
      simp only [Option.bind_some, hp]
      exact ⟨trivial, h⟩
    | some p =>
      simp only [Option.bind_some, hp]
      refine ⟨trivial, .unplanned h.name ?_ (h.indexed.without slot)⟩
      exact congrArg (·.eraseIdx slot) h.passes

theorem respond_build (h : Mirrors r g) :
    (g.respond .build).1 = (r.respond .build).1 ∧
      Mirrors (r.respond .build).2 (g.respond .build).2 := by
  have hb := h.build
  have hp := h.planned_eq
  rw [PassGraph.respond, Reference.respond]
  cases hr : r.plan with
  | ok plan =>
    rw [hr] at hb hp
    exact ⟨by rw [PassGraph.build, hp], hb⟩
  | error e =>
    rw [hr] at hb hp
    exact ⟨by rw [PassGraph.build, hp], hb⟩

/-- Execution runs what the reference finds, whether it is stored or not. -/
theorem respond_execute (h : Mirrors r g) (s : σ) :
    (g.respond (.execute s)).1 = (r.respond (.execute s)).1 ∧
      Mirrors (r.respond (.execute s)).2 (g.respond (.execute s)).2 := by
  have hrun : ∀ order, g.runSlots order s = r.runOrder order s := by
    intro order
    rw [PassGraph.runSlots_eq, PassGraph.runAll_run, Reference.runOrder, h.passes]
  rw [PassGraph.respond, Reference.respond]
  by_cases hb : g.isBuilt = true
  · obtain ⟨plan, hs, hp⟩ := h.inStep.exists_stores hb
    have hr : r.plan = .ok plan := h.planned_eq.symm.trans hp
    have hbuilt : r.built = true := h.built ▸ hb
    simp only [PassGraph.execute, if_pos hb, hs.sorted, Option.getD_some, hr, hrun, true_and]
    rw [← hbuilt]
    exact h
  · have hmirrors := h.build
    have hp := h.planned_eq
    cases hr : r.plan with
    | ok plan =>
      rw [hr] at hmirrors hp
      have hbuild := PassGraph.build_eq_ok_iff.mpr ⟨plan, hp, rfl⟩
      rw [hbuild] at hmirrors
      simp only [PassGraph.execute, if_neg hb, hbuild]
      exact ⟨congrArg _ (hrun plan.order), hmirrors⟩
    | error e =>
      rw [hr] at hmirrors hp
      have hbuild := PassGraph.build_eq_error_iff.mpr ⟨hp, rfl⟩
      rw [hbuild] at hmirrors
      simp only [PassGraph.execute, if_neg hb, hbuild]
      exact ⟨trivial, hmirrors⟩

/-- A request gets the same answer from both, and leaves them alike. -/
theorem respond (h : Mirrors r g) (request : Request σ) :
    (g.respond request).1 = (r.respond request).1 ∧
      Mirrors (r.respond request).2 (g.respond request).2 := by
  cases request with
  | rename name => exact ⟨rfl, rfl, h.passes, h.indexed, h.dependencies, h.sorted, h.built⟩
  | add p => exact h.respond_add p
  | remove name => exact h.respond_remove name
  | build => exact h.respond_build
  | execute s => exact h.respond_execute s
  | name => exact ⟨congrArg _ h.name, h⟩
  | passes => exact ⟨congrArg _ h.passes, h⟩
  | pass name => exact ⟨congrArg _ (h.pass?_eq name), h⟩
  | dependencies name =>
    refine ⟨congrArg Answer.dependencies ?_, h⟩
    rw [PassGraph.dependencies?, Reference.dependencies?, h.get?_index, h.dependencies,
      h.nameAt_eq]
    cases r.shown <;> rfl
  | orderedNames =>
    refine ⟨congrArg Answer.orderedNames ?_, h⟩
    rw [PassGraph.orderedNames, Reference.orderedNames, h.sorted, h.nameAt_eq]
    cases r.shown <;> rfl
  | levels =>
    refine ⟨congrArg Answer.levels ?_, h⟩
    rw [PassGraph.levels, Reference.levels, h.sorted, h.dependencies, h.nameAt_eq]
    cases r.shown <;> rfl
  | isBuilt => exact ⟨congrArg _ h.built, h⟩

/-- So do requests one after the other. -/
theorem serve (h : Mirrors r g) (requests : List (Request σ)) :
    (RenderKit.serve PassGraph.respond g requests).1 =
        (RenderKit.serve Reference.respond r requests).1 ∧
      Mirrors (RenderKit.serve Reference.respond r requests).2
        (RenderKit.serve PassGraph.respond g requests).2 := by
  induction requests generalizing r g with
  | nil => exact ⟨rfl, h⟩
  | cons request requests ih =>
    obtain ⟨hanswer, hnext⟩ := h.respond request
    obtain ⟨hanswers, hend⟩ := ih hnext
    exact ⟨congrArg₂ List.cons hanswer hanswers, hend⟩

end Mirrors

/-! ### Every sequence of requests -/

/-- Where requests start: at a graph without passes, under a name or the usual one, or at the
standard passes. -/
inductive Start where
  | empty (name : String)
  | unnamed
  | standard

/-- The graph that requests start at. -/
def Start.graph : Start → PassGraph σ
  | .empty name => { name := name }
  | .unnamed => {}
  | .standard => .standard

/-- The reference that requests start at. -/
def Start.reference : Start → Reference σ
  | .empty name => { name := name }
  | .unnamed => {}
  | .standard =>
    { name := (PassGraph.standard : PassGraph σ).name, passes := PassGraph.standard.passes }

private theorem mirrors_start (start : Start) :
    Mirrors (σ := σ) start.reference start.graph := by
  cases start with
  | empty name => exact ⟨rfl, rfl, .nil fun _ ↦ rfl, rfl, rfl, rfl⟩
  | unnamed => exact ⟨rfl, rfl, .nil fun _ ↦ rfl, rfl, rfl, rfl⟩
  | standard => exact ⟨rfl, rfl, PassGraph.reachable_standard.indexed, rfl, rfl, rfl⟩

namespace PassGraph

/-- What a graph stores is what its passes give: their names, all different, with their slots, and
either no dependencies and no order or both as a build of the passes alone would find them, with
slots of passes only. -/
structure Current (g : PassGraph σ) : Prop where
  nodup : (g.passes.map (·.name)).Nodup
  indexed : g.Indexed
  stored : (g.dependencies = [] ∧ g.sorted = none) ∨
    ∃ plan, g.dependencies = plan.dependencies ∧ g.sorted = some plan.order ∧
      (ofPasses g.name g.passes).build = (.ok (), (ofPasses g.name g.passes).withPlan plan)
  inRange : (∀ slots ∈ g.dependencies, ∀ slot ∈ slots, slot < g.passes.length) ∧
    ∀ order, g.sorted = some order → g.dependencies.length = g.passes.length ∧
      ∀ slot ∈ order, slot < g.passes.length

/-- What requests do to the schedule. A change that is made drops it, a change that is refused does
nothing, a build that fails drops it. Execution goes through every pass once, in the order that a
build of the passes alone would find, and does the work of each that has some, or it does
nothing. -/
structure Responsive (g : PassGraph σ) : Prop where
  added : ∀ p, (g.respond (.add p)).1 = .outcome (.ok ()) →
    (g.respond (.add p)).2.isBuilt = false
  removed : ∀ name p, (g.respond (.remove name)).1 = .removed (.ok p) →
    (g.respond (.remove name)).2.isBuilt = false
  refusedAdd : ∀ p e, (g.respond (.add p)).1 = .outcome (.error e) → (g.respond (.add p)).2 = g
  refusedRemove : ∀ name e, (g.respond (.remove name)).1 = .removed (.error e) →
    (g.respond (.remove name)).2 = g
  failed : ∀ e, g.build.1 = .error e → g.build.2.isBuilt = false
  ran : ∀ s, (g.execute s).1 = .ok () → ∃ plan : Plan,
    (ofPasses g.name g.passes).planned = .ok plan ∧
      (plan.order.filterMap (g.passes[·]?)).Perm g.passes ∧
        (g.execute s).2.2 = ((plan.order.filterMap (g.passes[·]?)).filterMap (·.callback)).foldl
          (fun s work ↦ work s) s
  stopped : ∀ s e, (g.execute s).1 = .error e → (g.execute s).2.2 = s

variable {r : Reference σ} {g : PassGraph σ}

/-- The passes alone have the schedule of the graph. -/
private theorem planned_ofPasses (h : g.Indexed) :
    (ofPasses g.name g.passes).planned = g.planned := by
  have hi := (reachable_ofPasses g.name h.nodup).1.indexed
  rw [Indexed, passes_ofPasses] at hi
  have hn : (ofPasses g.name g.passes).nameAt = g.nameAt := by
    funext slot
    rw [nameAt, nameAt, passes_ofPasses]
  rw [planned, planned, passes_ofPasses, Schedule.dependencies_congr (hi.eq h), hn]

/-- The slots of a plan are slots of passes, each of which has a row of dependencies. -/
private theorem inRange_of_planned (h : g.Indexed) {plan : Plan} (hp : g.planned = .ok plan) :
    plan.dependencies.length = g.passes.length ∧
      (∀ slots ∈ plan.dependencies, ∀ slot ∈ slots, slot < g.passes.length) ∧
        ∀ slot ∈ plan.order, slot < g.passes.length := by
  obtain ⟨ht, ho⟩ := planned_eq_ok_iff.mp hp
  have hr := Schedule.inRange_of_dependencies h ht
  have hlength := Schedule.length_of_dependencies ht
  refine ⟨hlength, fun slots hs slot hslot ↦ ?_, fun slot hslot ↦ ?_⟩
  · obtain ⟨later, hlater⟩ := List.mem_iff_getElem?.mp hs
    rw [← hlength]
    refine hr later slot ?_
    rw [Schedule.Link, Schedule.linksOf, hlater]
    exact hslot
  · have hm := (Schedule.perm_of_order hr ho).mem_iff.mp hslot
    rwa [List.mem_range, hlength] at hm

/-- A graph that holds what a reference has is current. -/
theorem current_of_mirrors (h : Mirrors r g) : g.Current where
  nodup := h.indexed.nodup
  indexed := h.indexed
  stored := by
    refine h.inStep.imp_right fun ⟨plan, hs, hp⟩ ↦ ⟨plan, hs.dependencies, hs.sorted, ?_⟩
    exact build_eq_ok_iff.mpr ⟨plan, (planned_ofPasses h.indexed).trans hp, rfl⟩
  inRange := by
    rcases h.inStep with ⟨hd, hnone⟩ | ⟨plan, hs, hp⟩
    · rw [hd, hnone]
      simp
    · obtain ⟨hlength, hdependencies, horder⟩ := inRange_of_planned h.indexed hp
      rw [hs.dependencies, hs.sorted]
      refine ⟨hdependencies, fun order he ↦ ?_⟩
      cases he
      exact ⟨hlength, horder⟩

/-- A graph with an index of its names does with its schedule what requests ask for. -/
theorem responsive_of_mirrors (h : Mirrors r g) : g.Responsive where
  added := by
    intro p hp
    rw [respond] at hp ⊢
    cases ha : g.add p with
    | error e => simp [ha] at hp
    | ok g' =>
      obtain ⟨-, rfl⟩ := add_eq_ok_iff.mp ha
      rfl
  removed := by
    intro name p hp
    rw [respond] at hp ⊢
    cases hr : g.remove name with
    | error e => simp [hr] at hp
    | ok removed =>
      obtain ⟨slot, -, -, hg⟩ := remove_eq_ok_iff.mp hr
      simp only [hg]
      rfl
  refusedAdd := by
    intro p e hp
    rw [respond] at hp ⊢
    cases ha : g.add p with
    | error e => rfl
    | ok g' => simp [ha] at hp
  refusedRemove := by
    intro name e hp
    rw [respond] at hp ⊢
    cases hr : g.remove name with
    | error e => rfl
    | ok removed => simp [hr] at hp
  failed := by
    intro e he
    obtain ⟨hp, -⟩ := build_eq_error_iff.mp (Prod.ext he rfl)
    rw [isBuilt_build, hp]
    rfl
  ran := by
    intro s hs
    obtain ⟨plan, hp, hstate⟩ := h.inStep.exists_planned_of_execute hs
    refine ⟨plan, by rw [planned_ofPasses h.indexed, hp], ?_, ?_⟩
    · exact perm_filterMap (legal_of_planned h.indexed hp).perm
    · rw [hstate, runSlots_eq, runAll_run]
  stopped := by
    intro s e he
    have ha := (h.respond_execute s).1
    rw [respond, Reference.respond] at ha
    cases hr : r.plan with
    | ok plan =>
      simp only [hr, Answer.ran.injEq, he] at ha
      cases ha.1
    | error cause =>
      simp only [hr, Answer.ran.injEq] at ha
      exact ha.2

/-- A graph of passes answers every sequence of requests as the reference does. Behind every
sequence it stores what its passes give, and is ready for the next request. -/
theorem answers_eq_reference (start : Start) (requests : List (Request σ)) :
    let behind := serve respond start.graph requests
    behind.1 = (serve Reference.respond start.reference requests).1 ∧
      behind.2.Current ∧ behind.2.Responsive := by
  obtain ⟨hanswers, hmirrors⟩ := (mirrors_start start).serve requests
  exact ⟨hanswers, current_of_mirrors hmirrors, responsive_of_mirrors hmirrors⟩

end PassGraph

end RenderKit
