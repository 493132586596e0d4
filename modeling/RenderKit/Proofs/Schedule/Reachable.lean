import RenderKit.Proofs.Indexing
import RenderKit.Proofs.Refusal
import RenderKit.Schedule.PassGraph
import Mathlib.Data.List.Induction

/-!
# Reachable pass graphs

The graphs that declaring, removing, scheduling and running passes lead to. In each of them the
index tells where every name stands (`Reachable.indexed`), so the names differ, and every list of
passes with different names can be declared (`exists_reachable_iff`). A schedule is dropped by every
step that changes the passes, so it is always the one that a build would find
(`Reachable.inStep`).
-/

namespace RenderKit

variable {σ : Type}

/-- Different names are found in the index that is made from them. -/
theorem Schedule.indexes_slotsByName {passes : List (Pass σ)}
    (h : (passes.map (·.name)).Nodup) :
    Indexes (passes.map (·.name)) (slotsByName passes).get? := by
  induction passes using List.reverseRecOn with
  | nil => exact .nil fun _ ↦ rfl
  | append_singleton passes p ih =>
    rw [List.map_append, List.nodup_append] at h
    have hp : p.name ∉ passes.map (·.name) := fun hm ↦ h.2.2 _ hm p.name (by simp) rfl
    rw [List.map_append]
    refine (ih h.1).concat hp fun other ↦ ?_
    rw [slotsByName, List.zipIdx_append, List.foldl_append, List.length_map, Nat.zero_add]
    exact Table.get?_insert _ _ _ _

namespace PassGraph

/-- The graphs that the operations lead to. -/
inductive Reachable : PassGraph σ → Prop where
  | empty (name : String) : Reachable { name := name }
  | rename {g : PassGraph σ} (name : String) : Reachable g → Reachable (g.rename name)
  | add {g g' : PassGraph σ} (p : Pass σ) : Reachable g → g.add p = .ok g' → Reachable g'
  | remove {g g' : PassGraph σ} {name : String} {p : Pass σ} :
      Reachable g → g.remove name = .ok (p, g') → Reachable g'
  | build {g : PassGraph σ} : Reachable g → Reachable g.build.2
  | execute {g : PassGraph σ} (s : σ) : Reachable g → Reachable (g.execute s).2.1

@[simp] theorem passes_build (g : PassGraph σ) : g.build.2.passes = g.passes := by
  rw [build]
  split <;> rfl

@[simp] theorem index_build (g : PassGraph σ) : g.build.2.index = g.index := by
  rw [build]
  split <;> rfl

/-- The slots in ascending order hold the names in the order of declaration. -/
theorem map_nameAt_range (g : PassGraph σ) :
    (List.range g.passes.length).map g.nameAt = g.passes.map (·.name) := by
  apply List.ext_getElem?
  intro slot
  rw [List.getElem?_map, List.getElem?_map]
  by_cases hs : slot < g.passes.length
  · simp [hs, nameAt]
  · simp [hs]

/-- Running a graph schedules it at most. -/
theorem execute_graph (g : PassGraph σ) (s : σ) :
    (g.execute s).2.1 = if g.isBuilt then g else g.build.2 := by
  by_cases hb : g.isBuilt
  · simp only [execute, if_pos hb]
  · simp only [execute, if_neg hb]
    split <;> rfl

/-- Declaring fails only for a name that is taken. -/
theorem add_eq_ok_iff {g g' : PassGraph σ} {p : Pass σ} :
    g.add p = .ok g' ↔ g.index.contains p.name = false ∧ g' = (g.push p).unplanned := by
  rw [add]
  split
  · next h => simp [h]
  · next h => simp [Bool.not_eq_true _ ▸ h, eq_comm]

/-- Removing takes out the pass in the slot of its name. -/
theorem remove_eq_ok_iff {g g' : PassGraph σ} {name : String} {p : Pass σ} :
    g.remove name = .ok (p, g') ↔
      ∃ slot, g.index.get? name = some slot ∧ g.passes[slot]? = some p ∧
        g' = (g.without slot).unplanned := by
  rw [remove, pass?]
  cases g.index.get? name with
  | none => simp
  | some slot =>
    cases hp : g.passes[slot]? with
    | none => simp [hp]
    | some q => simp [hp, eq_comm]

/-- A plan is a table of dependencies and an order of it. -/
theorem planned_eq_ok_iff {g : PassGraph σ} {plan : Plan} :
    g.planned = .ok plan ↔ Schedule.dependencies g.passes g.index = .ok plan.dependencies ∧
      Schedule.order plan.dependencies = .ok plan.order := by
  rw [planned]
  simp only [bind_eq_ok_iff, mapError_eq_ok_iff]
  constructor
  · rintro ⟨table, ht, order, ho, hp⟩
    cases hp
    exact ⟨ht, ho⟩
  · rintro ⟨ht, ho⟩
    exact ⟨_, ht, _, ho, rfl⟩

/-- There is no plan without a table of dependencies, nor for a table that has no order. -/
theorem planned_eq_error_iff {g : PassGraph σ} {e : ScheduleError} :
    g.planned = .error e ↔ Schedule.dependencies g.passes g.index = .error e ∨
      ∃ table slot, Schedule.dependencies g.passes g.index = .ok table ∧
        Schedule.order table = .error slot ∧ e = .cycle (g.nameAt slot) := by
  rw [planned]
  simp only [bind_eq_error_iff, mapError_eq_error_iff]
  constructor
  · rintro (h | ⟨table, ht, ⟨slot, ho, rfl⟩ | ⟨_, _, h⟩⟩)
    · exact .inl h
    · exact .inr ⟨table, slot, ht, ho, rfl⟩
    · cases h
  · rintro (h | ⟨table, slot, ht, ho, rfl⟩)
    · exact .inl h
    · exact .inr ⟨table, ht, .inl ⟨slot, ho, rfl⟩⟩

theorem build_eq_ok_iff {g g' : PassGraph σ} :
    g.build = (.ok (), g') ↔ ∃ plan, g.planned = .ok plan ∧ g' = g.withPlan plan := by
  rw [build]
  cases g.planned with
  | error e => simp
  | ok plan => simp [eq_comm]

theorem build_eq_error_iff {g g' : PassGraph σ} {e : ScheduleError} :
    g.build = (.error e, g') ↔ g.planned = .error e ∧ g' = g.unplanned := by
  rw [build]
  cases g.planned with
  | error e => simp [eq_comm]
  | ok plan => simp

/-! ### The index of names -/

/-- The index of a graph tells where every name stands. -/
def Indexed (g : PassGraph σ) : Prop :=
  Indexes (g.passes.map (·.name)) g.index.get?

theorem Indexed.push {g : PassGraph σ} (h : g.Indexed) {p : Pass σ}
    (hp : p.name ∉ g.passes.map (·.name)) : (g.push p).Indexed := by
  rw [Indexed, PassGraph.push, List.map_append]
  refine h.concat hp fun other ↦ ?_
  rw [List.length_map]
  exact Table.get?_insert _ _ _ _

theorem contains_eq_false_iff {g : PassGraph σ} (h : g.Indexed) {name : String} :
    g.index.contains name = false ↔ name ∉ g.passes.map (·.name) := by
  rw [← h.isSome_iff, Table.contains, Bool.not_eq_true]

theorem Indexed.add {g g' : PassGraph σ} (h : g.Indexed) {p : Pass σ} (ha : g.add p = .ok g') :
    g'.Indexed := by
  obtain ⟨hn, rfl⟩ := add_eq_ok_iff.mp ha
  exact h.push ((contains_eq_false_iff h).mp hn)

theorem Indexed.without {g : PassGraph σ} (h : g.Indexed) (slot : Nat) :
    (g.without slot).Indexed := by
  refine Schedule.indexes_slotsByName (h.nodup.sublist ?_)
  exact (List.eraseIdx_sublist g.passes slot).map _

theorem Indexed.remove {g g' : PassGraph σ} (h : g.Indexed) {name : String} {p : Pass σ}
    (hr : g.remove name = .ok (p, g')) : g'.Indexed := by
  obtain ⟨slot, -, -, rfl⟩ := remove_eq_ok_iff.mp hr
  exact h.without slot

theorem Indexed.build {g : PassGraph σ} (h : g.Indexed) : g.build.2.Indexed := by
  rw [Indexed, passes_build, index_build]
  exact h

/-- The index of every reachable graph tells where every name stands. -/
theorem Reachable.indexed {g : PassGraph σ} (h : g.Reachable) : g.Indexed := by
  induction h with
  | empty => exact .nil fun _ ↦ rfl
  | rename _ _ ih => exact ih
  | add _ _ ha ih => exact ih.add ha
  | remove _ hr ih => exact ih.remove hr
  | build _ ih => exact ih.build
  | execute s _ ih =>
    rw [execute_graph]
    split
    · exact ih
    · exact ih.build

@[simp] theorem passes_ofPasses (name : String) (passes : List (Pass σ)) :
    (ofPasses name passes).passes = passes := by
  induction passes using List.reverseRecOn with
  | nil => rfl
  | append_singleton passes p ih =>
    rw [ofPasses, List.foldl_append]
    exact congrArg (· ++ [p]) ih

/-- Passes with different names can be declared one after the other. -/
theorem reachable_ofPasses (name : String) {passes : List (Pass σ)}
    (h : (passes.map (·.name)).Nodup) :
    (ofPasses name passes).Reachable ∧
      (ofPasses name passes).unplanned = ofPasses name passes := by
  induction passes using List.reverseRecOn with
  | nil => exact ⟨.empty name, rfl⟩
  | append_singleton passes p ih =>
    rw [List.map_append, List.nodup_append] at h
    obtain ⟨hg, hn⟩ := ih h.1
    have he : ofPasses name (passes ++ [p]) = (ofPasses name passes).push p := by
      rw [ofPasses, List.foldl_append]
      rfl
    have hp : p.name ∉ (ofPasses name passes).passes.map (·.name) := by
      rw [passes_ofPasses]
      exact fun hm ↦ h.2.2 _ hm p.name (by simp) rfl
    rw [he]
    have hu : ((ofPasses name passes).push p).unplanned = (ofPasses name passes).push p :=
      congrArg (·.push p) hn
    exact ⟨hg.add p (add_eq_ok_iff.mpr ⟨(contains_eq_false_iff hg.indexed).mpr hp, hu.symm⟩), hu⟩

theorem reachable_standard : (standard : PassGraph σ).Reachable :=
  (reachable_ofPasses _ (by simp)).1

/-- The passes of reachable graphs are the lists of passes with different names. -/
theorem exists_reachable_iff {passes : List (Pass σ)} :
    (∃ g : PassGraph σ, g.Reachable ∧ g.passes = passes) ↔ (passes.map (·.name)).Nodup := by
  constructor
  · rintro ⟨g, hg, rfl⟩
    exact hg.indexed.nodup
  · intro h
    exact ⟨_, (reachable_ofPasses "" h).1, passes_ofPasses "" passes⟩

/-! ### The schedule -/

/-- A graph stores a plan: its dependencies and its order. -/
structure Stores (g : PassGraph σ) (plan : Plan) : Prop where
  dependencies : g.dependencies = plan.dependencies
  sorted : g.sorted = some plan.order

theorem stores_withPlan (g : PassGraph σ) (plan : Plan) : (g.withPlan plan).Stores plan :=
  ⟨rfl, rfl⟩

/-- A build that finds a plan stores it. -/
theorem stores_build {g : PassGraph σ} {plan : Plan} (h : g.planned = .ok plan) :
    g.build.2.Stores plan := by
  rw [build, h]
  exact g.stores_withPlan plan

theorem Stores.eq {g : PassGraph σ} {plan other : Plan} (h : g.Stores plan) (ho : g.Stores other) :
    plan = other := by
  obtain ⟨dependencies, order⟩ := plan
  obtain ⟨dependencies', order'⟩ := other
  obtain rfl : dependencies = dependencies' := h.dependencies.symm.trans ho.dependencies
  obtain rfl : order = order' := Option.some.inj (h.sorted.symm.trans ho.sorted)
  rfl

/-- Nothing is told of dependencies that were dropped. -/
theorem dependencies?_unplanned (g : PassGraph σ) (name : String) :
    g.unplanned.dependencies? name = none := by
  rw [dependencies?]
  cases g.unplanned.index.get? name <;> rfl

/-- A graph stores neither dependencies nor an order, or both as a build would find them. -/
def InStep (g : PassGraph σ) : Prop :=
  (g.dependencies = [] ∧ g.sorted = none) ∨ ∃ plan, g.Stores plan ∧ g.planned = .ok plan

theorem inStep_unplanned (g : PassGraph σ) : g.unplanned.InStep :=
  .inl ⟨rfl, rfl⟩

/-- A build fills both parts or empties both. -/
theorem inStep_build (g : PassGraph σ) : g.build.2.InStep := by
  rw [build]
  split
  · next plan hp => exact .inr ⟨plan, g.stores_withPlan plan, hp⟩
  · exact g.inStep_unplanned

/-- What a reachable graph stores is what a build would find. -/
theorem Reachable.inStep {g : PassGraph σ} (h : g.Reachable) : g.InStep := by
  induction h with
  | empty => exact .inl ⟨rfl, rfl⟩
  | rename _ _ ih =>
    exact ih.imp_right fun ⟨plan, hs, hp⟩ ↦ ⟨plan, ⟨hs.dependencies, hs.sorted⟩, hp⟩
  | add _ _ ha =>
    obtain ⟨-, rfl⟩ := add_eq_ok_iff.mp ha
    exact inStep_unplanned _
  | remove _ hr =>
    obtain ⟨slot, -, -, rfl⟩ := remove_eq_ok_iff.mp hr
    exact inStep_unplanned _
  | build => exact inStep_build _
  | execute s _ ih =>
    rw [execute_graph]
    split
    · exact ih
    · exact inStep_build _

theorem InStep.planned_eq {g : PassGraph σ} (h : g.InStep) {plan : Plan} (hp : g.Stores plan) :
    g.planned = .ok plan := by
  rcases h with ⟨-, hnone⟩ | ⟨found, hs, hplan⟩
  · rw [hp.sorted] at hnone
    cases hnone
  · rw [hplan, hs.eq hp]

/-- A graph with an order stores the plan that a build would find. -/
theorem InStep.exists_stores {g : PassGraph σ} (h : g.InStep) (hb : g.isBuilt = true) :
    ∃ plan, g.Stores plan ∧ g.planned = .ok plan := by
  refine h.resolve_left fun ⟨_, hnone⟩ ↦ ?_
  rw [isBuilt, hnone] at hb
  cases hb

end PassGraph

end RenderKit
