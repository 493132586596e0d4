import RenderKit.Proofs.Shader.Emission
import RenderKit.Shader.Source
import Mathlib.Data.List.Perm.Subperm

/-!
# How deep walks go

A walk that may only go so deep does the same as one that counts nothing, and has no answer when it
would go deeper. No node on a way is gone to again, so a way is never longer than the graph: a walk
that may go as deep as there are nodes has an answer, and it is the same however much deeper it may
go (`WellFormed.sourceWithin_eq`). Cycles do not matter for this.
-/

namespace RenderKit

section

variable {ε α β : Type}

private theorem ExceptT.mk_some_bind (result : Except ε α) (f : α → Except ε β) :
    (ExceptT.mk (some result) >>= fun a ↦ ExceptT.mk (some (f a)) : ExceptT ε Option β) =
      ExceptT.mk (some (result >>= f)) := by
  cases result <;> rfl

/-- Steps that have an answer have one together. -/
private theorem ExceptT.foldlM_mk_some {step : β → α → ExceptT ε Option β} {f : β → α → Except ε β}
    {xs : List α} (h : ∀ x ∈ xs, ∀ b, step b x = ExceptT.mk (some (f b x))) (b : β) :
    xs.foldlM step b = ExceptT.mk (some (xs.foldlM f b)) := by
  induction xs generalizing b with
  | nil => rfl
  | cons x xs ih =>
    rw [List.forall_mem_cons] at h
    rw [List.foldlM_cons, List.foldlM_cons, h.1, funext (ih h.2), mk_some_bind]

end

namespace ShaderGraph

/-! ### Walks that may only go so deep -/

/-- A visit that goes to so many nodes at most, one for the other, and has no answer if it would go
to one more. -/
def visitWithin (g : ShaderGraph) (depth : Nat) (way : List NodeId) (walk : Walk) (id : NodeId) :
    ExceptT CodegenError Option Walk :=
  if id ∈ walk.emitted then return walk
  else if id ∈ way then throw (.cycle id)
  else
    match depth, g.node? id with
    | _, none => throw (.nodeNotFound id)
    | 0, some _ => ExceptT.mk none
    | depth + 1, some node => do
      let walk ← (g.feeders node).foldlM (g.visitWithin depth (id :: way)) walk
      ExceptT.mk (some (g.emit walk node))

/-- The walk from all results of a stage, so deep at most. -/
def walkWithin (g : ShaderGraph) (depth : Nat) (stage : Stage) :
    ExceptT CodegenError Option Walk :=
  (g.roots stage).foldlM (g.visitWithin depth []) {}

/-- The source of a stage around the statements of such a walk. -/
def sourceWithin (g : ShaderGraph) (depth : Nat) (stage : Stage) (layout : Layout) :
    ExceptT CodegenError Option String := do
  let walk ← g.walkWithin depth stage
  match stage with
  | .fragment => return fragmentText g.customFields walk.sheet.statements layout
  | .vertex => return vertexText walk.sheet.statements layout

/-! ### Their answers -/

variable {g : ShaderGraph}

/-- A visit has an answer if it may go to every node that is not on its way. -/
theorem visitWithin_eq {depth : Nat} {way : List NodeId} (h : room g.index.keys way ≤ depth)
    (walk : Walk) (id : NodeId) :
    g.visitWithin depth way walk id = ExceptT.mk (some (g.visit way walk id)) := by
  induction depth generalizing way walk id with
  | zero =>
    rw [visit_eq]
    unfold visitWithin
    split
    · rfl
    · split
      · rfl
      · next hway =>
        cases hn : g.node? id with
        | none => rfl
        | some node => exact absurd (room_cons_lt (mem_keys_of_node? hn) hway) (by omega)
  | succ depth ih =>
    rw [visit_eq]
    unfold visitWithin
    split
    · rfl
    · split
      · rfl
      · next hway =>
        cases hn : g.node? id with
        | none => rfl
        | some node =>
          have hroom : room g.index.keys (id :: way) ≤ depth :=
            Nat.le_of_lt_succ (Nat.lt_of_lt_of_le (room_cons_lt (mem_keys_of_node? hn) hway) h)
          have hfeeders : (g.feeders node).foldlM (g.visitWithin depth (id :: way)) walk =
              ExceptT.mk (some ((g.feeders node).foldlM (g.visit (id :: way)) walk)) :=
            ExceptT.foldlM_mk_some (fun feeder _ walk ↦ ih hroom walk feeder) walk
          simp only [hfeeders]
          exact ExceptT.mk_some_bind _ _

/-- The index has a number for each node and no more. -/
private theorem WellFormed.length_keys_le (hw : WellFormed g) :
    g.index.keys.length ≤ g.nodes.length := by
  have hnodup : g.index.keys.Nodup := by
    refine (Std.ExtTreeMap.distinct_keys (t := g.index)).imp fun {id other} hne he ↦ hne ?_
    exact Std.compare_eq_iff_eq.mpr he
  have hsub : g.index.keys ⊆ g.ids := by
    intro id hid
    rw [Std.ExtTreeMap.mem_keys, Std.ExtTreeMap.mem_iff_isSome_getElem?] at hid
    obtain ⟨slot, hslot⟩ := Option.isSome_iff_exists.mp hid
    exact List.mem_of_getElem? ((hw.indexed id slot).mp hslot)
  have hlength := (hnodup.subperm hsub).length_le
  rwa [ids, List.length_map] at hlength

/-- There is an answer for every stage if there may be as many nodes on a way as in the graph. -/
theorem WellFormed.sourceWithin_eq (hw : WellFormed g) {depth : Nat} (h : g.nodes.length ≤ depth)
    (stage : Stage) (layout : Layout) :
    g.sourceWithin depth stage layout = ExceptT.mk (some (g.source stage layout)) := by
  have hroom : room g.index.keys [] ≤ depth := by
    rw [room_nil]
    exact Nat.le_trans hw.length_keys_le h
  have hwalk : g.walkWithin depth stage = ExceptT.mk (some (g.walk stage)) :=
    ExceptT.foldlM_mk_some (fun id _ walk ↦ visitWithin_eq hroom walk id) {}
  rw [sourceWithin, source, body, hwalk]
  cases g.walk stage with
  | error e => rfl
  | ok walk => cases stage <;> rfl

end ShaderGraph

end RenderKit
