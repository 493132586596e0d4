import RenderKit.Proofs.Indexing
import RenderKit.Proofs.Refusal
import RenderKit.Shader.Graph.Edit
import Mathlib.Data.List.Induction
import Mathlib.Data.List.InsertIdx

/-!
# What edits of shader graphs do

When each edit succeeds, and what is left of the graph then. Marking pins and placing nodes change
no number, no connection and no count of pins (`Node.shape`).
-/

namespace RenderKit

/-- The number of a node and of its pins. -/
def Node.shape (node : Node) : NodeId × Nat × Nat :=
  (node.id, node.inputs.length, node.outputs.length)

@[simp] theorem Node.shape_markPins (node : Node) (input output : Nat → Bool) :
    (node.markPins input output).shape = node.shape := by
  simp [shape]

namespace ShaderGraph

/-- The shapes of the nodes in order. -/
def shapes (g : ShaderGraph) : List (NodeId × Nat × Nat) :=
  g.nodes.map Node.shape

theorem ids_eq_map_shapes (g : ShaderGraph) : g.ids = g.shapes.map (·.1) := by
  rw [ids, shapes, List.map_map]
  rfl

/-- A change that keeps shapes keeps them in their order. -/
theorem shapes_modifyNode (g : ShaderGraph) (id : NodeId) {change : Node → Node}
    (h : ∀ node, (change node).shape = node.shape) :
    (g.modifyNode id change).shapes = g.shapes := by
  rw [modifyNode]
  split
  · exact map_modify_eq h _ _
  · rfl

@[simp] theorem shapes_syncPins (g : ShaderGraph) (id : NodeId) :
    (g.syncPins id).shapes = g.shapes :=
  shapes_modifyNode g id fun _ ↦ Node.shape_markPins _ _ _

@[simp] theorem shapes_syncAll (g : ShaderGraph) (ids : List NodeId) :
    (g.syncAll ids).shapes = g.shapes := by
  rw [syncAll]
  induction ids generalizing g with
  | nil => rfl
  | cons id rest ih => rw [List.foldl_cons, ih, shapes_syncPins]

@[simp] theorem ids_syncAll (g : ShaderGraph) (ids : List NodeId) : (g.syncAll ids).ids = g.ids := by
  rw [ids_eq_map_shapes, shapes_syncAll, ← ids_eq_map_shapes]

@[simp] theorem name_modifyNode (g : ShaderGraph) (id : NodeId) (change : Node → Node) :
    (g.modifyNode id change).name = g.name := by
  rw [modifyNode]
  split <;> rfl

@[simp] theorem created_modifyNode (g : ShaderGraph) (id : NodeId) (change : Node → Node) :
    (g.modifyNode id change).created = g.created := by
  rw [modifyNode]
  split <;> rfl

@[simp] theorem name_syncAll (g : ShaderGraph) (ids : List NodeId) :
    (g.syncAll ids).name = g.name := by
  rw [syncAll]
  induction ids generalizing g with
  | nil => rfl
  | cons id rest ih => rw [List.foldl_cons, ih, syncPins, name_modifyNode]

@[simp] theorem created_syncAll (g : ShaderGraph) (ids : List NodeId) :
    (g.syncAll ids).created = g.created := by
  rw [syncAll]
  induction ids generalizing g with
  | nil => rfl
  | cons id rest ih => rw [List.foldl_cons, ih, syncPins, created_modifyNode]

@[simp] theorem name_link (g : ShaderGraph) (c : Connection) : (g.link c).name = g.name := by
  simp only [link, syncPins, name_modifyNode]

@[simp] theorem created_link (g : ShaderGraph) (c : Connection) :
    (g.link c).created = g.created := by
  simp only [link, syncPins, created_modifyNode]

@[simp] theorem connections_link (g : ShaderGraph) (c : Connection) :
    (g.link c).connections = g.connections ++ [c] := by
  rw [link, connections_syncPins, connections_syncPins]

/-- What the index holds behind a new entry. -/
theorem getElem?_insert_index (index : Std.ExtTreeMap NodeId Nat) (id other : NodeId) (slot : Nat) :
    (index.insert id slot)[other]? = if other = id then some slot else index[other]? := by
  rw [Std.ExtTreeMap.getElem?_insert]
  by_cases h : other = id
  · simp [h]
  · rw [if_neg h, if_neg fun hc ↦ h (Std.LawfulEqCmp.eq_of_compare hc).symm]

/-- Different numbers are found in the index that is made from them. -/
theorem indexes_slotsById {nodes : List Node} (h : (nodes.map (·.id)).Nodup) :
    Indexes (nodes.map (·.id)) ((slotsById nodes)[·]?) := by
  induction nodes using List.reverseRecOn with
  | nil => exact .nil fun _ ↦ Std.ExtTreeMap.getElem?_empty
  | append_singleton nodes node ih =>
    rw [List.map_append, List.nodup_append] at h
    have hn : node.id ∉ nodes.map (·.id) := fun hm ↦ h.2.2 _ hm node.id (by simp) rfl
    rw [List.map_append]
    refine (ih h.1).concat hn fun other ↦ ?_
    rw [slotsById, List.zipIdx_append, List.foldl_append, List.length_map, Nat.zero_add]
    exact getElem?_insert_index _ _ _ _

/-! ### When edits succeed -/

theorem addNode_eq_ok_iff {g g' : ShaderGraph} {node : Node} :
    g.addNode node = .ok g' ↔ g.hasNode node.id = false ∧ g' = g.push node := by
  rw [addNode]
  split
  · next h => simp [h]
  · next h => simp [Bool.not_eq_true _ ▸ h, eq_comm]

/-- The graph that removing a node leaves: its connections go, and the other ends are marked. -/
def pruned (g : ShaderGraph) (slot : Nat) (id : NodeId) : ShaderGraph :=
  (g.without slot (g.connections.filter fun c ↦ !c.touches id)).syncAll
    ((g.connections.filter (·.touches id)).map (·.otherEnd id)).eraseDups

theorem ids_pruned (g : ShaderGraph) (slot : Nat) (id : NodeId) :
    (g.pruned slot id).ids = g.ids.eraseIdx slot := by
  rw [pruned, ids_syncAll]
  exact (List.eraseIdx_map _ _ _).symm

theorem removeNode_eq_ok_iff {g g' : ShaderGraph} {id : NodeId} {node : Node} :
    g.removeNode id = .ok (node, g') ↔
      ∃ slot, g.index[id]? = some slot ∧ g.nodes[slot]? = some node ∧ g' = g.pruned slot id := by
  rw [removeNode, node?]
  cases g.index[id]? with
  | none => simp
  | some slot =>
    cases hn : g.nodes[slot]? with
    | none => simp [hn]
    | some other =>
      simp [hn, pruned, List.partition_eq_filter_filter, Function.comp_def, eq_comm]

/-- A connection fits into a graph: it runs between two nodes of the graph, from a pin to a pin. -/
def Joins (g : ShaderGraph) (c : Connection) : Prop :=
  c.source ≠ c.target ∧
    (∃ source, g.node? c.source = some source ∧ c.output < source.outputs.length) ∧
      ∃ target, g.node? c.target = some target ∧ c.input < target.inputs.length

theorem checkConnection_eq_ok_iff {g : ShaderGraph} {c : Connection} :
    g.checkConnection c = .ok () ↔ g.Joins c ∧ g.feed? c.target c.input = none := by
  rw [checkConnection, Joins]
  by_cases hne : c.source = c.target
  · simp [hne]
  · cases hs : g.node? c.source with
    | none => simp [hne]
    | some source =>
      cases ht : g.node? c.target with
      | none => simp [hne]
      | some target =>
        simp only [hne, if_false, Option.some.injEq, exists_eq_left']
        by_cases ho : source.outputs.length ≤ c.output
        · simp [ho, Nat.not_lt.mpr ho]
        · by_cases hi : target.inputs.length ≤ c.input
          · simp [ho, hi, Nat.not_lt.mpr hi]
          · cases hf : g.feed? c.target c.input with
            | none => simp [ho, hi, hne, Nat.not_le.mp ho, Nat.not_le.mp hi, pure, Except.pure]
            | some other => simp [ho, hi]

theorem connect_eq_ok_iff {g g' : ShaderGraph} {c : Connection} :
    g.connect c = .ok g' ↔ (g.Joins c ∧ g.feed? c.target c.input = none) ∧ g' = g.link c := by
  rw [connect, bind_eq_ok_iff, ← checkConnection_eq_ok_iff]
  constructor
  · rintro ⟨u, hc, hg⟩
    cases hg
    exact ⟨hc, rfl⟩
  · rintro ⟨hc, rfl⟩
    exact ⟨(), hc, rfl⟩

/-- The connection found at an input ends there. -/
theorem ends_of_feed? {g : ShaderGraph} {target : NodeId} {input : Nat} {c : Connection}
    (h : g.feed? target input = some c) : c.target = target ∧ c.input = input := by
  simpa [Connection.feeds] using List.find?_some h

/-- The graph without the first connection that ends at an input, and the pins of both ends marked
anew. -/
def unlinked (g : ShaderGraph) (c : Connection) : ShaderGraph :=
  ({ g with connections := g.connections.eraseP (·.feeds c.target c.input) }.syncPins
    c.source).syncPins c.target

theorem disconnect_eq_ok_iff {g g' : ShaderGraph} {target : NodeId} {input : Nat}
    {c : Connection} :
    g.disconnect target input = .ok (c, g') ↔
      g.feed? target input = some c ∧ g' = g.unlinked c := by
  rw [disconnect]
  cases hf : g.feed? target input with
  | none => simp
  | some other =>
    obtain ⟨rfl, rfl⟩ := ends_of_feed? hf
    constructor
    · intro h
      cases h
      exact ⟨rfl, rfl⟩
    · rintro ⟨he, rfl⟩
      cases he
      rfl

end ShaderGraph

end RenderKit
