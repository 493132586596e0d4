import RenderKit.Proofs.Shader.Editing
import RenderKit.Shader.Graph.Refresh

/-!
# Well-formed shader graphs

Numbers differ, the index tells where every node stands, and connections run between pins of two
nodes, at most one to an input (`WellFormed`). Every step of an edit keeps this: nodes that come or
go, connections that come or go, and definitions that are taken up anew.
-/

namespace RenderKit

theorem Node.id_refreshed (r : Registry) (node : Node) : (node.refreshed r).id = node.id := by
  rw [refreshed]
  split <;> rfl

namespace ShaderGraph

/-- Nodes keep their numbers when they take up other definitions. -/
theorem ids_map_refreshed (g : ShaderGraph) (r : Registry) :
    ({ g with nodes := g.nodes.map (Node.refreshed r) } : ShaderGraph).ids = g.ids := by
  rw [ids, ids, List.map_map]
  exact List.map_congr_left fun node _ ↦ Node.id_refreshed r node

/-- What holds of every graph that edits lead to. -/
structure WellFormed (g : ShaderGraph) : Prop where
  nodup : g.ids.Nodup
  indexed : Indexes g.ids (g.index[·]?)
  joined : ∀ c ∈ g.connections, g.Joins c
  single : (g.connections.map fun c ↦ (c.target, c.input)).Nodup

/-! ### Looking up nodes -/

/-- The index tells where a node stands. -/
theorem getElem?_index {g : ShaderGraph} (h : Indexes g.ids (g.index[·]?)) {slot : Nat}
    {node : Node} (hn : g.nodes[slot]? = some node) : g.index[node.id]? = some slot := by
  refine (h node.id slot).mpr ?_
  rw [ids, List.getElem?_map, hn]
  rfl

/-- Nodes are found by their numbers. -/
theorem node?_eq_some_iff {g : ShaderGraph} (h : Indexes g.ids (g.index[·]?)) {id : NodeId}
    {node : Node} : g.node? id = some node ↔ node ∈ g.nodes ∧ node.id = id := by
  rw [node?, Option.bind_eq_some_iff, List.mem_iff_getElem?]
  constructor
  · rintro ⟨slot, hs, hn⟩
    have hi := (h id slot).mp hs
    rw [ids, List.getElem?_map, hn] at hi
    exact ⟨⟨slot, hn⟩, Option.some.inj hi⟩
  · rintro ⟨⟨slot, hn⟩, rfl⟩
    exact ⟨slot, getElem?_index h hn, hn⟩

theorem WellFormed.node?_eq_some_iff {g : ShaderGraph} (h : WellFormed g) {id : NodeId}
    {node : Node} : g.node? id = some node ↔ node ∈ g.nodes ∧ node.id = id :=
  ShaderGraph.node?_eq_some_iff h.indexed

theorem WellFormed.eq_of_id {g : ShaderGraph} (hw : WellFormed g) {node other : Node}
    (hn : node ∈ g.nodes) (ho : other ∈ g.nodes) (he : node.id = other.id) : node = other := by
  have h := hw.node?_eq_some_iff.mpr ⟨hn, he⟩
  rw [hw.node?_eq_some_iff.mpr ⟨ho, rfl⟩] at h
  exact (Option.some.inj h).symm

theorem WellFormed.hasNode_eq_false_iff {g : ShaderGraph} (h : WellFormed g) {id : NodeId} :
    g.hasNode id = false ↔ id ∉ g.ids := by
  rw [hasNode, ← h.indexed.isSome_iff, Bool.not_eq_true]

theorem feed?_eq_none_iff {g : ShaderGraph} {target : NodeId} {input : Nat} :
    g.feed? target input = none ↔
      (target, input) ∉ g.connections.map fun c ↦ (c.target, c.input) := by
  simp [feed?, Connection.feeds]

/-- Whether a connection fits depends on the index and the shapes only. -/
theorem Joins.congr {g g' : ShaderGraph} {c : Connection} (h : g.Joins c)
    (hi : g'.index = g.index) (hs : g'.shapes = g.shapes) : g'.Joins c := by
  have hnode : ∀ id, (g'.node? id).map Node.shape = (g.node? id).map Node.shape := by
    intro id
    have hshapes : ∀ slot : Nat, (g'.nodes[slot]?).map Node.shape =
        (g.nodes[slot]?).map Node.shape := by
      intro slot
      rw [← List.getElem?_map, ← List.getElem?_map]
      exact congrArg (·[slot]?) hs
    rw [node?, node?, hi, Option.map_bind, Option.map_bind]
    exact congrArg _ (funext hshapes)
  have hsame : ∀ {id node}, g.node? id = some node →
      ∃ node', g'.node? id = some node' ∧ node'.shape = node.shape := by
    intro id node hn
    have hm := hnode id
    rw [hn, Option.map_some, Option.map_eq_some_iff] at hm
    exact hm
  obtain ⟨hne, ⟨source, hsource, ho⟩, ⟨target, htarget, hin⟩⟩ := h
  obtain ⟨source', hs', hshape⟩ := hsame hsource
  obtain ⟨target', ht', hshape'⟩ := hsame htarget
  simp only [Node.shape, Prod.mk.injEq] at hshape hshape'
  exact ⟨hne, ⟨source', hs', by omega⟩, ⟨target', ht', by omega⟩⟩

namespace WellFormed

variable {g : ShaderGraph}

theorem empty (name : String) (created : Option Time.Instant) :
    WellFormed { name := name, created := created } :=
  ⟨List.nodup_nil, .nil fun _ ↦ Std.ExtTreeMap.getElem?_empty, by simp, List.nodup_nil⟩

/-- Only the index, the shapes and the connections count. -/
theorem congr {g' : ShaderGraph} (h : WellFormed g) (hi : g'.index = g.index)
    (hs : g'.shapes = g.shapes) (hc : g'.connections = g.connections) : WellFormed g' := by
  have hids : g'.ids = g.ids := by rw [ids_eq_map_shapes, ids_eq_map_shapes, hs]
  constructor
  · exact hids ▸ h.nodup
  · rw [hids, hi]
    exact h.indexed
  · intro c hm
    exact (h.joined c (hc ▸ hm)).congr hi hs
  · exact hc ▸ h.single

theorem modifyNode (h : WellFormed g) (id : NodeId) {change : Node → Node}
    (hc : ∀ node, (change node).shape = node.shape) : WellFormed (g.modifyNode id change) :=
  h.congr (index_modifyNode g id change) (shapes_modifyNode g id hc)
    (connections_modifyNode g id change)

theorem syncPins (h : WellFormed g) (id : NodeId) : WellFormed (g.syncPins id) :=
  h.congr (index_syncPins g id) (shapes_syncPins g id) (connections_syncPins g id)

theorem syncAll (h : WellFormed g) (ids : List NodeId) : WellFormed (g.syncAll ids) :=
  h.congr (index_syncAll g ids) (shapes_syncAll g ids) (connections_syncAll g ids)

/-- Fewer connections are as good. -/
theorem sublist (h : WellFormed g) {kept : List Connection} (hk : kept.Sublist g.connections) :
    WellFormed { g with connections := kept } :=
  ⟨h.nodup, h.indexed, fun c hc ↦ h.joined c (hk.subset hc), h.single.sublist (hk.map _)⟩

theorem push (h : WellFormed g) {node : Node} (hn : node.id ∉ g.ids) :
    WellFormed (g.push node) := by
  have hids : (g.push node).ids = g.ids ++ [node.id] := List.map_append
  have hi : Indexes (g.push node).ids ((g.push node).index[·]?) := by
    rw [hids]
    refine h.indexed.concat hn fun other ↦ ?_
    rw [ids, List.length_map]
    exact getElem?_insert_index _ _ _ _
  refine ⟨hi.nodup, hi, fun c hc ↦ ?_, h.single⟩
  have hkept : ∀ {id node'}, g.node? id = some node' → (g.push node).node? id = some node' := by
    intro id node' hf
    obtain ⟨hm, hid⟩ := h.node?_eq_some_iff.mp hf
    exact (ShaderGraph.node?_eq_some_iff hi).mpr ⟨List.mem_append_left _ hm, hid⟩
  obtain ⟨hne, ⟨source, hs, ho⟩, ⟨target, ht, hin⟩⟩ := h.joined c hc
  exact ⟨hne, ⟨source, hkept hs, ho⟩, ⟨target, hkept ht, hin⟩⟩

private theorem indexed_without (h : WellFormed g) (slot : Nat) (kept : List Connection) :
    Indexes (g.without slot kept).ids ((g.without slot kept).index[·]?) :=
  indexes_slotsById (h.nodup.sublist ((List.eraseIdx_sublist g.nodes slot).map _))

/-- A node may go with the connections that touch it. -/
theorem without (h : WellFormed g) {slot : Nat} {id : NodeId} (hs : g.index[id]? = some slot) :
    WellFormed (g.without slot (g.connections.filter fun c ↦ !c.touches id)) := by
  have hi := h.indexed_without slot (g.connections.filter fun c ↦ !c.touches id)
  refine ⟨hi.nodup, hi, fun c hc ↦ ?_, h.single.sublist (List.filter_sublist.map _)⟩
  have hkept : ∀ {other node}, other ≠ id → g.node? other = some node →
      (g.without slot (g.connections.filter fun c ↦ !c.touches id)).node? other = some node := by
    intro other node hne hf
    obtain ⟨hm, rfl⟩ := h.node?_eq_some_iff.mp hf
    refine (ShaderGraph.node?_eq_some_iff hi).mpr ⟨?_, rfl⟩
    obtain ⟨i, hn⟩ := List.mem_iff_getElem?.mp hm
    refine List.mem_eraseIdx_iff_getElem?.mpr ⟨i, fun he ↦ hne ?_, hn⟩
    have hid := (h.indexed id slot).mp hs
    rw [← he, ids, List.getElem?_map, hn] at hid
    exact Option.some.inj hid
  obtain ⟨hm, ht⟩ := List.mem_filter.mp hc
  simp only [Connection.touches, Bool.not_eq_true', Bool.or_eq_false_iff, beq_eq_false_iff_ne]
    at ht
  obtain ⟨hne, ⟨source, hsource, ho⟩, ⟨target, htarget, hin⟩⟩ := h.joined c hm
  exact ⟨hne, ⟨source, hkept ht.1 hsource, ho⟩, ⟨target, hkept ht.2 htarget, hin⟩⟩

theorem pruned (h : WellFormed g) {slot : Nat} {id : NodeId} (hs : g.index[id]? = some slot) :
    WellFormed (g.pruned slot id) :=
  (h.without hs).syncAll _

theorem link (h : WellFormed g) {c : Connection} (hc : g.Joins c)
    (hf : g.feed? c.target c.input = none) : WellFormed (g.link c) := by
  have hg : WellFormed { g with connections := g.connections ++ [c] } := by
    refine ⟨h.nodup, h.indexed, fun d hd ↦ ?_, ?_⟩
    · rcases List.mem_append.mp hd with hd | hd
      · exact h.joined d hd
      · rw [List.mem_singleton.mp hd]
        exact hc
    · rw [List.map_append, List.nodup_append]
      refine ⟨h.single, by simp, fun a ha b hb he ↦ ?_⟩
      rw [List.map_singleton, List.mem_singleton] at hb
      exact feed?_eq_none_iff.mp hf (hb ▸ he ▸ ha)
  exact (hg.syncPins c.source).syncPins c.target

theorem unlinked (h : WellFormed g) (c : Connection) : WellFormed (g.unlinked c) :=
  ((h.sublist List.eraseP_sublist).syncPins c.source).syncPins c.target

/-- Nodes may take up other definitions if the connections that no longer fit go. -/
theorem refresh (h : WellFormed g) (r : Registry) : WellFormed (g.refresh r).1 := by
  rw [ShaderGraph.refresh]
  split
  · exact h
  · have hids := ids_map_refreshed g r
    refine WellFormed.syncAll ?_ _
    refine ⟨hids ▸ h.nodup, ?_, fun c hc ↦ ?_, h.single.sublist (List.filter_sublist.map _)⟩
    · have hi := h.indexed
      rwa [← hids] at hi
    · obtain ⟨hm, hf⟩ := List.mem_filter.mp hc
      rw [fits, Bool.and_eq_true, Option.any_eq_true, Option.any_eq_true] at hf
      obtain ⟨⟨source, hs, ho⟩, ⟨target, ht, hin⟩⟩ := hf
      exact ⟨(h.joined c hm).1, ⟨source, hs, by simpa using ho⟩, ⟨target, ht, by simpa using hin⟩⟩

end WellFormed

end ShaderGraph

end RenderKit
