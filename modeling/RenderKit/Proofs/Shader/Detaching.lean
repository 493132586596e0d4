import RenderKit.Proofs.Shader.Connecting
import RenderKit.Proofs.Shader.Removal

/-!
# Taking nodes out

A node goes out as it was, and the connections that touch it go. The other nodes and connections
stay in their order, and a pin of theirs loses its mark exactly if all connections that it had went
(`removeNode_detaches`).
-/

namespace RenderKit

/-- A pin before and behind the loss of connections that touch a node: the mark goes exactly if the
pin had connections and all of them went, and no mark comes. -/
structure Pin.Released (ends : List Connection) (id : NodeId) (pin left : Pin) : Prop where
  changes : left.connected ≠ pin.connected ↔ ends ≠ [] ∧ ∀ c ∈ ends, c.touches id = true
  unmarks : left.connected ≠ pin.connected → pin.connected = true ∧ left.connected = false

/-- A node before and behind the loss of connections that touch another one: it is as it was, but
for the marks of pins that were released. -/
structure Node.Released (connections : List Connection) (id : NodeId) (node left : Node) :
    Prop where
  content : left.unmark = node.unmark
  inputs : ∀ (i : Nat) (pin pin' : Pin), node.inputs[i]? = some pin → left.inputs[i]? = some pin' →
    pin.Released (connections.filter (·.feeds node.id i)) id pin'
  outputs : ∀ (i : Nat) (pin pin' : Pin), node.outputs[i]? = some pin →
    left.outputs[i]? = some pin' → pin.Released (connections.filter (·.leaves node.id i)) id pin'

/-- A pin is released when its mark is right before and behind the loss. -/
theorem Pin.released_of_connected {connections : List Connection} {ends : Connection → Bool}
    {id : NodeId} {pin left : Pin} (hp : pin.connected = connections.any ends)
    (hl : left.connected = (connections.filter fun c ↦ !c.touches id).any ends) :
    pin.Released (connections.filter ends) id left := by
  have hhad : pin.connected = true ↔ connections.filter ends ≠ [] := by
    rw [hp, List.any_eq_true, ne_eq, List.filter_eq_nil_iff]
    simp
  have hleft : left.connected = false ↔
      ∀ c ∈ connections.filter ends, c.touches id = true := by
    rw [hl, List.any_eq_false]
    simp only [List.mem_filter]
    constructor
    · rintro h c ⟨hc, he⟩
      by_contra ht
      exact h c ⟨hc, by simp [ht]⟩ he
    · rintro h c ⟨hc, ht⟩ he
      simp [h c ⟨hc, he⟩] at ht
  have hnone : pin.connected = false → left.connected = false := by
    intro h
    rw [hleft]
    have hempty : connections.filter ends = [] := by simpa [h] using hhad
    simp [hempty]
  constructor
  · rw [← hhad, ← hleft]
    cases hc : pin.connected with
    | false => simp [hnone hc]
    | true => simp
  · intro hne
    cases hc : pin.connected with
    | false => exact absurd ((hnone hc).trans hc.symm) hne
    | true => exact ⟨rfl, by simpa [hc] using hne⟩

/-- A node is released when its marks are right before and behind the loss. -/
theorem Node.released_of_markedBy {connections : List Connection} {id : NodeId} {node left : Node}
    (hu : left.unmark = node.unmark) (hn : node.MarkedBy connections)
    (hl : left.MarkedBy (connections.filter fun c ↦ !c.touches id)) :
    node.Released connections id left := by
  have hid : left.unmark.id = node.unmark.id := by rw [hu]
  change left.id = node.id at hid
  refine ⟨hu, fun i pin pin' hp hp' ↦ ?_, fun i pin pin' hp hp' ↦ ?_⟩
  · exact Pin.released_of_connected (hn.connected_input hp) (hid ▸ hl.connected_input hp')
  · exact Pin.released_of_connected (hn.connected_output hp) (hid ▸ hl.connected_output hp')

namespace ShaderGraph

variable {g g' : ShaderGraph} {slot : Nat} {id : NodeId} {node : Node}

/-- A graph before and behind the loss of a node. -/
structure Detached (g : ShaderGraph) (id : NodeId) (g' : ShaderGraph) : Prop where
  name : g'.name = g.name
  created : g'.created = g.created
  connections : g'.connections = g.connections.filter fun c ↦ !c.touches id
  nodes : List.Forall₂ (Node.Released g.connections id) (g.nodes.filter (·.id != id)) g'.nodes
  rightlyMarked : g'.RightlyMarked
  wellFormed : WellFormed g'

/-- The nodes of other numbers are those of other slots. -/
theorem WellFormed.filter_nodes_eq (hw : WellFormed g) (hn : g.nodes[slot]? = some node) :
    g.nodes.filter (·.id != node.id) = g.nodes.eraseIdx slot := by
  obtain ⟨front, back, hsplit, herase⟩ := exists_split hn
  have hnodup := hw.nodup
  rw [ids, hsplit, List.map_append, List.map_cons, List.nodup_append, List.nodup_cons] at hnodup
  have hfront : front.filter (·.id != node.id) = front := by
    refine List.filter_eq_self.mpr fun other ho ↦ bne_iff_ne.mpr ?_
    exact hnodup.2.2 _ (List.mem_map_of_mem ho) _ List.mem_cons_self
  have hback : back.filter (·.id != node.id) = back := by
    refine List.filter_eq_self.mpr fun other ho ↦ bne_iff_ne.mpr fun he ↦ ?_
    exact hnodup.2.1.1 (he ▸ List.mem_map_of_mem ho)
  rw [herase, hsplit, List.filter_append, hfront, List.filter_cons_of_neg (by simp), hback]

theorem RightlyMarked.detached (hm : g.RightlyMarked) (hw : WellFormed g)
    (hs : g.index[node.id]? = some slot) (hn : g.nodes[slot]? = some node) :
    g.Detached node.id (g.pruned slot node.id) := by
  have hright := (hm.synced.pruned hw hs).rightlyMarked
  have hc := connections_pruned g slot node.id
  refine ⟨name_syncAll _ _, created_syncAll _ _, hc, ?_, hright, hw.pruned hs⟩
  have hnodes : (g.pruned slot node.id).nodes = (g.nodes.eraseIdx slot).map _ :=
    nodes_syncAll (hw.without hs).indexed _
  rw [hw.filter_nodes_eq hn, hnodes, List.forall₂_map_right_iff]
  refine List.forall₂_same.mpr fun other ho ↦ ?_
  have hleft := hright _ (hnodes ▸ List.mem_map_of_mem ho)
  rw [hc] at hleft
  refine Node.released_of_markedBy ?_ (hm other (List.mem_of_mem_eraseIdx ho)) hleft
  split
  · exact Node.unmark_markPins _ _ _
  · rfl

/-- A node that is not there cannot be taken out. One that is there goes out as it was; the other
nodes and connections stay in their order, and the marks are right again. -/
theorem Reachable.removeNode_detaches {New : Node → Prop} (h : Reachable New g)
    (hm : g.RightlyMarked) (id : NodeId) :
    (id ∉ g.ids →
      g.removeNode id = .error (.nodeNotFound id) ∧ g.edit (.remove id) = g) ∧
      ∀ node ∈ g.nodes, node.id = id →
        ∃ g', g.removeNode id = .ok (node, g') ∧ g.Detached id g' := by
  have hw := (h.keeps kept_true).1
  constructor
  · intro hid
    have hnone : g.index[id]? = none := by
      simpa using mt hw.indexed.isSome_iff.mp hid
    have hr : g.removeNode id = .error (.nodeNotFound id) := by
      rw [ShaderGraph.removeNode, hnone]
    exact ⟨hr, by rw [edit, hr]; rfl⟩
  · rintro node hn rfl
    obtain ⟨slot, hslot⟩ := List.mem_iff_getElem?.mp hn
    have hs := getElem?_index hw.indexed hslot
    exact ⟨g.pruned slot node.id, removeNode_eq_ok_iff.mpr ⟨slot, hs, hslot, rfl⟩,
      hm.detached hw hs hslot⟩

/-- A sum and a product that feed each other, the product from both its inputs, and one more sum that
takes both of them. -/
def knotted : ShaderGraph :=
  let sum := (empty "Knotted").push (.ofKind 1 (.math .add))
  let product := sum.push (.ofKind 2 (.math .multiply))
  let all := product.push (.ofKind 3 (.math .add))
  ((((all.link ⟨1, 0, 2, 0⟩).link ⟨1, 0, 2, 1⟩).link ⟨2, 0, 1, 0⟩).link ⟨1, 0, 3, 0⟩).link
    ⟨2, 0, 3, 1⟩

/-- The first sum still feeds the other one when the product goes, and takes nothing any more. -/
theorem removeNode_detaches_knotted :
    ∃ node g', knotted.removeNode 2 = .ok (node, g') ∧ node ∈ knotted.nodes ∧
      g'.connections = [⟨1, 0, 3, 0⟩] ∧ g'.RightlyMarked ∧
        (g'.nodes.map fun left ↦ (left.id, left.inputs.map (·.connected),
          left.outputs.map (·.connected))) =
            [(1, [false, false], [true]), (3, [true, false], [false])] := by
  have hr : Reachable Node.Created knotted := by
    unfold knotted
    refine .link (.link (.link (.link (.link (.push_ofKind (.push_ofKind (.push_ofKind (.empty _)
      ?_ _) ?_ _) ?_ _) ?_) ?_) ?_) ?_) ?_
    all_goals decide
  have hm : knotted.RightlyMarked := by
    refine rightlyMarked_run (.empty "Knotted") [.add (.ofKind 1 (.math .add)),
      .add (.ofKind 2 (.math .multiply)), .add (.ofKind 3 (.math .add)), .connect ⟨1, 0, 2, 0⟩,
      .connect ⟨1, 0, 2, 1⟩, .connect ⟨2, 0, 1, 0⟩, .connect ⟨1, 0, 3, 0⟩,
      .connect ⟨2, 0, 3, 1⟩] fun node hn ↦ ?_
    simp only [List.mem_cons, Edit.add.injEq, reduceCtorEq, List.not_mem_nil, or_false] at hn
    rcases hn with rfl | rfl | rfl <;> exact Node.unmarked_ofKind _ _
  have hmarks : (knotted.removeNode 2).toOption.map (fun removed ↦ removed.2.nodes.map fun left ↦
      (left.id, left.inputs.map (·.connected), left.outputs.map (·.connected))) =
        some [(1, [false, false], [true]), (3, [true, false], [false])] := by decide
  obtain ⟨node, hn, hid⟩ : ∃ node ∈ knotted.nodes, node.id = 2 := by decide
  obtain ⟨g', hremoved, hd⟩ := (hr.removeNode_detaches hm 2).2 node hn hid
  rw [hremoved] at hmarks
  exact ⟨node, g', hremoved, hn, hd.connections, hd.rightlyMarked, Option.some.inj hmarks⟩

end ShaderGraph

end RenderKit
