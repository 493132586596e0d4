import RenderKit.Proofs.Shader.Compilability
import RenderKit.Proofs.Shader.Marks

/-!
# Removing what a stage does not need

The walk of a stage goes backward from its results and meets only nodes that these lead back to
(`Live`). Graphs that are alike on those nodes, but for the marks of pins, are walked alike, and a
node that a stage does not need may go with its connections: the source of the stage stays as it
is, or its refusal (`source_removeNode`).
-/

namespace RenderKit

open Relation

/-- The node with no pin marked. -/
def Node.unmark (node : Node) : Node :=
  node.markPins (fun _ ↦ false) fun _ ↦ false

@[simp] theorem Node.unmark_markPins (node : Node) (input output : Nat → Bool) :
    (node.markPins input output).unmark = node.unmark := by
  simp [unmark, markPins, List.mapIdx_mapIdx, Function.comp_def]

namespace ShaderGraph

variable {g g' : ShaderGraph} {stage : Stage} {live : NodeId → Prop}

/-! ### What counts in emitting a node -/

theorem feeders_unmark (g : ShaderGraph) (node : Node) : g.feeders node.unmark = g.feeders node := by
  rw [feeders, feeders, Node.unmark, Node.length_inputs_markPins, Node.id_markPins]

/-- An operand is told by the declaration of its pin. -/
theorem operands_unmark (g : ShaderGraph) (sheet : Sheet) (node : Node) :
    g.operands sheet node.unmark = g.operands sheet node := by
  have hz : node.unmark.inputs.zipIdx =
      node.inputs.zipIdx.map fun input ↦ ({ input.1 with connected := false }, input.2) := by
    apply List.ext_getElem?
    intro i
    simp [Node.unmark, Node.markPins, List.getElem?_zipIdx, Function.comp_def]
  rw [operands, operands, hz, List.mapM_map]
  rfl

theorem emit_unmark (g : ShaderGraph) (walk : Walk) (node : Node) :
    g.emit walk node.unmark = g.emit walk node := by
  rw [emit, emit, operands_unmark, Node.unmark, Node.length_outputs_markPins, Node.id_markPins,
    Node.kind_markPins]

/-- A node is emitted alike in graphs that feed it alike. -/
theorem emit_congr {node : Node} (h : ∀ input, g'.source? node.id input = g.source? node.id input)
    (walk : Walk) : g'.emit walk node = g.emit walk node := by
  have ho : g'.operand walk.sheet node = g.operand walk.sheet node := by
    funext input
    rw [operand, operand, h]
  rw [emit, emit, operands, operands, ho]

theorem feeders_congr {node : Node}
    (h : ∀ input, g'.source? node.id input = g.source? node.id input) :
    g'.feeders node = g.feeders node := by
  rw [feeders, feeders]
  simp only [h]

/-! ### Graphs that are alike on some nodes -/

/-- Nodes that take values only from each other are there in two graphs, with the same feeders and
the same pins but for their marks. -/
structure Alike (live : NodeId → Prop) (g g' : ShaderGraph) : Prop where
  closed : ∀ id, live id → ∀ source, g.TakesFrom id source → live source
  fed : ∀ id, live id → ∀ input, g'.source? id input = g.source? id input
  found : ∀ id, live id → ∃ node node', g.node? id = some node ∧ g'.node? id = some node' ∧
    node'.unmark = node.unmark

namespace Alike

/-- A node is emitted behind its feeders in both graphs alike. -/
private theorem emit_eq (h : Alike live g g') {node node' : Node} (hid : live node.id)
    (hm : node'.unmark = node.unmark) :
    g'.feeders node' = g.feeders node ∧ (g'.emit · node') = (g.emit · node) := by
  constructor
  · rw [← feeders_unmark g', hm, feeders_unmark, feeders_congr (h.fed _ hid)]
  · funext walk
    rw [← emit_unmark g', hm, emit_unmark, emit_congr (h.fed _ hid)]

/-- Such nodes are visited alike, since a way never leaves them. -/
theorem visit_congr (h : Alike live g g') (hw : WellFormed g) {way : List NodeId} {id : NodeId}
    (hid : live id) (walk : Walk) : g'.visit way walk id = g.visit way walk id := by
  induction way using visit_induction g generalizing id walk with
  | step way ih =>
    obtain ⟨node, node', hnode, hnode', hmarks⟩ := h.found id hid
    obtain ⟨hmem, rfl⟩ := hw.node?_eq_some_iff.mp hnode
    obtain ⟨hfeeders, hemit⟩ := h.emit_eq hid hmarks
    simp only [visit_eq, hnode, hnode', hfeeders, hemit]
    by_cases hway : node.id ∈ way
    · simp only [if_pos hway]
    · have hvisits : (g.feeders node).foldlM (g'.visit (node.id :: way)) walk =
          (g.feeders node).foldlM (g.visit (node.id :: way)) walk :=
        foldlM_congr walk fun source hs walk ↦
          ih node.id node hway hnode (h.closed _ hid source ((mem_feeders_iff hw hmem).mp hs)) walk
      rw [hvisits]

/-- A stage is walked alike if its results are the same nodes. -/
theorem walk_eq (h : Alike live g g') (hw : WellFormed g)
    (hroots : g'.roots stage = g.roots stage) (hlive : ∀ id ∈ g.roots stage, live id) :
    g'.walk stage = g.walk stage := by
  rw [walk, walk, hroots]
  exact foldlM_congr {} fun id hid walk ↦ h.visit_congr hw (hlive id hid) walk

end Alike

/-! ### Removing a node -/

/-- The number of a node that results of a stage lead back to along connections. -/
def Live (g : ShaderGraph) (stage : Stage) (id : NodeId) : Prop :=
  ∃ root ∈ g.roots stage, ReflTransGen g.TakesFrom root id

theorem Live.feeder {id source : NodeId} (h : g.Live stage id) (hs : g.TakesFrom id source) :
    g.Live stage source := by
  obtain ⟨root, hroot, hr⟩ := h
  exact ⟨root, hroot, hr.tail hs⟩

theorem Live.exists_node {id : NodeId} (hw : WellFormed g) (h : g.Live stage id) :
    ∃ node ∈ g.nodes, node.id = id := by
  obtain ⟨root, hroot, hr⟩ := h
  rcases hr.cases_tail with rfl | ⟨target, -, hs⟩
  · obtain ⟨node, hm, rfl⟩ := List.mem_map.mp hroot
    exact ⟨node, (List.mem_filter.mp hm).1, rfl⟩
  · exact exists_of_takesFrom hw hs

/-- Results are told by the nodes without their marks. -/
theorem roots_congr (h : g'.nodes.map Node.unmark = g.nodes.map Node.unmark) :
    g'.roots stage = g.roots stage := by
  have hr : ∀ g : ShaderGraph, g.roots stage =
      ((g.nodes.map Node.unmark).filter (·.kind.outputStage? == some stage)).map (·.id) := by
    intro g
    rw [List.filter_map, List.map_map]
    rfl
  rw [hr, hr, h]

theorem customFields_congr (h : g'.nodes.map Node.unmark = g.nodes.map Node.unmark) :
    g'.customFields = g.customFields := by
  have hc : ∀ g : ShaderGraph, g.customFields =
      ((g.nodes.map Node.unmark).filterMap (·.kind.customField?)).eraseDups := by
    intro g
    rw [List.filterMap_map]
    rfl
  rw [hc, hc, h]

section

variable {slot : Nat} {node : Node}

/-- A list around one of its elements. -/
theorem exists_split {nodes : List Node} (h : nodes[slot]? = some node) :
    ∃ front back, nodes = front ++ node :: back ∧ nodes.eraseIdx slot = front ++ back := by
  obtain ⟨hlt, rfl⟩ := List.getElem?_eq_some_iff.mp h
  refine ⟨nodes.take slot, nodes.drop (slot + 1), ?_, List.eraseIdx_eq_take_drop_succ ..⟩
  rw [← List.drop_eq_getElem_cons hlt, List.take_append_drop]

/-- The nodes that are left, but for their marks. -/
private theorem nodes_pruned (hw : WellFormed g) (hs : g.index[node.id]? = some slot) :
    (g.pruned slot node.id).nodes.map Node.unmark = (g.nodes.eraseIdx slot).map Node.unmark := by
  rw [pruned, nodes_syncAll (hw.without hs).indexed, List.map_map]
  refine List.map_congr_left fun other _ ↦ ?_
  rw [Function.comp_apply]
  split
  · exact Node.unmark_markPins _ _ _
  · rfl

/-- A node that is no result of a stage may go. -/
private theorem roots_pruned (hw : WellFormed g) (hs : g.index[node.id]? = some slot)
    (hn : g.nodes[slot]? = some node) (hout : (node.kind.outputStage? == some stage) = false) :
    (g.pruned slot node.id).roots stage = g.roots stage := by
  obtain ⟨front, back, hsplit, herase⟩ := exists_split hn
  have hleft : (g.without slot []).nodes = front ++ back := herase
  refine (roots_congr (g := g.without slot []) (nodes_pruned hw hs)).trans ?_
  rw [roots, roots, hleft, hsplit]
  simp [hout]

/-- A node without a field of its own may go. -/
private theorem customFields_pruned (hw : WellFormed g) (hs : g.index[node.id]? = some slot)
    (hn : g.nodes[slot]? = some node) (hfield : node.kind.customField? = none) :
    (g.pruned slot node.id).customFields = g.customFields := by
  obtain ⟨front, back, hsplit, herase⟩ := exists_split hn
  have hleft : (g.without slot []).nodes = front ++ back := herase
  refine (customFields_congr (g := g.without slot []) (nodes_pruned hw hs)).trans ?_
  rw [customFields, customFields, hleft, hsplit]
  simp [hfield]

/-- A node that is left is found, but for its marks. -/
private theorem exists_node?_pruned (hw : WellFormed g) (hs : g.index[node.id]? = some slot)
    {other : Node} (ho : other ∈ g.nodes) (hne : other.id ≠ node.id) :
    ∃ left, (g.pruned slot node.id).node? other.id = some left ∧ left.unmark = other.unmark := by
  obtain ⟨i, hi⟩ := List.mem_iff_getElem?.mp ho
  have hislot : i ≠ slot := by
    rintro rfl
    have hid := (hw.indexed node.id i).mp hs
    rw [ids, List.getElem?_map, hi] at hid
    exact hne (Option.some.inj hid)
  have hleft := List.mem_map_of_mem (f := Node.unmark)
    (List.mem_eraseIdx_iff_getElem?.mpr ⟨i, hislot, hi⟩)
  rw [← nodes_pruned hw hs] at hleft
  obtain ⟨left, hm, he⟩ := List.mem_map.mp hleft
  have hid : left.unmark.id = other.unmark.id := by rw [he]
  exact ⟨left, (hw.pruned hs).node?_eq_some_iff.mpr ⟨hm, hid⟩, he⟩

theorem connections_pruned (g : ShaderGraph) (slot : Nat) (id : NodeId) :
    (g.pruned slot id).connections = g.connections.filter fun c ↦ !c.touches id :=
  connections_syncAll _ _

/-- What feeds other nodes from other nodes is left. -/
private theorem source?_pruned (hw : WellFormed g) (hs : g.index[node.id]? = some slot)
    {target : NodeId} (ht : target ≠ node.id)
    (hfed : ∀ source, g.TakesFrom target source → source ≠ node.id) (input : Nat) :
    (g.pruned slot node.id).source? target input = g.source? target input := by
  cases h : g.source? target input with
  | none =>
    rw [source?_eq_none_iff] at h ⊢
    intro c hc
    rw [connections_pruned] at hc
    exact h c (List.mem_filter.mp hc).1
  | some feed =>
    obtain ⟨source, output⟩ := feed
    have hc := mem_of_source? h
    have htouch : Connection.touches ⟨source, output, target, input⟩ node.id = false :=
      Connection.touches_eq_false_iff.mpr ⟨hfed source ⟨_, hc, rfl, rfl⟩, ht⟩
    refine (hw.pruned hs).source?_of_mem (c := ⟨source, output, target, input⟩) ?_
    rw [connections_pruned, List.mem_filter, htouch]
    exact ⟨hc, rfl⟩

/-- Without a node that a stage does not need, the graph is alike on what the stage needs. -/
private theorem alike_pruned (hw : WellFormed g) (hs : g.index[node.id]? = some slot)
    (hn : ¬ g.Live stage node.id) : Alike (g.Live stage) g (g.pruned slot node.id) where
  closed := fun _ hid _ hs ↦ hid.feeder hs
  fed := by
    intro id hid input
    have hne : ∀ other, g.Live stage other → other ≠ node.id := by
      rintro _ hother rfl
      exact hn hother
    exact source?_pruned hw hs (hne id hid) (fun source hsource ↦ hne source (hid.feeder hsource))
      input
  found := by
    intro id hid
    obtain ⟨other, hmem, rfl⟩ := hid.exists_node hw
    obtain ⟨left, hleft, he⟩ := exists_node?_pruned hw hs hmem fun he ↦ hn (he ▸ hid)
    exact ⟨other, left, hw.node?_eq_some_iff.mpr ⟨hmem, rfl⟩, hleft, he⟩

end

/-- A node with a field of its own is a result of the fragment stage. -/
private theorem customField?_eq_none {kind : NodeKind}
    (h : (kind.outputStage? == some .fragment) = false) : kind.customField? = none := by
  cases kind with
  | output semantic customName =>
    cases semantic with
    | custom => cases h
    | _ => rfl
  | _ => rfl

/-- A node that a stage does not need may go with its connections: the source of the stage stays as
it is, or its refusal. -/
theorem Reachable.source_removeNode {New : Node → Prop} (h : Reachable New g) {id : NodeId}
    {node : Node} (hr : g.removeNode id = .ok (node, g')) (hn : ¬ g.Needs stage node)
    (layout : Layout) : g'.source stage layout = g.source stage layout := by
  have hw := (h.keeps kept_true).1
  obtain ⟨slot, hs, hnode, rfl⟩ := removeNode_eq_ok_iff.mp hr
  have hmem := List.mem_of_getElem? hnode
  obtain rfl : node.id = id := by
    have hid := (hw.indexed id slot).mp hs
    rw [ids, List.getElem?_map, hnode] at hid
    exact Option.some.inj hid
  have hlive : ¬ g.Live stage node.id := fun hl ↦ hn ⟨hmem, hl⟩
  -- A result of the stage would be needed.
  have hout : (node.kind.outputStage? == some stage) = false := by
    rw [Bool.eq_false_iff]
    intro hout
    exact hlive ⟨node.id, List.mem_map_of_mem (List.mem_filter.mpr ⟨hmem, hout⟩), .refl⟩
  have hwalk : (g.pruned slot node.id).walk stage = g.walk stage :=
    (alike_pruned hw hs hlive).walk_eq hw (roots_pruned hw hs hnode hout) fun root hroot ↦
      ⟨root, hroot, .refl⟩
  cases stage with
  | vertex => rw [source, source, body, body, hwalk]
  | fragment =>
    rw [source, source, body, body, hwalk,
      customFields_pruned hw hs hnode (customField?_eq_none hout)]

/-- The time as a roughness, and two operations on it that feed each other, and nothing else. -/
def wasteful : ShaderGraph :=
  let time := (empty "Wasteful").push (.ofKind 1 (.input .time ""))
  let sum := time.push (.ofKind 2 (.math .add))
  let both := sum.push (.ofKind 3 (.math .multiply))
  let all := both.push (.ofKind 4 (.output .roughness ""))
  (((all.link ⟨1, 0, 4, 0⟩).link ⟨1, 0, 2, 0⟩).link ⟨2, 0, 3, 0⟩).link ⟨3, 0, 2, 1⟩

theorem source_removeNode_wasteful :
    ∃ node g' text, wasteful.removeNode 2 = .ok (node, g') ∧ TransGen wasteful.TakesFrom 2 2 ∧
      wasteful.source .fragment {} = .ok text ∧ g'.source .fragment {} = .ok text := by
  have hr : Reachable Node.Created wasteful := by
    unfold wasteful
    refine .link (.link (.link (.link (.push_ofKind (.push_ofKind (.push_ofKind (.push_ofKind
      (.empty _) ?_ _) ?_ _) ?_ _) ?_ _) ?_) ?_) ?_) ?_
    all_goals decide
  have hroots : wasteful.roots .fragment = [4] := by decide
  have hclosed : ∀ c ∈ wasteful.connections, c.target ∈ [4, 1] → c.source ∈ [4, 1] := by decide
  have hlive : ∀ id, wasteful.Live .fragment id → id ∈ [4, 1] := by
    rintro id ⟨root, hroot, hreach⟩
    rw [hroots] at hroot
    induction hreach with
    | refl => exact List.mem_append_left [1] hroot
    | tail _ hs ih =>
      obtain ⟨c, hc, rfl, rfl⟩ := hs
      exact hclosed c hc ih
  have hid : (wasteful.removeNode 2).toOption.map (·.1.id) = some 2 := by decide
  have hbody : (wasteful.body .fragment).toOption.isSome = true := by decide +kernel
  cases hremove : wasteful.removeNode 2 with
  | error e => simp [hremove, Except.toOption] at hid
  | ok removed =>
    obtain ⟨node, left⟩ := removed
    simp only [hremove, Except.toOption, Option.map_some, Option.some.injEq] at hid
    have hn : ¬ wasteful.Needs .fragment node := by
      rintro ⟨-, hl⟩
      have hm := hlive node.id hl
      rw [hid] at hm
      revert hm
      decide
    cases hb : wasteful.body .fragment with
    | error e => simp [hb, Except.toOption] at hbody
    | ok body =>
      have hs : wasteful.source .fragment {} = .ok (fragmentText wasteful.customFields body {}) := by
        rw [source, hb]
        rfl
      refine ⟨node, left, _, rfl, ?_, hs, (hr.source_removeNode hremove hn {}).trans hs⟩
      exact .tail (.single ⟨⟨3, 0, 2, 1⟩, by decide, rfl, rfl⟩) ⟨⟨2, 0, 3, 0⟩, by decide, rfl, rfl⟩

end ShaderGraph

end RenderKit
