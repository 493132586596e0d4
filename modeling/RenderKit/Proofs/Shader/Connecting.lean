import RenderKit.Proofs.Requirement
import RenderKit.Proofs.Shader.Marks

/-!
# Connecting and disconnecting

What a connection needs, in the order in which it is checked (`requirements`), and what it changes
where marks are right: there is one more connection, and the pins at its ends are marked. To take it
away directly afterwards leaves the graph as it was before (`connect_checked`).
-/

namespace RenderKit

/-- The pin with a mark. -/
def Pin.mark (pin : Pin) : Pin :=
  { pin with connected := true }

/-- The node with marks on the pins that a connection runs between. -/
def Node.joined (c : Connection) (node : Node) : Node :=
  { node with
    inputs := if c.target = node.id then node.inputs.modify c.input Pin.mark else node.inputs
    outputs := if c.source = node.id then node.outputs.modify c.output Pin.mark else node.outputs }

namespace Node

variable {node : Node} {connections : List Connection} {i : Nat} {pin : Pin}

theorem unmarked_ofKind (id : NodeId) (kind : NodeKind) : (ofKind id kind).Unmarked :=
  Created.unmarked ⟨kind, { nextNode := id }, .origin, .initial, rfl⟩

/-- The mark of an input. -/
theorem MarkedBy.connected_input (h : node.MarkedBy connections) (hi : node.inputs[i]? = some pin) :
    pin.connected = connections.any (·.feeds node.id i) := by
  rw [Bool.eq_iff_iff, h.inputs i pin hi]
  simp [Connection.feeds]

/-- The mark of an output. -/
theorem MarkedBy.connected_output (h : node.MarkedBy connections)
    (hi : node.outputs[i]? = some pin) : pin.connected = connections.any (·.leaves node.id i) := by
  rw [Bool.eq_iff_iff, h.outputs i pin hi]
  simp [Connection.leaves]

end Node

/-- Pins that have these marks stay as they are. -/
theorem mapIdx_connected_eq_self {pins : List Pin} {ends : Nat → Bool}
    (h : ∀ i pin, pins[i]? = some pin → pin.connected = ends i) :
    (pins.mapIdx fun i pin ↦ { pin with connected := ends i }) = pins := by
  apply List.ext_getElem?
  intro i
  rw [List.getElem?_mapIdx]
  cases hp : pins[i]? with
  | none => rfl
  | some pin => rw [Option.map_some, ← h i pin hp]

/-- Pins that have all but one of these marks get that one. -/
theorem mapIdx_connected_eq_modify {pins : List Pin} {ends : Nat → Bool} {k : Nat}
    (h : ∀ i pin, pins[i]? = some pin → pin.connected = ends i) :
    (pins.mapIdx fun i pin ↦ { pin with connected := ends i || k == i }) =
      pins.modify k Pin.mark := by
  apply List.ext_getElem?
  intro i
  rw [List.getElem?_mapIdx, List.getElem?_modify]
  cases hp : pins[i]? with
  | none => rfl
  | some pin =>
    rw [← h i pin hp]
    by_cases hk : k = i
    · simp [hk, Pin.mark]
    · simp [hk, beq_false_of_ne hk]

namespace ShaderGraph

variable {g g' : ShaderGraph} {node : Node} {connections : List Connection} {c : Connection}

/-- The marks of all nodes are those that the connections make. -/
def RightlyMarked (g : ShaderGraph) : Prop :=
  ∀ node ∈ g.nodes, node.MarkedBy g.connections

theorem RightlyMarked.synced (h : g.RightlyMarked) : g.Synced fun _ ↦ False :=
  fun node hn ↦ .inl (h node hn)

theorem Synced.rightlyMarked (h : g.Synced fun _ ↦ False) : g.RightlyMarked :=
  fun node hn ↦ (h node hn).resolve_right And.left

/-- What a connection needs, in the order in which it is checked. -/
def requirements (g : ShaderGraph) (c : Connection) : List (Requirement GraphError) :=
  [⟨c.source ≠ c.target, (· = .selfConnection c.source)⟩,
    ⟨c.source ∈ g.ids, (· = .nodeNotFound c.source)⟩,
    ⟨c.target ∈ g.ids, (· = .nodeNotFound c.target)⟩,
    ⟨∃ node ∈ g.nodes, node.id = c.source ∧ c.output < node.outputs.length,
      (· = .outputOutOfRange c.source c.output)⟩,
    ⟨∃ node ∈ g.nodes, node.id = c.target ∧ c.input < node.inputs.length,
      (· = .inputOutOfRange c.target c.input)⟩,
    ⟨∀ other ∈ g.connections, ¬ (other.target = c.target ∧ other.input = c.input),
      (· = .inputAlreadyConnected c.target c.input)⟩]

/-! ### What is checked -/

theorem feed?_eq_none_iff_forall {target : NodeId} {input : Nat} :
    g.feed? target input = none ↔
      ∀ other ∈ g.connections, ¬ (other.target = target ∧ other.input = input) := by
  simp [feed?, Connection.feeds]

theorem WellFormed.isSome_node?_iff (hw : WellFormed g) {id : NodeId} :
    (g.node? id).isSome ↔ id ∈ g.ids := by
  rw [Option.isSome_iff_exists, ids, List.mem_map]
  exact exists_congr fun node ↦ hw.node?_eq_some_iff

/-- What is asked of the nodes with a number is asked of the one found under it. -/
theorem WellFormed.exists_mem_iff (hw : WellFormed g) {id : NodeId} {P : Node → Prop}
    (hn : g.node? id = some node) : (∃ node ∈ g.nodes, node.id = id ∧ P node) ↔ P node := by
  obtain ⟨hm, hid⟩ := hw.node?_eq_some_iff.mp hn
  constructor
  · rintro ⟨other, ho, he, hp⟩
    exact hw.eq_of_id ho hm (he.trans hid.symm) ▸ hp
  · exact fun hp ↦ ⟨node, hm, hid, hp⟩

theorem WellFormed.checks_checkConnection (hw : WellFormed g) (c : Connection) :
    Checks (g.checkConnection c) (g.requirements c) := by
  rw [checkConnection, requirements]
  by_cases hne : c.source = c.target
  · simp only [hne, if_true]
    exact .unmet (fun h ↦ h rfl) fun _ ↦ .rfl
  refine .met hne ?_
  simp only [hne, if_false]
  cases hs : g.node? c.source with
  | none =>
    refine .unmet (fun h ↦ ?_) fun _ ↦ .rfl
    simpa [hs] using hw.isSome_node?_iff.mpr h
  | some source =>
    refine .met (hw.isSome_node?_iff.mp (hs ▸ rfl)) ?_
    cases ht : g.node? c.target with
    | none =>
      refine .unmet (fun h ↦ ?_) fun _ ↦ .rfl
      simpa [ht] using hw.isSome_node?_iff.mpr h
    | some target =>
      refine .met (hw.isSome_node?_iff.mp (ht ▸ rfl)) ?_
      by_cases ho : source.outputs.length ≤ c.output
      · simp only [ho, if_true]
        refine .unmet (fun h ↦ ?_) fun _ ↦ .rfl
        exact absurd ((hw.exists_mem_iff hs).mp h) (Nat.not_lt.mpr ho)
      refine .met ((hw.exists_mem_iff hs).mpr (Nat.not_le.mp ho)) ?_
      by_cases hi : target.inputs.length ≤ c.input
      · simp only [ho, hi, if_true, if_false]
        refine .unmet (fun h ↦ ?_) fun _ ↦ .rfl
        exact absurd ((hw.exists_mem_iff ht).mp h) (Nat.not_lt.mpr hi)
      refine .met ((hw.exists_mem_iff ht).mpr (Nat.not_le.mp hi)) ?_
      simp only [ho, hi, if_false]
      cases hf : g.feed? c.target c.input with
      | none => exact .met (feed?_eq_none_iff_forall.mp hf) (.nil ())
      | some other =>
        refine .unmet (fun h ↦ ?_) fun _ ↦ .rfl
        rw [feed?_eq_none_iff_forall.mpr h] at hf
        cases hf

/-! ### What changes -/

/-- A rightly marked node stays as it is when it is marked anew. -/
theorem marked_eq_self (h : node.MarkedBy connections) : marked connections node = node := by
  rw [marked, Node.markPins, mapIdx_connected_eq_self fun _ _ ↦ h.connected_input,
    mapIdx_connected_eq_self fun _ _ ↦ h.connected_output]

/-- One more connection marks the pins that it runs between. -/
theorem marked_append_singleton (h : node.MarkedBy connections) (c : Connection) :
    marked (connections ++ [c]) node = node.joined c := by
  have hinputs : (node.inputs.mapIdx fun i pin ↦
      { pin with connected := (connections ++ [c]).any (·.feeds node.id i) }) =
        if c.target = node.id then node.inputs.modify c.input Pin.mark else node.inputs := by
    simp only [List.any_append, List.any_cons, List.any_nil, Bool.or_false, Connection.feeds]
    split
    · next ht =>
      simp only [ht, beq_self_eq_true, Bool.true_and]
      exact mapIdx_connected_eq_modify fun _ _ ↦ h.connected_input
    · next ht =>
      simp only [beq_false_of_ne ht, Bool.false_and, Bool.or_false]
      exact mapIdx_connected_eq_self fun _ _ ↦ h.connected_input
  have houtputs : (node.outputs.mapIdx fun i pin ↦
      { pin with connected := (connections ++ [c]).any (·.leaves node.id i) }) =
        if c.source = node.id then node.outputs.modify c.output Pin.mark else node.outputs := by
    simp only [List.any_append, List.any_cons, List.any_nil, Bool.or_false, Connection.leaves]
    split
    · next hs =>
      simp only [hs, beq_self_eq_true, Bool.true_and]
      exact mapIdx_connected_eq_modify fun _ _ ↦ h.connected_output
    · next hs =>
      simp only [beq_false_of_ne hs, Bool.false_and, Bool.or_false]
      exact mapIdx_connected_eq_self fun _ _ ↦ h.connected_output
  rw [marked, Node.markPins, hinputs, houtputs, Node.joined]

/-- Marking several nodes changes nothing but their pins. -/
theorem syncAll_eq (hi : Indexes g.ids (g.index[·]?)) (touched : List NodeId) :
    g.syncAll touched =
      { g with nodes := g.nodes.map fun node ↦
          if node.id ∈ touched then marked g.connections node else node } := by
  change ShaderGraph.mk (g.syncAll touched).name (g.syncAll touched).nodes
    (g.syncAll touched).index (g.syncAll touched).connections (g.syncAll touched).created = _
  rw [name_syncAll, nodes_syncAll hi, index_syncAll, connections_syncAll, created_syncAll]

/-- Rightly marked nodes need not be marked anew. -/
theorem RightlyMarked.syncAll_eq_self (hm : g.RightlyMarked) (hi : Indexes g.ids (g.index[·]?))
    (touched : List NodeId) : g.syncAll touched = g := by
  have hn : (g.nodes.map fun node ↦
      if node.id ∈ touched then marked g.connections node else node) = g.nodes := by
    conv_rhs => rw [← List.map_id g.nodes]
    refine List.map_congr_left fun node hn ↦ ?_
    rw [marked_eq_self (hm node hn), ite_self, id]
  rw [syncAll_eq hi, hn]

theorem link_eq_syncAll (g : ShaderGraph) (c : Connection) :
    g.link c = { g with connections := g.connections ++ [c] }.syncAll [c.source, c.target] :=
  rfl

/-- Where marks are right, a connection comes and marks the pins that it runs between. -/
theorem RightlyMarked.link_eq (hm : g.RightlyMarked) (hi : Indexes g.ids (g.index[·]?))
    (c : Connection) :
    g.link c =
      { g with nodes := g.nodes.map (Node.joined c), connections := g.connections ++ [c] } := by
  rw [link_eq_syncAll, syncAll_eq (g := { g with connections := g.connections ++ [c] }) hi]
  congr 1
  refine List.map_congr_left fun node hn ↦ ?_
  split
  · exact marked_append_singleton (hm node hn) c
  · next hne =>
    simp only [List.mem_cons, List.not_mem_nil, or_false, not_or] at hne
    rw [Node.joined, if_neg (Ne.symm hne.1), if_neg (Ne.symm hne.2)]

/-- A connection that was made is found at its end. -/
theorem feed?_link (hf : g.feed? c.target c.input = none) :
    (g.link c).feed? c.target c.input = some c := by
  rw [feed?] at hf ⊢
  rw [connections_link, List.find?_append, hf]
  simp [Connection.feeds]

/-- Without a connection that was made, the graph is as before, but for the marks of the nodes that
it ran between. -/
theorem unlinked_link (hi : Indexes g.ids (g.index[·]?)) (hf : g.feed? c.target c.input = none) :
    (g.link c).unlinked c = g.syncAll [c.source, c.target] := by
  have herase : (g.link c).connections.eraseP (·.feeds c.target c.input) = g.connections := by
    rw [connections_link, List.eraseP_append_right _ (List.find?_eq_none.mp hf)]
    simp [Connection.feeds]
  have hlink := syncAll_eq (g := { g with connections := g.connections ++ [c] }) hi
    [c.source, c.target]
  have hi' : Indexes (g.link c).ids ((g.link c).index[·]?) := by
    rw [ids_link, link, index_syncPins, index_syncPins]
    exact hi
  rw [unlinked, herase]
  change { g.link c with connections := g.connections }.syncAll [c.source, c.target] = _
  rw [syncAll_eq (g := { g.link c with connections := g.connections }) hi', syncAll_eq hi,
    link_eq_syncAll, hlink]
  congr 1
  rw [List.map_map]
  refine List.map_congr_left fun node _ ↦ ?_
  rw [Function.comp_apply]
  by_cases ht : node.id ∈ [c.source, c.target]
  · rw [if_pos ht, if_pos ht, id_marked, if_pos ht, marked_marked]
  · simp only [if_neg ht]

/-- A connection is made exactly if nothing that it needs is missing, and else is refused for the
first thing that is, with no change. Where marks are right, it only comes behind the others and
marks the pins that it runs between, and to take it away again leaves the graph as it was; elsewhere
the nodes that it ran between are then marked rightly. Where no connection ends, none can be taken
away. -/
theorem Reachable.connect_checked {New : Node → Prop} (h : Reachable New g) (c : Connection) :
    Checks (g.connect c) (g.requirements c) ∧
      (∀ e, g.connect c = .error e → g.edit (.connect c) = g) ∧
      (∀ g', g.connect c = .ok g' →
        g'.disconnect c.target c.input = .ok (c, g.syncAll [c.source, c.target]) ∧
          (g.RightlyMarked →
            g' = { g with
              nodes := g.nodes.map (Node.joined c), connections := g.connections ++ [c] } ∧
            g'.disconnect c.target c.input = .ok (c, g))) ∧
      ∀ target input,
        (∀ other ∈ g.connections, ¬ (other.target = target ∧ other.input = input)) →
          g.disconnect target input = .error (.connectionNotFound target input) ∧
            g.edit (.disconnect target input) = g := by
  have hw := (h.keeps kept_true).1
  refine ⟨(hw.checks_checkConnection c).map fun _ ↦ g.link c, fun e he ↦ ?_, fun g' hc ↦ ?_,
    fun target input hnone ↦ ?_⟩
  · rw [edit, he]
    rfl
  · obtain ⟨⟨-, hf⟩, rfl⟩ := connect_eq_ok_iff.mp hc
    have hback : (g.link c).disconnect c.target c.input =
        .ok (c, g.syncAll [c.source, c.target]) :=
      disconnect_eq_ok_iff.mpr ⟨feed?_link hf, (unlinked_link hw.indexed hf).symm⟩
    refine ⟨hback, fun hm ↦ ⟨hm.link_eq hw.indexed c, ?_⟩⟩
    rw [hback, hm.syncAll_eq_self hw.indexed]
  · have hd : g.disconnect target input = .error (.connectionNotFound target input) := by
      rw [ShaderGraph.disconnect, feed?_eq_none_iff_forall.mpr hnone]
    exact ⟨hd, by rw [edit, hd]; rfl⟩

/-- Marks are right behind edits that bring no marks. -/
theorem rightlyMarked_run (h : Opened g) (edits : List Edit)
    (he : ∀ node, .add node ∈ edits → node.Unmarked) : (g.run edits).RightlyMarked := by
  obtain ⟨hw, hs⟩ := h.synced
  exact (hs.run hw fun node hn ↦ .inl (he node hn)).rightlyMarked

/-- The second sum takes the first one twice, and gives up the later connection only. -/
theorem connect_checked_paired :
    ∃ twice, paired.connect ⟨1, 0, 2, 1⟩ = .ok twice ∧
      twice.connections = [⟨1, 0, 2, 0⟩, ⟨1, 0, 2, 1⟩] ∧
        twice.disconnect 2 1 = .ok (⟨1, 0, 2, 1⟩, paired) ∧
          paired.connect ⟨1, 0, 2, 0⟩ = .error (.inputAlreadyConnected 2 0) := by
  have hr : Reachable Node.Created paired :=
    .link (.push_ofKind (.push_ofKind (.empty _) (by decide) _) (by decide) _) (by decide)
  have hm : paired.RightlyMarked := by
    refine rightlyMarked_run (.empty "Paired") [.add (.ofKind 1 (.math .add)),
      .add (.ofKind 2 (.math .add)), .connect ⟨1, 0, 2, 0⟩] fun node hn ↦ ?_
    simp only [List.mem_cons, Edit.add.injEq, reduceCtorEq, List.not_mem_nil, or_false] at hn
    rcases hn with rfl | rfl <;> exact Node.unmarked_ofKind _ _
  obtain ⟨hchecks, -, hmade, -⟩ := hr.connect_checked ⟨1, 0, 2, 1⟩
  have hneeds : ∀ q ∈ paired.requirements ⟨1, 0, 2, 1⟩, q.met := by
    simp only [requirements, List.forall_mem_cons, List.not_mem_nil, false_implies, implies_true,
      and_true]
    decide
  obtain ⟨twice, htwice⟩ := hchecks.accepts.mpr hneeds
  obtain ⟨heq, hback⟩ := (hmade twice htwice).2 hm
  refine ⟨twice, htwice, by rw [heq]; rfl, hback, ?_⟩
  refine ((hr.connect_checked ⟨1, 0, 2, 0⟩).1.refuses _).mpr ?_
  refine .later ?_ (.later ?_ (.later ?_ (.later ?_ (.later ?_ (.here ?_ rfl)))))
  all_goals dsimp only; decide

end ShaderGraph

end RenderKit
