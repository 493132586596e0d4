import RenderKit.Document.Loading
import RenderKit.Proofs.Shader.WellFormed
import RenderKit.Shader.Graph.Material
import Mathlib.Algebra.Group.Nat.Defs

/-!
# Reachable shader graphs

The graphs that edits lead to, from an empty one, from the standard material or from a document.
What an empty graph has and every checked edit keeps (`Kept`) holds of all of them
(`Reachable.keeps`): loading makes checked edits, and the standard material makes edits that a
check would let pass.
-/

namespace RenderKit

/-- The node elsewhere and of another size. -/
def Node.arrange (node : Node) (position : Position) (extent : Extent) : Node :=
  (node.moveTo position).resize extent

/-- A node as it was made, wherever it stands. -/
def Node.Created (node : Node) : Prop :=
  ∃ kind supply position extent, node = (Node.create kind supply).1.arrange position extent

theorem Node.created_moveTo (kind : NodeKind) (supply : Supply) (position : Position) :
    ((Node.create kind supply).1.moveTo position).Created :=
  ⟨kind, supply, position, .initial, rfl⟩

/-- The pins of a node are those of its family. -/
structure Node.Faithful (node : Node) : Prop where
  inputs : node.inputs.map Pin.spec = node.kind.descriptor.inputs
  outputs : node.outputs.map Pin.spec = node.kind.descriptor.outputs

theorem map_spec_pin (specs : List PinSpec) :
    (specs.map PinSpec.pin).map Pin.spec = specs := by
  simp [Function.comp_def]

theorem map_spec_mapIdx (pins : List Pin) (connected : Nat → Bool) :
    (pins.mapIdx fun i pin ↦ { pin with connected := connected i }).map Pin.spec =
      pins.map Pin.spec := by
  ext i : 1
  simp only [List.getElem?_map, List.getElem?_mapIdx, Option.map_map]
  rfl

private theorem Node.Faithful.markPins {node : Node} (h : node.Faithful)
    (input output : Nat → Bool) : (node.markPins input output).Faithful :=
  ⟨(map_spec_mapIdx _ input).trans h.inputs, (map_spec_mapIdx _ output).trans h.outputs⟩

theorem Node.Faithful.length_inputs {node : Node} (h : node.Faithful) :
    node.inputs.length = node.kind.descriptor.inputs.length := by
  rw [← h.inputs, List.length_map]

theorem Node.Faithful.length_outputs {node : Node} (h : node.Faithful) :
    node.outputs.length = node.kind.descriptor.outputs.length := by
  rw [← h.outputs, List.length_map]

namespace Loading

variable {l l' : Loading}

/-- A node is loaded as one that was made. -/
theorem exists_of_addNode {r : Registry} {record : NodeRecord}
    (h : l.addNode r record = .ok l') :
    ∃ kind, record.kind.toKind r = .ok kind ∧
      l.graph.addNode ((Node.create kind l.supply).1.arrange record.position record.extent) =
        .ok l'.graph := by
  rw [addNode] at h
  obtain ⟨kind, hkind, h⟩ := bind_eq_ok_iff.mp h
  obtain ⟨graph, hgraph, h⟩ := bind_eq_ok_iff.mp h
  by_cases hused : (l.ids.lookup record.id).isSome
  · simp [hused, throw, throwThe, MonadExceptOf.throw] at h
  · simp only [hused] at h
    cases h
    exact ⟨kind, mapError_eq_ok_iff.mp hkind, mapError_eq_ok_iff.mp hgraph⟩

/-- A connection is loaded between the same pins. -/
theorem exists_of_connect {record : Connection} (h : l.connect record = .ok l') :
    ∃ source target,
      l.graph.connect ⟨source, record.output, target, record.input⟩ = .ok l'.graph := by
  rw [connect] at h
  obtain ⟨source, -, h⟩ := bind_eq_ok_iff.mp h
  obtain ⟨target, -, h⟩ := bind_eq_ok_iff.mp h
  obtain ⟨graph, hgraph, h⟩ := bind_eq_ok_iff.mp h
  cases h
  exact ⟨source, target, mapError_eq_ok_iff.mp hgraph⟩

end Loading

namespace ShaderGraph

/-- The graphs that edits lead to, for some notion of new nodes. A node in a graph is given out for
its place and size to be changed; one that was removed may come back into this or another graph. -/
inductive Reachable (New : Node → Prop) : ShaderGraph → Prop where
  | empty (name : String) : Reachable New (.empty name)
  | material (supply : Supply) : Reachable New (standardMaterial supply).1
  | loaded {g : ShaderGraph} {d : GraphDocument} {r : Registry} {supply : Supply} :
      (ofDocument d r supply).1 = .ok g → Reachable New g
  | rename {g : ShaderGraph} (name : String) : Reachable New g → Reachable New (g.rename name)
  | arrange {g : ShaderGraph} (id : NodeId) (position : Position) (extent : Extent) :
      Reachable New g → Reachable New (g.modifyNode id fun node ↦ node.arrange position extent)
  | add {g g' : ShaderGraph} {node : Node} :
      Reachable New g → New node → g.addNode node = .ok g' → Reachable New g'
  | restore {g g' h h' : ShaderGraph} {id : NodeId} {node : Node} (position : Position)
      (extent : Extent) : Reachable New g → Reachable New h → h.removeNode id = .ok (node, h') →
      g.addNode (node.arrange position extent) = .ok g' → Reachable New g'
  | remove {g g' : ShaderGraph} {id : NodeId} {node : Node} :
      Reachable New g → g.removeNode id = .ok (node, g') → Reachable New g'
  | connect {g g' : ShaderGraph} {c : Connection} :
      Reachable New g → g.connect c = .ok g' → Reachable New g'
  | disconnect {g g' : ShaderGraph} {target : NodeId} {input : Nat} {c : Connection} :
      Reachable New g → g.disconnect target input = .ok (c, g') → Reachable New g'
  | refresh {g : ShaderGraph} (r : Registry) : Reachable New g → Reachable New (g.refresh r).1

/-- What an empty graph has, and new nodes and connections keep. -/
structure Grown (New : Node → Prop) (P : ShaderGraph → Prop) : Prop where
  empty : ∀ name created, P { name := name, created := created }
  push : ∀ {g node}, WellFormed g → P g → New node ∨ node.Created → node.id ∉ g.ids →
    P (g.push node)
  link : ∀ {g c}, WellFormed g → P g → g.Joins c → g.feed? c.target c.input = none → P (g.link c)

/-- What an empty graph has and every edit of a well-formed graph keeps. -/
structure Kept (New : Node → Prop) (P : ShaderGraph → Prop) : Prop extends Grown New P where
  rename : ∀ {g} name, WellFormed g → P g → P (g.rename name)
  arrange : ∀ {g} id position extent, WellFormed g → P g →
    P (g.modifyNode id fun node ↦ node.arrange position extent)
  restore : ∀ {g h node} position extent, WellFormed g → P g → WellFormed h → P h →
    node ∈ h.nodes → node.id ∉ g.ids → P (g.push (node.arrange position extent))
  prune : ∀ {g id slot}, WellFormed g → P g → g.index[id]? = some slot → P (g.pruned slot id)
  unlink : ∀ {g c}, WellFormed g → P g → g.feed? c.target c.input = some c → P (g.unlinked c)
  refresh : ∀ {g} r, WellFormed g → P g → P (g.refresh r).1

/-- What the start of a document has, and every node and every connection that is loaded from one of
its records keeps, holds of its graph. -/
theorem ofDocument_invariant {P : ShaderGraph → Prop} {g : ShaderGraph} {d : GraphDocument}
    {r : Registry} {supply : Supply} (h : (ofDocument d r supply).1 = .ok g)
    (start : P { name := d.name, created := d.metadata.map (·.created) })
    (node : ∀ record ∈ d.nodes, ∀ g g' kind supply, P g → record.kind.toKind r = .ok kind →
      g.addNode ((Node.create kind supply).1.arrange record.position record.extent) = .ok g' → P g')
    (connection : ∀ record ∈ d.connections, ∀ g g' source target, P g →
      g.connect ⟨source, record.output, target, record.input⟩ = .ok g' → P g') : P g := by
  rw [ofDocument] at h
  split at h
  · cases h
  simp only at h
  split at h
  · cases h
  next loaded hl =>
    obtain ⟨joined, hj, rfl⟩ := map_eq_ok_iff.mp h
    have hnodes : P loaded.graph :=
      foldlM_invariant (P := fun l ↦ P l.graph) hl start fun record hr l l' hp ha ↦ by
        obtain ⟨kind, hkind, ha⟩ := Loading.exists_of_addNode ha
        exact node record hr _ _ kind l.supply hp hkind ha
    refine foldlM_invariant (P := fun l ↦ P l.graph) hj hnodes fun record hr l l' hp hc ↦ ?_
    obtain ⟨source, target, hc⟩ := Loading.exists_of_connect hc
    exact connection record hr _ _ source target hp hc

section

variable {New : Node → Prop} {P : ShaderGraph → Prop}

private theorem Grown.add (k : Grown New P) {g g' : ShaderGraph} {node : Node}
    (h : WellFormed g ∧ P g) (hn : New node ∨ node.Created) (ha : g.addNode node = .ok g') :
    WellFormed g' ∧ P g' := by
  obtain ⟨hid, rfl⟩ := addNode_eq_ok_iff.mp ha
  rw [h.1.hasNode_eq_false_iff] at hid
  exact ⟨h.1.push hid, k.push h.1 h.2 hn hid⟩

private theorem Grown.connect (k : Grown New P) {g g' : ShaderGraph} {c : Connection}
    (h : WellFormed g ∧ P g) (hc : g.connect c = .ok g') : WellFormed g' ∧ P g' := by
  obtain ⟨⟨hj, hf⟩, rfl⟩ := connect_eq_ok_iff.mp hc
  exact ⟨h.1.link hj hf, k.link h.1 h.2 hj hf⟩

private theorem Grown.load (k : Grown New P) {g : ShaderGraph} {d : GraphDocument} {r : Registry}
    {supply : Supply} (h : (ofDocument d r supply).1 = .ok g) : WellFormed g ∧ P g :=
  ofDocument_invariant (P := fun g ↦ WellFormed g ∧ P g) h ⟨.empty _ _, k.empty _ _⟩
    (fun _ _ _ _ kind supply hp _ ha ↦ k.add hp (.inr ⟨kind, supply, _, _, rfl⟩) ha)
    fun _ _ _ _ _ _ hp hc ↦ k.connect hp hc

/-! ### The standard material -/

/-- No connection ends at a node that is not there. -/
theorem WellFormed.feed?_eq_none {g : ShaderGraph} (h : WellFormed g) {id : NodeId}
    (hid : id ∉ g.ids) (input : Nat) : g.feed? id input = none := by
  rw [feed?_eq_none_iff, List.mem_map]
  rintro ⟨c, hc, he⟩
  obtain ⟨-, -, ⟨target, ht, -⟩⟩ := h.joined c hc
  obtain ⟨hm, ht⟩ := h.node?_eq_some_iff.mp ht
  rw [Prod.mk.injEq] at he
  exact hid (he.1 ▸ ht ▸ List.mem_map_of_mem hm)

@[simp] theorem nodes_push (g : ShaderGraph) (node : Node) :
    (g.push node).nodes = g.nodes ++ [node] := rfl

@[simp] theorem ids_push (g : ShaderGraph) (node : Node) : (g.push node).ids = g.ids ++ [node.id] :=
  List.map_append

@[simp] theorem ids_link (g : ShaderGraph) (c : Connection) : (g.link c).ids = g.ids := by
  rw [link, ids_syncPins, ids_syncPins]
  rfl

/-- A channel takes two numbers. -/
theorem ids_addChannel (g : ShaderGraph) (supply : Supply)
    (channel : (String × OutputSemantic) × Nat) :
    (addChannel (g, supply) channel).1.ids = g.ids ++ [supply.nextNode, supply.nextNode + 1] := by
  refine (ids_link _ _).trans ?_
  rw [ids_push, ids_push, List.append_assoc]
  rfl

/-- Small offsets from a number give different numbers, also where numbers start again. -/
theorem add_ofNat_inj {n : UInt32} {i j : Nat} (hi : i < 2 ^ 32) (hj : j < 2 ^ 32)
    (h : n + .ofNat i = n + .ofNat j) : i = j := by
  have h := congrArg UInt32.toNat h
  rw [UInt32.toNat_add, UInt32.toNat_add, UInt32.toNat_ofNat_of_lt' hi,
    UInt32.toNat_ofNat_of_lt' hj] at h
  have := n.toNat_lt
  omega

private theorem ne_add_one (n : UInt32) : n ≠ n + 1 := by
  intro h
  have h : n + .ofNat 0 = n + .ofNat 1 := (UInt32.add_zero n).trans h
  have := add_ofNat_inj (by omega) (by omega) h
  omega

/-- A channel is made of checked edits if its numbers are new. -/
private theorem Grown.channel (k : Grown New P) {g : ShaderGraph} {supply : Supply}
    (h : WellFormed g ∧ P g) (hin : supply.nextNode ∉ g.ids) (hout : supply.nextNode + 1 ∉ g.ids)
    (name : String) (semantic : OutputSemantic) (row : Nat) :
    let state := addChannel (g, supply) ((name, semantic), row)
    (WellFormed state.1 ∧ P state.1) ∧
      state.1.ids = g.ids ++ [supply.nextNode, supply.nextNode + 1] ∧
        state.2.nextNode = supply.nextNode + 1 + 1 := by
  let y := Number.Binary32.ofNat (100 * (row + 1))
  let input := (Node.create (.input .custom name) supply).1.moveTo ⟨.ofNat 100, y⟩
  let output := (Node.create (.output semantic "") supply.afterNode).1.moveTo ⟨.ofNat 500, y⟩
  let c : Connection := ⟨input.id, 0, output.id, 0⟩
  have hg : WellFormed (g.push input) ∧ P (g.push input) :=
    ⟨h.1.push hin, k.push h.1 h.2 (.inr (Node.created_moveTo _ _ _)) hin⟩
  have hout' : output.id ∉ (g.push input).ids := by
    rw [ids_push, List.mem_append, List.mem_singleton, not_or]
    exact ⟨hout, (ne_add_one supply.nextNode).symm⟩
  have hg' : WellFormed ((g.push input).push output) ∧ P ((g.push input).push output) :=
    ⟨hg.1.push hout', k.push hg.1 hg.2 (.inr (Node.created_moveTo _ _ _)) hout'⟩
  have hc : ((g.push input).push output).Joins c := by
    refine ⟨ne_add_one supply.nextNode, ⟨input, ?_, Nat.one_pos⟩, ⟨output, ?_, Nat.one_pos⟩⟩
    · exact hg'.1.node?_eq_some_iff.mpr ⟨by simp only [nodes_push]; simp, rfl⟩
    · exact hg'.1.node?_eq_some_iff.mpr ⟨by simp only [nodes_push]; simp, rfl⟩
  have hf : ((g.push input).push output).feed? c.target c.input = none :=
    h.1.feed?_eq_none hout 0
  exact ⟨⟨hg'.1.link hc hf, k.link hg'.1 hg'.2 hc hf⟩, ids_addChannel _ _ _, rfl⟩

/-- Channels one after the other, as long as numbers are new. -/
private theorem Grown.channels (k : Grown New P) (channels : List ((String × OutputSemantic) × Nat))
    {g : ShaderGraph} {supply : Supply} (h : WellFormed g ∧ P g)
    (hn : ∀ i < 2 * channels.length, supply.nextNode + .ofNat i ∉ g.ids)
    (hl : 2 * channels.length < 2 ^ 32) :
    WellFormed (channels.foldl addChannel (g, supply)).1 ∧
      P (channels.foldl addChannel (g, supply)).1 := by
  induction channels generalizing g supply with
  | nil => exact h
  | cons channel channels ih =>
    obtain ⟨⟨name, semantic⟩, row⟩ := channel
    rw [List.length_cons] at hn hl
    have hin : supply.nextNode ∉ g.ids := UInt32.add_zero supply.nextNode ▸ hn 0 (by omega)
    obtain ⟨hk, hids, hnext⟩ := k.channel h hin (hn 1 (by omega)) name semantic row
    rw [List.foldl_cons]
    generalize addChannel (g, supply) ((name, semantic), row) = state at hk hids hnext ⊢
    refine ih hk (fun i hi ↦ ?_) (by omega)
    -- Numbers start again behind the largest, so new ones differ only among so many.
    have hshift : supply.nextNode + 1 + 1 + .ofNat i = supply.nextNode + .ofNat (2 + i) := by
      rw [UInt32.ofNat_add, ← UInt32.add_assoc, UInt32.add_assoc supply.nextNode]
      rfl
    have hne : ∀ j < 2, supply.nextNode + .ofNat (2 + i) ≠ supply.nextNode + .ofNat j := by
      intro j hj he
      have := add_ofNat_inj (by omega) (by omega) he
      omega
    rw [hnext, hids, hshift, List.mem_append, not_or]
    refine ⟨hn (2 + i) (by omega), fun hm ↦ ?_⟩
    rcases List.mem_cons.mp hm with hm | hm
    · exact hne 0 (by omega) (hm.trans (UInt32.add_zero _).symm)
    · exact hne 1 (by omega) (List.mem_singleton.mp hm)

private theorem Grown.material (k : Grown New P) (supply : Supply) :
    WellFormed (standardMaterial supply).1 ∧ P (standardMaterial supply).1 :=
  k.channels _ ⟨.empty _ _, k.empty _ _⟩ (fun _ _ ↦ List.not_mem_nil) (by decide)

/-- The graphs to start from: an empty one, the standard material, and that of a document. -/
inductive Opened : ShaderGraph → Prop where
  | empty (name : String) : Opened (.empty name)
  | material (supply : Supply) : Opened (standardMaterial supply).1
  | loaded {g : ShaderGraph} {d : GraphDocument} {r : Registry} {supply : Supply} :
      (ofDocument d r supply).1 = .ok g → Opened g

/-- What new nodes and connections keep holds of every graph to start from. -/
theorem Opened.keeps (k : Grown New P) {g : ShaderGraph} (h : Opened g) : WellFormed g ∧ P g := by
  cases h with
  | empty name => exact ⟨.empty name none, k.empty name none⟩
  | material supply => exact k.material supply
  | loaded hl => exact k.load hl

/-- What edits keep holds of every reachable graph, and all of them are well-formed. -/
theorem Reachable.keeps (k : Kept New P) {g : ShaderGraph} (h : Reachable New g) :
    WellFormed g ∧ P g := by
  induction h with
  | empty name => exact ⟨.empty name none, k.empty name none⟩
  | material supply => exact k.toGrown.material supply
  | loaded hl => exact k.toGrown.load hl
  | rename name _ ih => exact ⟨ih.1.congr rfl rfl rfl, k.rename name ih.1 ih.2⟩
  | arrange id position extent _ ih =>
    exact ⟨ih.1.modifyNode id fun _ ↦ rfl, k.arrange id position extent ih.1 ih.2⟩
  | add _ hn ha ih => exact k.toGrown.add ih (.inl hn) ha
  | restore position extent _ _ hr ha ih ihh =>
    obtain ⟨hid, rfl⟩ := addNode_eq_ok_iff.mp ha
    obtain ⟨slot, -, hn, -⟩ := removeNode_eq_ok_iff.mp hr
    rw [ih.1.hasNode_eq_false_iff] at hid
    exact ⟨ih.1.push hid,
      k.restore position extent ih.1 ih.2 ihh.1 ihh.2 (List.mem_of_getElem? hn) hid⟩
  | remove _ hr ih =>
    obtain ⟨slot, hs, -, rfl⟩ := removeNode_eq_ok_iff.mp hr
    exact ⟨ih.1.pruned hs, k.prune ih.1 ih.2 hs⟩
  | connect _ hc ih => exact k.toGrown.connect ih hc
  | disconnect _ hd ih =>
    obtain ⟨hf, rfl⟩ := disconnect_eq_ok_iff.mp hd
    obtain ⟨rfl, rfl⟩ := ends_of_feed? hf
    exact ⟨ih.1.unlinked _, k.unlink ih.1 ih.2 hf⟩
  | refresh r _ ih => exact ⟨ih.1.refresh r, k.refresh r ih.1 ih.2⟩

/-- Nothing is asked for beyond well-formedness. -/
theorem kept_true : Kept New fun _ ↦ True := by
  refine ⟨⟨?_, ?_, ?_⟩, ?_, ?_, ?_, ?_, ?_, ?_⟩ <;> intros <;> trivial

/-- Every reachable graph is well-formed, whatever nodes are added to it. -/
theorem Reachable.wellFormed {g : ShaderGraph} (h : Reachable New g) : WellFormed g :=
  (h.keeps kept_true).1

theorem wellFormed_material_removed :
    ∃ node g, (standardMaterial {}).1.removeNode 2 = .ok (node, g) ∧ g.connections.length = 3 ∧
      WellFormed g := by
  have hl : ((standardMaterial {}).1.removeNode 2).toOption.map (·.2.connections.length) =
      some 3 := by decide
  cases hr : (standardMaterial {}).1.removeNode 2 with
  | error e => simp [hr, Except.toOption] at hl
  | ok result =>
    have hm : Reachable Node.Created (standardMaterial {}).1 := .material {}
    refine ⟨result.1, result.2, rfl, ?_, Reachable.wellFormed (.remove hm hr)⟩
    simpa [hr, Except.toOption] using hl

/-- A node of a family may be added under a new number. -/
theorem Reachable.push_ofKind {g : ShaderGraph} (h : Reachable Node.Created g) {id : NodeId}
    (hid : g.hasNode id = false) (kind : NodeKind) :
    Reachable Node.Created (g.push (.ofKind id kind)) :=
  .add h ⟨kind, { nextNode := id }, .origin, .initial, rfl⟩ (addNode_eq_ok_iff.mpr ⟨hid, rfl⟩)

/-- A connection that fits may be made. -/
theorem Reachable.link {g : ShaderGraph} {c : Connection} (h : Reachable New g)
    (hc : g.checkConnection c = .ok ()) : Reachable New (g.link c) :=
  .connect h (connect_eq_ok_iff.mpr ⟨checkConnection_eq_ok_iff.mp hc, rfl⟩)

/-! ### What holds of all nodes -/

section

variable {Q : Node → Prop}

private theorem forall_modifyNode {g : ShaderGraph} (h : ∀ node ∈ g.nodes, Q node) (id : NodeId)
    {change : Node → Node} (hc : ∀ node, Q node → Q (change node)) :
    ∀ node ∈ (g.modifyNode id change).nodes, Q node := by
  rw [modifyNode]
  split
  · next slot _ =>
    intro node hm
    obtain ⟨i, hi⟩ := List.mem_iff_getElem?.mp hm
    rw [List.getElem?_modify, Option.map_eq_map, Option.map_eq_some_iff] at hi
    obtain ⟨old, ho, rfl⟩ := hi
    have hq := h old (List.mem_of_getElem? ho)
    split
    · exact hc old hq
    · exact hq
  · exact h

variable (mark : ∀ node input output, Q node → Q (node.markPins input output))

include mark

private theorem forall_syncPins {g : ShaderGraph} (h : ∀ node ∈ g.nodes, Q node) (id : NodeId) :
    ∀ node ∈ (g.syncPins id).nodes, Q node :=
  forall_modifyNode h id fun node hq ↦ mark node _ _ hq

private theorem forall_rewired {g : ShaderGraph} (h : ∀ node ∈ g.nodes, Q node)
    (connections : List Connection) (source target : NodeId) :
    ∀ node ∈ (({ g with connections := connections }.syncPins source).syncPins target).nodes,
      Q node := by
  have hr : ∀ node ∈ ({ g with connections := connections } : ShaderGraph).nodes, Q node := h
  exact forall_syncPins mark (forall_syncPins mark hr source) target

private theorem forall_syncAll {g : ShaderGraph} (h : ∀ node ∈ g.nodes, Q node)
    (ids : List NodeId) : ∀ node ∈ (g.syncAll ids).nodes, Q node := by
  rw [syncAll]
  induction ids generalizing g with
  | nil => exact h
  | cons id ids ih => exact ih (forall_syncPins mark h id)

/-- A property of nodes that marking, placing and rebinding keep, and new nodes have, holds of all
nodes of a reachable graph. -/
theorem Reachable.forall_nodes (made : ∀ node, New node ∨ node.Created → Q node)
    (place : ∀ node position extent, Q node → Q (node.arrange position extent))
    (rebind : ∀ node d, Q node → Q (node.rebind d)) {g : ShaderGraph} (h : Reachable New g) :
    ∀ node ∈ g.nodes, Q node := by
  have hpush : ∀ {g : ShaderGraph} {node : Node}, (∀ node ∈ g.nodes, Q node) → Q node →
      ∀ other ∈ (g.push node).nodes, Q other := by
    intro g node hg hq other ho
    rcases List.mem_append.mp ho with ho | ho
    · exact hg other ho
    · exact List.mem_singleton.mp ho ▸ hq
  have k : Kept New fun g ↦ ∀ node ∈ g.nodes, Q node :=
    { empty := fun _ _ _ hm ↦ absurd hm List.not_mem_nil
      rename := fun _ _ hp ↦ hp
      arrange := fun id position extent _ hp ↦
        forall_modifyNode hp id fun node ↦ place node position extent
      push := fun _ hp hn _ ↦ hpush hp (made _ hn)
      restore := fun position extent _ hp _ hp' hm _ ↦
        hpush hp (place _ position extent (hp' _ hm))
      prune := fun _ hp _ ↦
        forall_syncAll mark (fun node hm ↦ hp node (List.mem_of_mem_eraseIdx hm)) _
      link := fun _ hp _ _ ↦ forall_rewired mark hp _ _ _
      unlink := fun _ hp _ ↦ forall_rewired mark hp _ _ _
      refresh := fun r _ hp ↦ by
        rw [ShaderGraph.refresh]
        split
        · exact hp
        · refine forall_syncAll mark (fun node hm ↦ ?_) _
          obtain ⟨old, ho, rfl⟩ := List.mem_map.mp hm
          rw [Node.refreshed]
          split
          · exact rebind old _ (hp old ho)
          · exact hp old ho }
  exact (h.keeps k).2

end

end

/-- The nodes of a graph that is made of created nodes have the pins of their families. -/
theorem Reachable.faithful {g : ShaderGraph} (h : Reachable Node.Created g) :
    ∀ node ∈ g.nodes, node.Faithful := by
  refine h.forall_nodes (fun _ input output hf ↦ hf.markPins input output) ?_
    (fun _ _ _ hf ↦ ⟨hf.inputs, hf.outputs⟩) fun _ d _ ↦ ⟨map_spec_pin _, map_spec_pin _⟩
  intro node hn
  rw [or_self] at hn
  obtain ⟨kind, supply, position, extent, rfl⟩ := hn
  exact ⟨map_spec_pin _, map_spec_pin _⟩

end ShaderGraph

end RenderKit
