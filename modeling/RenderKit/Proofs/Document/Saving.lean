import RenderKit.Proofs.Document.Decoding
import RenderKit.Proofs.Shader.Marks
import Mathlib.Data.Fintype.Card

/-!
# Saved graphs are loaded

A graph that is loaded from the text of a reachable graph is a copy of it: the same nodes under
other numbers and the same connections between them, in the same order, with marks that agree with
the connections (`loaded_documentText`). Nodes of the document come first, each under the next
number of the supply, and connections after them, each of which is checked again.
-/

namespace RenderKit

/-- The connection between the same pins of nodes with other numbers. -/
def Connection.renumber (φ : NodeId → NodeId) (c : Connection) : Connection :=
  ⟨φ c.source, c.output, φ c.target, c.input⟩

namespace Supply

/-- The supply after several nodes were numbered. -/
def afterNodes (s : Supply) (count : Nat) : Supply :=
  { s with nextNode := s.nextNode + .ofNat count }

theorem afterNodes_zero (s : Supply) : s.afterNodes 0 = s :=
  congrArg (Supply.mk · s.nextHandle) (UInt32.add_zero s.nextNode)

theorem afterNodes_add (s : Supply) (count more : Nat) :
    (s.afterNodes count).afterNodes more = s.afterNodes (count + more) := by
  rw [afterNodes, afterNodes, afterNodes, UInt32.ofNat_add, ← UInt32.add_assoc]

theorem afterNodes_one (s : Supply) : s.afterNodes 1 = s.afterNode :=
  rfl

end Supply

namespace Node

/-- A node has the title of its family. -/
structure Titled (node : Node) : Prop where
  name : node.name = node.kind.descriptor.name
  category : node.category = node.kind.descriptor.category

/-- A node under another number, up to its place and its marks. -/
structure CopiedTo (φ : NodeId → NodeId) (node copy : Node) : Prop where
  id : copy.id = φ node.id
  kind : copy.kind = node.kind
  name : copy.name = node.name
  category : copy.category = node.category
  inputs : copy.inputs.map Pin.spec = node.inputs.map Pin.spec
  outputs : copy.outputs.map Pin.spec = node.outputs.map Pin.spec

variable {φ : NodeId → NodeId} {node copy : Node}

/-- A fresh node of the same family is a copy. -/
theorem copiedTo_create (hf : node.Faithful) (ht : node.Titled) {supply : Supply}
    (hid : φ node.id = supply.nextNode) (position : Position) (extent : Extent) :
    node.CopiedTo φ ((create node.kind supply).1.arrange position extent) where
  id := hid.symm
  kind := rfl
  name := ht.name.symm
  category := ht.category.symm
  inputs := (map_spec_pin _).trans hf.inputs.symm
  outputs := (map_spec_pin _).trans hf.outputs.symm

theorem CopiedTo.markPins (h : node.CopiedTo φ copy) (input output : Nat → Bool) :
    node.CopiedTo φ (copy.markPins input output) where
  id := h.id
  kind := h.kind
  name := h.name
  category := h.category
  inputs := (map_spec_mapIdx _ _).trans h.inputs
  outputs := (map_spec_mapIdx _ _).trans h.outputs

theorem CopiedTo.length_inputs (h : node.CopiedTo φ copy) :
    copy.inputs.length = node.inputs.length := by
  rw [← List.length_map Pin.spec, h.inputs, List.length_map]

theorem CopiedTo.length_outputs (h : node.CopiedTo φ copy) :
    copy.outputs.length = node.outputs.length := by
  rw [← List.length_map Pin.spec, h.outputs, List.length_map]

end Node

/-- The record of a node tells its number and its family. -/
def NodeRecord.Describes (r : Registry) (node : Node) (n : NodeRecord) : Prop :=
  n.id = node.id ∧ n.kind.toKind r = .ok node.kind

/-- A family is found again if its definition is the registered one. -/
theorem KindRecord.toKind_ofKind {r : Registry} {kind : NodeKind}
    (h : ∀ d, kind = .custom d → r.get? d.name = some d) : (ofKind kind).toKind r = .ok kind := by
  cases kind with
  | math op => rfl
  | textureSample texture => rfl
  | vector arity =>
    have harity : VectorArity.of arity.components = .ok arity := VectorArity.of_eq_ok_iff.mpr rfl
    rw [ofKind, toKind, harity]
    rfl
  | input semantic customName => rfl
  | output semantic customName => rfl
  | custom d =>
    rw [ofKind, toKind, h d rfl]

namespace ShaderGraph

/-- All nodes of a reachable graph have the titles of their families. -/
theorem Reachable.titled {g : ShaderGraph} (h : Reachable Node.Created g) :
    ∀ node ∈ g.nodes, node.Titled := by
  refine h.forall_nodes (fun _ _ _ ht ↦ ⟨ht.name, ht.category⟩) ?_
    (fun _ _ _ ht ↦ ⟨ht.name, ht.category⟩) fun _ _ _ ↦ ⟨rfl, rfl⟩
  intro node hn
  rw [or_self] at hn
  obtain ⟨kind, supply, position, extent, rfl⟩ := hn
  exact ⟨rfl, rfl⟩

section

variable {φ : NodeId → NodeId} {g : ShaderGraph} {nodes : List Node}

/-- Copies stay copies under a change that keeps each of them a copy. -/
private theorem copied_modify {copies : List Node} (h : List.Forall₂ (Node.CopiedTo φ) nodes copies)
    (slot : Nat) {change : Node → Node}
    (hc : ∀ node copy : Node, node.CopiedTo φ copy → node.CopiedTo φ (change copy)) :
    List.Forall₂ (Node.CopiedTo φ) nodes (copies.modify slot change) := by
  induction h generalizing slot with
  | nil =>
    rw [List.modify_nil]
    exact .nil
  | cons hn htail ih =>
    cases slot with
    | zero => exact .cons (hc _ _ hn) htail
    | succ slot => exact .cons hn (ih slot)

theorem copied_syncPins (h : List.Forall₂ (Node.CopiedTo φ) nodes g.nodes) (id : NodeId) :
    List.Forall₂ (Node.CopiedTo φ) nodes (g.syncPins id).nodes := by
  rw [syncPins, modifyNode]
  split
  · next slot _ => exact copied_modify h slot fun _ _ hn ↦ hn.markPins _ _
  · exact h

/-- A new connection changes marks only. -/
theorem copied_link (h : List.Forall₂ (Node.CopiedTo φ) nodes g.nodes) (c : Connection) :
    List.Forall₂ (Node.CopiedTo φ) nodes (g.link c).nodes := by
  have hc : List.Forall₂ (Node.CopiedTo φ) nodes
      ({ g with connections := g.connections ++ [c] } : ShaderGraph).nodes := h
  exact copied_syncPins (copied_syncPins hc c.source) c.target

end

/-- A connection of a graph runs between its nodes. -/
theorem Joins.mem_ids {g : ShaderGraph} (hw : g.WellFormed) {c : Connection} (h : g.Joins c) :
    c.source ∈ g.ids ∧ c.target ∈ g.ids := by
  obtain ⟨-, ⟨source, hs, -⟩, ⟨target, ht, -⟩⟩ := h
  obtain ⟨hsource, hsid⟩ := hw.node?_eq_some_iff.mp hs
  obtain ⟨htarget, htid⟩ := hw.node?_eq_some_iff.mp ht
  exact ⟨hsid ▸ List.mem_map_of_mem hsource, htid ▸ List.mem_map_of_mem htarget⟩

/-- A graph under other numbers, up to the places of its nodes, its marks and its creation. -/
structure CopiedTo (φ : NodeId → NodeId) (g copy : ShaderGraph) : Prop where
  injective : ∀ a ∈ g.ids, ∀ b ∈ g.ids, φ a = φ b → a = b
  name : copy.name = g.name
  nodes : List.Forall₂ (Node.CopiedTo φ) g.nodes copy.nodes
  connections : copy.connections = g.connections.map (Connection.renumber φ)

end ShaderGraph

namespace Loading

/-- How far loading has come: copies of some nodes and of some connections between them are made,
and the nodes are found by their old numbers. -/
structure Made (φ : NodeId → NodeId) (nodes : List Node) (connections : List Connection)
    (l : Loading) : Prop where
  wellFormed : l.graph.WellFormed
  copied : List.Forall₂ (Node.CopiedTo φ) nodes l.graph.nodes
  joined : l.graph.connections = connections.map (Connection.renumber φ)
  found : ∀ id, l.ids.lookup id = if id ∈ nodes.map (·.id) then some (φ id) else none

/-- Where loading a document starts. -/
def start (d : GraphDocument) (supply : Supply) : Loading :=
  { graph := { name := d.name, created := d.metadata.map (·.created) }, supply := supply }

theorem made_start (φ : NodeId → NodeId) (d : GraphDocument) (supply : Supply) :
    (start d supply).Made φ [] [] :=
  ⟨.empty _ _, .nil, rfl, fun _ ↦ rfl⟩

/-- What loading a node or a connection does not touch. -/
structure Keeps (l l' : Loading) : Prop where
  name : l'.graph.name = l.graph.name
  created : l'.graph.created = l.graph.created

variable {φ : NodeId → NodeId} {nodes : List Node} {connections : List Connection} {l : Loading}

theorem Keeps.trans {l' l'' : Loading} (h : l.Keeps l') (h' : l'.Keeps l'') : l.Keeps l'' :=
  ⟨h'.name.trans h.name, h'.created.trans h.created⟩

/-- The numbers of copies are the new ones. -/
theorem Made.ids_eq (h : l.Made φ nodes connections) :
    l.graph.ids = nodes.map fun node ↦ φ node.id := by
  rw [ShaderGraph.ids, ← List.forall₂_eq_eq_eq, List.forall₂_map_left_iff,
    List.forall₂_map_right_iff]
  exact (List.Forall₂.imp (fun _ _ hn ↦ hn.id) h.copied).flip

/-- A node is loaded if its family, its old number and its new one are fine. -/
theorem addNode_eq_ok {r : Registry} {record : NodeRecord} {kind : NodeKind}
    (hkind : record.kind.toKind r = .ok kind) (hnew : l.graph.hasNode l.supply.nextNode = false)
    (hlookup : l.ids.lookup record.id = none) :
    l.addNode r record = .ok
      { graph := l.graph.push ((Node.create kind l.supply).1.arrange record.position record.extent)
        ids := (record.id, l.supply.nextNode) :: l.ids
        supply := l.supply.afterNode } := by
  have hadd : l.graph.addNode ((Node.create kind l.supply).1.arrange record.position
      record.extent) = .ok (l.graph.push _) := ShaderGraph.addNode_eq_ok_iff.mpr ⟨hnew, rfl⟩
  rw [Loading.addNode]
  refine bind_eq_ok_iff.mpr ⟨kind, mapError_eq_ok_iff.mpr hkind, ?_⟩
  refine bind_eq_ok_iff.mpr ⟨l.graph.push _, mapError_eq_ok_iff.mpr hadd, ?_⟩
  rw [hlookup]
  rfl

/-- A node is loaded under the next number if the number is new. -/
theorem Made.addNode (h : l.Made φ nodes []) {node : Node} (hf : node.Faithful) (ht : node.Titled)
    (hnode : node.id ∉ nodes.map (·.id)) (hφ : φ node.id = l.supply.nextNode)
    (hfresh : ∀ other ∈ nodes, φ other.id ≠ φ node.id) {r : Registry} {record : NodeRecord}
    (hid : record.id = node.id) (hkind : record.kind.toKind r = .ok node.kind) :
    ∃ l', l.addNode r record = .ok l' ∧ l'.Made φ (nodes ++ [node]) [] ∧ l.Keeps l' ∧
      l'.supply = l.supply.afterNode := by
  have hnew : l.supply.nextNode ∉ l.graph.ids := by
    rw [← hφ, h.ids_eq, List.mem_map]
    rintro ⟨other, ho, he⟩
    exact hfresh other ho he
  have hlookup : l.ids.lookup record.id = none := by
    rw [hid, h.found, if_neg hnode]
  refine ⟨_, addNode_eq_ok hkind (h.wellFormed.hasNode_eq_false_iff.mpr hnew) hlookup, ?_,
    ⟨rfl, rfl⟩, rfl⟩
  constructor
  · exact h.wellFormed.push hnew
  · exact List.rel_append h.copied
      (.cons (Node.copiedTo_create hf ht hφ record.position record.extent) .nil)
  · exact h.joined
  · intro id
    have hmem : id ∈ (nodes ++ [node]).map (·.id) ↔ id ∈ nodes.map (·.id) ∨ id = node.id := by
      simp
    by_cases he : id = node.id
    · rw [if_pos (hmem.mpr (.inr he)), hid, he, List.lookup_cons_self, hφ]
    · have hbeq : (id == record.id) = false := beq_false_of_ne (hid ▸ he)
      rw [List.lookup_cons, hbeq]
      simp only [h.found, hmem, he, or_false]

/-- A copied node is found under its new number. -/
theorem Made.exists_copy (h : l.Made φ nodes connections) {node : Node} (hn : node ∈ nodes) :
    ∃ copy, l.graph.node? (φ node.id) = some copy ∧ node.CopiedTo φ copy := by
  obtain ⟨i, hi, rfl⟩ := List.mem_iff_getElem.mp hn
  have hlength := h.copied.length_eq
  have hcopy := h.copied.get hi (hlength ▸ hi)
  exact ⟨_, h.wellFormed.node?_eq_some_iff.mpr ⟨List.get_mem .., hcopy.id⟩, hcopy⟩

section

variable {g : ShaderGraph} (hw : g.WellFormed)
  (hinj : ∀ a ∈ g.ids, ∀ b ∈ g.ids, φ a = φ b → a = b)

include hw hinj

/-- Nodes are loaded one by one under the next numbers. -/
theorem Made.addNodes {r : Registry} {todo : List Node} {records : List NodeRecord}
    (hrecords : List.Forall₂ (NodeRecord.Describes r) todo records)
    (hfaces : ∀ node ∈ g.nodes, node.Faithful ∧ node.Titled) (h : l.Made φ nodes [])
    (hsplit : nodes ++ todo = g.nodes)
    (hnext : ∀ i node, todo[i]? = some node → φ node.id = l.supply.nextNode + .ofNat i) :
    ∃ l', records.foldlM (Loading.addNode r) l = .ok l' ∧ l'.Made φ g.nodes [] ∧ l.Keeps l' ∧
      l'.supply = l.supply.afterNodes records.length := by
  -- By induction on what is left to load; what is loaded and the supply move on with it.
  induction hrecords generalizing nodes l with
  | nil =>
    exact ⟨l, rfl, by rwa [← hsplit, List.append_nil], ⟨rfl, rfl⟩, l.supply.afterNodes_zero.symm⟩
  | @cons node record todo records hrecord _ ih =>
    have hmem : node ∈ g.nodes := hsplit ▸ List.mem_append_right _ List.mem_cons_self
    have hnodup := hw.nodup
    rw [ShaderGraph.ids, ← hsplit, List.map_append, List.map_cons] at hnodup
    have hnode : node.id ∉ nodes.map (·.id) := fun hm ↦
      (List.nodup_append.mp hnodup).2.2 _ hm _ List.mem_cons_self rfl
    have hfresh : ∀ other ∈ nodes, φ other.id ≠ φ node.id := by
      intro other ho he
      have hother : other ∈ g.nodes := hsplit ▸ List.mem_append_left _ ho
      have hid := hinj _ (List.mem_map_of_mem hother) _ (List.mem_map_of_mem hmem) he
      exact hnode (hid ▸ List.mem_map_of_mem ho)
    have hφ : φ node.id = l.supply.nextNode :=
      (hnext 0 node rfl).trans (UInt32.add_zero _)
    obtain ⟨l', hl, hmade, hkeeps, hsupply⟩ := h.addNode (hfaces node hmem).1 (hfaces node hmem).2
      hnode hφ hfresh hrecord.1 hrecord.2
    obtain ⟨l'', hl', hmade', hkeeps', hsupply'⟩ := ih hmade (by simpa using hsplit)
      fun i other hi ↦ by
        rw [hsupply, hnext (i + 1) other hi, Nat.add_comm, UInt32.ofNat_add, ← UInt32.add_assoc]
        rfl
    refine ⟨l'', ?_, hmade', hkeeps.trans hkeeps', ?_⟩
    · rw [List.foldlM_cons, hl]
      exact hl'
    · rw [hsupply', hsupply, ← Supply.afterNodes_one, Supply.afterNodes_add, Nat.add_comm,
        List.length_cons]

/-- A connection of the graph passes every check again when it is loaded between the copies. -/
theorem Made.connect (h : l.Made φ g.nodes connections) {c : Connection} (hc : g.Joins c)
    (hdone : ∀ d ∈ connections, g.Joins d)
    (hfree : (c.target, c.input) ∉ connections.map fun d ↦ (d.target, d.input)) :
    ∃ l', l.connect c = .ok l' ∧ l'.Made φ g.nodes (connections ++ [c]) ∧ l.Keeps l' := by
  obtain ⟨hsource, htarget⟩ := hc.mem_ids hw
  have hresolve (id : NodeId) (hid : id ∈ g.ids) : l.resolve id = .ok (φ id) := by
    rw [ShaderGraph.ids] at hid
    rw [resolve, h.found, if_pos hid]
  have hjoins : l.graph.Joins (c.renumber φ) := by
    obtain ⟨hne, ⟨source, hs, ho⟩, ⟨target, ht, hi⟩⟩ := hc
    obtain ⟨hs, hsid⟩ := hw.node?_eq_some_iff.mp hs
    obtain ⟨ht, htid⟩ := hw.node?_eq_some_iff.mp ht
    obtain ⟨source', hs', hcopy⟩ := h.exists_copy hs
    obtain ⟨target', ht', hcopy'⟩ := h.exists_copy ht
    rw [hsid] at hs'
    rw [htid] at ht'
    refine ⟨fun he ↦ hne (hinj _ hsource _ htarget he), ⟨source', hs', ?_⟩, ⟨target', ht', ?_⟩⟩
    · exact hcopy.length_outputs.symm ▸ ho
    · exact hcopy'.length_inputs.symm ▸ hi
  have hfeed : l.graph.feed? (c.renumber φ).target (c.renumber φ).input = none := by
    rw [ShaderGraph.feed?_eq_none_iff, h.joined, List.map_map, List.mem_map]
    rintro ⟨d, hd, he⟩
    obtain ⟨ht, hi⟩ := Prod.mk.inj he
    have htarget' := hinj _ ((hdone d hd).mem_ids hw).2 _ htarget ht
    exact hfree (List.mem_map.mpr ⟨d, hd, Prod.ext htarget' hi⟩)
  refine ⟨{ l with graph := l.graph.link (c.renumber φ) }, ?_, ?_, ?_⟩
  · rw [Loading.connect]
    refine bind_eq_ok_iff.mpr ⟨_, hresolve _ hsource, ?_⟩
    refine bind_eq_ok_iff.mpr ⟨_, hresolve _ htarget, ?_⟩
    refine bind_eq_ok_iff.mpr ⟨_, mapError_eq_ok_iff.mpr ?_, rfl⟩
    exact ShaderGraph.connect_eq_ok_iff.mpr ⟨⟨hjoins, hfeed⟩, rfl⟩
  · constructor
    · exact h.wellFormed.link hjoins hfeed
    · exact ShaderGraph.copied_link h.copied _
    · rw [ShaderGraph.connections_link, h.joined, List.map_append, List.map_singleton]
    · exact h.found
  · exact ⟨ShaderGraph.name_link .., ShaderGraph.created_link ..⟩

/-- Connections are loaded one by one. -/
theorem Made.connectAll {todo : List Connection} (h : l.Made φ g.nodes connections)
    (hsplit : connections ++ todo = g.connections) :
    ∃ l', todo.foldlM Loading.connect l = .ok l' ∧ l'.Made φ g.nodes g.connections ∧
      l.Keeps l' := by
  induction todo generalizing connections l with
  | nil => exact ⟨l, rfl, by rwa [← hsplit, List.append_nil], ⟨rfl, rfl⟩⟩
  | cons c todo ih =>
    have hjoins : ∀ d ∈ connections ++ c :: todo, g.Joins d := hsplit ▸ hw.joined
    have hsingle := hw.single
    rw [← hsplit, List.map_append, List.map_cons] at hsingle
    have hfree : (c.target, c.input) ∉ connections.map fun d ↦ (d.target, d.input) := fun hm ↦
      (List.nodup_append.mp hsingle).2.2 _ hm _ List.mem_cons_self rfl
    obtain ⟨l', hl, hmade, hkeeps⟩ := h.connect hw hinj (hjoins c (by simp))
      (fun d hd ↦ hjoins d (List.mem_append_left _ hd)) hfree
    obtain ⟨l'', hl', hmade', hkeeps'⟩ := ih hmade (by simpa using hsplit)
    refine ⟨l'', ?_, hmade', hkeeps.trans hkeeps'⟩
    rw [List.foldlM_cons, hl]
    exact hl'

end

end Loading

namespace ShaderGraph

/-- There are no more different numbers than numbers. -/
theorem length_le_of_nodup {ids : List NodeId} (h : ids.Nodup) : ids.length ≤ 2 ^ 32 := by
  have hnodup : (ids.map UInt32.toFin).Nodup := h.map fun _ _ ↦ UInt32.toFin_inj.mp
  have hlength := hnodup.length_le_card
  rwa [List.length_map, Fintype.card_fin] at hlength

/-- The numbers that nodes get when they are loaded in order. -/
def renumbering (g : ShaderGraph) (first id : NodeId) : NodeId :=
  first + .ofNat (g.ids.idxOf id)

theorem renumbering_injective {g : ShaderGraph} (hw : g.WellFormed) (first : NodeId) :
    ∀ a ∈ g.ids, ∀ b ∈ g.ids, g.renumbering first a = g.renumbering first b → a = b := by
  intro a ha b hb he
  -- The numbers of a supply start again behind the largest, and there are enough for all nodes.
  have hlength := length_le_of_nodup hw.nodup
  have hia := List.idxOf_lt_length_of_mem ha
  have hib := List.idxOf_lt_length_of_mem hb
  have hi := add_ofNat_inj (by omega) (by omega) he
  exact (List.idxOf_inj ha).mp hi

theorem renumbering_getElem? {g : ShaderGraph} (hw : g.WellFormed) (first : NodeId) {i : Nat}
    {node : Node} (hi : g.nodes[i]? = some node) :
    g.renumbering first node.id = first + .ofNat i := by
  obtain ⟨hlt, rfl⟩ := List.getElem?_eq_some_iff.mp hi
  have hids : i < g.ids.length := by rwa [ids, List.length_map]
  have hid : g.ids[i] = g.nodes[i].id := by simp only [ids, List.getElem_map]
  rw [renumbering, ← hid, hw.nodup.idxOf_getElem]

/-- Records that describe a well-formed graph are loaded: first the nodes, under the next numbers,
then the connections. -/
theorem exists_loaded {g : ShaderGraph} (hw : g.WellFormed)
    (hfaces : ∀ node ∈ g.nodes, node.Faithful ∧ node.Titled) {r : Registry}
    {records : List NodeRecord} (hrecords : List.Forall₂ (NodeRecord.Describes r) g.nodes records)
    {start : Loading} (hstart : start.Made (g.renumbering start.supply.nextNode) [] []) :
    ∃ l l' : Loading, records.foldlM (Loading.addNode r) start = .ok l ∧
      l.Made (g.renumbering start.supply.nextNode) g.nodes [] ∧
      l.supply = start.supply.afterNodes records.length ∧
      g.connections.foldlM Loading.connect l = .ok l' ∧
      l'.Made (g.renumbering start.supply.nextNode) g.nodes g.connections ∧ start.Keeps l' := by
  have hinj := renumbering_injective hw start.supply.nextNode
  obtain ⟨l, hnodes, hmade, hkeeps, hsupply⟩ := hstart.addNodes hw hinj hrecords hfaces rfl
    fun _ _ hi ↦ renumbering_getElem? hw start.supply.nextNode hi
  obtain ⟨l', hconnections, hmade', hkeeps'⟩ := hmade.connectAll hw hinj rfl
  exact ⟨l, l', hnodes, hmade, hsupply, hconnections, hmade', hkeeps.trans hkeeps'⟩

/-- The document of a graph is read as it is written, up to where its nodes stand. -/
theorem writable_ofGraph {g : ShaderGraph} {now : Time.Instant}
    (hlayout : ∀ node ∈ g.nodes, node.position.Finite ∧ node.extent.Finite)
    (hwords : ∀ c ∈ g.connections, c.Indexed) (hcreated : ∀ t, g.created = some t → t.Regular)
    (hnow : now.Regular) : (GraphDocument.ofGraph g now).Writable := by
  refine ⟨fun m hm ↦ ?_, fun record hr ↦ ?_, hwords⟩
  · cases hm
    refine ⟨?_, hnow⟩
    cases ht : g.created with
    | none => exact hnow
    | some t => exact hcreated t ht
  · obtain ⟨node, hn, rfl⟩ := List.mem_map.mp hr
    exact ⟨(hlayout node hn).1, (hlayout node hn).2⟩

/-- Behind the nodes of a document its connections are loaded. -/
theorem ofDocument_of_nodes {d : GraphDocument} {r : Registry} {supply : Supply} {l : Loading}
    (hv : d.version = GraphDocument.formatVersion)
    (h : d.nodes.foldlM (Loading.addNode r) (.start d supply) = .ok l) :
    ofDocument d r supply = ((d.connections.foldlM Loading.connect l).map (·.graph), l.supply) := by
  rw [Loading.start] at h
  rw [ofDocument, if_neg (not_not_intro hv)]
  simp only [h]

/-- A document is refused for its nodes first. -/
theorem ofDocument_of_nodes_error {d : GraphDocument} {r : Registry} {supply later : Supply}
    {e : DocumentError} (hv : d.version = GraphDocument.formatVersion)
    (h : d.nodes.foldlM (Loading.addNode r) (.start d supply) = .error (e, later)) :
    ofDocument d r supply = (.error e, later) := by
  rw [Loading.start] at h
  rw [ofDocument, if_neg (not_not_intro hv)]
  simp only [h]

/-- Loading the records of a graph's nodes and its connections gives a copy of the graph. -/
theorem exists_ofDocument {g : ShaderGraph} (h : Reachable Node.Created g) {r : Registry}
    (hbound : ∀ node ∈ g.nodes, ∀ d, node.kind = .custom d → r.get? d.name = some d)
    (supply : Supply) (now : Time.Instant) {records : List NodeRecord}
    (hrecords : List.Forall₂ NodeRecord.Same (GraphDocument.ofGraph g now).nodes records) :
    ∃ copy, (ofDocument { GraphDocument.ofGraph g now with nodes := records } r supply).1 =
        .ok copy ∧ g.CopiedTo (g.renumbering supply.nextNode) copy ∧
      copy.created = some (g.created.getD now) := by
  have hkinds : ∀ node ∈ g.nodes, (KindRecord.ofKind node.kind).toKind r = .ok node.kind :=
    fun node hn ↦ KindRecord.toKind_ofKind (hbound node hn)
  have hnodes : List.Forall₂ (NodeRecord.Describes r) g.nodes records := by
    refine List.Forall₂.imp (fun node record hn ↦ ?_) ((List.forall₂_and_left _ _).mpr
      ⟨hkinds, List.forall₂_map_left_iff.mp hrecords⟩)
    obtain ⟨hkind, hsame⟩ := hn
    exact ⟨hsame.id, hsame.kind ▸ hkind⟩
  let d : GraphDocument := { GraphDocument.ofGraph g now with nodes := records }
  obtain ⟨l, l', hl, -, -, hl', hmade, hkept⟩ := exists_loaded h.wellFormed
    (fun node hn ↦ ⟨h.faithful node hn, h.titled node hn⟩) hnodes (Loading.made_start _ d supply)
  refine ⟨l'.graph, ?_, ⟨?_, hkept.name, hmade.copied, hmade.joined⟩, hkept.created⟩
  · rw [ofDocument_of_nodes (d := d) rfl hl]
    exact map_eq_ok_iff.mpr ⟨l', hl', rfl⟩
  · exact renumbering_injective h.wellFormed supply.nextNode

/-- The marks of a graph that is loaded follow its connections. -/
theorem markedBy_of_ofDocument {g : ShaderGraph} {d : GraphDocument} {r : Registry}
    {supply : Supply} (h : (ofDocument d r supply).1 = .ok g) :
    ∀ node ∈ g.nodes, node.MarkedBy g.connections := by
  intro node hn
  rcases (Opened.loaded h).synced.2 node hn with hmarked | ⟨hlate, -⟩
  · exact hmarked
  · exact hlate.elim

/-- A reachable graph that is written and read is a copy of itself: the same nodes in the same order
under other numbers, the same connections in the same order, marks that agree with them, and the
time of creation that was written, which stays when the copy is written. -/
theorem Reachable.loaded_documentText {g : ShaderGraph} (h : Reachable Node.Created g)
    {r : Registry} (hbound : ∀ node ∈ g.nodes, ∀ d, node.kind = .custom d → r.get? d.name = some d)
    (hlayout : ∀ node ∈ g.nodes, node.position.Finite ∧ node.extent.Finite)
    (hwords : ∀ c ∈ g.connections, c.Indexed) (hcreated : ∀ t, g.created = some t → t.Regular)
    (now : Time.Instant) (hnow : now.Regular) (supply : Supply) :
    ∃ copy φ, (ofString (g.documentText now) r supply).1 = .ok copy ∧ g.CopiedTo φ copy ∧
      (∀ node ∈ copy.nodes, node.MarkedBy copy.connections) ∧
      copy.created = (GraphDocument.ofGraph g now).metadata.map (·.created) ∧
      ∀ later, (GraphDocument.ofGraph copy later).metadata.map (·.created) =
        (GraphDocument.ofGraph g now).metadata.map (·.created) := by
  have hwritable := writable_ofGraph hlayout hwords hcreated hnow
  obtain ⟨records, hread, hrecords⟩ := hwritable.exists_ofString?
  obtain ⟨copy, hcopy, hcopied, hmetadata⟩ := exists_ofDocument h hbound supply now hrecords
  refine ⟨copy, _, ?_, hcopied, markedBy_of_ofDocument hcopy, hmetadata, fun later ↦ ?_⟩
  · rw [ofString, documentText, hread]
    exact hcopy
  · rw [GraphDocument.ofGraph, hmetadata]
    rfl

/-- A definition with a pin on each side. -/
def dye : SharedDefinition :=
  ⟨0, .template { descriptor := { name := "Dye", category := "Color",
                                  inputs := [⟨"In", .float, "0.0"⟩],
                                  outputs := [⟨"Out", .float, ""⟩] }
                  segments := [] }⟩

/-- Two nodes of the definition, the first of which feeds the second. -/
def dyed : ShaderGraph :=
  (((empty "Dyed").push (.ofKind 1 (.custom dye))).push (.ofKind 2 (.custom dye))).link ⟨1, 0, 2, 0⟩

theorem loaded_documentText_dyed :
    ∃ copy φ, (ofString (dyed.documentText ⟨20000, 43200, 0⟩)
        { entries := Table.empty.insert "Dye" (.fixed dye) } { nextNode := 7 }).1 = .ok copy ∧
      dyed.CopiedTo φ copy ∧ copy.nodes.length = 2 ∧
      (∀ node ∈ copy.nodes, node.MarkedBy copy.connections) ∧
      copy.created = some ⟨20000, 43200, 0⟩ := by
  have hr : Reachable Node.Created dyed :=
    .link (.push_ofKind (.push_ofKind (.empty _) (by decide) _) (by decide) _) (by decide)
  have hkinds : dyed.nodes.map (·.kind) = [.custom dye, .custom dye] := rfl
  have hbound : ∀ node ∈ dyed.nodes, ∀ d, node.kind = .custom d →
      ({ entries := Table.empty.insert "Dye" (.fixed dye) } : Registry).get? d.name = some d := by
    intro node hn d hd
    have hmem := List.mem_map_of_mem (f := (·.kind)) hn
    rw [hkinds, hd] at hmem
    simp only [List.mem_cons, NodeKind.custom.injEq, List.not_mem_nil, or_false, or_self] at hmem
    subst hmem
    rfl
  have hnow : Time.Instant.Regular ⟨20000, 43200, 0⟩ :=
    ⟨Time.isKept_of_year (by decide) (by decide), by decide, .inl (by decide)⟩
  obtain ⟨copy, φ, hload, hcopied, hmarked, hcreated, -⟩ := hr.loaded_documentText hbound
    (by decide) (by decide) (by decide) ⟨20000, 43200, 0⟩ hnow { nextNode := 7 }
  exact ⟨copy, φ, hload, hcopied, hcopied.nodes.length_eq.symm, hmarked, hcreated⟩

end ShaderGraph

end RenderKit
