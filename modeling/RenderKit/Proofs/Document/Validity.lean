import RenderKit.Proofs.Document.Saving

/-!
# Documents that describe graphs

What makes a document valid (`GraphDocument.Valid`) concerns each record and pairs of records only:
families that the registry can make, numbers that differ, and connections between pins that are
there, at most one to an input. A valid document sketches a well-formed graph
(`GraphDocument.sketch`).
-/

namespace RenderKit

namespace KindRecord

/-- The family of a record can be made. -/
def Usable (r : Registry) : KindRecord → Prop
  | .vector components => 2 ≤ components ∧ components ≤ 4
  | .custom definition => r.contains definition = true
  | _ => True

/-- Why the family of a record cannot be made. -/
inductive Misfit (r : Registry) : KindRecord → DocumentError → Prop where
  | arity {components : UInt32} : ¬(2 ≤ components ∧ components ≤ 4) →
      Misfit r (.vector components) (.node (.invalidVectorArity components))
  | unregistered {definition : String} : r.contains definition = false →
      Misfit r (.custom definition) (.unknownCustomNode definition)

variable {r : Registry} {k : KindRecord}

theorem exists_toKind (h : k.Usable r) : ∃ kind, k.toKind r = .ok kind := by
  cases k with
  | math op => exact ⟨_, rfl⟩
  | textureSample texture => exact ⟨_, rfl⟩
  | input semantic customName => exact ⟨_, rfl⟩
  | output semantic customName => exact ⟨_, rfl⟩
  | vector components =>
    obtain ⟨htwo, hfour⟩ := h
    have harity : VectorArity.of components = .ok ⟨components, htwo, hfour⟩ :=
      VectorArity.of_eq_ok_iff.mpr rfl
    refine ⟨.vector ⟨components, htwo, hfour⟩, ?_⟩
    rw [toKind, harity]
    rfl
  | custom definition =>
    obtain ⟨entry, he⟩ := Option.isSome_iff_exists.mp h
    refine ⟨.custom entry.shared, ?_⟩
    simp only [toKind, Registry.get?, he, Option.map_some]

theorem exists_misfit (h : ¬k.Usable r) : ∃ e, k.Misfit r e := by
  cases k with
  | vector components => exact ⟨_, .arity h⟩
  | custom definition => exact ⟨_, .unregistered (Bool.not_eq_true _ ▸ h)⟩
  | _ => exact (h trivial).elim

theorem Misfit.toKind_eq_error {e : DocumentError} (h : k.Misfit r e) : k.toKind r = .error e := by
  cases h with
  | arity h =>
    rw [toKind, VectorArity.of, dif_neg h]
    rfl
  | unregistered h =>
    have hnone := Option.isNone_iff_eq_none.mp (Option.isSome_eq_false_iff.mp h)
    simp only [toKind, Registry.get?, hnone, Option.map_none]

theorem usable_of_toKind {kind : NodeKind} (h : k.toKind r = .ok kind) : k.Usable r := by
  by_contra hu
  obtain ⟨e, he⟩ := exists_misfit hu
  rw [he.toKind_eq_error] at h
  cases h

end KindRecord

/-- The node that a record describes, if its family can be made. Where it stands is left open. -/
def NodeRecord.draft? (r : Registry) (n : NodeRecord) : Option Node :=
  (n.kind.toKind r).toOption.map (.ofKind n.id)

namespace GraphDocument

/-- The nodes that the records of a document describe. -/
def drafts (d : GraphDocument) (r : Registry) : List Node :=
  d.nodes.filterMap (·.draft? r)

/-- A document names a node with an output of that index. -/
def HasOutput (d : GraphDocument) (r : Registry) (id : NodeId) (output : Nat) : Prop :=
  ∃ node ∈ d.drafts r, node.id = id ∧ output < node.outputs.length

/-- A document names a node with an input of that index. -/
def HasInput (d : GraphDocument) (r : Registry) (id : NodeId) (input : Nat) : Prop :=
  ∃ node ∈ d.drafts r, node.id = id ∧ input < node.inputs.length

/-- A connection runs from an output of one node of a document to an input of another. -/
structure Joins (d : GraphDocument) (r : Registry) (c : Connection) : Prop where
  different : c.source ≠ c.target
  output : d.HasOutput r c.source c.output
  input : d.HasInput r c.target c.input

/-- Nodes can be made one beside the other: all their families are usable, and their numbers
differ. -/
structure Listed (r : Registry) (nodes : List NodeRecord) : Prop where
  usable : ∀ n ∈ nodes, n.kind.Usable r
  distinct : (nodes.map (·.id)).Nodup

/-- Connections can be made one beside the other: all of them join nodes of a document, and no two
end at the same input. -/
structure Linked (d : GraphDocument) (r : Registry) (connections : List Connection) : Prop where
  joined : ∀ c ∈ connections, d.Joins r c
  single : (connections.map fun c ↦ (c.target, c.input)).Nodup

/-- A document describes a graph. -/
structure Valid (d : GraphDocument) (r : Registry) : Prop where
  version : d.version = formatVersion
  listed : Listed r d.nodes
  linked : d.Linked r d.connections

/-- The numbers that nodes of a document get when they are loaded in order. -/
def numbering (d : GraphDocument) (first id : NodeId) : NodeId :=
  first + .ofNat ((d.nodes.map (·.id)).idxOf id)

/-- The graph that a document describes, under the numbers of the document. -/
def sketch (d : GraphDocument) (r : Registry) : ShaderGraph :=
  { name := d.name
    nodes := d.drafts r
    index := ShaderGraph.slotsById (d.drafts r)
    connections := d.connections }

variable {d : GraphDocument} {r : Registry} {first : NodeId}

/-! ### The graph that records describe -/

/-- Usable records describe a node each. -/
theorem describes_drafts (h : ∀ n ∈ d.nodes, n.kind.Usable r) :
    List.Forall₂ (NodeRecord.Describes r) (d.drafts r) d.nodes := by
  rw [drafts]
  generalize d.nodes = nodes at h
  induction nodes with
  | nil => exact .nil
  | cons n nodes ih =>
    obtain ⟨kind, hk⟩ := KindRecord.exists_toKind (h n List.mem_cons_self)
    have hn : n.draft? r = some (.ofKind n.id kind) := by
      rw [NodeRecord.draft?, hk]
      rfl
    rw [List.filterMap_cons_some hn]
    exact .cons ⟨rfl, hk⟩ (ih fun m hm ↦ h m (List.mem_cons_of_mem _ hm))

/-- Records have the numbers of nodes that they describe. -/
theorem ids_of_describes {nodes : List Node}
    (h : List.Forall₂ (NodeRecord.Describes r) nodes d.nodes) :
    d.nodes.map (·.id) = nodes.map (·.id) := by
  rw [← List.forall₂_eq_eq_eq, List.forall₂_map_left_iff, List.forall₂_map_right_iff]
  exact (h.imp fun _ _ hn ↦ hn.1).flip

theorem ids_sketch (h : ∀ n ∈ d.nodes, n.kind.Usable r) :
    (d.sketch r).ids = d.nodes.map (·.id) :=
  (ids_of_describes (describes_drafts h)).symm

/-- The nodes that records describe have the pins and the titles of their families. -/
theorem faithful_and_titled {node : Node} (h : node ∈ d.drafts r) :
    node.Faithful ∧ node.Titled := by
  obtain ⟨n, -, hn⟩ := List.mem_filterMap.mp h
  obtain ⟨kind, -, rfl⟩ := Option.map_eq_some_iff.mp hn
  exact ⟨⟨map_spec_pin _, map_spec_pin _⟩, ⟨rfl, rfl⟩⟩

theorem numbering_eq (h : ∀ n ∈ d.nodes, n.kind.Usable r) (first : NodeId) :
    d.numbering first = (d.sketch r).renumbering first := by
  funext id
  rw [numbering, ShaderGraph.renumbering, ids_sketch h]

/-- Records that can be made together describe a graph. -/
theorem wellFormed_sketch (hl : Listed r d.nodes) (hk : d.Linked r d.connections) :
    (d.sketch r).WellFormed := by
  have hnodup : (d.sketch r).ids.Nodup := ids_sketch hl.usable ▸ hl.distinct
  have hi := ShaderGraph.indexes_slotsById hnodup
  refine ⟨hnodup, hi, fun c hc ↦ ?_, hk.single⟩
  obtain ⟨hne, ⟨source, hs, hsid, ho⟩, ⟨target, ht, htid, hin⟩⟩ := hk.joined c hc
  exact ⟨hne, ⟨source, (ShaderGraph.node?_eq_some_iff hi).mpr ⟨hs, hsid⟩, ho⟩,
    ⟨target, (ShaderGraph.node?_eq_some_iff hi).mpr ⟨ht, htid⟩, hin⟩⟩

theorem listed_nil (r : Registry) : Listed r [] :=
  ⟨nofun, .nil⟩

theorem linked_nil (d : GraphDocument) (r : Registry) : d.Linked r [] :=
  ⟨nofun, .nil⟩

/-- What connections join depends on the nodes only. -/
theorem Linked.congr {d' : GraphDocument} {connections : List Connection}
    (h : d.Linked r connections) (hn : d'.nodes = d.nodes) : d'.Linked r connections := by
  have hdrafts : d'.drafts r = d.drafts r := by rw [drafts, drafts, hn]
  refine ⟨fun c hc ↦ ?_, h.single⟩
  obtain ⟨hne, ho, hi⟩ := h.joined c hc
  exact ⟨hne, by rwa [HasOutput, hdrafts], by rwa [HasInput, hdrafts]⟩

/-- The order of connections does not matter. -/
theorem Valid.perm {d' : GraphDocument} (h : d.Valid r) (hv : d'.version = d.version)
    (hn : d'.nodes = d.nodes) (hc : d'.connections.Perm d.connections) : d'.Valid r where
  version := hv.trans h.version
  listed := hn ▸ h.listed
  linked := by
    refine Linked.congr ⟨fun c hm ↦ h.linked.joined c (hc.mem_iff.mp hm), ?_⟩ hn
    exact (hc.map _).nodup_iff.mpr h.linked.single

/-- The records of nodes alone describe a graph. -/
theorem wellFormed_unlinked (hl : Listed r d.nodes) :
    ({ d.sketch r with connections := [] } : ShaderGraph).WellFormed :=
  let unlinked : GraphDocument := { d with connections := [] }
  wellFormed_sketch (d := unlinked) hl (linked_nil unlinked r)

theorem numbering_injective (hl : Listed r d.nodes) (first : NodeId) :
    ∀ a ∈ d.nodes.map (·.id), ∀ b ∈ d.nodes.map (·.id),
      d.numbering first a = d.numbering first b → a = b := by
  rw [numbering_eq hl.usable, ← ids_sketch hl.usable]
  exact ShaderGraph.renumbering_injective (wellFormed_unlinked hl) first

theorem HasOutput.mem_ids {id : NodeId} {i : Nat} (hl : Listed r d.nodes)
    (h : d.HasOutput r id i) : id ∈ d.nodes.map (·.id) := by
  obtain ⟨node, hn, rfl, -⟩ := h
  exact ids_sketch hl.usable ▸ List.mem_map_of_mem hn

theorem HasInput.mem_ids {id : NodeId} {i : Nat} (hl : Listed r d.nodes)
    (h : d.HasInput r id i) : id ∈ d.nodes.map (·.id) := by
  obtain ⟨node, hn, rfl, -⟩ := h
  exact ids_sketch hl.usable ▸ List.mem_map_of_mem hn

end GraphDocument

end RenderKit
