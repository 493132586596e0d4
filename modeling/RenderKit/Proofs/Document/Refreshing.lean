import RenderKit.Proofs.Document.Acceptance
import RenderKit.Proofs.Document.Reloading
import RenderKit.Proofs.Shader.Refreshing

/-!
# Graphs that are refreshed and graphs that are loaded again

There are two ways to take up the definitions of a registry: a refresh does it in place, and a
graph that is written and loaded again is made of them. A refresh drops the connections that no
longer fit; loading is refused for the first of them. Where all of them fit, both ways lead to the
same graph up to the numbers of its nodes (`reloaded_refreshed`).
-/

namespace RenderKit

/-- What relates two lists to a third relates them to each other. -/
theorem forall₂_comp {α β γ : Type} {R : α → β → Prop} {S : β → γ → Prop} {xs : List α}
    {ys : List β} {zs : List γ} (h : List.Forall₂ R xs ys) (h' : List.Forall₂ S ys zs) :
    List.Forall₂ (fun x z ↦ ∃ y, R x y ∧ S y z) xs zs := by
  induction h generalizing zs with
  | nil =>
    cases h'
    exact .nil
  | cons hx _ ih =>
    cases h' with
    | cons hy hrest => exact .cons ⟨_, hx, hy⟩ (ih hrest)

namespace Node

variable {φ ψ : NodeId → NodeId} {node copy other : Node}

theorem CopiedTo.trans (h : node.CopiedTo φ copy) (h' : copy.CopiedTo ψ other) :
    node.CopiedTo (ψ ∘ φ) other where
  id := h'.id.trans (congrArg ψ h.id)
  kind := h'.kind.trans h.kind
  name := h'.name.trans h.name
  category := h'.category.trans h.category
  inputs := h'.inputs.trans h.inputs
  outputs := h'.outputs.trans h.outputs

end Node

/-- A pin is what its specification and its mark tell. -/
theorem Pin.eq_of_spec {pin other : Pin} (hspec : other.spec = pin.spec)
    (hmark : other.connected = true ↔ pin.connected = true) : other = pin := by
  cases pin
  cases other
  simp only [spec, PinSpec.mk.injEq] at hspec
  obtain ⟨rfl, rfl, rfl⟩ := hspec
  exact congrArg _ (Bool.eq_iff_iff.mpr hmark)

/-- Pins are what their specifications and their marks tell. -/
theorem eq_of_specs {pins others : List Pin} (hspecs : others.map Pin.spec = pins.map Pin.spec)
    (hmarks : ∀ (i : Nat) (pin other : Pin), pins[i]? = some pin → others[i]? = some other →
      (other.connected = true ↔ pin.connected = true)) : others = pins := by
  have hlength : others.length = pins.length := by simpa using congrArg List.length hspecs
  refine List.ext_getElem hlength fun i hother hpin ↦ Pin.eq_of_spec ?_ ?_
  · have hi := List.getElem_of_eq hspecs (i := i) (by simpa using hother)
    rwa [List.getElem_map, List.getElem_map] at hi
  · exact hmarks i _ _ (List.getElem?_eq_getElem hpin) (List.getElem?_eq_getElem hother)

namespace ShaderGraph

variable {g g' copy : ShaderGraph} {r : Registry} {φ : NodeId → NodeId}

/-- Nodes whose marks follow the connections are copied with their marks. -/
theorem CopiedTo.pins_eq (h : g.CopiedTo φ copy) (hw : g.WellFormed) {node node' : Node}
    (hn : node ∈ g.nodes) (hcopied : node.CopiedTo φ node') (hm : node.MarkedBy g.connections)
    (hm' : node'.MarkedBy copy.connections) :
    node'.inputs = node.inputs ∧ node'.outputs = node.outputs := by
  have hid : ∀ id ∈ g.ids, φ id = node'.id ↔ id = node.id := by
    intro id hmem
    rw [hcopied.id]
    exact ⟨h.injective _ hmem _ (List.mem_map_of_mem hn), congrArg φ⟩
  have hids : ∀ c ∈ g.connections, c.source ∈ g.ids ∧ c.target ∈ g.ids :=
    fun c hc ↦ (hw.joined c hc).mem_ids hw
  constructor
  · refine eq_of_specs hcopied.inputs fun i pin other hp ho ↦ ?_
    rw [hm.inputs i pin hp, hm'.inputs i other ho, h.connections]
    simp only [List.mem_map, exists_exists_and_eq_and, Connection.renumber]
    exact exists_congr fun c ↦ and_congr_right fun hc ↦
      and_congr_left fun _ ↦ hid _ (hids c hc).2
  · refine eq_of_specs hcopied.outputs fun i pin other hp ho ↦ ?_
    rw [hm.outputs i pin hp, hm'.outputs i other ho, h.connections]
    simp only [List.mem_map, exists_exists_and_eq_and, Connection.renumber]
    exact exists_congr fun c ↦ and_congr_right fun hc ↦
      and_congr_left fun _ ↦ hid _ (hids c hc).1

end ShaderGraph

/-! ### The record of a node and the node that is refreshed -/

/-- A node holds no definition, or one that is registered, perhaps with other pins. What is
registered is the same object only if it is the same definition. -/
def Node.Resolves (r : Registry) (node : Node) : Prop :=
  ∀ held, node.kind = .custom held →
    ∃ d, r.get? held.name = some d ∧ (d.same held = true → d = held)

/-- The record of a node describes the node that is refreshed. -/
theorem Node.Resolves.describes {r : Registry} {node node' : Node} {n : NodeRecord}
    (h : node.Resolves r) (htook : ∀ d, node.Stale r d → node.Took d node')
    (hkept : (∀ d, ¬node.Stale r d) → node.Kept node') (hn : (NodeRecord.ofNode node).Same n) :
    n.Describes r node' := by
  have hkind : n.kind = .ofKind node.kind := hn.kind
  by_cases hcustom : ∃ held, node.kind = .custom held
  · obtain ⟨held, hheld⟩ := hcustom
    obtain ⟨d, hget, hsame⟩ := h held hheld
    have hmade : n.kind.toKind r = .ok (.custom d) := by
      rw [hkind, hheld, KindRecord.ofKind, KindRecord.toKind, hget]
    by_cases hd : d.same held = true
    · obtain rfl := hsame hd
      have hnode := hkept <| by
        rintro other ⟨held, hk, hother, hdiffers⟩
        cases hheld.symm.trans hk
        cases hget.symm.trans hother
        simp [hd] at hdiffers
      exact ⟨hn.id.trans hnode.id.symm, by rw [hmade, hnode.kind, hheld]⟩
    · have hnode := htook d ⟨held, hheld, hget, by simpa using hd⟩
      exact ⟨hn.id.trans hnode.id.symm, by rw [hmade, hnode.kind]⟩
  · have hnode := hkept <| by
      rintro d ⟨held, hk, -⟩
      exact hcustom ⟨held, hk⟩
    refine ⟨hn.id.trans hnode.id.symm, ?_⟩
    rw [hkind, hnode.kind]
    exact KindRecord.toKind_ofKind fun d hk ↦ absurd ⟨d, hk⟩ hcustom

namespace GraphDocument

variable {d : GraphDocument} {r : Registry} {g : ShaderGraph} {nodes : List Node}

/-- The nodes that records describe are copies of any nodes that the records describe. -/
theorem copied_drafts (h : List.Forall₂ (NodeRecord.Describes r) nodes d.nodes)
    (hfaces : ∀ node ∈ nodes, node.Faithful ∧ node.Titled) :
    List.Forall₂ (Node.CopiedTo id) nodes (d.drafts r) := by
  rw [drafts]
  generalize d.nodes = records at h
  induction h with
  | nil => exact .nil
  | @cons node n nodes records hn _ ih =>
    have hdraft : n.draft? r = some (.ofKind n.id node.kind) := by
      rw [NodeRecord.draft?, hn.2]
      rfl
    obtain ⟨⟨hinputs, houtputs⟩, ⟨hname, hcategory⟩⟩ := hfaces node List.mem_cons_self
    rw [List.filterMap_cons_some hdraft]
    refine .cons ⟨hn.1, rfl, hname.symm, hcategory.symm, ?_, ?_⟩
      (ih fun other ho ↦ hfaces other (List.mem_cons_of_mem _ ho))
    · exact (map_spec_pin _).trans hinputs.symm
    · exact (map_spec_pin _).trans houtputs.symm

theorem listed_of_describes (h : List.Forall₂ (NodeRecord.Describes r) nodes d.nodes)
    (hnodup : (nodes.map (·.id)).Nodup) : Listed r d.nodes := by
  refine ⟨fun n hn ↦ ?_, ids_of_describes h ▸ hnodup⟩
  obtain ⟨i, hi, rfl⟩ := List.mem_iff_getElem.mp hn
  exact KindRecord.usable_of_toKind (h.get (h.length_eq ▸ hi) hi).2

section

variable (h : List.Forall₂ (Node.CopiedTo id) nodes (d.drafts r))

include h

/-- Copies under the same numbers have as many pins. -/
theorem shapes_drafts : (d.drafts r).map Node.shape = nodes.map Node.shape := by
  rw [← List.forall₂_eq_eq_eq, List.forall₂_map_left_iff, List.forall₂_map_right_iff]
  refine List.Forall₂.flip (h.imp fun node draft hn ↦ ?_)
  show draft.shape = node.shape
  rw [Node.shape, Node.shape, hn.id, hn.length_inputs, hn.length_outputs]
  rfl

theorem hasOutput_iff {id : NodeId} {output : Nat} : d.HasOutput r id output ↔
    ∃ node ∈ nodes, node.id = id ∧ output < node.outputs.length := by
  have hshapes : ∀ nodes : List Node, (∃ node ∈ nodes, node.id = id ∧ output < node.outputs.length) ↔
      ∃ shape ∈ nodes.map Node.shape, shape.1 = id ∧ output < shape.2.2 := by simp [Node.shape]
  rw [HasOutput, hshapes, hshapes, shapes_drafts h]

theorem hasInput_iff {id : NodeId} {input : Nat} : d.HasInput r id input ↔
    ∃ node ∈ nodes, node.id = id ∧ input < node.inputs.length := by
  have hshapes : ∀ nodes : List Node, (∃ node ∈ nodes, node.id = id ∧ input < node.inputs.length) ↔
      ∃ shape ∈ nodes.map Node.shape, shape.1 = id ∧ input < shape.2.1 := by simp [Node.shape]
  rw [HasInput, hshapes, hshapes, shapes_drafts h]

end

/-- A document whose records describe the nodes of a graph joins what fits the graph. -/
theorem joins_iff_fits (h : List.Forall₂ (Node.CopiedTo id) g.nodes (d.drafts r)) {c : Connection}
    (hne : c.source ≠ c.target) : d.Joins r c ↔ g.Fits c := by
  constructor
  · rintro ⟨-, ho, hi⟩
    exact ⟨(hasOutput_iff h).mp ho, (hasInput_iff h).mp hi⟩
  · rintro ⟨ho, hi⟩
    exact ⟨hne, (hasOutput_iff h).mpr ho, (hasInput_iff h).mpr hi⟩

end GraphDocument

namespace ShaderGraph

variable {g copy : ShaderGraph} {r : Registry}

theorem ids_refresh (hw : g.WellFormed) (r : Registry) : (g.refresh r).1.ids = g.ids := by
  rw [ShaderGraph.refresh]
  by_cases hzero : g.staleCount r = 0
  · rw [if_pos hzero]
  · rw [if_neg hzero, ids, nodes_rebound hw, List.map_map]
    exact List.map_congr_left fun node _ ↦ node.id_refreshed r

/-- Whatever a refresh does, the connections that fit stay. -/
theorem connections_refresh (hw : g.WellFormed) (r : Registry) :
    (g.refresh r).1.connections = g.connections.filter (g.refresh r).1.Fits := by
  have hrefreshed := refreshed_refresh hw r
  by_cases hzero : (g.refresh r).2 = 0
  · have hfits : ∀ c ∈ g.connections, decide (g.Fits c) = true := by
      intro c hc
      obtain ⟨-, ⟨source, hs, ho⟩, ⟨target, ht, hi⟩⟩ := hw.joined c hc
      obtain ⟨hs, hsid⟩ := hw.node?_eq_some_iff.mp hs
      obtain ⟨ht, htid⟩ := hw.node?_eq_some_iff.mp ht
      exact decide_eq_true ⟨⟨source, hs, hsid, ho⟩, ⟨target, ht, htid, hi⟩⟩
    rw [hrefreshed.unchanged hzero]
    exact (List.filter_eq_self.mpr hfits).symm
  · exact hrefreshed.connections hzero

/-- Marks that followed the connections follow them after a refresh. -/
theorem markedBy_refresh (hw : g.WellFormed) (r : Registry)
    (h : ∀ node ∈ g.nodes, node.MarkedBy g.connections) :
    ∀ node ∈ (g.refresh r).1.nodes, node.MarkedBy (g.refresh r).1.connections := by
  have hrefreshed := refreshed_refresh hw r
  by_cases hzero : (g.refresh r).2 = 0
  · rwa [hrefreshed.unchanged hzero]
  · exact hrefreshed.marks hzero

/-- What was written of a graph describes the nodes that are refreshed. -/
theorem describes_refresh (hw : g.WellFormed) (hresolves : ∀ node ∈ g.nodes, node.Resolves r)
    {now : Time.Instant} {records : List NodeRecord}
    (hrecords : List.Forall₂ NodeRecord.Same (GraphDocument.ofGraph g now).nodes records) :
    List.Forall₂ (NodeRecord.Describes r) (g.refresh r).1.nodes records := by
  have hsame := (List.forall₂_and_left _ _).mpr ⟨hresolves, List.forall₂_map_left_iff.mp hrecords⟩
  refine (forall₂_comp (refreshed_refresh hw r).nodes.flip hsame).imp ?_
  rintro node' n ⟨node, ⟨htook, hkept⟩, hresolves, hn⟩
  exact hresolves.describes htook hkept hn

/-- What a connection is refused for that does not fit a graph, under other numbers. -/
def misfit (g : ShaderGraph) (φ : NodeId → NodeId) (c : Connection) : GraphError :=
  if ∃ source ∈ g.nodes, source.id = c.source ∧ c.output < source.outputs.length then
    .inputOutOfRange (φ c.target) c.input
  else .outputOutOfRange (φ c.source) c.output

/-- A document is made of a graph if it tells its connections, and its records describe the nodes
that are refreshed. -/
structure Documented (r : Registry) (g : ShaderGraph) (d : GraphDocument) : Prop where
  version : d.version = GraphDocument.formatVersion
  name : d.name = g.name
  described : List.Forall₂ (NodeRecord.Describes r) (g.refresh r).1.nodes d.nodes
  connections : d.connections = g.connections

section

variable {d : GraphDocument} (h : Reachable Node.Created g) (hd : Documented r g d)

include h hd

theorem Documented.ids : d.nodes.map (·.id) = g.ids :=
  (GraphDocument.ids_of_describes hd.described).trans (ids_refresh h.wellFormed r)

theorem Documented.listed : GraphDocument.Listed r d.nodes :=
  GraphDocument.listed_of_describes hd.described (h.refresh r).wellFormed.nodup

theorem Documented.copied :
    List.Forall₂ (Node.CopiedTo id) (g.refresh r).1.nodes (d.drafts r) :=
  GraphDocument.copied_drafts hd.described fun node hn ↦
    ⟨(h.refresh r).faithful node hn, (h.refresh r).titled node hn⟩

/-- Connections of the graph are joined by the document if they fit the graph that is refreshed. -/
theorem Documented.linked {connections : List Connection} (hs : connections.Sublist g.connections)
    (hfit : ∀ c ∈ connections, (g.refresh r).1.Fits c) : d.Linked r connections where
  joined c hc := (GraphDocument.joins_iff_fits (hd.copied h)
    (h.wellFormed.joined c (hs.subset hc)).1).mpr (hfit c hc)
  single := h.wellFormed.single.sublist (hs.map _)

theorem Documented.valid_iff : d.Valid r ↔ ∀ c ∈ g.connections, (g.refresh r).1.Fits c := by
  constructor
  · intro hv c hc
    have hne := (h.wellFormed.joined c hc).1
    exact (GraphDocument.joins_iff_fits (hd.copied h) hne).mp
      (hv.linked.joined c (hd.connections ▸ hc))
  · intro hfit
    exact ⟨hd.version, hd.listed h, hd.connections ▸ hd.linked h (List.Sublist.refl _) hfit⟩

/-- The first connection that does not fit is the first fault. -/
theorem Documented.fault {before after : List Connection} {c : Connection}
    (hsplit : g.connections = before ++ c :: after)
    (hfit : ∀ b ∈ before, (g.refresh r).1.Fits b) (hc : ¬(g.refresh r).1.Fits c)
    (first : NodeId) :
    d.Fault r first (.graph ((g.refresh r).1.misfit (d.numbering first) c)) d.nodes.length := by
  have hbefore : before.Sublist g.connections := hsplit ▸ List.sublist_append_left _ _
  have hmem : c ∈ g.connections := by simp [hsplit]
  have hjoins := h.wellFormed.joined c hmem
  have hids := hjoins.mem_ids h.wellFormed
  rw [← hd.ids h] at hids
  refine .connection hd.version (hd.listed h) (hd.connections.trans hsplit)
    (hd.linked h hbefore hfit) ?_
  rw [misfit]
  split
  · next ho =>
    have hi := fun hi ↦ hc ⟨ho, hi⟩
    rw [← GraphDocument.hasOutput_iff (hd.copied h)] at ho
    rw [← GraphDocument.hasInput_iff (hd.copied h)] at hi
    exact .input hids.2 hjoins.1 ho hi
  · next ho =>
    rw [← GraphDocument.hasOutput_iff (hd.copied h)] at ho
    exact .output hids.1 hids.2 hjoins.1 ho

/-- What is loaded of the document is a copy of the graph that is refreshed, if that has kept its
connections. -/
theorem Documented.copiedTo {copy : ShaderGraph} {φ : NodeId → NodeId}
    (hcopy : (d.sketch r).CopiedTo φ copy)
    (hkept : (g.refresh r).1.connections = g.connections) : (g.refresh r).1.CopiedTo φ copy where
  injective := by
    rw [ids_refresh h.wellFormed, ← hd.ids h, ← GraphDocument.ids_sketch (hd.listed h).usable]
    exact hcopy.injective
  name := hcopy.name.trans (hd.name.trans (refreshed_refresh h.wellFormed r).name.symm)
  nodes := (forall₂_comp (hd.copied h) hcopy.nodes).imp
    fun node copy ⟨draft, hnode, hdraft⟩ ↦ hnode.trans hdraft
  connections := by
    rw [hkept, ← hd.connections]
    exact hcopy.connections

end

/-- What was written of a graph is a document of it. -/
theorem exists_documented (h : Reachable Node.Created g) (hresolves : ∀ node ∈ g.nodes, node.Resolves r)
    (hlayout : g.FiniteLayout) (hwords : ∀ c ∈ g.connections, c.Indexed)
    (hcreated : ∀ t, g.created = some t → t.Regular) {now : Time.Instant} (hnow : now.Regular) :
    ∃ d, Documented r g d ∧
      ∀ supply, ofString (g.documentText now) r supply = ofDocument d r supply := by
  obtain ⟨records, hread, hrecords⟩ :=
    (writable_ofGraph hlayout hwords hcreated hnow).exists_ofString?
  refine ⟨{ GraphDocument.ofGraph g now with nodes := records }, ⟨rfl, rfl, ?_, rfl⟩, ?_⟩
  · exact describes_refresh h.wellFormed hresolves hrecords
  · intro supply
    rw [ofString, documentText, hread]

/-- A graph that is written and loaded again takes up the registered definitions as a refresh does:
it is loaded exactly if a refresh drops no connection, as a copy of the graph that is refreshed,
with the same marks if they followed the connections before. Otherwise loading is refused for the
first connection that does not fit any more. -/
theorem Reachable.reloaded_refreshed (h : Reachable Node.Created g)
    (hresolves : ∀ node ∈ g.nodes, node.Resolves r) (hlayout : g.FiniteLayout)
    (hwords : ∀ c ∈ g.connections, c.Indexed) (hcreated : ∀ t, g.created = some t → t.Regular)
    {now : Time.Instant} (hnow : now.Regular) (supply : Supply) {refreshed : ShaderGraph}
    {count : Nat} (hg : g.refresh r = (refreshed, count)) :
    ((∃ copy, (ofString (g.documentText now) r supply).1 = .ok copy) ↔
        refreshed.connections = g.connections) ∧
      (∀ copy, (ofString (g.documentText now) r supply).1 = .ok copy →
        refreshed.CopiedTo (g.renumbering supply.nextNode) copy ∧
          ((∀ node ∈ g.nodes, node.MarkedBy g.connections) →
            List.Forall₂ (fun node loaded : Node ↦
              loaded.inputs = node.inputs ∧ loaded.outputs = node.outputs)
              refreshed.nodes copy.nodes)) ∧
      ∀ c, g.connections.find? (fun c ↦ !decide (refreshed.Fits c)) = some c →
        (ofString (g.documentText now) r supply).1 =
          .error (.graph (refreshed.misfit (g.renumbering supply.nextNode) c)) := by
  obtain ⟨d, hd, hdocument⟩ := exists_documented h hresolves hlayout hwords hcreated hnow
  obtain rfl : (g.refresh r).1 = refreshed := congrArg Prod.fst hg
  have hnumbering : d.numbering supply.nextNode = g.renumbering supply.nextNode := by
    funext id
    rw [GraphDocument.numbering, hd.ids h, renumbering]
  have hkept : (g.refresh r).1.connections = g.connections ↔
      ∀ c ∈ g.connections, (g.refresh r).1.Fits c := by
    rw [connections_refresh h.wellFormed, List.filter_eq_self]
    simp only [decide_eq_true_iff]
  rw [hdocument]
  refine ⟨?_, fun copy hcopy ↦ ?_, fun c hc ↦ ?_⟩
  · rw [exists_ofDocument_iff, hd.valid_iff h, hkept]
  · have hvalid := exists_ofDocument_iff.mp ⟨copy, hcopy⟩
    obtain ⟨loaded, heq, hcopied⟩ := hvalid.exists_copy supply
    obtain rfl : loaded = copy := by
      rw [heq] at hcopy
      exact Except.ok.inj hcopy
    rw [hnumbering] at hcopied
    have hcopied := hd.copiedTo h hcopied (hkept.mpr ((hd.valid_iff h).mp hvalid))
    refine ⟨hcopied, fun hmarked ↦ List.forall₂_iff_get.mpr
      ⟨hcopied.nodes.length_eq, fun i hi hi' ↦ ?_⟩⟩
    exact hcopied.pins_eq (h.refresh r).wellFormed (List.get_mem ..) (hcopied.nodes.get hi hi')
      (markedBy_refresh h.wellFormed r hmarked _ (List.get_mem ..))
      (markedBy_of_ofDocument hcopy _ (List.get_mem ..))
  · obtain ⟨hc, before, after, hsplit, hbefore⟩ := List.find?_eq_some_iff_append.mp hc
    have hfault := hd.fault h hsplit (fun b hb ↦ by simpa using hbefore b hb) (by simpa using hc)
      supply.nextNode
    rw [hfault.ofDocument_eq, hnumbering]

/-- A registry with a mixture of three values. -/
def widened : Registry where
  entries := Table.empty.insert "Mixture" (.fixed ⟨1, mixture ["First", "Second", "Third"]⟩)

theorem resolves_mixing {d : SharedDefinition} (hget : r.get? "Mixture" = some d)
    (hd : d.handle = 1) : ∀ node ∈ mixing.nodes, node.Resolves r := by
  intro node hn held hk
  have hkinds : mixing.nodes.map (·.kind) = [.input .time "",
      .custom ⟨0, mixture ["First", "Second"]⟩, .output .metallic ""] := rfl
  have hm : NodeKind.custom held ∈ mixing.nodes.map (·.kind) := hk ▸ List.mem_map_of_mem hn
  rw [hkinds] at hm
  obtain rfl : held = ⟨0, mixture ["First", "Second"]⟩ := by simpa using hm
  refine ⟨d, hget, fun hsame ↦ ?_⟩
  simp [SharedDefinition.same, hd] at hsame

/-- With more values a mixture keeps its connections; with fewer the first of them is refused, under
the number that the mixture has got by then. -/
theorem reloaded_refreshed_mixing :
    (∃ copy, (ofString (mixing.documentText ⟨20000, 43200, 0⟩) widened { nextNode := 7 }).1 =
        .ok copy ∧ (mixing.refresh widened).1.CopiedTo (mixing.renumbering 7) copy ∧
          copy.connections = [⟨7, 0, 8, 1⟩, ⟨8, 0, 9, 0⟩]) ∧
      (ofString (mixing.documentText ⟨20000, 43200, 0⟩) narrowed { nextNode := 7 }).1 =
        .error (.graph (.inputOutOfRange 8 1)) := by
  have hnow : Time.Instant.Regular ⟨20000, 43200, 0⟩ := by decide
  have hwide : ∀ node ∈ mixing.nodes, node.Resolves widened := resolves_mixing rfl rfl
  have hnarrow : ∀ node ∈ mixing.nodes, node.Resolves narrowed := resolves_mixing rfl rfl
  obtain ⟨hloaded, hcopied, -⟩ := reachable_mixing.reloaded_refreshed hwide (by decide) (by decide)
    (by decide) hnow { nextNode := 7 } Prod.mk.eta.symm
  obtain ⟨-, -, hrefused⟩ := reachable_mixing.reloaded_refreshed hnarrow (by decide) (by decide)
    (by decide) hnow { nextNode := 7 } Prod.mk.eta.symm
  have hkept : (mixing.refresh widened).1.connections = [⟨1, 0, 2, 1⟩, ⟨2, 0, 3, 0⟩] := by decide
  have hmisfit : (mixing.refresh narrowed).1.misfit (mixing.renumbering 7) ⟨1, 0, 2, 1⟩ =
      .inputOutOfRange 8 1 := by decide
  constructor
  · obtain ⟨copy, hcopy⟩ := hloaded.mpr (hkept.trans rfl)
    have hcopied := (hcopied copy hcopy).1
    refine ⟨copy, hcopy, hcopied, ?_⟩
    rw [hcopied.connections, hkept]
    decide
  · rw [← hmisfit]
    exact hrefused ⟨1, 0, 2, 1⟩ (by decide)

end ShaderGraph

end RenderKit
