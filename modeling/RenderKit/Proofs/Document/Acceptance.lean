import RenderKit.Proofs.Document.Validity

/-!
# Which documents are loaded

A document is loaded exactly if it is valid, whatever the order of its connections. A document that
is not valid has a first fault (`GraphDocument.Fault`), and loading is refused for that one
(`ofString_valid`). Valid records are loaded as those of the graph that they sketch.
-/

namespace RenderKit

namespace GraphDocument

/-- What is wrong with the record of a node behind others, with the numbers that are taken by then:
its family cannot be made, or its number is one of theirs. A document whose other nodes have all
numbers there are shows the latter by a new number that comes again. -/
inductive NodeFlaw (r : Registry) (first : NodeId) (before : List NodeRecord) (n : NodeRecord) :
    DocumentError → Nat → Prop where
  | misfit {e : DocumentError} : n.kind.Misfit r e → NodeFlaw r first before n e before.length
  | repeated : n.kind.Usable r → n.id ∈ before.map (·.id) → before.length < 2 ^ 32 →
      NodeFlaw r first before n (.duplicateNodeId n.id) (before.length + 1)
  | exhausted : n.kind.Usable r → n.id ∈ before.map (·.id) → before.length = 2 ^ 32 →
      NodeFlaw r first before n (.graph (.duplicateNode first)) (before.length + 1)

/-- What is wrong with a connection behind others: the first that it lacks of a node at its start, a
node at its end, another node there, an output, an input, and an input that is free. -/
inductive ConnectionFlaw (d : GraphDocument) (r : Registry) (number : NodeId → NodeId)
    (before : List Connection) (c : Connection) : DocumentError → Prop where
  | source : c.source ∉ d.nodes.map (·.id) →
      ConnectionFlaw d r number before c (.unknownNodeId c.source)
  | target : c.source ∈ d.nodes.map (·.id) → c.target ∉ d.nodes.map (·.id) →
      ConnectionFlaw d r number before c (.unknownNodeId c.target)
  | self : c.source ∈ d.nodes.map (·.id) → c.source = c.target →
      ConnectionFlaw d r number before c (.graph (.selfConnection (number c.source)))
  | output : c.source ∈ d.nodes.map (·.id) → c.target ∈ d.nodes.map (·.id) →
      c.source ≠ c.target → ¬d.HasOutput r c.source c.output →
      ConnectionFlaw d r number before c (.graph (.outputOutOfRange (number c.source) c.output))
  | input : c.target ∈ d.nodes.map (·.id) → c.source ≠ c.target →
      d.HasOutput r c.source c.output → ¬d.HasInput r c.target c.input →
      ConnectionFlaw d r number before c (.graph (.inputOutOfRange (number c.target) c.input))
  | taken : d.Joins r c → (c.target, c.input) ∈ before.map (fun b ↦ (b.target, b.input)) →
      ConnectionFlaw d r number before c (.graph (.inputAlreadyConnected (number c.target) c.input))

/-- The first thing wrong with a document, with the numbers that are taken by then: its version, a
node behind nodes that are fine, or a connection behind nodes and connections that are fine. -/
inductive Fault (d : GraphDocument) (r : Registry) (first : NodeId) : DocumentError → Nat → Prop where
  | version : d.version ≠ formatVersion → Fault d r first (.unsupportedVersion d.version) 0
  | node {before after : List NodeRecord} {n : NodeRecord} {e : DocumentError} {taken : Nat} :
      d.version = formatVersion → d.nodes = before ++ n :: after → Listed r before →
      NodeFlaw r first before n e taken → Fault d r first e taken
  | connection {before after : List Connection} {c : Connection} {e : DocumentError} :
      d.version = formatVersion → Listed r d.nodes → d.connections = before ++ c :: after →
      d.Linked r before → d.ConnectionFlaw r (d.numbering first) before c e →
      Fault d r first e d.nodes.length

end GraphDocument

namespace Loading

/-- A new number that the graph has already is refused. -/
theorem addNode_eq_error_of_hasNode {r : Registry} {l : Loading} {n : NodeRecord} {kind : NodeKind}
    (hkind : n.kind.toKind r = .ok kind) (h : l.graph.hasNode l.supply.nextNode = true) :
    l.addNode r n =
      .error (.graph (.duplicateNode l.supply.nextNode), l.supply.afterNode) := by
  have hadd : l.graph.addNode ((Node.create kind l.supply).1.arrange n.position n.extent) =
      .error (.duplicateNode l.supply.nextNode) := if_pos h
  rw [addNode]
  refine bind_eq_error_iff.mpr (.inr ⟨kind, mapError_eq_ok_iff.mpr hkind, ?_⟩)
  exact bind_eq_error_iff.mpr (.inl (mapError_eq_error_iff.mpr ⟨_, hadd, rfl⟩))

/-- An old number that the document has used already is refused. -/
theorem addNode_eq_error_of_lookup {r : Registry} {l : Loading} {n : NodeRecord} {kind : NodeKind}
    (hkind : n.kind.toKind r = .ok kind) (hnew : l.graph.hasNode l.supply.nextNode = false)
    (h : (l.ids.lookup n.id).isSome) :
    l.addNode r n = .error (.duplicateNodeId n.id, l.supply.afterNode) := by
  have hadd : l.graph.addNode ((Node.create kind l.supply).1.arrange n.position n.extent) =
      .ok (l.graph.push _) := ShaderGraph.addNode_eq_ok_iff.mpr ⟨hnew, rfl⟩
  rw [addNode]
  refine bind_eq_error_iff.mpr (.inr ⟨kind, mapError_eq_ok_iff.mpr hkind, ?_⟩)
  refine bind_eq_error_iff.mpr (.inr ⟨_, mapError_eq_ok_iff.mpr hadd, ?_⟩)
  rw [if_pos h]
  rfl

end Loading

namespace GraphDocument

variable {d : GraphDocument} {r : Registry} {supply : Supply} {l : Loading} {e : DocumentError}

/-- Records that can be made together are loaded: first the nodes, under the next numbers, then the
connections. -/
theorem exists_made (hl : Listed r d.nodes) (hk : d.Linked r d.connections) (supply : Supply) :
    ∃ l l' : Loading, d.nodes.foldlM (Loading.addNode r) (.start d supply) = .ok l ∧
      l.Made (d.numbering supply.nextNode) (d.drafts r) [] ∧
      l.supply = supply.afterNodes d.nodes.length ∧
      d.connections.foldlM Loading.connect l = .ok l' ∧
      l'.Made (d.numbering supply.nextNode) (d.drafts r) d.connections ∧
      (Loading.start d supply).Keeps l' := by
  rw [numbering_eq hl.usable]
  exact ShaderGraph.exists_loaded (wellFormed_sketch hl hk) (fun _ hn ↦ faithful_and_titled hn)
    (describes_drafts hl.usable) (Loading.made_start _ d supply)

/-! ### Faults show -/

/-- The new numbers follow each other from the first. -/
theorem mem_ids_iff_of_made {first : NodeId} {connections : List Connection}
    (hl : Listed r d.nodes) (h : l.Made (d.numbering first) (d.drafts r) connections)
    {id : NodeId} : id ∈ l.graph.ids ↔ ∃ i < d.nodes.length, id = first + .ofNat i := by
  have hids : l.graph.ids = (d.nodes.map (·.id)).map (d.numbering first) := by
    rw [h.ids_eq, ← ids_sketch hl.usable, ShaderGraph.ids, List.map_map]
    rfl
  rw [hids, List.mem_map]
  constructor
  · rintro ⟨old, ho, rfl⟩
    exact ⟨_, by simpa using List.idxOf_lt_length_of_mem ho, rfl⟩
  · rintro ⟨i, hi, rfl⟩
    have hi' : i < (d.nodes.map (·.id)).length := by rwa [List.length_map]
    exact ⟨_, List.getElem_mem hi', by rw [numbering, hl.distinct.idxOf_getElem]⟩

/-- A node that is at fault behind nodes that are fine is refused for it. -/
theorem NodeFlaw.addNode_eq_error {n : NodeRecord} {taken : Nat}
    (h : NodeFlaw r supply.nextNode d.nodes n e taken) (hl : Listed r d.nodes)
    (hmade : l.Made (d.numbering supply.nextNode) (d.drafts r) [])
    (hsupply : l.supply = supply.afterNodes d.nodes.length) :
    l.addNode r n = .error (e, supply.afterNodes taken) := by
  have hnext : l.supply.nextNode = supply.nextNode + .ofNat d.nodes.length := by rw [hsupply]; rfl
  have hafter : l.supply.afterNode = supply.afterNodes (d.nodes.length + 1) := by
    rw [hsupply, ← Supply.afterNodes_one, Supply.afterNodes_add]
  cases h with
  | misfit hm =>
    rw [Loading.addNode, hm.toKind_eq_error, hsupply]
    rfl
  | repeated hu hmem hlt =>
    obtain ⟨kind, hkind⟩ := KindRecord.exists_toKind hu
    have hnew : l.supply.nextNode ∉ l.graph.ids := by
      rw [mem_ids_iff_of_made hl hmade, hnext]
      rintro ⟨i, hi, he⟩
      exact Nat.ne_of_gt hi (ShaderGraph.add_ofNat_inj hlt (Nat.lt_trans hi hlt) he)
    have hlookup : (l.ids.lookup n.id).isSome := by
      have hid : n.id ∈ (d.drafts r).map (·.id) := by
        rw [← ids_sketch hl.usable] at hmem
        exact hmem
      rw [hmade.found, if_pos hid]
      rfl
    rw [Loading.addNode_eq_error_of_lookup hkind
      (hmade.wellFormed.hasNode_eq_false_iff.mpr hnew) hlookup, hafter]
  | exhausted hu hmem heq =>
    obtain ⟨kind, hkind⟩ := KindRecord.exists_toKind hu
    -- The numbers start again at the first.
    have hfirst : l.supply.nextNode = supply.nextNode := by
      rw [hnext, heq]
      exact UInt32.add_zero _
    have hold : l.graph.hasNode l.supply.nextNode = true := by
      refine Bool.not_eq_false _ ▸ fun hnone ↦ hmade.wellFormed.hasNode_eq_false_iff.mp hnone ?_
      rw [mem_ids_iff_of_made hl hmade, hfirst]
      exact ⟨0, by omega, (UInt32.add_zero _).symm⟩
    rw [Loading.addNode_eq_error_of_hasNode hkind hold, hafter, hfirst]

section

variable {first : NodeId} {connections : List Connection} (hl : Listed r d.nodes)
  (hmade : l.Made (d.numbering first) (d.drafts r) connections)

include hl hmade

/-- A node of the document is found under its new number, with the pins that it was to have. -/
theorem exists_copy {id : NodeId} (hid : id ∈ d.nodes.map (·.id)) :
    ∃ copy, l.graph.node? (d.numbering first id) = some copy ∧
      (∀ i, i < copy.outputs.length ↔ d.HasOutput r id i) ∧
      ∀ i, i < copy.inputs.length ↔ d.HasInput r id i := by
  rw [← ids_sketch hl.usable] at hid
  obtain ⟨node, hn, rfl⟩ := List.mem_map.mp hid
  obtain ⟨copy, hcopy, hcopied⟩ := hmade.exists_copy hn
  have hsame : ∀ other ∈ d.drafts r, other.id = node.id → other = node := fun other ho he ↦
    (wellFormed_unlinked hl).eq_of_id ho hn he
  refine ⟨copy, hcopy, fun i ↦ ⟨fun hi ↦ ⟨node, hn, rfl, hcopied.length_outputs ▸ hi⟩, ?_⟩,
    fun i ↦ ⟨fun hi ↦ ⟨node, hn, rfl, hcopied.length_inputs ▸ hi⟩, ?_⟩⟩
  · rintro ⟨other, ho, he, hi⟩
    rwa [hcopied.length_outputs, ← hsame other ho he]
  · rintro ⟨other, ho, he, hi⟩
    rwa [hcopied.length_inputs, ← hsame other ho he]

theorem resolve_of_mem {id : NodeId} (hid : id ∈ d.nodes.map (·.id)) :
    l.resolve id = .ok (d.numbering first id) := by
  rw [← ids_sketch hl.usable] at hid
  rw [Loading.resolve, hmade.found]
  simp only [if_pos (show id ∈ (d.drafts r).map (·.id) from hid)]

theorem resolve_of_not_mem {id : NodeId} (hid : id ∉ d.nodes.map (·.id)) :
    l.resolve id = .error (.unknownNodeId id) := by
  rw [← ids_sketch hl.usable] at hid
  rw [Loading.resolve, hmade.found]
  simp only [if_neg (show id ∉ (d.drafts r).map (·.id) from hid)]

/-- What the graph refuses between the new numbers is refused. -/
theorem connect_eq_error {c : Connection} {cause : GraphError}
    (hs : c.source ∈ d.nodes.map (·.id)) (ht : c.target ∈ d.nodes.map (·.id))
    (hcheck : l.graph.checkConnection (c.renumber (d.numbering first)) = .error cause) :
    l.connect c = .error (.graph cause) := by
  have hconnect : l.graph.connect (c.renumber (d.numbering first)) = .error cause :=
    bind_eq_error_iff.mpr (.inl hcheck)
  rw [Loading.connect]
  refine bind_eq_error_iff.mpr (.inr ⟨_, resolve_of_mem hl hmade hs, ?_⟩)
  refine bind_eq_error_iff.mpr (.inr ⟨_, resolve_of_mem hl hmade ht, ?_⟩)
  exact bind_eq_error_iff.mpr (.inl (mapError_eq_error_iff.mpr ⟨_, hconnect, rfl⟩))

/-- A connection that is at fault behind connections that are fine is refused for it. -/
theorem ConnectionFlaw.connect_eq_error {c : Connection}
    (h : d.ConnectionFlaw r (d.numbering first) connections c e) : l.connect c = .error e := by
  have hdifferent : c.source ∈ d.nodes.map (·.id) → c.target ∈ d.nodes.map (·.id) →
      c.source ≠ c.target → d.numbering first c.source ≠ d.numbering first c.target :=
    fun hs ht hne he ↦ hne (numbering_injective hl first _ hs _ ht he)
  cases h with
  | source hs =>
    rw [Loading.connect, resolve_of_not_mem hl hmade hs]
    rfl
  | target hs ht =>
    rw [Loading.connect, resolve_of_mem hl hmade hs, resolve_of_not_mem hl hmade ht]
    rfl
  | self hs he =>
    refine GraphDocument.connect_eq_error hl hmade hs (he ▸ hs) ?_
    rw [ShaderGraph.checkConnection, Connection.renumber, if_pos (congrArg _ he)]
    rfl
  | output hs ht hne ho =>
    obtain ⟨source, hsource, houtputs, -⟩ := exists_copy hl hmade hs
    obtain ⟨target, htarget, -⟩ := exists_copy hl hmade ht
    refine GraphDocument.connect_eq_error hl hmade hs ht ?_
    have houtput := Nat.le_of_not_lt ((houtputs _).not.mpr ho)
    simp [ShaderGraph.checkConnection, Connection.renumber, hdifferent hs ht hne, hsource, htarget,
      houtput]
  | input ht hne ho hi =>
    have hs := ho.mem_ids hl
    obtain ⟨source, hsource, houtputs, -⟩ := exists_copy hl hmade hs
    obtain ⟨target, htarget, -, hinputs⟩ := exists_copy hl hmade ht
    refine GraphDocument.connect_eq_error hl hmade hs ht ?_
    have houtput := Nat.not_le_of_lt ((houtputs _).mpr ho)
    have hinput := Nat.le_of_not_lt ((hinputs _).not.mpr hi)
    simp [ShaderGraph.checkConnection, Connection.renumber, hdifferent hs ht hne, hsource, htarget,
      houtput, hinput]
  | taken hj hmem =>
    have hs := hj.output.mem_ids hl
    have ht := hj.input.mem_ids hl
    obtain ⟨source, hsource, houtputs, -⟩ := exists_copy hl hmade hs
    obtain ⟨target, htarget, -, hinputs⟩ := exists_copy hl hmade ht
    refine GraphDocument.connect_eq_error hl hmade hs ht ?_
    have houtput := Nat.not_le_of_lt ((houtputs _).mpr hj.output)
    have hinput := Nat.not_le_of_lt ((hinputs _).mpr hj.input)
    have hfeed : (l.graph.feed? (d.numbering first c.target) c.input).isSome := by
      rw [Option.isSome_iff_ne_none, ne_eq, ShaderGraph.feed?_eq_none_iff, not_not, hmade.joined]
      obtain ⟨b, hb, he⟩ := List.mem_map.mp hmem
      obtain ⟨ht, hi⟩ := Prod.mk.inj he
      rw [List.map_map]
      exact List.mem_map.mpr ⟨b, hb, by simp [Connection.renumber, ht, hi]⟩
    simp [ShaderGraph.checkConnection, Connection.renumber, hdifferent hs ht hj.different, hsource,
      htarget, houtput, hinput, hfeed]

end

/-- A document at fault is refused for it. -/
theorem Fault.ofDocument_eq {taken : Nat} (h : d.Fault r supply.nextNode e taken) :
    ShaderGraph.ofDocument d r supply = (.error e, supply.afterNodes taken) := by
  cases h with
  | version hv => rw [ShaderGraph.ofDocument, if_pos hv, Supply.afterNodes_zero]
  | @node before after n e taken hv hsplit hl hflaw =>
    let earlier : GraphDocument := { d with nodes := before, connections := [] }
    obtain ⟨l, -, hnodes, hmade, hsupply, -⟩ :=
      exists_made (d := earlier) hl (linked_nil earlier r) supply
    have hrefused := hflaw.addNode_eq_error (d := earlier) hl hmade hsupply
    refine ShaderGraph.ofDocument_of_nodes_error hv ?_
    rw [hsplit]
    exact foldlM_eq_error hnodes hrefused
  | @connection before after c e hv hl hsplit hk hflaw =>
    let earlier : GraphDocument := { d with connections := before }
    obtain ⟨l, l', hnodes, -, hsupply, hconnections, hmade, -⟩ :=
      exists_made (d := earlier) hl (hk.congr rfl) supply
    have hrefused := hflaw.connect_eq_error hl hmade
    rw [ShaderGraph.ofDocument_of_nodes hv hnodes, hsplit, foldlM_eq_error hconnections hrefused,
      hsupply]
    rfl

/-- A valid document is loaded as a copy of the graph that it describes. -/
theorem Valid.exists_copy (h : d.Valid r) (supply : Supply) :
    ∃ copy, ShaderGraph.ofDocument d r supply = (.ok copy, supply.afterNodes d.nodes.length) ∧
      (d.sketch r).CopiedTo (d.numbering supply.nextNode) copy := by
  obtain ⟨l, l', hnodes, -, hsupply, hconnections, hmade, hkeeps⟩ :=
    exists_made h.listed h.linked supply
  refine ⟨l'.graph, ?_, ⟨?_, hkeeps.name, hmade.copied, hmade.joined⟩⟩
  · rw [ShaderGraph.ofDocument_of_nodes h.version hnodes, hconnections, hsupply]
    rfl
  · rw [ids_sketch h.listed.usable]
    exact numbering_injective h.listed supply.nextNode

/-! ### Documents that are not valid -/

/-- What holds of the empty list holds of a list, or up to some element. -/
theorem holds_or_exists_first {α : Type} {P : List α → Prop} (nil : P []) (xs : List α) :
    P xs ∨ ∃ before x after, xs = before ++ x :: after ∧ P before ∧ ¬P (before ++ [x]) := by
  induction xs using List.reverseRecOn with
  | nil => exact .inl nil
  | append_singleton xs x ih =>
    rcases ih with hxs | ⟨before, y, after, rfl, hbefore, hy⟩
    · exact or_iff_not_imp_left.mpr fun hx ↦ ⟨xs, x, [], rfl, hxs, hx⟩
    · exact .inr ⟨before, y, after ++ [x], by simp, hbefore, hy⟩

theorem exists_nodeFlaw {before : List NodeRecord} {n : NodeRecord} (hl : Listed r before)
    (h : ¬Listed r (before ++ [n])) (first : NodeId) :
    ∃ e taken, NodeFlaw r first before n e taken := by
  by_cases hu : n.kind.Usable r
  · have hmem : n.id ∈ before.map (·.id) := by
      by_contra hmem
      refine h ⟨List.forall_mem_append.mpr ⟨hl.usable, List.forall_mem_singleton.mpr hu⟩, ?_⟩
      rw [List.map_append, List.map_singleton, ← List.concat_eq_append, List.nodup_concat]
      exact ⟨hmem, hl.distinct⟩
    have hlength := ShaderGraph.length_le_of_nodup hl.distinct
    rw [List.length_map] at hlength
    rcases Nat.lt_or_eq_of_le hlength with hlt | heq
    · exact ⟨_, _, .repeated hu hmem hlt⟩
    · exact ⟨_, _, .exhausted hu hmem heq⟩
  · obtain ⟨e, hm⟩ := KindRecord.exists_misfit hu
    exact ⟨e, _, .misfit hm⟩

theorem exists_connectionFlaw {before : List Connection} {c : Connection}
    (hk : d.Linked r before) (h : ¬d.Linked r (before ++ [c])) (number : NodeId → NodeId) :
    ∃ e, d.ConnectionFlaw r number before c e := by
  by_cases hs : c.source ∈ d.nodes.map (·.id)
  case neg => exact ⟨_, .source hs⟩
  by_cases ht : c.target ∈ d.nodes.map (·.id)
  case neg => exact ⟨_, .target hs ht⟩
  by_cases hne : c.source = c.target
  case pos => exact ⟨_, .self hs hne⟩
  by_cases ho : d.HasOutput r c.source c.output
  case neg => exact ⟨_, .output hs ht hne ho⟩
  by_cases hi : d.HasInput r c.target c.input
  case neg => exact ⟨_, .input ht hne ho hi⟩
  refine ⟨_, .taken ⟨hne, ho, hi⟩ ?_⟩
  by_contra hfree
  refine h ⟨List.forall_mem_append.mpr ⟨hk.joined, List.forall_mem_singleton.mpr ⟨hne, ho, hi⟩⟩, ?_⟩
  rw [List.map_append, List.map_singleton, ← List.concat_eq_append, List.nodup_concat]
  exact ⟨hfree, hk.single⟩

/-- A document that is not valid has a first fault. -/
theorem valid_or_fault (d : GraphDocument) (r : Registry) (first : NodeId) :
    d.Valid r ∨ ∃ e taken, d.Fault r first e taken := by
  by_cases hv : d.version = formatVersion
  case neg => exact .inr ⟨_, _, .version hv⟩
  rcases holds_or_exists_first (listed_nil r) d.nodes with
    hl | ⟨before, n, after, hsplit, hl, hn⟩
  case inr =>
    obtain ⟨e, taken, hflaw⟩ := exists_nodeFlaw hl hn first
    exact .inr ⟨e, taken, .node hv hsplit hl hflaw⟩
  rcases holds_or_exists_first (linked_nil d r) d.connections with
    hk | ⟨before, c, after, hsplit, hk, hc⟩
  case inr =>
    obtain ⟨e, hflaw⟩ := exists_connectionFlaw hk hc (d.numbering first)
    exact .inr ⟨e, _, .connection hv hl hsplit hk hflaw⟩
  exact .inl ⟨hv, hl, hk⟩

end GraphDocument

namespace ShaderGraph

/-- Just the valid documents are loaded. -/
theorem exists_ofDocument_iff {d : GraphDocument} {r : Registry} {supply : Supply} :
    (∃ g, (ofDocument d r supply).1 = .ok g) ↔ d.Valid r := by
  constructor
  · rintro ⟨g, hg⟩
    refine (d.valid_or_fault r supply.nextNode).resolve_right ?_
    rintro ⟨e, taken, hf⟩
    rw [hf.ofDocument_eq] at hg
    cases hg
  · intro hv
    obtain ⟨copy, hcopy, -⟩ := hv.exists_copy supply
    exact ⟨copy, by rw [hcopy]⟩

/-- A text that holds a document is loaded exactly if the document is valid, in whatever order its
connections are. It is refused exactly for the first fault of the document. Apart from what is
loaded, only numbers of nodes are taken. -/
theorem ofString_valid {text : String} {d : GraphDocument}
    (hd : GraphDocument.ofString? text = some d) (r : Registry) (supply : Supply) :
    ((∃ g, (ofString text r supply).1 = .ok g) ↔ d.Valid r) ∧
      (∀ g later, ofString text r supply = (.ok g, later) →
        later = supply.afterNodes d.nodes.length) ∧
      (∀ e later, ofString text r supply = (.error e, later) ↔
        ∃ taken, d.Fault r supply.nextNode e taken ∧ later = supply.afterNodes taken) ∧
      ∀ text' d', GraphDocument.ofString? text' = some d' → d'.version = d.version →
        d'.nodes = d.nodes → d'.connections.Perm d.connections →
          ((∃ g, (ofString text' r supply).1 = .ok g) ↔ ∃ g, (ofString text r supply).1 = .ok g) := by
  have hdocument : ∀ {text d}, GraphDocument.ofString? text = some d →
      ofString text r supply = ofDocument d r supply := fun hd ↦ by simp only [ofString, hd]
  rw [hdocument hd]
  refine ⟨exists_ofDocument_iff, fun g later hg ↦ ?_, fun e later ↦ ⟨fun he ↦ ?_, ?_⟩,
    fun text' d' hd' hv hn hc ↦ ?_⟩
  · obtain ⟨copy, hcopy, -⟩ := (exists_ofDocument_iff.mp ⟨g, by rw [hg]⟩).exists_copy supply
    rw [hcopy] at hg
    exact (congrArg Prod.snd hg).symm
  · rcases d.valid_or_fault r supply.nextNode with hv | ⟨cause, taken, hf⟩
    · obtain ⟨copy, hcopy, -⟩ := hv.exists_copy supply
      rw [hcopy] at he
      cases he
    · rw [hf.ofDocument_eq] at he
      cases he
      exact ⟨taken, hf, rfl⟩
  · rintro ⟨taken, hf, rfl⟩
    exact hf.ofDocument_eq
  · rw [hdocument hd', exists_ofDocument_iff, exists_ofDocument_iff]
    exact ⟨fun h ↦ h.perm hv.symm hn.symm hc.symm, fun h ↦ h.perm hv hn hc⟩

/-- Two nodes, with connections between them that are told. -/
def wired (connections : List Connection) : GraphDocument :=
  let record (id : NodeId) (op : MathOperation) : NodeRecord :=
    ⟨id, "", "", ⟨.zero, .zero⟩, ⟨.zero, .zero⟩, .math op⟩
  { version := GraphDocument.formatVersion
    metadata := none
    name := "Wired"
    nodes := [record 3 .sin, record 9 .add]
    connections := connections }

/-- An input is taken when a connection ends there again: the nodes have got the numbers 7 and 8 by
then. -/
theorem ofString_valid_wired :
    (∃ g, (ofString (wired [⟨3, 0, 9, 1⟩]).toJson.document .empty { nextNode := 7 }).1 = .ok g) ∧
      ofString (wired [⟨3, 0, 9, 1⟩, ⟨3, 0, 9, 1⟩]).toJson.document .empty { nextNode := 7 } =
        (.error (.graph (.inputAlreadyConnected 8 1)), { nextNode := 9 }) := by
  have hread : ∀ cs ∈ [[⟨3, 0, 9, 1⟩], [⟨3, 0, 9, 1⟩, ⟨3, 0, 9, 1⟩]],
      GraphDocument.ofString? (wired cs).toJson.document = some (wired cs) := by
    intro cs hcs
    rw [GraphDocument.ofString?, Json.Value.ofString?_document (wired cs).proper_toJson]
    revert cs
    decide +kernel
  have hlisted : ∀ cs, GraphDocument.Listed .empty (wired cs).nodes := by
    refine fun cs ↦ ⟨fun n hn ↦ ?_, (by decide : ([3, 9] : List NodeId).Nodup)⟩
    simp only [wired, List.mem_cons, List.not_mem_nil, or_false] at hn
    rcases hn with rfl | rfl <;> trivial
  have hlinked : ∀ cs, (wired cs).Linked .empty [⟨3, 0, 9, 1⟩] := by
    refine fun cs ↦ ⟨List.forall_mem_singleton.mpr ⟨by decide, ?_, ?_⟩, by decide⟩
    · exact ⟨.ofKind 3 (.math .sin), List.mem_cons_self, rfl, by decide⟩
    · exact ⟨.ofKind 9 (.math .add), List.mem_cons_of_mem _ List.mem_cons_self, rfl, by decide⟩
  have hnumber : (wired [⟨3, 0, 9, 1⟩, ⟨3, 0, 9, 1⟩]).numbering 7 9 = 8 := by decide
  have hfault : (wired [⟨3, 0, 9, 1⟩, ⟨3, 0, 9, 1⟩]).Fault .empty 7
      (.graph (.inputAlreadyConnected 8 1)) 2 := by
    have hsplit : (wired [⟨3, 0, 9, 1⟩, ⟨3, 0, 9, 1⟩]).connections =
        [⟨3, 0, 9, 1⟩] ++ ⟨3, 0, 9, 1⟩ :: [] := rfl
    rw [← hnumber]
    exact .connection rfl (hlisted _) hsplit (hlinked _)
      (.taken ((hlinked _).joined _ List.mem_cons_self) List.mem_cons_self)
  obtain ⟨honce, -⟩ := ofString_valid (hread [⟨3, 0, 9, 1⟩] (by simp)) .empty { nextNode := 7 }
  obtain ⟨-, -, htwice, -⟩ := ofString_valid (hread [⟨3, 0, 9, 1⟩, ⟨3, 0, 9, 1⟩] (by simp)) .empty
    { nextNode := 7 }
  exact ⟨honce.mpr ⟨rfl, hlisted _, hlinked _⟩, (htwice _ _).mpr ⟨2, hfault, rfl⟩⟩

end ShaderGraph

end RenderKit
