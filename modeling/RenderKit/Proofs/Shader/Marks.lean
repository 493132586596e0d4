import RenderKit.Proofs.Shader.Reachable

/-!
# Marks of pins

A pin is marked when a connection ends there. Every edit marks anew the pins whose connections come
or go, so the marks of all nodes agree with the connections (`MarkedBy`), with one exception: a node
that is taken out keeps its marks, and bears them when it comes back without its connections
(`not_markedBy_put_back`). They may stay until a connection touches the node again
(`markedBy_run`).
-/

namespace RenderKit

/-- The marked pins of a node are those that connections run to or from. -/
structure Node.MarkedBy (node : Node) (connections : List Connection) : Prop where
  inputs : ∀ i pin, node.inputs[i]? = some pin →
    (pin.connected = true ↔ ∃ c ∈ connections, c.target = node.id ∧ c.input = i)
  outputs : ∀ i pin, node.outputs[i]? = some pin →
    (pin.connected = true ↔ ∃ c ∈ connections, c.source = node.id ∧ c.output = i)

/-- No pin of a node is marked. -/
def Node.Unmarked (node : Node) : Prop :=
  ∀ pin ∈ node.inputs ++ node.outputs, pin.connected = false

/-- No connection touches a node. -/
def Connection.Avoid (connections : List Connection) (id : NodeId) : Prop :=
  ∀ c ∈ connections, c.touches id = false

theorem Connection.touches_eq_false_iff {c : Connection} {id : NodeId} :
    c.touches id = false ↔ c.source ≠ id ∧ c.target ≠ id := by
  simp [touches]

namespace Node

variable {node : Node} {connections kept : List Connection}

/-- Fresh nodes bear no marks. -/
theorem Created.unmarked (h : node.Created) : node.Unmarked := by
  obtain ⟨kind, supply, position, extent, rfl⟩ := h
  intro pin hp
  simp only [arrange, moveTo, resize, create, ofKind, List.mem_append, List.mem_map] at hp
  rcases hp with ⟨spec, -, rfl⟩ | ⟨spec, -, rfl⟩
  · rfl
  · rfl

/-- A node is marked by connections that avoid it when it bears no marks. -/
theorem Unmarked.markedBy (h : node.Unmarked) (ha : Connection.Avoid connections node.id) :
    node.MarkedBy connections := by
  constructor
  · intro i pin hp
    have hm := h pin (List.mem_append_left _ (List.mem_of_getElem? hp))
    simp only [hm, Bool.false_eq_true, false_iff]
    rintro ⟨c, hc, ht, -⟩
    exact (Connection.touches_eq_false_iff.mp (ha c hc)).2 ht
  · intro i pin hp
    have hm := h pin (List.mem_append_right _ (List.mem_of_getElem? hp))
    simp only [hm, Bool.false_eq_true, false_iff]
    rintro ⟨c, hc, hs, -⟩
    exact (Connection.touches_eq_false_iff.mp (ha c hc)).1 hs

/-- Only the connections that touch a node count. -/
theorem MarkedBy.congr (h : node.MarkedBy connections)
    (hk : ∀ c, c.touches node.id = true → (c ∈ kept ↔ c ∈ connections)) :
    node.MarkedBy kept := by
  constructor
  · intro i pin hp
    rw [h.inputs i pin hp]
    refine exists_congr fun c ↦ ?_
    constructor
    · rintro ⟨hc, ht, hi⟩
      exact ⟨(hk c (by simp [Connection.touches, ht])).mpr hc, ht, hi⟩
    · rintro ⟨hc, ht, hi⟩
      exact ⟨(hk c (by simp [Connection.touches, ht])).mp hc, ht, hi⟩
  · intro i pin hp
    rw [h.outputs i pin hp]
    refine exists_congr fun c ↦ ?_
    constructor
    · rintro ⟨hc, hs, ho⟩
      exact ⟨(hk c (by simp [Connection.touches, hs])).mpr hc, hs, ho⟩
    · rintro ⟨hc, hs, ho⟩
      exact ⟨(hk c (by simp [Connection.touches, hs])).mp hc, hs, ho⟩

/-- A place in the editor does not count. -/
theorem MarkedBy.arrange (h : node.MarkedBy connections) (position : Position) (extent : Extent) :
    (node.arrange position extent).MarkedBy connections :=
  ⟨h.inputs, h.outputs⟩

end Node

namespace ShaderGraph

variable {g g' : ShaderGraph} {late : NodeId → Prop}

theorem markedBy_marked (connections : List Connection) (node : Node) :
    (marked connections node).MarkedBy connections := by
  constructor
  · intro i pin hp
    simp only [marked, Node.markPins, List.getElem?_mapIdx, Option.map_eq_some_iff] at hp
    obtain ⟨old, -, rfl⟩ := hp
    simp [Connection.feeds]
  · intro i pin hp
    simp only [marked, Node.markPins, List.getElem?_mapIdx, Option.map_eq_some_iff] at hp
    obtain ⟨old, -, rfl⟩ := hp
    simp [Connection.leaves]

/-! ### Marking anew -/

/-- Marking a node anew forgets its earlier marks. -/
@[simp] theorem marked_marked (connections others : List Connection) (node : Node) :
    marked connections (marked others node) = marked connections node := by
  simp [marked, Node.markPins, List.mapIdx_mapIdx, Function.comp_def]

/-- Marking one node leaves the others as they are. -/
theorem nodes_syncPins (hi : Indexes g.ids (g.index[·]?)) (id : NodeId) :
    (g.syncPins id).nodes =
      g.nodes.map fun node ↦ if node.id = id then marked g.connections node else node := by
  rw [syncPins, modifyNode]
  apply List.ext_getElem?
  intro i
  rw [List.getElem?_map]
  cases hs : g.index[id]? with
  | none =>
    cases hn : g.nodes[i]? with
    | none => simp
    | some node =>
      have hne : node.id ≠ id := by
        rintro rfl
        rw [getElem?_index hi hn] at hs
        cases hs
      simp [hne]
  | some slot =>
    rw [List.getElem?_modify]
    cases hn : g.nodes[i]? with
    | none => simp
    | some node =>
      have hslot : slot = i ↔ node.id = id := by
        constructor
        · rintro rfl
          have hid := (hi id slot).mp hs
          rw [ids, List.getElem?_map, hn] at hid
          exact Option.some.inj hid
        · rintro rfl
          rw [getElem?_index hi hn] at hs
          exact (Option.some.inj hs).symm
      by_cases he : slot = i
      · simp [he, hslot.mp he]
      · simp [he, mt hslot.mpr he]

/-- Marking several nodes leaves the others as they are. -/
theorem nodes_syncAll (hi : Indexes g.ids (g.index[·]?)) (touched : List NodeId) :
    (g.syncAll touched).nodes =
      g.nodes.map fun node ↦ if node.id ∈ touched then marked g.connections node else node := by
  rw [syncAll]
  induction touched generalizing g with
  | nil => simp
  | cons id touched ih =>
    have hi' : Indexes (g.syncPins id).ids ((g.syncPins id).index[·]?) := by
      rwa [ids_syncPins, index_syncPins]
    rw [List.foldl_cons, ih hi', nodes_syncPins hi, connections_syncPins, List.map_map]
    refine List.map_congr_left fun node _ ↦ ?_
    simp only [Function.comp_apply, List.mem_cons]
    by_cases he : node.id = id <;> by_cases hm : node.id ∈ touched <;> simp [he, hm]

/-- The marks of all nodes agree with the connections, save for late ones that no connection
touches. -/
def Synced (late : NodeId → Prop) (g : ShaderGraph) : Prop :=
  ∀ node ∈ g.nodes, node.MarkedBy g.connections ∨
    late node.id ∧ Connection.Avoid g.connections node.id

/-- After a change of nodes and connections, marks are right again when the nodes are marked anew
whose connections came or went. -/
theorem Synced.syncAll (h : g.Synced late) (touched : List NodeId)
    (hi : Indexes g'.ids (g'.index[·]?))
    (hn : ∀ node ∈ g'.nodes, node.id ∉ touched → node ∈ g.nodes)
    (hc : ∀ node ∈ g'.nodes, node.id ∉ touched → ∀ c, c.touches node.id = true →
      (c ∈ g'.connections ↔ c ∈ g.connections)) :
    (g'.syncAll touched).Synced late := by
  intro node hm
  rw [nodes_syncAll hi] at hm
  obtain ⟨node, hm', rfl⟩ := List.mem_map.mp hm
  rw [connections_syncAll]
  split
  · exact .inl (markedBy_marked _ node)
  · next ht =>
    rcases h node (hn node hm' ht) with hmarked | ⟨hlate, ha⟩
    · exact .inl (hmarked.congr (hc node hm' ht))
    · refine .inr ⟨hlate, fun c hmem ↦ ?_⟩
      by_contra htouch
      rw [Bool.not_eq_false] at htouch
      exact absurd (ha c ((hc node hm' ht c htouch).mp hmem)) (by rw [htouch]; decide)

/-! ### Edits -/

/-- Connections avoid a number that no node has. -/
theorem WellFormed.avoid (h : WellFormed g) {id : NodeId} (hid : id ∉ g.ids) :
    Connection.Avoid g.connections id := by
  intro c hc
  obtain ⟨-, ⟨source, hs, -⟩, ⟨target, ht, -⟩⟩ := h.joined c hc
  obtain ⟨hsource, hsid⟩ := h.node?_eq_some_iff.mp hs
  obtain ⟨htarget, htid⟩ := h.node?_eq_some_iff.mp ht
  rw [Connection.touches_eq_false_iff, ← hsid, ← htid]
  exact ⟨fun he ↦ hid (he ▸ List.mem_map_of_mem hsource),
    fun he ↦ hid (he ▸ List.mem_map_of_mem htarget)⟩

/-- A node without marks may come, and a late one with marks. -/
theorem Synced.push (h : g.Synced late) (hw : WellFormed g) {node : Node} (hid : node.id ∉ g.ids)
    (hn : node.Unmarked ∨ late node.id) : (g.push node).Synced late := by
  intro other ho
  rcases List.mem_append.mp ho with ho | ho
  · exact h other ho
  · rw [List.mem_singleton.mp ho]
    have ha := hw.avoid hid
    rcases hn with hn | hlate
    · exact .inl (hn.markedBy ha)
    · exact .inr ⟨hlate, ha⟩

theorem Synced.arrange (h : g.Synced late) (id : NodeId) (position : Position) (extent : Extent) :
    (g.modifyNode id fun node ↦ node.arrange position extent).Synced late := by
  intro node hn
  rw [connections_modifyNode]
  rw [modifyNode] at hn
  split at hn
  · obtain ⟨i, hget⟩ := List.mem_iff_getElem?.mp hn
    rw [List.getElem?_modify, Option.map_eq_map, Option.map_eq_some_iff] at hget
    obtain ⟨old, hold, rfl⟩ := hget
    have ho := h old (List.mem_of_getElem? hold)
    split
    · exact ho.imp_left (·.arrange position extent)
    · exact ho
  · exact h node hn

/-- The other ends of the connections that went are marked anew. -/
theorem Synced.pruned (h : g.Synced late) (hw : WellFormed g) {slot : Nat} {id : NodeId}
    (hs : g.index[id]? = some slot) : (g.pruned slot id).Synced late := by
  refine h.syncAll _ (hw.without hs).indexed (fun node hm _ ↦ List.mem_of_mem_eraseIdx hm) ?_
  intro node hm hother c ht
  refine ⟨fun hc ↦ (List.mem_filter.mp hc).1, fun hc ↦ List.mem_filter.mpr ⟨hc, ?_⟩⟩
  rw [Bool.not_eq_true']
  have hne : node.id ≠ id := by
    rintro rfl
    obtain ⟨i, hi, hget⟩ := List.mem_eraseIdx_iff_getElem?.mp hm
    have hslot := getElem?_index hw.indexed hget
    rw [hs] at hslot
    exact hi (Option.some.inj hslot).symm
  by_contra hgone
  rw [Bool.not_eq_false] at hgone
  refine hother (List.mem_eraseDups.mpr (List.mem_map.mpr ⟨c, List.mem_filter.mpr ⟨hc, hgone⟩, ?_⟩))
  simp only [Connection.touches, Bool.or_eq_true, beq_iff_eq] at ht hgone
  rw [Connection.otherEnd]
  split
  · next he => exact ht.resolve_left fun h' ↦ hne (h'.symm.trans he)
  · next he => exact ht.resolve_right fun h' ↦ hne (h'.symm.trans (hgone.resolve_left he))

/-- A connection does not touch other nodes than its ends. -/
private theorem ne_of_touches {c other : Connection} {id : NodeId}
    (hid : id ∉ [c.source, c.target]) (ht : other.touches id = true) : other ≠ c := by
  rintro rfl
  simp only [List.mem_cons, List.not_mem_nil, or_false, not_or] at hid
  rw [Connection.touches_eq_false_iff.mpr ⟨Ne.symm hid.1, Ne.symm hid.2⟩] at ht
  cases ht

theorem Synced.link (h : g.Synced late) (hw : WellFormed g) (c : Connection) :
    (g.link c).Synced late := by
  refine h.syncAll [c.source, c.target] hw.indexed (fun node hm _ ↦ hm) ?_
  intro node _ hother other ht
  have hne := ne_of_touches hother ht
  simp [hne]

theorem Synced.unlinked (h : g.Synced late) (hw : WellFormed g) {c : Connection}
    (hf : g.feed? c.target c.input = some c) : (g.unlinked c).Synced late := by
  refine h.syncAll [c.source, c.target] hw.indexed (fun node hm _ ↦ hm) ?_
  intro node _ hother other ht
  refine ⟨List.mem_of_mem_eraseP, fun hm ↦ ?_⟩
  -- An input takes one connection, so only the connection itself goes.
  refine (List.mem_eraseP_of_neg fun hfeeds ↦ ?_).mpr hm
  simp only [Connection.feeds, Bool.and_eq_true, beq_iff_eq] at hfeeds
  refine ne_of_touches hother ht ?_
  exact List.inj_on_of_nodup_map hw.single hm (List.mem_of_find?_eq_some hf)
    (Prod.ext hfeeds.1 hfeeds.2)

/-- All nodes are marked anew when one took another definition. -/
theorem Synced.refresh (h : g.Synced late) (hw : WellFormed g) (r : Registry) :
    (g.refresh r).1.Synced late := by
  rw [ShaderGraph.refresh]
  split
  · exact h
  · have hi := hw.indexed
    rw [← ids_map_refreshed g r] at hi
    exact h.syncAll _ hi (fun node hm hother ↦ absurd (List.mem_map_of_mem hm) hother)
      fun node hm hother ↦ absurd (List.mem_map_of_mem hm) hother

/-! ### Every sequence of edits -/

/-- A graph to start from has no late nodes. -/
theorem Opened.synced (h : Opened g) : WellFormed g ∧ g.Synced fun _ ↦ False := by
  have k : Grown Node.Created (Synced fun _ ↦ False) :=
    { empty := fun _ _ _ hm ↦ absurd hm List.not_mem_nil
      push := fun hw hs hn hid ↦ hs.push hw hid (.inl ((or_self_iff.mp hn).unmarked))
      link := fun hw hs _ _ ↦ hs.link hw _ }
  exact h.keeps k

/-- An edit of a graph. A node that is added may be a fresh one, or one taken out of this or another
graph. -/
inductive Edit where
  | rename (name : String)
  | arrange (id : NodeId) (position : Position) (extent : Extent)
  | add (node : Node)
  | remove (id : NodeId)
  | connect (c : Connection)
  | disconnect (target : NodeId) (input : Nat)
  | refresh (r : Registry)

/-- The graph behind an edit. A refused edit leaves it as it was. -/
def edit (g : ShaderGraph) : Edit → ShaderGraph
  | .rename name => g.rename name
  | .arrange id position extent => g.modifyNode id fun node ↦ node.arrange position extent
  | .add node => (g.addNode node).toOption.getD g
  | .remove id => ((g.removeNode id).map (·.2)).toOption.getD g
  | .connect c => (g.connect c).toOption.getD g
  | .disconnect target input => ((g.disconnect target input).map (·.2)).toOption.getD g
  | .refresh r => (g.refresh r).1

/-- The graph behind edits one after the other. -/
def run (g : ShaderGraph) (edits : List Edit) : ShaderGraph :=
  edits.foldl edit g

/-- Every edit of a well-formed graph leads to one. -/
theorem WellFormed.edit (h : WellFormed g) (e : Edit) : WellFormed (g.edit e) := by
  cases e with
  | rename name => exact h.congr rfl rfl rfl
  | arrange id position extent => exact h.modifyNode id fun _ ↦ rfl
  | add node =>
    rw [ShaderGraph.edit]
    cases ha : g.addNode node with
    | error e => exact h
    | ok g' =>
      obtain ⟨hid, rfl⟩ := addNode_eq_ok_iff.mp ha
      exact h.push (h.hasNode_eq_false_iff.mp hid)
  | remove id =>
    rw [ShaderGraph.edit]
    cases hr : g.removeNode id with
    | error e => exact h
    | ok removed =>
      obtain ⟨slot, hs, -, hg⟩ := removeNode_eq_ok_iff.mp hr
      simp only [Except.map, Except.toOption, Option.getD_some, hg]
      exact h.pruned hs
  | connect c =>
    rw [ShaderGraph.edit]
    cases hc : g.connect c with
    | error e => exact h
    | ok g' =>
      obtain ⟨⟨hj, hf⟩, rfl⟩ := connect_eq_ok_iff.mp hc
      exact h.link hj hf
  | disconnect target input =>
    rw [ShaderGraph.edit]
    cases hd : g.disconnect target input with
    | error e => exact h
    | ok removed =>
      obtain ⟨-, hg⟩ := disconnect_eq_ok_iff.mp hd
      simp only [Except.map, Except.toOption, Option.getD_some, hg]
      exact h.unlinked _
  | refresh r => exact h.refresh r

/-- Every edit keeps marks right, if the nodes that come with marks count as late. -/
theorem Synced.edit (h : g.Synced late) (hw : WellFormed g) {e : Edit}
    (he : ∀ node, e = .add node → node.Unmarked ∨ late node.id) :
    WellFormed (g.edit e) ∧ (g.edit e).Synced late := by
  refine ⟨hw.edit e, ?_⟩
  cases e with
  | rename name => exact h
  | arrange id position extent => exact h.arrange id position extent
  | add node =>
    rw [ShaderGraph.edit]
    cases ha : g.addNode node with
    | error e => exact h
    | ok g' =>
      obtain ⟨hid, rfl⟩ := addNode_eq_ok_iff.mp ha
      exact h.push hw (hw.hasNode_eq_false_iff.mp hid) (he node rfl)
  | remove id =>
    rw [ShaderGraph.edit]
    cases hr : g.removeNode id with
    | error e => exact h
    | ok removed =>
      obtain ⟨slot, hs, -, hg⟩ := removeNode_eq_ok_iff.mp hr
      simp only [Except.map, Except.toOption, Option.getD_some, hg]
      exact h.pruned hw hs
  | connect c =>
    rw [ShaderGraph.edit]
    cases hc : g.connect c with
    | error e => exact h
    | ok g' =>
      obtain ⟨-, rfl⟩ := connect_eq_ok_iff.mp hc
      exact h.link hw c
  | disconnect target input =>
    rw [ShaderGraph.edit]
    cases hd : g.disconnect target input with
    | error e => exact h
    | ok removed =>
      obtain ⟨hf, hg⟩ := disconnect_eq_ok_iff.mp hd
      obtain ⟨rfl, rfl⟩ := ends_of_feed? hf
      simp only [Except.map, Except.toOption, Option.getD_some, hg]
      exact h.unlinked hw hf
  | refresh r => exact h.refresh hw r

theorem Synced.run (h : g.Synced late) (hw : WellFormed g) {edits : List Edit}
    (he : ∀ node, .add node ∈ edits → node.Unmarked ∨ late node.id) :
    (g.run edits).Synced late := by
  induction edits generalizing g with
  | nil => exact h
  | cons e edits ih =>
    obtain ⟨hw', h'⟩ := h.edit hw fun node hn ↦ he node (hn ▸ List.mem_cons_self)
    exact ih h' hw' fun node hn ↦ he node (List.mem_cons_of_mem _ hn)

/-- Behind every sequence of edits the marks of a node agree with the connections, unless it came
into the graph with marks and no connection touches it. So marks are right throughout where no node
comes with marks. -/
theorem markedBy_run (h : Opened g) (edits : List Edit) :
    ∀ node ∈ (g.run edits).nodes, node.MarkedBy (g.run edits).connections ∨
      (∃ came, .add came ∈ edits ∧ came.id = node.id ∧ ¬ came.Unmarked) ∧
        Connection.Avoid (g.run edits).connections node.id := by
  obtain ⟨hw, hopened⟩ := h.synced
  have hs : g.Synced fun id ↦ ∃ came, .add came ∈ edits ∧ came.id = id ∧ ¬ came.Unmarked :=
    fun node hn ↦ (hopened node hn).imp_right fun hlate ↦ hlate.1.elim
  refine hs.run hw fun node hn ↦ ?_
  by_cases hu : node.Unmarked
  · exact .inl hu
  · exact .inr ⟨node, hn, rfl, hu⟩

theorem markedBy_run_material :
    ((standardMaterial {}).1.run [.remove 2, .disconnect 4 0]).connections.length = 2 ∧
      ∀ node ∈ ((standardMaterial {}).1.run [.remove 2, .disconnect 4 0]).nodes,
        node.MarkedBy ((standardMaterial {}).1.run [.remove 2, .disconnect 4 0]).connections := by
  refine ⟨by decide, fun node hn ↦ ?_⟩
  refine (markedBy_run (.material {}) [.remove 2, .disconnect 4 0] node hn).resolve_right ?_
  rintro ⟨⟨came, hadd, -⟩, -⟩
  simp at hadd

/-- Two sums, the first of which feeds the second. -/
def paired : ShaderGraph :=
  (((empty "Paired").push (.ofKind 1 (.math .add))).push (.ofKind 2 (.math .add))).link ⟨1, 0, 2, 0⟩

/-- A node that is taken out and put back has marks, and no connections. -/
theorem not_markedBy_put_back :
    ∃ node apart back, paired.removeNode 2 = .ok (node, apart) ∧ apart.addNode node = .ok back ∧
      Reachable Node.Created back ∧ node ∈ back.nodes ∧ ¬ node.MarkedBy back.connections := by
  have hr : Reachable Node.Created paired :=
    .link (.push_ofKind (.push_ofKind (.empty _) (by decide) _) (by decide) _) (by decide)
  have hd : (paired.removeNode 2).toOption.map (fun removed ↦
      (removed.1.inputs.map (·.connected), removed.2.connections, removed.2.hasNode removed.1.id)) =
        some ([true, false], [], false) := by decide
  cases hremove : paired.removeNode 2 with
  | error e => simp [hremove, Except.toOption] at hd
  | ok removed =>
    obtain ⟨node, apart⟩ := removed
    simp only [hremove, Except.toOption, Option.map_some, Option.some.injEq, Prod.mk.injEq] at hd
    obtain ⟨hmarks, hnone, hfree⟩ := hd
    have hadd : apart.addNode node = .ok (apart.push node) := addNode_eq_ok_iff.mpr ⟨hfree, rfl⟩
    refine ⟨node, apart, apart.push node, rfl, hadd, ?_, ?_, ?_⟩
    · exact .restore node.position node.extent (.remove hr hremove) hr hremove hadd
    · exact List.mem_append_right _ (List.mem_singleton_self node)
    · intro hm
      cases hin : node.inputs with
      | nil => simp [hin] at hmarks
      | cons pin pins =>
        rw [hin, List.map_cons, List.cons.injEq] at hmarks
        obtain ⟨c, hc, -⟩ := (hm.inputs 0 pin (by rw [hin]; rfl)).mp hmarks.1
        have hempty : (apart.push node).connections = [] := hnone
        rw [hempty] at hc
        cases hc

end ShaderGraph

end RenderKit
