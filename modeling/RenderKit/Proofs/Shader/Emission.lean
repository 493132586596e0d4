import RenderKit.Proofs.Shader.WellFormed
import RenderKit.Shader.Walk

/-!
# What a walk emits

A walk that ends has emitted nodes one after the other, each once and behind the nodes that feed it
(`Emissions`). Nodes that feed no other come in the order in which they are asked for, so a stage's
results are emitted in the order of the nodes (`exists_emissions_of_walk`).
-/

namespace RenderKit.ShaderGraph

variable {g : ShaderGraph} {walk walk' : Walk}

/-- A node is emitted, not for the first time, behind the nodes that feed it. -/
structure Emission (g : ShaderGraph) (walk : Walk) (node : Node) (walk' : Walk) : Prop where
  found : g.node? node.id = some node
  new : node.id ∉ walk.emitted
  fed : ∀ id ∈ g.feeders node, id ∈ walk.emitted
  emit : g.emit walk node = .ok walk'

/-- Nodes are emitted one after the other. -/
inductive Emissions (g : ShaderGraph) : Walk → List Node → Walk → Prop where
  | nil (walk : Walk) : Emissions g walk [] walk
  | cons {walk between walk' : Walk} {node : Node} {nodes : List Node} :
      Emission g walk node between → Emissions g between nodes walk' →
      Emissions g walk (node :: nodes) walk'

/-- A connection starts at a node. -/
def Feeds (g : ShaderGraph) (node : Node) : Prop :=
  ∃ c ∈ g.connections, c.source = node.id

/-- A visit is followed to the feeders of a node of the graph, each at the end of a longer way. -/
theorem visit_induction (g : ShaderGraph) {P : List NodeId → Prop}
    (step : ∀ way, (∀ id node, id ∉ way → g.node? id = some node → P (id :: way)) → P way)
    (way : List NodeId) : P way := by
  induction way using way_induction g.index.keys with
  | step way ih => exact step way fun id _ hw hn ↦ ih id (mem_keys_of_node? hn) hw

/-- A visit that ends finds the node emitted, or emits it behind its feeders. -/
theorem visit_eq_ok_iff {way : List NodeId} {id : NodeId} :
    g.visit way walk id = .ok walk' ↔
      id ∈ walk.emitted ∧ walk' = walk ∨
        id ∉ walk.emitted ∧ id ∉ way ∧ ∃ node between, g.node? id = some node ∧
          (g.feeders node).foldlM (g.visit (id :: way)) walk = .ok between ∧
            g.emit between node = .ok walk' := by
  rw [visit_eq]
  by_cases hid : id ∈ walk.emitted
  · simp [hid, eq_comm]
  · by_cases hway : id ∈ way
    · simp [hid, hway]
    · cases hn : g.node? id with
      | none => simp [hid, hway]
      | some node => simp [hid, hway, bind_eq_ok_iff]

/-- A visit of a node of the graph is refused on its own way, with a feeder, or when the node is not
emitted behind its feeders. -/
theorem visit_eq_error_iff {way : List NodeId} {id : NodeId} {node : Node}
    (hn : g.node? id = some node) {e : CodegenError} :
    g.visit way walk id = .error e ↔
      id ∉ walk.emitted ∧ (id ∈ way ∧ e = .cycle id ∨
        id ∉ way ∧ ((g.feeders node).foldlM (g.visit (id :: way)) walk = .error e ∨
          ∃ between, (g.feeders node).foldlM (g.visit (id :: way)) walk = .ok between ∧
            g.emit between node = .error e)) := by
  rw [visit_eq, hn]
  by_cases hid : id ∈ walk.emitted
  · simp [hid]
  · by_cases hway : id ∈ way
    · simp [hid, hway, eq_comm]
    · simp [hid, hway, bind_eq_error_iff]

/-! ### One node -/

/-- An input takes its value from where a connection starts. -/
theorem mem_of_source? {id source : NodeId} {input output : Nat}
    (h : g.source? id input = some (source, output)) :
    ⟨source, output, id, input⟩ ∈ g.connections := by
  obtain ⟨c, hc, he⟩ := Option.map_eq_some_iff.mp h
  obtain ⟨rfl, rfl⟩ := ends_of_feed? hc
  cases he
  exact List.mem_of_find?_eq_some hc

theorem mem_feeders {node : Node} {id : NodeId} :
    id ∈ g.feeders node ↔
      ∃ i output, i < node.inputs.length ∧ g.source? node.id i = some (id, output) := by
  simp only [feeders, List.mem_filterMap, List.mem_range, Option.map_eq_some_iff, Prod.exists]
  constructor
  · rintro ⟨i, hi, source, output, hs, rfl⟩
    exact ⟨i, output, hi, hs⟩
  · rintro ⟨i, output, hi, hs⟩
    exact ⟨i, hi, id, output, hs, rfl⟩

/-- Every input has an operand. -/
theorem length_operands {node : Node} {sheet : Sheet} {inputs : List String}
    (h : g.operands sheet node = .ok inputs) : inputs.length = node.inputs.length := by
  rw [← (List.forall₂_iff_zip.mp (mapM_eq_ok_iff.mp h)).1, List.length_zipIdx]

/-- Each input has the operand in its place. -/
theorem operand_of_operands {node : Node} {sheet : Sheet} {inputs : List String}
    (h : g.operands sheet node = .ok inputs) {i : Nat} {pin : Pin}
    (hi : node.inputs[i]? = some pin) :
    ∃ operand, inputs[i]? = some operand ∧ g.operand sheet node (pin, i) = .ok operand := by
  obtain ⟨hlt, hpin⟩ := List.getElem?_eq_some_iff.mp hi
  have hlt' : i < inputs.length := by rwa [length_operands h]
  have hop := (List.forall₂_iff_get.mp (mapM_eq_ok_iff.mp h)).2 i (by simpa using hlt) hlt'
  simp only [List.get_eq_getElem, List.getElem_zipIdx, Nat.zero_add, hpin] at hop
  exact ⟨inputs[i], List.getElem?_eq_getElem hlt', hop⟩

/-- An input that no connection feeds has its default as operand. -/
theorem eq_default_of_operand {node : Node} {sheet : Sheet} {pin : Pin} {i : Nat} {operand : String}
    (hs : g.source? node.id i = none) (ho : g.operand sheet node (pin, i) = .ok operand) :
    operand = pin.default ∧ pin.default ≠ "" := by
  simp only [ShaderGraph.operand, hs] at ho
  split at ho
  · cases ho
  · next hd =>
    cases ho
    exact ⟨rfl, hd⟩

/-- Emitting takes operands, runs the snippet, and finds all outputs bound. -/
theorem emit_eq_ok_iff {node : Node} :
    g.emit walk node = .ok walk' ↔
      ∃ inputs sheet, g.operands walk.sheet node = .ok inputs ∧
        (node.kind.snippet node.id inputs).run node.id walk.sheet = (sheet, none) ∧
          (∀ i < node.outputs.length, sheet.isBound ⟨node.id, i⟩ = true) ∧
            walk' = { emitted := node.id :: walk.emitted, sheet := sheet } := by
  rw [emit, bind_eq_ok_iff]
  refine exists_congr fun inputs ↦ ?_
  generalize (node.kind.snippet node.id inputs).run node.id walk.sheet = outcome
  obtain ⟨sheet, refused?⟩ := outcome
  cases refused? with
  | some refused => simp [throw, throwThe, MonadExceptOf.throw]
  | none =>
    simp only [Prod.mk.injEq, and_true, exists_and_left, exists_eq_left']
    refine and_congr_right fun _ ↦ ?_
    split
    · next output hf =>
      have hb : sheet.isBound ⟨node.id, output⟩ = false := by simpa using List.find?_some hf
      have hlt := List.mem_range.mp (List.mem_of_find?_eq_some hf)
      constructor
      · intro h
        cases h
      · rintro ⟨h, -⟩
        rw [h output hlt] at hb
        cases hb
    · next hf =>
      have hb : ∀ i < node.outputs.length, sheet.isBound ⟨node.id, i⟩ = true := by
        intro i hi
        simpa using List.find?_eq_none.mp hf i (List.mem_range.mpr hi)
      constructor
      · intro h
        cases h
        exact ⟨hb, rfl⟩
      · rintro ⟨-, rfl⟩
        rfl

theorem emitted_of_emit {node : Node} (h : g.emit walk node = .ok walk') :
    walk'.emitted = node.id :: walk.emitted := by
  obtain ⟨_, _, -, -, -, rfl⟩ := emit_eq_ok_iff.mp h
  rfl

/-! ### Many nodes -/

theorem Emissions.append {between : Walk} {first second : List Node}
    (h : Emissions g walk first between) (h' : Emissions g between second walk') :
    Emissions g walk (first ++ second) walk' := by
  induction h with
  | nil => exact h'
  | cons he _ ih => exact .cons he (ih h')

theorem Emissions.emitted {nodes : List Node} (h : Emissions g walk nodes walk') :
    walk'.emitted = (nodes.map (·.id)).reverse ++ walk.emitted := by
  induction h with
  | nil => rfl
  | cons he _ ih =>
    rw [ih, emitted_of_emit he.emit, List.map_cons, List.reverse_cons, List.append_assoc]
    rfl

theorem Emissions.mem_nodes {nodes : List Node} (hw : WellFormed g)
    (h : Emissions g walk nodes walk') : ∀ node ∈ nodes, node ∈ g.nodes := by
  induction h with
  | nil => exact fun _ hm ↦ absurd hm List.not_mem_nil
  | cons he _ ih =>
    intro node hm
    rcases List.mem_cons.mp hm with rfl | hm
    · exact (hw.node?_eq_some_iff.mp he.found).1
    · exact ih node hm

/-- What visiting adds past a way of waiting nodes: nothing on the way, and only what feeds others
in front of what was asked for. -/
structure Added (g : ShaderGraph) (way : List NodeId) (walk : Walk) (nodes : List Node)
    (walk' : Walk) : Prop where
  emissions : Emissions g walk nodes walk'
  apart : ∀ node ∈ nodes, node.id ∉ way

/-- A visited node is there, or it is emitted behind nodes that feed others. -/
def Visited (g : ShaderGraph) (way : List NodeId) (walk : Walk) (id : NodeId) (walk' : Walk) :
    Prop :=
  id ∈ walk.emitted ∧ walk' = walk ∨
    ∃ front node, node.id = id ∧ Added g way walk (front ++ [node]) walk' ∧
      ∀ other ∈ front, g.Feeds other

private theorem Visited.mem {way : List NodeId} {id : NodeId} (h : Visited g way walk id walk') :
    id ∈ walk'.emitted := by
  rcases h with ⟨hm, rfl⟩ | ⟨front, node, rfl, ha, -⟩
  · exact hm
  · rw [ha.emissions.emitted]
    simp

/-- Visiting emits nothing, or the node behind nodes that feed others. -/
theorem Visited.exists_added {way : List NodeId} {id : NodeId}
    (h : Visited g way walk id walk') :
    ∃ nodes, Added g way walk nodes walk' ∧ ∀ node ∈ nodes, node.id = id ∨ g.Feeds node := by
  rcases h with ⟨-, rfl⟩ | ⟨front, node, rfl, ha, hf⟩
  · exact ⟨[], ⟨.nil _, by simp⟩, by simp⟩
  · refine ⟨front ++ [node], ha, fun other ho ↦ ?_⟩
    rcases List.mem_append.mp ho with ho | ho
    · exact .inr (hf other ho)
    · exact .inl (List.mem_singleton.mp ho ▸ rfl)

theorem Added.not_mem {way : List NodeId} {nodes : List Node}
    (h : Added g way walk nodes walk') (hway : ∀ s ∈ way, s ∉ walk.emitted) :
    ∀ s ∈ way, s ∉ walk'.emitted := by
  intro s hs hm
  rw [h.emissions.emitted, List.mem_append, List.mem_reverse] at hm
  rcases hm with hm | hm
  · obtain ⟨node, hnode, rfl⟩ := List.mem_map.mp hm
    exact h.apart node hnode hs
  · exact hway s hs hm

/-- Visits one after the other emit what was asked for, and nothing on the way. -/
theorem added_of_visits {way ids : List NodeId}
    (visited : ∀ {walk walk' : Walk} {id : NodeId}, (∀ s ∈ way, s ∉ walk.emitted) →
      g.visit way walk id = .ok walk' → Visited g way walk id walk')
    (hway : ∀ s ∈ way, s ∉ walk.emitted) (h : ids.foldlM (g.visit way) walk = .ok walk') :
    (∀ id ∈ ids, id ∈ walk'.emitted) ∧
      ∃ nodes, Added g way walk nodes walk' ∧ ∀ node ∈ nodes, node.id ∈ ids ∨ g.Feeds node := by
  induction ids generalizing walk with
  | nil =>
    cases h
    exact ⟨by simp, [], ⟨.nil _, by simp⟩, by simp⟩
  | cons id ids ih =>
    rw [List.foldlM_cons, bind_eq_ok_iff] at h
    obtain ⟨between, hb, h⟩ := h
    have hv := visited hway hb
    obtain ⟨nodes, hn, hfeeds⟩ := hv.exists_added
    obtain ⟨hids, more, hm, hfeeds'⟩ := ih (hn.not_mem hway) h
    refine ⟨fun other ho ↦ ?_, nodes ++ more, ⟨hn.emissions.append hm.emissions, ?_⟩, ?_⟩
    · rcases List.mem_cons.mp ho with rfl | ho
      · rw [hm.emissions.emitted]
        exact List.mem_append_right _ hv.mem
      · exact hids other ho
    · intro node hnode
      rcases List.mem_append.mp hnode with hnode | hnode
      · exact hn.apart node hnode
      · exact hm.apart node hnode
    · intro node hnode
      rcases List.mem_append.mp hnode with hnode | hnode
      · exact (hfeeds node hnode).imp_left fun he ↦ List.mem_cons.mpr (.inl he)
      · exact (hfeeds' node hnode).imp_left (List.mem_cons_of_mem _)

/-- A new node is emitted behind what feeds it. -/
private theorem visited_of_emit {way : List NodeId} {between : Walk} {node : Node}
    (visited : ∀ {walk walk' : Walk} {id : NodeId}, (∀ s ∈ node.id :: way, s ∉ walk.emitted) →
      g.visit (node.id :: way) walk id = .ok walk' →
        Visited g (node.id :: way) walk id walk')
    (hn : g.node? node.id = some node) (hid : node.id ∉ way)
    (hway : ∀ s ∈ node.id :: way, s ∉ walk.emitted)
    (hb : (g.feeders node).foldlM (g.visit (node.id :: way)) walk = .ok between)
    (he : g.emit between node = .ok walk') : Visited g way walk node.id walk' := by
  obtain ⟨hfed, nodes, ha, hfeeds⟩ := added_of_visits visited hway hb
  have hnew := ha.not_mem hway node.id List.mem_cons_self
  refine .inr ⟨nodes, node, rfl, ⟨?_, ?_⟩, ?_⟩
  · exact ha.emissions.append (.cons ⟨hn, hnew, hfed, he⟩ (.nil _))
  · intro other ho
    rcases List.mem_append.mp ho with ho | ho
    · exact fun hs ↦ ha.apart other ho (List.mem_cons_of_mem _ hs)
    · exact List.mem_singleton.mp ho ▸ hid
  · intro other ho
    rcases hfeeds other ho with hf | hf
    · obtain ⟨i, output, -, hs⟩ := mem_feeders.mp hf
      exact ⟨_, mem_of_source? hs, rfl⟩
    · exact hf

/-- A visit that ends has emitted the node behind what feeds it. -/
theorem visited_of_visit (hw : WellFormed g) {way : List NodeId} {id : NodeId}
    (hway : ∀ s ∈ way, s ∉ walk.emitted) (h : g.visit way walk id = .ok walk') :
    Visited g way walk id walk' := by
  induction way using visit_induction g generalizing walk walk' id with
  | step way ih =>
    rcases visit_eq_ok_iff.mp h with ⟨hm, rfl⟩ | ⟨hm, hid, node, between, hn, hb, he⟩
    · exact .inl ⟨hm, rfl⟩
    · obtain rfl := (hw.node?_eq_some_iff.mp hn).2
      have hway' : ∀ s ∈ node.id :: way, s ∉ walk.emitted :=
        List.forall_mem_cons.mpr ⟨hm, hway⟩
      exact visited_of_emit (ih node.id node hid hn) hn hid hway' hb he

/-! ### A stage -/

/-- Whether a node is a result of a stage. -/
def isResult (node : Node) : Bool :=
  node.kind.outputStage?.isSome

private theorem exists_emissions_of_visits (hw : WellFormed g)
    (hout : ∀ node ∈ g.nodes, isResult node = true → ¬ g.Feeds node)
    {start walk walk' : Walk} {results done : List Node} (hstart : start.emitted = [])
    (hr : ∀ node ∈ results, node ∈ g.nodes ∧ isResult node = true)
    (hd : Emissions g start done walk) (hn : (done.filter isResult ++ results).Nodup)
    (h : (results.map (·.id)).foldlM (g.visit []) walk = .ok walk') :
    ∃ nodes, Emissions g start nodes walk' ∧
      nodes.filter isResult = done.filter isResult ++ results := by
  induction results generalizing walk done with
  | nil =>
    cases h
    exact ⟨done, hd, by simp⟩
  | cons result results ih =>
    rw [List.map_cons, List.foldlM_cons, bind_eq_ok_iff] at h
    obtain ⟨between, hb, h⟩ := h
    obtain ⟨hmem, hres⟩ := hr result List.mem_cons_self
    rcases visited_of_visit hw (by simp) hb with ⟨hid, -⟩ | ⟨front, node, hid, ha, hf⟩
    · rw [hd.emitted, hstart, List.append_nil, List.mem_reverse] at hid
      obtain ⟨earlier, he, hid⟩ := List.mem_map.mp hid
      -- A result feeds no node, so it was asked for before, and the list would hold it twice.
      obtain rfl := hw.eq_of_id (hd.mem_nodes hw earlier he) hmem hid
      have hsame := (List.nodup_append.mp hn).2.2 earlier (List.mem_filter.mpr ⟨he, hres⟩) earlier
      exact absurd rfl (hsame List.mem_cons_self)
    · have hnodes := ha.emissions.mem_nodes hw
      obtain rfl := hw.eq_of_id (hnodes node (by simp)) hmem hid
      have hfront : front.filter isResult = [] := by
        rw [List.filter_eq_nil_iff]
        intro other ho hres'
        exact hout other (hnodes other (List.mem_append_left _ ho)) hres' (hf other ho)
      have hfilter : (done ++ (front ++ [node])).filter isResult =
          done.filter isResult ++ [node] := by
        rw [List.filter_append, List.filter_append, hfront, List.nil_append,
          List.filter_cons_of_pos hres, List.filter_nil]
      rw [← List.singleton_append, ← List.append_assoc, ← hfilter] at hn ⊢
      exact ih (fun other ho ↦ hr other (List.mem_cons_of_mem _ ho)) (hd.append ha.emissions) hn h

/-- A walk of a stage emits the stage's results in the order of the nodes, and no other results. -/
theorem exists_emissions_of_walk (hw : WellFormed g)
    (hout : ∀ node ∈ g.nodes, isResult node = true → ¬ g.Feeds node) {stage : Stage}
    (h : g.walk stage = .ok walk) :
    ∃ nodes, Emissions g {} nodes walk ∧
      nodes.filter isResult = g.nodes.filter (·.kind.outputStage? == some stage) := by
  have hn : (g.nodes.filter (·.kind.outputStage? == some stage)).Nodup :=
    hw.nodup.of_map.filter _
  refine exists_emissions_of_visits hw hout rfl (fun node hm ↦ ?_) (.nil {}) hn h
  obtain ⟨hm, hs⟩ := List.mem_filter.mp hm
  exact ⟨hm, by rw [isResult, beq_iff_eq.mp hs]; rfl⟩

end RenderKit.ShaderGraph
