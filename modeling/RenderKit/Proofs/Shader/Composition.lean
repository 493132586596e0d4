import RenderKit.Proofs.Shader.Compilability
import RenderKit.Proofs.Shader.Compilation
import RenderKit.Proofs.Shader.Contribution

/-!
# What a stage is made of

The body of a stage is put together from what its nodes contribute: each node that the stage needs
contributes once, behind the nodes that it takes values from, and an input that is connected gets
the expression that its source itself bound last (`Composition`). While a walk emits nodes, the
sheet holds for every node within the stride just what the node's own contribution bound
(`Recorded`), since no two outputs share a number.
-/

namespace RenderKit

open Relation

/-- What an emitted node got on its inputs, what it wrote, and what it bound to its outputs, in
order. -/
structure Contribution where
  node : Node
  inputs : List String
  statements : List Statement
  bindings : List (Nat × String)

namespace Contribution

/-- The expression that a node bound last to an output. -/
def expression? (p : Contribution) (output : Nat) : Option String :=
  p.bindings.reverse.lookup output

/-- The node wrote and bound what its family does with these inputs, when it had bound nothing
within the stride. -/
def Authentic (p : Contribution) : Prop :=
  ∃ bound : Nat → Bool, (∀ i < OutputKey.stride, bound i = false) ∧
    (p.node.kind.snippet p.node.id p.inputs).contribution? bound = some (p.statements, p.bindings)

end Contribution

/-- Built-in and templated nodes have fewer outputs than the stride. -/
theorem Node.Faithful.lt_stride {node : Node} (hf : node.Faithful) (ht : node.kind.Templated)
    (hd : ∀ d, node.kind = .custom d → d.definition.Admissible) {output : Nat}
    (h : output < node.outputs.length) : output < OutputKey.stride := by
  rw [hf.length_outputs] at h
  cases hb : node.kind.isBuiltin with
  | true =>
    rw [← NodeKind.length_exposed hb node.id] at h
    exact Nat.lt_of_lt_of_le h (node.kind.length_exposed_le node.id)
  | false =>
    cases hk : node.kind with
    | math | vector | textureSample | input | output =>
      rw [hk] at hb
      cases hb
    | custom d =>
      obtain ⟨t, hdefinition⟩ := ht d hk
      have hadmissible := hd d hk
      rw [hdefinition] at hadmissible
      rw [hk, NodeKind.descriptor, SharedDefinition.descriptor, hdefinition] at h
      exact Nat.lt_trans h hadmissible.length_outputs_lt

namespace ShaderGraph

variable {g : ShaderGraph} {stage : Stage} {walk walk' : Walk} {parts : List Contribution}

/-- The numbers of the nodes that contribute, in order. -/
def contributors (parts : List Contribution) : List NodeId :=
  parts.map (·.node.id)

/-- A connection that starts at a node of a function starts within the stride, where outputs have
numbers of their own; at other nodes all connections do. -/
def Numbered (g : ShaderGraph) (c : Connection) : Prop :=
  ∀ node ∈ g.nodes, node.id = c.source → ∀ d f, node.kind = .custom d →
    d.definition = .native f → c.output < OutputKey.stride

/-- A node got on its inputs what it should: on a connected one the expression that a contributor
bound last to the output where the connection starts, and on any other its default. -/
structure Supplied (g : ShaderGraph) (parts : List Contribution) (p : Contribution) : Prop where
  length : p.inputs.length = p.node.inputs.length
  connected : ∀ c ∈ g.connections, c.target = p.node.id → g.Numbered c →
    ∃ source ∈ parts, source.node.id = c.source ∧
      ∃ expression, source.expression? c.output = some expression ∧
        p.inputs[c.input]? = some expression
  unconnected : ∀ i pin, p.node.inputs[i]? = some pin →
    (∀ c ∈ g.connections, ¬ (c.target = p.node.id ∧ c.input = i)) →
      p.inputs[i]? = some pin.default

/-- Every connection to a node in a list starts at a node in front of it. -/
def Ordered (g : ShaderGraph) (ids : List NodeId) : Prop :=
  ∀ c ∈ g.connections, c.target ∈ ids → [c.source, c.target].Sublist ids

/-- A stage is made of what the needed nodes contribute, each once and behind the nodes that it
takes values from; results come in the order of the graph. -/
structure Composition (g : ShaderGraph) (stage : Stage) (parts : List Contribution) : Prop where
  nodup : (contributors parts).Nodup
  needed : ∀ node, node ∈ parts.map (·.node) ↔ g.Needs stage node
  ordered : Ordered g (contributors parts)
  results : (parts.map (·.node)).filter isResult =
    g.nodes.filter (·.kind.outputStage? == some stage)
  authentic : ∀ p ∈ parts, p.Authentic
  supplied : ∀ p ∈ parts, Supplied g parts p

/-! ### What is emitted is needed -/

/-- A visit emits only what has a property of the visited node that nodes pass on to those they
take values from. -/
private theorem forall_emitted_of_visit (hw : WellFormed g) {P : NodeId → Prop}
    (hP : ∀ {id source}, P id → g.TakesFrom id source → P source) {way : List NodeId} {id : NodeId}
    (hid : P id) (h : ∀ s ∈ walk.emitted, P s) (hv : g.visit way walk id = .ok walk') :
    ∀ s ∈ walk'.emitted, P s := by
  induction way using visit_induction g generalizing walk walk' id with
  | step way ih =>
    rcases visit_eq_ok_iff.mp hv with ⟨-, rfl⟩ | ⟨-, hway, node, between, hn, hb, he⟩
    · exact h
    · obtain ⟨hnode, rfl⟩ := hw.node?_eq_some_iff.mp hn
      have hbetween : ∀ s ∈ between.emitted, P s :=
        foldlM_invariant hb h fun source hs _ _ hp hv ↦
          ih node.id node hway hn (hP hid ((mem_feeders_iff hw hnode).mp hs)) hp hv
      rw [emitted_of_emit he]
      exact List.forall_mem_cons.mpr ⟨hid, hbetween⟩

/-- A walk emits only what its stage needs. -/
theorem needs_of_mem_emitted (hw : WellFormed g) (h : g.walk stage = .ok walk) {node : Node}
    (hn : node ∈ g.nodes) (hm : node.id ∈ walk.emitted) : g.Needs stage node := by
  obtain ⟨root, hroot, hr⟩ := foldlM_invariant
    (P := fun w ↦ ∀ id ∈ w.emitted, ∃ root ∈ g.roots stage, ReflTransGen g.TakesFrom root id)
    h (by simp) (fun root hroot _ _ hp hv ↦ forall_emitted_of_visit hw
      (fun ⟨start, hstart, hr⟩ hs ↦ ⟨start, hstart, hr.tail hs⟩) ⟨root, hroot, .refl⟩ hp hv)
    node.id hm
  exact ⟨hn, root, hroot, hr⟩

/-! ### The record of a walk -/

/-- The outputs on a sheet have the expressions that contributions bound to them last. -/
def Holds (sheet : Sheet) (parts : List Contribution) : Prop :=
  ∀ key : OutputKey, key.output < OutputKey.stride → ∀ expression,
    sheet.get? key = some expression ↔
      ∃ p ∈ parts, p.node.id = key.node ∧ p.expression? key.output = some expression

/-- What a walk did is what the contributions say. -/
structure Recorded (g : ShaderGraph) (walk : Walk) (parts : List Contribution) : Prop where
  emitted : walk.emitted = (contributors parts).reverse
  nodup : (contributors parts).Nodup
  statements : walk.sheet.statements = parts.flatMap (·.statements)
  holds : Holds walk.sheet parts
  ordered : Ordered g (contributors parts)
  authentic : ∀ p ∈ parts, p.Authentic
  supplied : ∀ p ∈ parts, Supplied g parts p

theorem recorded_nil (g : ShaderGraph) : Recorded g {} [] where
  emitted := rfl
  nodup := .nil
  statements := rfl
  holds := by simp [Holds, Sheet.get?]
  ordered := by simp [Ordered, contributors]
  authentic := by simp
  supplied := by simp

/-- Outputs within the stride are those that families and templates have, and those of functions
that are told to be. -/
theorem Numbered.lt_stride {c : Connection} (hw : WellFormed g)
    (hl : ∀ node ∈ g.nodes, node.Faithful)
    (hd : ∀ node ∈ g.nodes, ∀ d, node.kind = .custom d → d.definition.Admissible)
    (hc : c ∈ g.connections) (h : g.Numbered c) : c.output < OutputKey.stride := by
  obtain ⟨-, ⟨node, hsource, hlt⟩, -⟩ := hw.joined c hc
  obtain ⟨hn, hid⟩ := hw.node?_eq_some_iff.mp hsource
  by_cases ht : node.kind.Templated
  · exact (hl node hn).lt_stride ht (hd node hn) hlt
  · obtain ⟨d, hk, hnot⟩ : ∃ d, node.kind = .custom d ∧ ¬ ∃ t, d.definition = .template t := by
      simpa [NodeKind.Templated] using ht
    cases hdef : d.definition with
    | native f => exact h node hn hid d f hk hdef
    | template t => exact absurd ⟨t, hdef⟩ hnot

/-- A node may come behind those that it takes values from. -/
theorem Ordered.concat {ids : List NodeId} (h : Ordered g ids) {id : NodeId}
    (hfed : ∀ source, g.TakesFrom id source → source ∈ ids) : Ordered g (ids ++ [id]) := by
  intro c hc ht
  rcases List.mem_append.mp ht with ht | ht
  · exact (h c hc ht).trans (List.sublist_append_left ids [id])
  · rw [List.mem_singleton.mp ht]
    have hs := hfed c.source ⟨c, hc, List.mem_singleton.mp ht, rfl⟩
    exact (List.singleton_sublist.mpr hs).append (List.Sublist.refl [id])

/-- What no contribution bound is free. -/
theorem Holds.get?_eq_none {sheet : Sheet} (h : Holds sheet parts) {key : OutputKey}
    (hk : key.output < OutputKey.stride) (hnew : ∀ p ∈ parts, p.node.id ≠ key.node) :
    sheet.get? key = none := by
  rw [Option.eq_none_iff_forall_ne_some]
  intro expression hx
  obtain ⟨p, hp, hid, -⟩ := (h key hk expression).mp hx
  exact hnew p hp hid

/-- The bindings of a new node concern no other node's outputs. -/
theorem Holds.concat {sheet after : Sheet} (h : Holds sheet parts) {p : Contribution}
    (hnew : ∀ other ∈ parts, other.node.id ≠ p.node.id)
    (hb : ∀ b ∈ p.bindings, b.1 < OutputKey.stride)
    (ha : ∀ key, after.get? key = (sheet.bindAll p.node.id p.bindings).get? key) :
    Holds after (parts ++ [p]) := by
  rintro ⟨id, i⟩ hi expression
  rw [ha]
  simp only [List.mem_append, List.mem_singleton, or_and_right, exists_or, exists_eq_left]
  by_cases hid : p.node.id = id
  · subst hid
    rw [Sheet.get?_bindAll_own, h.get?_eq_none hi hnew, Option.or_none]
    constructor
    · exact fun he ↦ .inr ⟨rfl, he⟩
    · rintro (⟨other, ho, hid, -⟩ | ⟨-, he⟩)
      · exact absurd hid (hnew other ho)
      · exact he
  -- Keys of other nodes within the stride are other numbers.
  · rw [Sheet.get?_bindAll_of_ne _ hb hi (Ne.symm hid), h ⟨id, i⟩ hi]
    simp [hid]

theorem Recorded.mem_emitted (h : Recorded g walk parts) {id : NodeId} :
    id ∈ walk.emitted ↔ id ∈ contributors parts := by
  rw [h.emitted, List.mem_reverse]

theorem Supplied.append {p : Contribution} (h : Supplied g parts p) (more : List Contribution) :
    Supplied g (parts ++ more) p where
  length := h.length
  connected := fun c hc ht hlt ↦ by
    obtain ⟨source, hs, hsource⟩ := h.connected c hc ht hlt
    exact ⟨source, List.mem_append_left _ hs, hsource⟩
  unconnected := h.unconnected

section

variable (hw : WellFormed g) (hl : ∀ node ∈ g.nodes, node.Faithful)
  (hd : ∀ node ∈ g.nodes, ∀ d, node.kind = .custom d → d.definition.Admissible)
  (h : Recorded g walk parts)

include hw hl hd

section

variable {node : Node} (hn : node ∈ g.nodes)

include h hn

/-- The operands that a walk finds are what the contributions so far supply. -/
private theorem Recorded.supplied_of_operands {inputs : List String}
    (ho : g.operands walk.sheet node = .ok inputs) (statements : List Statement)
    (bindings : List (Nat × String)) : Supplied g parts ⟨node, inputs, statements, bindings⟩ where
  length := length_operands ho
  connected := by
    intro c hc ht hnumbered
    have hlt := hnumbered.lt_stride hw hl hd hc
    obtain ⟨-, -, target, htarget, hin⟩ := hw.joined c hc
    rw [hw.node?_eq_some_iff] at htarget
    obtain rfl := hw.eq_of_id htarget.1 hn (htarget.2.trans ht)
    obtain ⟨expression, hi, hop⟩ := operand_of_operands ho (List.getElem?_eq_getElem hin)
    rw [ShaderGraph.operand, ← ht, hw.source?_of_mem hc] at hop
    cases hb : walk.sheet.get? ⟨c.source, c.output⟩ with
    | none =>
      simp only [hb] at hop
      cases hop
    | some bound =>
      simp only [hb] at hop
      cases hop
      obtain ⟨source, hs, hid, he⟩ := (h.holds ⟨c.source, c.output⟩ hlt _).mp hb
      exact ⟨source, hs, hid, _, he, hi⟩
  unconnected := by
    rintro i pin hi hfed
    obtain ⟨operand, hi', hop⟩ := operand_of_operands ho hi
    obtain ⟨rfl, -⟩ := eq_default_of_operand (source?_eq_none_iff.mpr hfed) hop
    exact hi'

/-- Emitting a node adds what it contributes. -/
theorem Recorded.emit (he : Emission g walk node walk') :
    ∃ p : Contribution, p.node = node ∧ Recorded g walk' (parts ++ [p]) := by
  obtain ⟨inputs, sheet, ho, hrun, -, rfl⟩ := emit_eq_ok_iff.mp he.emit
  obtain ⟨statements, bindings, hc, hs, hb⟩ := Snippet.exists_contribution_of_run hrun
  have hstride : ∀ b ∈ bindings, b.1 < OutputKey.stride :=
    NodeKind.withinStride (hd node hn) node.id
      ((length_operands ho).trans (hl node hn).length_inputs) _ _ _ hc
  have hids : contributors (parts ++ [⟨node, inputs, statements, bindings⟩]) =
      contributors parts ++ [node.id] := List.map_append
  have hnew : ∀ p ∈ parts, p.node.id ≠ node.id := by
    intro p hp hid
    exact he.new (h.mem_emitted.mpr (hid ▸ List.mem_map_of_mem hp))
  exact ⟨⟨node, inputs, statements, bindings⟩, rfl,
    { emitted := by
        rw [hids, List.reverse_append, ← h.emitted]
        rfl
      nodup := by
        rw [hids, List.nodup_append]
        refine ⟨h.nodup, List.nodup_singleton _, fun id hid other ho ↦ ?_⟩
        rw [List.mem_singleton.mp ho]
        rintro rfl
        exact he.new (h.mem_emitted.mpr hid)
      statements := by simp [hs, h.statements]
      holds := h.holds.concat hnew hstride hb
      ordered := by
        rw [hids]
        refine h.ordered.concat fun source hsource ↦ h.mem_emitted.mp ?_
        exact he.fed source ((mem_feeders_iff hw hn).mpr hsource)
      authentic := by
        refine List.forall_mem_append.mpr ⟨h.authentic, List.forall_mem_singleton.mpr ?_⟩
        -- Nothing that was emitted before bound an output of this node.
        refine ⟨_, fun i hi ↦ ?_, hc⟩
        rw [Sheet.isBound, h.holds.get?_eq_none hi hnew]
        rfl
      supplied := by
        refine List.forall_mem_append.mpr ⟨fun p hp ↦ (h.supplied p hp).append _,
          List.forall_mem_singleton.mpr ?_⟩
        exact (h.supplied_of_operands hw hl hd hn ho statements bindings).append _ }⟩

end

/-- Emitting nodes one after the other adds what each contributes. -/
theorem Recorded.emissions {nodes : List Node} (h : Recorded g walk parts)
    (hs : Emissions g walk nodes walk') :
    ∃ more : List Contribution, more.map (·.node) = nodes ∧ Recorded g walk' (parts ++ more) := by
  induction hs generalizing parts with
  | nil => exact ⟨[], rfl, by rwa [List.append_nil]⟩
  | cons he _ ih =>
    have hn := (hw.node?_eq_some_iff.mp he.found).1
    obtain ⟨p, rfl, hp⟩ := h.emit hw hl hd hn he
    obtain ⟨more, rfl, hm⟩ := ih hp
    exact ⟨p :: more, rfl, by rwa [List.append_assoc] at hm⟩

end

/-- A stage that has source is made of what the nodes that it needs contribute. -/
theorem Reachable.exists_composition (h : Reachable Node.Created g)
    (hd : ∀ node ∈ g.nodes, ∀ d, node.kind = .custom d → d.definition.Admissible)
    {layout : Layout} {text : String} (hs : g.source stage layout = .ok text) :
    ∃ parts : List Contribution, Composition g stage parts ∧
      g.body stage = .ok (parts.flatMap (·.statements)) ∧
        Statement.lines layout.indent (parts.flatMap (·.statements)) =
          String.join (parts.map fun p ↦ Statement.lines layout.indent p.statements) := by
  have hw := (h.keeps kept_true).1
  have hf := h.faithful
  obtain ⟨statements, hb, -⟩ := bind_eq_ok_iff.mp hs
  obtain ⟨walk, hwalk, rfl⟩ := map_eq_ok_iff.mp hb
  obtain ⟨nodes, he, hresults⟩ := exists_emissions_of_walk hw
    (fun node hn hr ↦ not_feeds_of_isResult hw hn (hf node hn) hr) hwalk
  obtain ⟨parts, rfl, hp⟩ := (recorded_nil g).emissions hw hf hd he
  rw [List.nil_append] at hp
  refine ⟨parts, ⟨hp.nodup, fun node ↦ ?_, hp.ordered, hresults, hp.authentic, hp.supplied⟩, ?_, ?_⟩
  · have hmem := he.mem_nodes hw
    constructor
    · intro hnode
      obtain ⟨p, hpart, rfl⟩ := List.mem_map.mp hnode
      exact needs_of_mem_emitted hw hwalk (hmem _ hnode)
        (hp.mem_emitted.mpr (List.mem_map_of_mem hpart))
    · intro hneeds
      have hid := hp.mem_emitted.mp ((settled_of_walk hw hwalk).2 node hneeds)
      obtain ⟨p, hpart, hid⟩ := List.mem_map.mp hid
      obtain rfl := hw.eq_of_id (hmem _ (List.mem_map_of_mem hpart)) hneeds.1 hid
      exact List.mem_map_of_mem hpart
  · rw [← hp.statements, ← hb]
  · exact Statement.lines_flatMap layout.indent _ parts

/-- A function that binds its first output for a start, and again to a local that holds its
input. -/
def rebinding : NativeDefinition where
  descriptor :=
    { name := "Rebinding"
      category := "Samples"
      inputs := [⟨"Value", .float, "0.5"⟩]
      outputs := [⟨"Result", .float, ""⟩, ⟨"Known", .float, ""⟩] }
  snippet node inputs :=
    let result := localName "result" node
    .bind 0 "0.0" (.ifBound 0 fun known ↦
      .write (.verbatim ("float " ++ result ++ " = " ++ inputs.head?.getD "" ++ ";"))
        (.bind 0 result (.bind 1 (if known then "1.0" else "0.0") .done)))

theorem admissible_rebinding : (Definition.native rebinding).Admissible := by
  refine .native fun node inputs bound statements bindings hc b hb ↦ ?_
  cases hc
  simp only [id, List.mem_cons, List.not_mem_nil, or_false] at hb
  rcases hb with rfl | rfl | rfl <;> simp [OutputKey.stride]

/-- Both outputs of a function in a sum, through an operation each, and one more colour that takes
the first of them as it is. -/
def forking : ShaderGraph :=
  let shared := (empty "Forking").push (.ofKind 1 (.custom ⟨0, .native rebinding⟩))
  let first := (shared.push (.ofKind 2 (.math .abs))).link ⟨1, 0, 2, 0⟩
  let second := (first.push (.ofKind 3 (.math .sin))).link ⟨1, 1, 3, 0⟩
  let sum := ((second.push (.ofKind 4 (.math .add))).link ⟨2, 0, 4, 0⟩).link ⟨3, 0, 4, 1⟩
  let color := (sum.push (.ofKind 5 (.output .color ""))).link ⟨4, 0, 5, 0⟩
  (color.push (.ofKind 6 (.output .emission ""))).link ⟨1, 0, 6, 0⟩

theorem reachable_forking : Reachable Node.Created forking := by
  unfold forking
  refine .link (.push_ofKind (.link (.push_ofKind (.link (.link (.push_ofKind (.link (.push_ofKind
    (.link (.push_ofKind (.push_ofKind (.empty _) ?_ _) ?_ _) ?_) ?_ _) ?_) ?_ _) ?_) ?_) ?_ _)
    ?_) ?_ _) ?_
  all_goals decide

theorem eq_of_custom_forking {node : Node} (hn : node ∈ forking.nodes) {d : SharedDefinition}
    (hk : node.kind = .custom d) : d = ⟨0, .native rebinding⟩ := by
  have hkinds : forking.nodes.map (·.kind) = [.custom ⟨0, .native rebinding⟩, .math .abs,
      .math .sin, .math .add, .output .color "", .output .emission ""] := rfl
  have hm : NodeKind.custom d ∈ forking.nodes.map (·.kind) := hk ▸ List.mem_map_of_mem hn
  rw [hkinds] at hm
  simpa using hm

theorem exists_composition_forking :
    ∃ parts : List Contribution, Composition forking .fragment parts ∧
      (parts.flatMap (·.statements)).map Statement.text =
        ["float result_1 = 0.5;", "float math_2 = abs(result_1);", "float math_3 = sin(1.0);",
          "float math_4 = math_2 + math_3;", "output.color = math_4;",
          "output.emission = result_1;"] := by
  have hd : ∀ node ∈ forking.nodes, ∀ d, node.kind = .custom d → d.definition.Admissible := by
    intro node hn d hk
    obtain rfl := eq_of_custom_forking hn hk
    exact admissible_rebinding
  have htext : (forking.body .fragment).toOption.map (·.map Statement.text) = some
        ["float result_1 = 0.5;", "float math_2 = abs(result_1);", "float math_3 = sin(1.0);",
          "float math_4 = math_2 + math_3;", "output.color = math_4;",
          "output.emission = result_1;"] := by decide +kernel
  cases hb : forking.body .fragment with
  | error e => simp [hb, Except.toOption] at htext
  | ok statements =>
    have hs : forking.source .fragment {} =
        .ok (fragmentText forking.customFields statements {}) := by
      rw [source, hb]
      rfl
    obtain ⟨parts, hc, hbody, -⟩ := reachable_forking.exists_composition hd hs
    rw [hb] at hbody htext
    cases hbody
    exact ⟨parts, hc, Option.some.inj htext⟩

end ShaderGraph

end RenderKit
