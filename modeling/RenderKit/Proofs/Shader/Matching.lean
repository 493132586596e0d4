import RenderKit.Proofs.Correspondence
import RenderKit.Proofs.Document.Saving
import RenderKit.Proofs.Shader.Compilability
import Mathlib.Data.List.Find

/-!
# Graphs that are walked side by side

Two graphs match under a renumbering when their nodes do, in order, and what feeds an input of a
node feeds that input of its match. Walks of both then meet matching nodes. A relation of sheets
that the snippets of the nodes keep (`Tracks`) is kept by the walks: they end in related sheets, or
are refused for matching reasons (`Matches.corresponds_walk`).
-/

namespace RenderKit

/-- The error about nodes with other numbers. -/
def CodegenError.renumber (φ : NodeId → NodeId) : CodegenError → CodegenError
  | .cycle node => .cycle (φ node)
  | .nodeNotFound node => .nodeNotFound (φ node)
  | .unresolvedInput node pin => .unresolvedInput (φ node) pin
  | .missingVariable node output => .missingVariable (φ node) output
  | .unboundOutput node output => .unboundOutput (φ node) output
  | .invalidName node name => .invalidName (φ node) name

@[simp] theorem CodegenError.renumber_id (e : CodegenError) : e.renumber id = e := by
  cases e <;> rfl

/-- A node under another number, of the same family and with the same pins. Titles, places and
marks may differ. -/
structure Node.Matches (φ : NodeId → NodeId) (node other : Node) : Prop where
  id : other.id = φ node.id
  kind : other.kind = node.kind
  inputs : other.inputs.map Pin.spec = node.inputs.map Pin.spec
  outputs : other.outputs.map Pin.spec = node.outputs.map Pin.spec

theorem Node.CopiedTo.matches {φ : NodeId → NodeId} {node copy : Node} (h : node.CopiedTo φ copy) :
    node.Matches φ copy :=
  ⟨h.id, h.kind, h.inputs, h.outputs⟩

namespace Node.Matches

variable {φ : NodeId → NodeId} {node other : Node} (h : node.Matches φ other)

include h

theorem length_inputs : other.inputs.length = node.inputs.length := by
  rw [← List.length_map Pin.spec, h.inputs, List.length_map]

/-- Inputs in the same place are declared alike. -/
theorem inputs_zipIdx : List.Forall₂ (fun input input' ↦ input'.1.spec = input.1.spec ∧
    input'.2 = input.2) node.inputs.zipIdx other.inputs.zipIdx := by
  apply List.forall₂_iff_get.mpr
  refine ⟨by rw [List.length_zipIdx, List.length_zipIdx, h.length_inputs], fun i hi hi' ↦ ?_⟩
  rw [List.length_zipIdx] at hi hi'
  have hspec := congrArg (·[i]?) h.inputs
  simp only [List.getElem?_map, List.getElem?_eq_getElem hi, List.getElem?_eq_getElem hi',
    Option.map_some, Option.some.injEq] at hspec
  simp [hspec]

theorem length_outputs : other.outputs.length = node.outputs.length := by
  rw [← List.length_map Pin.spec, h.outputs, List.length_map]

end Node.Matches

namespace ShaderGraph

variable {φ : NodeId → NodeId} {g g' : ShaderGraph}

/-- Graphs of matching nodes in the same order that are fed alike. -/
structure Matches (φ : NodeId → NodeId) (g g' : ShaderGraph) : Prop where
  injective : ∀ a ∈ g.ids, ∀ b ∈ g.ids, φ a = φ b → a = b
  nodes : List.Forall₂ (Node.Matches φ) g.nodes g'.nodes
  fed : ∀ target ∈ g.ids, ∀ input,
    g'.source? (φ target) input = (g.source? target input).map (Prod.map φ id)

/-- Sheets in a relation `T` have expressions in a relation `R` on the outputs of matching nodes,
and running the snippets of matching nodes on related operands keeps this. -/
structure Tracks (φ : NodeId → NodeId) (R : String → String → Prop) (T : Sheet → Sheet → Prop)
    (g : ShaderGraph) : Prop where
  refl : ∀ text, R text text
  start : T {} {}
  bound : ∀ sheet sheet', T sheet sheet' → ∀ node ∈ g.nodes, ∀ output < node.outputs.length,
    Option.Rel R (sheet.get? ⟨node.id, output⟩) (sheet'.get? ⟨φ node.id, output⟩)
  run : ∀ sheet sheet', T sheet sheet' → ∀ node ∈ g.nodes, ∀ inputs inputs',
    List.Forall₂ R inputs inputs' →
      Prod.snd ((node.kind.snippet (φ node.id) inputs').run (φ node.id) sheet') =
        (Prod.snd ((node.kind.snippet node.id inputs).run node.id sheet)).map (.renumber φ) ∧
      T (Prod.fst ((node.kind.snippet node.id inputs).run node.id sheet))
        (Prod.fst ((node.kind.snippet (φ node.id) inputs').run (φ node.id) sheet'))

/-- How far two walks have come that emit matching nodes into related sheets. -/
structure InStep (φ : NodeId → NodeId) (T : Sheet → Sheet → Prop) (g : ShaderGraph)
    (walk walk' : Walk) : Prop where
  known : walk.emitted ⊆ g.ids
  emitted : walk'.emitted = walk.emitted.map φ
  sheet : T walk.sheet walk'.sheet

namespace Matches

section

variable (h : Matches φ g g')

include h

/-- What does not look at numbers sees the same nodes. -/
theorem map_nodes_eq {α : Type} {f : Node → α}
    (hf : ∀ node other : Node, node.Matches φ other → f other = f node) :
    g'.nodes.map f = g.nodes.map f := by
  rw [← List.forall₂_eq_eq_eq, List.forall₂_map_left_iff, List.forall₂_map_right_iff]
  exact (h.nodes.imp fun node other hm ↦ hf node other hm).flip

theorem length_nodes : g'.nodes.length = g.nodes.length :=
  h.nodes.length_eq.symm

theorem roots_eq (stage : Stage) : g'.roots stage = (g.roots stage).map φ := by
  have hnodes := h.nodes
  rw [roots, roots, List.map_map]
  generalize g.nodes = nodes, g'.nodes = others at hnodes
  induction hnodes with
  | nil => rfl
  | cons hm _ ih =>
    rw [List.filter_cons, List.filter_cons, hm.kind]
    split
    · rw [List.map_cons, List.map_cons, ih, hm.id]
      rfl
    · exact ih

theorem customFields_eq : g'.customFields = g.customFields := by
  have hkinds := h.map_nodes_eq (f := Node.kind) fun _ _ hm ↦ hm.kind
  have hfields : ∀ g : ShaderGraph, g.customFields =
      ((g.nodes.map Node.kind).filterMap (·.customField?)).eraseDups := by
    intro g
    rw [List.filterMap_map]
    rfl
  rw [hfields, hfields, hkinds]

theorem feeders_eq {node other : Node} (hn : node ∈ g.nodes) (hm : node.Matches φ other) :
    g'.feeders other = (g.feeders node).map φ := by
  rw [feeders, feeders, hm.length_inputs, List.map_filterMap, hm.id]
  apply List.filterMap_congr
  intro input _
  rw [h.fed node.id (List.mem_map_of_mem hn), Option.map_map, Option.map_map]
  rfl

/-- Every node has a match, which is found under its number. -/
theorem exists_match (hw' : WellFormed g') {node : Node} (hn : node ∈ g.nodes) :
    ∃ other, g'.node? (φ node.id) = some other ∧ node.Matches φ other := by
  obtain ⟨i, hi⟩ := List.mem_iff_getElem?.mp hn
  obtain ⟨hlt, rfl⟩ := List.getElem?_eq_some_iff.mp hi
  have hlt' : i < g'.nodes.length := h.length_nodes ▸ hlt
  have hm := (List.forall₂_iff_get.mp h.nodes).2 i hlt hlt'
  exact ⟨g'.nodes[i], hw'.node?_eq_some_iff.mpr ⟨List.getElem_mem _, hm.id⟩, hm⟩

theorem mem_map_iff {id : NodeId} {ids : List NodeId} (hid : id ∈ g.ids) (hids : ids ⊆ g.ids) :
    φ id ∈ ids.map φ ↔ id ∈ ids := by
  constructor
  · intro hm
    obtain ⟨other, ho, he⟩ := List.mem_map.mp hm
    exact h.injective other (hids ho) id hid he ▸ ho
  · exact List.mem_map_of_mem

end

/-! ### Emitting matching nodes -/

variable {R : String → String → Prop} {T : Sheet → Sheet → Prop}

private theorem isSome_of_rel {expression expression' : Option String}
    (h : Option.Rel R expression expression') : expression'.isSome = expression.isSome := by
  cases h <;> rfl

section

variable (h : Matches φ g g') (hw : WellFormed g) (ht : Tracks φ R T g)

include h hw ht

/-- What is on an input: related expressions, or the same default. -/
private theorem corresponds_operand {sheet sheet' : Sheet} (hsheet : T sheet sheet')
    {node other : Node} (hn : node ∈ g.nodes) (hm : node.Matches φ other) {pin pin' : Pin}
    (hpin : pin'.spec = pin.spec) (i : Nat) :
    Corresponds (fun e e' ↦ e' = e.renumber φ) R (g.operand sheet node (pin, i))
      (g'.operand sheet' other (pin', i)) := by
  have hname : pin'.name = pin.name := congrArg PinSpec.name hpin
  have hdefault : pin'.default = pin.default := congrArg PinSpec.default hpin
  rw [operand, operand, hm.id, h.fed node.id (List.mem_map_of_mem hn)]
  cases hs : g.source? node.id i with
  | none =>
    simp only [Option.map_none, hname, hdefault]
    split
    · exact .error rfl
    · exact .ok (ht.refl _)
  | some feed =>
    obtain ⟨source, output⟩ := feed
    obtain ⟨-, ⟨feeder, hf, hlt⟩, -⟩ := hw.joined _ (mem_of_source? hs)
    obtain ⟨hfeeder, rfl⟩ := hw.node?_eq_some_iff.mp hf
    have hbound := ht.bound sheet sheet' hsheet feeder hfeeder output hlt
    simp only [Option.map_some, Prod.map_apply, id_eq]
    generalize sheet.get? ⟨feeder.id, output⟩ = expression at hbound
    generalize sheet'.get? ⟨φ feeder.id, output⟩ = expression' at hbound
    cases hbound with
    | none => exact .error rfl
    | some hR => exact .ok hR

private theorem corresponds_emit {node other : Node} (hn : node ∈ g.nodes)
    (hm : node.Matches φ other) {walk walk' : Walk} (hwalk : InStep φ T g walk walk') :
    Corresponds (fun e e' ↦ e' = e.renumber φ) (InStep φ T g) (g.emit walk node)
      (g'.emit walk' other) := by
  rw [emit, emit, operands, operands, hm.id, hm.kind, hm.length_outputs]
  have hoperands : Corresponds (fun e e' ↦ e' = e.renumber φ) (List.Forall₂ R)
      (node.inputs.zipIdx.mapM (g.operand walk.sheet node))
      (other.inputs.zipIdx.mapM (g'.operand walk'.sheet other)) := by
    refine Corresponds.mapM hm.inputs_zipIdx ?_
    rintro ⟨pin, i⟩ ⟨pin', i'⟩ ⟨hspec, hi⟩
    obtain rfl : i' = i := hi
    exact h.corresponds_operand hw ht hwalk.sheet hn hm hspec i'
  refine hoperands.bind fun inputs inputs' hinputs ↦ ?_
  obtain ⟨hrefused, hT⟩ := ht.run _ _ hwalk.sheet node hn inputs inputs' hinputs
  revert hrefused hT
  generalize (node.kind.snippet node.id inputs).run node.id walk.sheet = outcome
  generalize (node.kind.snippet (φ node.id) inputs').run (φ node.id) walk'.sheet = outcome'
  obtain ⟨sheet, refused?⟩ := outcome
  obtain ⟨sheet', refused?'⟩ := outcome'
  rintro rfl hT
  cases refused? with
  | some refused => exact .error rfl
  | none =>
    have hbound : (List.range node.outputs.length).find? (fun i ↦ !sheet'.isBound ⟨φ node.id, i⟩) =
        (List.range node.outputs.length).find? (fun i ↦ !sheet.isBound ⟨node.id, i⟩) := by
      apply List.find?_congr
      intro i hi
      rw [Sheet.isBound, Sheet.isBound,
        isSome_of_rel (ht.bound sheet sheet' hT node hn i (List.mem_range.mp hi))]
    simp only [Option.map_none, hbound]
    cases (List.range node.outputs.length).find? fun i ↦ !sheet.isBound ⟨node.id, i⟩ with
    | some output => exact .error rfl
    | none =>
      refine .ok ⟨List.cons_subset.mpr ⟨List.mem_map_of_mem hn, hwalk.known⟩, ?_, hT⟩
      rw [hwalk.emitted, List.map_cons]

end

/-! ### Visiting matching nodes -/

/-- Runs over matching nodes correspond when their steps do. -/
private theorem corresponds_foldlM {f f' : Walk → NodeId → Except CodegenError Walk}
    {ids : List NodeId} (hids : ids ⊆ g.ids)
    (step : ∀ id ∈ g.ids, ∀ walk walk', InStep φ T g walk walk' →
      Corresponds (fun e e' ↦ e' = e.renumber φ) (InStep φ T g) (f walk id) (f' walk' (φ id)))
    {walk walk' : Walk} (hwalk : InStep φ T g walk walk') :
    Corresponds (fun e e' ↦ e' = e.renumber φ) (InStep φ T g) (ids.foldlM f walk)
      ((ids.map φ).foldlM f' walk') := by
  have hmatch : List.Forall₂ (fun id id' ↦ id ∈ g.ids ∧ id' = φ id) ids (ids.map φ) := by
    rw [List.forall₂_map_right_iff]
    exact List.forall₂_same.mpr fun id hid ↦ ⟨hids hid, rfl⟩
  refine Corresponds.foldlM hmatch ?_ hwalk
  rintro id _ ⟨hid, rfl⟩ walk walk' hwalk
  exact step id hid walk walk' hwalk

/-- Matching nodes are visited side by side. -/
private theorem corresponds_visit (h : Matches φ g g') (hw : WellFormed g) (hw' : WellFormed g')
    (ht : Tracks φ R T g) {way : List NodeId} {id : NodeId} (hid : id ∈ g.ids) (hway : way ⊆ g.ids)
    {walk walk' : Walk} (hwalk : InStep φ T g walk walk') :
    Corresponds (fun e e' ↦ e' = e.renumber φ) (InStep φ T g) (g.visit way walk id)
      (g'.visit (way.map φ) walk' (φ id)) := by
  induction way using visit_induction g generalizing id walk walk' with
  | step way ih =>
    obtain ⟨node, hn, rfl⟩ := List.mem_map.mp hid
    obtain ⟨other, hother, hm⟩ := h.exists_match hw' hn
    have hfound := hw.node?_eq_some_iff.mpr ⟨hn, rfl⟩
    simp only [visit_eq, hwalk.emitted, h.mem_map_iff hid hwalk.known, h.mem_map_iff hid hway,
      hfound, hother]
    split
    · exact .ok hwalk
    · split
      · exact .error rfl
      · next hnew =>
        rw [h.feeders_eq hn hm, ← List.map_cons]
        have hfeeders : g.feeders node ⊆ g.ids := by
          intro source hs
          obtain ⟨feeder, hf, rfl⟩ := exists_of_takesFrom hw ((mem_feeders_iff hw hn).mp hs)
          exact List.mem_map_of_mem hf
        refine (corresponds_foldlM hfeeders (fun source hs walk walk' hwalk ↦ ?_) hwalk).bind ?_
        · exact ih node.id node hnew hfound hs (List.cons_subset.mpr ⟨hid, hway⟩) hwalk
        · exact fun walk walk' hwalk ↦ h.corresponds_emit hw ht hn hm hwalk

/-- Graphs that match are walked side by side, and their sheets stay related. -/
theorem corresponds_walk (h : Matches φ g g') (hw : WellFormed g) (hw' : WellFormed g')
    (ht : Tracks φ R T g) (stage : Stage) :
    Corresponds (fun e e' ↦ e' = e.renumber φ) (InStep φ T g) (g.walk stage) (g'.walk stage) := by
  have hroots : g.roots stage ⊆ g.ids := by
    intro id hid
    obtain ⟨node, hn, rfl⟩ := List.mem_map.mp hid
    exact List.mem_map_of_mem (List.mem_filter.mp hn).1
  have hstart : InStep φ T g {} {} :=
    { known := List.nil_subset _
      emitted := rfl
      sheet := ht.start }
  rw [walk, walk, h.roots_eq]
  refine corresponds_foldlM hroots (fun id hid walk walk' hwalk ↦ ?_) hstart
  exact h.corresponds_visit hw hw' ht hid (List.nil_subset _) hwalk

end Matches

end ShaderGraph

end RenderKit
