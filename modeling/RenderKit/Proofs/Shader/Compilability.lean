import RenderKit.Proofs.Shader.Depth
import RenderKit.Proofs.Shader.Families
import RenderKit.Proofs.Shader.Reachable
import Mathlib.Logic.Relation

/-!
# Which shader graphs have source

A stage needs the nodes that its results take values from, backward along connections. It has
source exactly when none of them lies on a cycle, lacks a value or bears a name that cannot be
written (`Compilable`), and a refusal names such a node (`source_decides`). Nodes that no result
needs do not count, whatever they are.
-/

namespace RenderKit

open Relation

/-- A family is built in, or its definition is a template. -/
def NodeKind.Templated (kind : NodeKind) : Prop :=
  ∀ d, kind = .custom d → ∃ t, d.definition = .template t

/-- A name that a family gives and shader source cannot use. -/
inductive NodeKind.Misnamed : NodeKind → String → Prop where
  | input {name : String} : Text.isIdentifier name = false → Misnamed (.input .custom name) name
  | output {name : String} :
      Text.isIdentifier name = false ∨ name ∈ OutputSemantic.builtinFields →
      Misnamed (.output .custom name) name

/-! ### Snippets -/

namespace Snippet

/-- What is bound stays bound. -/
theorem isBound_run (snippet : Snippet) (node : NodeId) {sheet : Sheet} {key : OutputKey}
    (h : sheet.isBound key = true) : (snippet.run node sheet).1.isBound key = true := by
  induction snippet generalizing sheet with
  | done | reject | fail => exact h
  | write statement next ih => exact ih h
  | bind output expression next ih =>
    refine ih ?_
    rw [Sheet.isBound, Sheet.get?_bind]
    split
    · rfl
    · exact h
  | ifBound output next ih => exact ih _ h

/-- Bindings refuse nothing, and bind each of their outputs. -/
theorem run_binds (bindings : List (Nat × String)) (node : NodeId) (sheet : Sheet) :
    ∃ after, (binds bindings .done).run node sheet = (after, none) ∧
      ∀ b ∈ bindings, after.isBound ⟨node, b.1⟩ = true := by
  induction bindings generalizing sheet with
  | nil => exact ⟨sheet, rfl, by simp⟩
  | cons b bindings ih =>
    obtain ⟨after, hrun, hbound⟩ := ih (sheet.bind ⟨node, b.1⟩ b.2)
    refine ⟨after, hrun, fun other ho ↦ ?_⟩
    rcases List.mem_cons.mp ho with rfl | ho
    · have hb : (sheet.bind ⟨node, other.1⟩ other.2).isBound ⟨node, other.1⟩ = true := by
        rw [Sheet.isBound, Sheet.get?_bind, if_pos rfl]
        rfl
      have hkept := isBound_run (binds bindings .done) node hb
      rwa [hrun] at hkept
    · exact hbound other ho

end Snippet

/-- A template refuses nothing and binds all its outputs. -/
private theorem run_template (t : TemplateDefinition) (node : NodeId) (inputs : List String)
    (sheet : Sheet) :
    ∃ after, (t.snippet node inputs).run node sheet = (after, none) ∧
      ∀ i < t.descriptor.outputs.length, after.isBound ⟨node, i⟩ = true := by
  rw [TemplateDefinition.snippet, Template.snippet, Snippet.run_writes]
  obtain ⟨after, hrun, hbound⟩ := Snippet.run_binds _ node _
  refine ⟨after, hrun, fun i hi ↦ ?_⟩
  exact hbound (i, outputName Template.outputWord node i)
    (List.mem_map.mpr ⟨i, List.mem_range.mpr hi, rfl⟩)

namespace NodeKind

variable {kind : NodeKind} {node : NodeId} {inputs : List String} {sheet after : Sheet}

/-- A snippet that is not refused binds all outputs of its family. -/
theorem isBound_of_run (ht : kind.Templated) (hl : inputs.length = kind.descriptor.inputs.length)
    (h : (kind.snippet node inputs).run node sheet = (after, none)) :
    ∀ i < kind.descriptor.outputs.length, after.isBound ⟨node, i⟩ = true := by
  intro i hi
  cases hb : kind.isBuiltin with
  | true =>
    rw [← length_exposed hb node] at hi
    rw [Sheet.isBound, (contributed_of_run hb hl h).own i _ (List.getElem?_eq_getElem hi)]
    rfl
  | false =>
    cases kind with
    | custom d =>
      obtain ⟨t, hd⟩ := ht d rfl
      obtain ⟨after', hrun, hbound⟩ := run_template t node inputs sheet
      simp only [snippet, hd, Definition.snippet, hrun] at h
      cases h
      simp only [descriptor, SharedDefinition.descriptor, hd] at hi
      exact hbound i hi
    | math | vector | textureSample | input | output => cases hb

/-- Only a name that cannot be written is refused. -/
theorem misnamed_of_run (ht : kind.Templated) {e : CodegenError}
    (h : ((kind.snippet node inputs).run node sheet).2 = some e) :
    ∃ name, e = .invalidName node name ∧ kind.Misnamed name := by
  cases kind with
  | math | vector => cases h
  | textureSample texture =>
    simp only [snippet] at h
    unfold TextureSample.snippet at h
    split at h
    · cases h
    · cases h
  | input semantic customName =>
    simp only [snippet, InputSemantic.snippet] at h
    split at h
    · next hc =>
      simp only [Bool.and_eq_true, decide_eq_true_iff, Bool.not_eq_true'] at hc
      obtain ⟨rfl, hn⟩ := hc
      cases h
      exact ⟨customName, rfl, .input hn⟩
    · cases h
  | output semantic customName =>
    simp only [snippet, OutputSemantic.snippet] at h
    split at h
    · next hc =>
      simp only [Bool.and_eq_true, decide_eq_true_iff, Bool.not_eq_true',
        OutputSemantic.isCustomField, Bool.and_eq_false_iff, Bool.not_eq_false',
        List.contains_iff_mem] at hc
      obtain ⟨rfl, hn⟩ := hc
      cases h
      exact ⟨customName, rfl, .output hn⟩
    · cases h
  | custom d =>
    obtain ⟨t, hd⟩ := ht d rfl
    obtain ⟨after, hrun, -⟩ := run_template t node inputs sheet
    simp only [snippet, hd, Definition.snippet, hrun] at h
    cases h

/-- A name that cannot be written is refused. -/
theorem not_misnamed_of_run (h : (kind.snippet node inputs).run node sheet = (after, none))
    (name : String) : ¬ kind.Misnamed name := by
  rintro (hn | hn)
  · simp only [snippet, InputSemantic.snippet, hn] at h
    cases h
  · have hc : OutputSemantic.isCustomField name = false := by
      rcases hn with hn | hn <;> simp [OutputSemantic.isCustomField, hn]
    simp only [snippet, OutputSemantic.snippet, hc] at h
    cases h

end NodeKind

namespace ShaderGraph

variable {g : ShaderGraph} {stage : Stage} {walk walk' : Walk}

/-! ### What a stage needs -/

/-- A node takes a value from another: a connection runs to it from there. -/
def TakesFrom (g : ShaderGraph) (target source : NodeId) : Prop :=
  ∃ c ∈ g.connections, c.target = target ∧ c.source = source

/-- A node that results of a stage lead back to along connections. -/
def Needs (g : ShaderGraph) (stage : Stage) (node : Node) : Prop :=
  node ∈ g.nodes ∧ ∃ root ∈ g.roots stage, ReflTransGen g.TakesFrom root node.id

/-- An input that no connection feeds and no default literal stands for. -/
def Lacks (g : ShaderGraph) (node : Node) (pin : Pin) : Prop :=
  pin.default = "" ∧ ∃ i, node.inputs[i]? = some pin ∧
    ∀ c ∈ g.connections, ¬ (c.target = node.id ∧ c.input = i)

/-- What a stage needs can be put in an order, has all its values, and can be named. -/
structure Compilable (g : ShaderGraph) (stage : Stage) : Prop where
  acyclic : ∀ node, g.Needs stage node → ¬ TransGen g.TakesFrom node.id node.id
  supplied : ∀ node, g.Needs stage node → ∀ pin, ¬ g.Lacks node pin
  named : ∀ node, g.Needs stage node → ∀ name, ¬ node.kind.Misnamed name

/-- What an error tells of a stage. -/
def Explains (g : ShaderGraph) (stage : Stage) : CodegenError → Prop
  | .cycle id => ∃ node, g.Needs stage node ∧ node.id = id ∧ TransGen g.TakesFrom id id
  | .unresolvedInput id name =>
    ∃ node pin, g.Needs stage node ∧ node.id = id ∧ g.Lacks node pin ∧ pin.name = name
  | .invalidName id name => ∃ node, g.Needs stage node ∧ node.id = id ∧ node.kind.Misnamed name
  | .nodeNotFound _ | .missingVariable .. | .unboundOutput .. => False

theorem Explains.not_compilable {e : CodegenError} (h : g.Explains stage e) :
    ¬ g.Compilable stage := by
  intro hc
  cases e with
  | cycle id =>
    obtain ⟨node, hn, rfl, hcycle⟩ := h
    exact hc.acyclic node hn hcycle
  | unresolvedInput id name =>
    obtain ⟨node, pin, hn, -, hl, -⟩ := h
    exact hc.supplied node hn pin hl
  | invalidName id name =>
    obtain ⟨node, hn, -, hm⟩ := h
    exact hc.named node hn name hm
  | nodeNotFound | missingVariable | unboundOutput => exact h

/-- An input takes one connection, so each connection is the one that feeds its input. -/
theorem WellFormed.source?_of_mem (hw : WellFormed g) {c : Connection} (hc : c ∈ g.connections) :
    g.source? c.target c.input = some (c.source, c.output) := by
  have hfeed : g.feed? c.target c.input = some c := by
    cases hf : g.feed? c.target c.input with
    | none =>
      have hm := feed?_eq_none_iff.mp hf
      exact absurd (List.mem_map.mpr ⟨c, hc, rfl⟩) hm
    | some other =>
      obtain ⟨ht, hi⟩ := ends_of_feed? hf
      have ho := List.mem_of_find?_eq_some hf
      rw [List.inj_on_of_nodup_map hw.single ho hc (Prod.ext ht hi)]
  rw [source?, hfeed]
  rfl

/-- The feeders of a node are the nodes that it takes values from. -/
theorem mem_feeders_iff (hw : WellFormed g) {node : Node} (hn : node ∈ g.nodes) {id : NodeId} :
    id ∈ g.feeders node ↔ g.TakesFrom node.id id := by
  rw [mem_feeders]
  constructor
  · rintro ⟨i, output, -, hs⟩
    exact ⟨_, mem_of_source? hs, rfl, rfl⟩
  · rintro ⟨c, hc, ht, rfl⟩
    obtain ⟨-, -, ⟨target, htarget, hlt⟩⟩ := hw.joined c hc
    rw [ht, hw.node?_eq_some_iff.mpr ⟨hn, rfl⟩] at htarget
    cases htarget
    exact ⟨c.input, c.output, hlt, ht ▸ hw.source?_of_mem hc⟩

/-- An input has no source exactly when no connection feeds it. -/
theorem source?_eq_none_iff {id : NodeId} {input : Nat} :
    g.source? id input = none ↔
      ∀ c ∈ g.connections, ¬ (c.target = id ∧ c.input = input) := by
  rw [source?, Option.map_eq_none_iff, feed?, List.find?_eq_none]
  simp [Connection.feeds]

/-! ### What is emitted -/

/-- The emitted nodes take values from each other only, without a cycle; each has its values, a
name that can be written, and all outputs bound. -/
structure Settled (g : ShaderGraph) (walk : Walk) : Prop where
  closed : ∀ id ∈ walk.emitted, ∀ source, g.TakesFrom id source → source ∈ walk.emitted
  acyclic : ∀ id ∈ walk.emitted, ¬ TransGen g.TakesFrom id id
  supplied : ∀ node ∈ g.nodes, node.id ∈ walk.emitted → ∀ pin, ¬ g.Lacks node pin
  named : ∀ node ∈ g.nodes, node.id ∈ walk.emitted → ∀ name, ¬ node.kind.Misnamed name
  bound : ∀ node ∈ g.nodes, node.id ∈ walk.emitted → ∀ i < node.outputs.length,
    walk.sheet.isBound ⟨node.id, i⟩ = true

theorem settled_start : Settled g {} := by
  constructor <;> intros <;> contradiction

/-- What emitted nodes lead back to is emitted. -/
theorem Settled.mem_of_reaches (h : Settled g walk) {id source : NodeId} (hid : id ∈ walk.emitted)
    (hr : ReflTransGen g.TakesFrom id source) : source ∈ walk.emitted := by
  induction hr with
  | refl => exact hid
  | tail _ hl ih => exact h.closed _ ih _ hl

/-- A node with operands lacks no value. -/
private theorem not_lacks_of_operands {sheet : Sheet} {node : Node} {inputs : List String}
    (h : g.operands sheet node = .ok inputs) (pin : Pin) : ¬ g.Lacks node pin := by
  rintro ⟨hd, i, hi, hfed⟩
  obtain ⟨operand, -, ho⟩ := operand_of_operands h hi
  exact (eq_default_of_operand (source?_eq_none_iff.mpr hfed) ho).2 hd

/-- Emitting a node keeps what is emitted settled. -/
theorem Settled.emit (hw : WellFormed g) (h : Settled g walk) {node : Node}
    (he : Emission g walk node walk') : Settled g walk' := by
  have hn := (hw.node?_eq_some_iff.mp he.found).1
  obtain ⟨inputs, sheet, ho, hrun, hbound, rfl⟩ := emit_eq_ok_iff.mp he.emit
  have hfed : ∀ source, g.TakesFrom node.id source → source ∈ walk.emitted :=
    fun source hs ↦ he.fed source ((mem_feeders_iff hw hn).mpr hs)
  have hcases : ∀ other ∈ g.nodes, other.id ∈ node.id :: walk.emitted →
      other = node ∨ other.id ∈ walk.emitted := by
    intro other hother hm
    exact (List.mem_cons.mp hm).imp_left fun hid ↦ hw.eq_of_id hother hn hid
  refine ⟨fun id hid source hs ↦ ?_, fun id hid hc ↦ ?_, fun other hother hm ↦ ?_,
    fun other hother hm ↦ ?_, fun other hother hm i hi ↦ ?_⟩
  · rcases List.mem_cons.mp hid with rfl | hid
    · exact List.mem_cons_of_mem _ (hfed source hs)
    · exact List.mem_cons_of_mem _ (h.closed id hid source hs)
  · rcases List.mem_cons.mp hid with rfl | hid
    -- A cycle through the new node would run through nodes emitted before, and never leave them.
    · obtain ⟨source, hs, hr⟩ := TransGen.head'_iff.mp hc
      exact he.new (h.mem_of_reaches (hfed source hs) hr)
    · exact h.acyclic id hid hc
  · rcases hcases other hother hm with rfl | hm
    · exact not_lacks_of_operands ho
    · exact h.supplied other hother hm
  · rcases hcases other hother hm with rfl | hm
    · exact NodeKind.not_misnamed_of_run hrun
    · exact h.named other hother hm
  · rcases hcases other hother hm with rfl | hm
    · exact hbound i hi
    · have hkept := Snippet.isBound_run (node.kind.snippet node.id inputs) node.id
        (h.bound other hother hm i hi)
      rwa [hrun] at hkept

theorem Settled.emissions (hw : WellFormed g) (h : Settled g walk) {nodes : List Node}
    (hs : Emissions g walk nodes walk') : Settled g walk' := by
  induction hs with
  | nil => exact h
  | cons he _ ih => exact ih (h.emit hw he)

/-! ### Refusals -/

/-- A node that another takes a value from is in the graph. -/
theorem exists_of_takesFrom (hw : WellFormed g) {target source : NodeId}
    (h : g.TakesFrom target source) : ∃ node ∈ g.nodes, node.id = source := by
  obtain ⟨c, hc, -, rfl⟩ := h
  obtain ⟨-, ⟨node, hnode, -⟩, -⟩ := hw.joined c hc
  exact ⟨node, hw.node?_eq_some_iff.mp hnode⟩

/-- What feeds a needed node is needed. -/
private theorem Needs.feeder {node feeder : Node} (h : g.Needs stage node) (hm : feeder ∈ g.nodes)
    (hs : g.TakesFrom node.id feeder.id) : g.Needs stage feeder := by
  obtain ⟨-, root, hroot, hr⟩ := h
  exact ⟨hm, root, hroot, hr.tail hs⟩

/-- A visit that ends keeps what is emitted settled, and off the way. -/
private theorem settled_of_visit (hw : WellFormed g) {way : List NodeId} {id : NodeId}
    (hway : ∀ s ∈ way, s ∉ walk.emitted) (h : Settled g walk)
    (hv : g.visit way walk id = .ok walk') :
    (∀ s ∈ way, s ∉ walk'.emitted) ∧ Settled g walk' := by
  obtain ⟨nodes, ha, -⟩ := (visited_of_visit hw hway hv).exists_added
  exact ⟨ha.not_mem hway, h.emissions hw ha.emissions⟩

section

variable (hw : WellFormed g) (hf : ∀ node ∈ g.nodes, node.Faithful)
  (ht : ∀ node ∈ g.nodes, node.kind.Templated)

include hw hf ht

/-- A node behind its feeders is refused only for what it lacks or for its name. -/
private theorem explains_of_emit (h : Settled g walk) {node : Node} (hn : g.Needs stage node)
    (hfed : ∀ id ∈ g.feeders node, id ∈ walk.emitted) {e : CodegenError}
    (he : g.emit walk node = .error e) : g.Explains stage e := by
  rw [ShaderGraph.emit, bind_eq_error_iff] at he
  rcases he with he | ⟨inputs, ho, he⟩
  · obtain ⟨⟨pin, i⟩, hm, hop⟩ := exists_of_mapM_error he
    have hi := List.mem_zipIdx_iff_getElem?.mp hm
    rw [ShaderGraph.operand] at hop
    cases hs : g.source? node.id i with
    | none =>
      rw [hs] at hop
      simp only at hop
      split at hop
      · next hd =>
        cases hop
        exact ⟨node, pin, hn, rfl, ⟨hd, i, hi, source?_eq_none_iff.mp hs⟩, rfl⟩
      · cases hop
    | some feed =>
      obtain ⟨source, output⟩ := feed
      -- The feeder is emitted, and the connection starts at one of its outputs, which is bound.
      obtain ⟨-, ⟨feeder, hfeeder, hlt⟩, -⟩ := hw.joined _ (mem_of_source? hs)
      obtain ⟨hmem, rfl⟩ := hw.node?_eq_some_iff.mp hfeeder
      have hlen := (List.getElem?_eq_some_iff.mp hi).1
      have hem := hfed _ (mem_feeders.mpr ⟨i, output, hlen, hs⟩)
      have hb := h.bound feeder hmem hem output hlt
      obtain ⟨expression, hexpr⟩ := Option.isSome_iff_exists.mp hb
      simp only [hs, hexpr] at hop
      cases hop
  · have hlength := (length_operands ho).trans (hf node hn.1).length_inputs
    cases hrun : (node.kind.snippet node.id inputs).run node.id walk.sheet with
    | mk sheet refused? =>
      rw [hrun] at he
      cases refused? with
      | some refused =>
        simp [throw, throwThe, MonadExceptOf.throw] at he
        subst he
        obtain ⟨name, rfl, hm⟩ := NodeKind.misnamed_of_run (ht node hn.1) (by rw [hrun])
        exact ⟨node, hn, rfl, hm⟩
      | none =>
        have hbound := NodeKind.isBound_of_run (ht node hn.1) hlength hrun
        rw [← (hf node hn.1).length_outputs] at hbound
        have hnone : (List.range node.outputs.length).find?
            (fun i ↦ !sheet.isBound ⟨node.id, i⟩) = none := by
          rw [List.find?_eq_none]
          intro i hi
          simp [hbound i (List.mem_range.mp hi)]
        simp only [hnone] at he
        cases he

/-- A visit at the end of a way that takes values from its node is refused only for what a needed
node is. -/
private theorem explains_of_visit {way : List NodeId} {node : Node} (hn : g.Needs stage node)
    (hleads : ∀ s ∈ way, TransGen g.TakesFrom s node.id) (hfresh : ∀ s ∈ way, s ∉ walk.emitted)
    (h : Settled g walk) {e : CodegenError} (he : g.visit way walk node.id = .error e) :
    g.Explains stage e := by
  induction way using visit_induction g generalizing walk node with
  | step way ih =>
    have hfound := hw.node?_eq_some_iff.mpr ⟨hn.1, rfl⟩
    obtain ⟨hnew, ⟨hm, rfl⟩ | ⟨hm, he⟩⟩ := (visit_eq_error_iff hfound).mp he
    · exact ⟨node, hn, rfl, hleads _ hm⟩
    · have hfresh' : ∀ s ∈ node.id :: way, s ∉ walk.emitted :=
        List.forall_mem_cons.mpr ⟨hnew, hfresh⟩
      rcases he with he | ⟨between, hb, he⟩
      · obtain ⟨id, hid, between, ⟨hbetween, hsettled⟩, hvisit⟩ :=
          exists_of_foldlM_error
            (P := fun w ↦ (∀ s ∈ node.id :: way, s ∉ w.emitted) ∧ Settled g w)
            he ⟨hfresh', h⟩ fun id _ w w' hp hv ↦ settled_of_visit hw hp.1 hp.2 hv
        have hfeeds := (mem_feeders_iff hw hn.1).mp hid
        obtain ⟨feeder, hfeeder, rfl⟩ := exists_of_takesFrom hw hfeeds
        have hleads' : ∀ s ∈ node.id :: way, TransGen g.TakesFrom s feeder.id :=
          List.forall_mem_cons.mpr ⟨.single hfeeds, fun s hs ↦ (hleads s hs).tail hfeeds⟩
        exact ih node.id node hm hfound (hn.feeder hfeeder hfeeds) hleads' hbetween hsettled hvisit
      · obtain ⟨hfed, nodes, ha, -⟩ := added_of_visits (visited_of_visit hw) hfresh' hb
        exact explains_of_emit hw hf ht (h.emissions hw ha.emissions) hn hfed he

/-- A walk that is refused tells what is wrong with what the stage needs. -/
private theorem explains_of_walk {e : CodegenError} (he : g.walk stage = .error e) :
    g.Explains stage e := by
  obtain ⟨id, hid, walk, hsettled, hvisit⟩ :=
    exists_of_foldlM_error (P := Settled g) he settled_start
      fun id _ w w' hp hv ↦ (settled_of_visit hw (by simp) hp hv).2
  obtain ⟨node, hm, rfl⟩ := List.mem_map.mp hid
  have hn : g.Needs stage node := ⟨(List.mem_filter.mp hm).1, node.id, hid, .refl⟩
  exact explains_of_visit hw hf ht hn (by simp) (by simp) hsettled hvisit

omit hf ht in
/-- A walk that ends has emitted what the stage needs, and what it emitted is settled. -/
theorem settled_of_walk (h : g.walk stage = .ok walk) :
    Settled g walk ∧ ∀ node, g.Needs stage node → node.id ∈ walk.emitted := by
  obtain ⟨hroots, nodes, ha, -⟩ := added_of_visits (visited_of_visit hw) (by simp) h
  have hs := settled_start.emissions hw ha.emissions
  refine ⟨hs, ?_⟩
  rintro node ⟨-, root, hroot, hr⟩
  exact hs.mem_of_reaches (hroots root hroot) hr

omit hf ht in
private theorem compilable_of_walk (h : g.walk stage = .ok walk) : g.Compilable stage := by
  obtain ⟨hs, hmem⟩ := settled_of_walk hw h
  exact ⟨fun node hn ↦ hs.acyclic _ (hmem node hn),
    fun node hn ↦ hs.supplied node hn.1 (hmem node hn),
    fun node hn ↦ hs.named node hn.1 (hmem node hn)⟩

end

/-- Source is refused where the walk is. -/
theorem source_eq_error_iff {layout : Layout} {e : CodegenError} :
    g.source stage layout = .error e ↔ g.walk stage = .error e := by
  rw [source, body]
  cases g.walk stage with
  | error cause => simp [Except.map]
  | ok walk => cases stage <;> simp [Except.map, bind, Except.bind, pure, Except.pure]

/-- Every stage has source or is refused, after walks that go no deeper than there are nodes. It has
source exactly when what it needs is compilable; a refusal tells which needed node lies on a cycle,
lacks a value, or bears a name that cannot be written. -/
theorem Reachable.source_decides (h : Reachable Node.Created g)
    (ht : ∀ node ∈ g.nodes, node.kind.Templated) (stage : Stage) (layout : Layout) :
    (∀ depth, g.nodes.length ≤ depth →
      (g.sourceWithin depth stage layout).run = some (g.source stage layout)) ∧
      ((∃ text, g.source stage layout = .ok text) ↔ g.Compilable stage) ∧
        ∀ e, g.source stage layout = .error e → g.Explains stage e := by
  have hw := (h.keeps kept_true).1
  have hexplains : ∀ e, g.source stage layout = .error e → g.Explains stage e :=
    fun e he ↦ explains_of_walk hw h.faithful ht (source_eq_error_iff.mp he)
  refine ⟨fun depth hdepth ↦ congrArg ExceptT.run (hw.sourceWithin_eq hdepth stage layout),
    ⟨fun ⟨text, hs⟩ ↦ ?_, fun hc ↦ ?_⟩, hexplains⟩
  · cases hwalk : g.walk stage with
    | ok walk => exact compilable_of_walk hw hwalk
    | error e =>
      rw [source_eq_error_iff.mpr hwalk] at hs
      cases hs
  · cases hs : g.source stage layout with
    | ok text => exact ⟨text, rfl⟩
    | error e => exact absurd hc (hexplains e hs).not_compilable

/-- Two operations that feed each other and a colour, and an offset that needs neither. -/
def looped : ShaderGraph :=
  let sum := (empty "Looped").push (.ofKind 1 (.math .add))
  let both := sum.push (.ofKind 2 (.math .multiply))
  let color := both.push (.ofKind 3 (.output .color ""))
  let all := color.push (.ofKind 4 (.output .positionOffset ""))
  ((all.link ⟨1, 0, 2, 0⟩).link ⟨2, 0, 1, 0⟩).link ⟨2, 0, 3, 0⟩

theorem source_decides_looped :
    looped.source .fragment {} = .error (.cycle 2) ∧
      (looped.sourceWithin 4 .fragment {}).run = some (looped.source .fragment {}) ∧
        TransGen looped.TakesFrom 2 2 ∧ ¬ looped.Compilable .fragment ∧
          looped.Compilable .vertex := by
  have hr : Reachable Node.Created looped := by
    unfold looped
    refine .link (.link (.link (.push_ofKind (.push_ofKind (.push_ofKind (.push_ofKind (.empty _)
      ?_ _) ?_ _) ?_ _) ?_ _) ?_) ?_) ?_
    all_goals decide
  have ht : ∀ node ∈ looped.nodes, node.kind.Templated := by
    intro node hn d hk
    have hb : ∀ node ∈ looped.nodes, node.kind.isBuiltin = true := by decide
    have hbuiltin := hb node hn
    rw [hk] at hbuiltin
    cases hbuiltin
  have hfragment : looped.source .fragment {} = .error (.cycle 2) := by
    rw [source_eq_error_iff]
    have hw : (match looped.walk .fragment with | .ok _ => none | .error e => some e) =
      some (.cycle 2) := by decide +kernel
    cases h : looped.walk .fragment with
    | ok walk => simp [h] at hw
    | error e => simpa [h] using hw
  have hvertex : ∃ text, looped.source .vertex {} = .ok text := by
    have hw : (looped.body .vertex).toOption.map List.length = some 1 := by decide +kernel
    cases h : looped.body .vertex with
    | error e => simp [h, Except.toOption] at hw
    | ok body => exact ⟨vertexText body {}, by rw [source, h]; rfl⟩
  obtain ⟨hdepth, hiff, hexplains⟩ := hr.source_decides ht .fragment {}
  obtain ⟨node, -, hid, hcycle⟩ := hexplains _ hfragment
  refine ⟨hfragment, hdepth 4 (by decide), hcycle, fun hc ↦ ?_,
    (hr.source_decides ht .vertex {}).2.1.mp hvertex⟩
  obtain ⟨text, hs⟩ := hiff.mpr hc
  rw [hfragment] at hs
  cases hs

end ShaderGraph

end RenderKit
