import RenderKit.Proofs.Shader.Emission
import RenderKit.Proofs.Shader.Legibility
import RenderKit.Proofs.Shader.Reachable
import Mathlib.Data.List.Perm.Subperm

/-!
# Statements that agree with the graph

While a walk emits nodes, running the statements so far leaves memory in agreement with the graph
(`Agrees`): the expression on an output of an emitted node reads the output's value. Emitting one
more node keeps this, because the node finds on its inputs what the graph gives it, and because its
local is in no expression of the others.
-/

namespace RenderKit

open RenderKit.Language

namespace ShaderGraph

variable {V : Type} {M : Meaning V} {g : ShaderGraph} {start memory memory' : Memory V}
  {walk walk' : Walk} {node : Node}

/-- A name that is no local of the graph's nodes, and that statements may read. -/
def Foreign (g : ShaderGraph) (name : String) : Prop :=
  name ∉ reserved ∧ ∀ node ∈ g.nodes, node.kind.local? node.id ≠ some name

/-- A graph of built-in nodes with textures that are given by name, and names that are no locals. -/
structure Plain (g : ShaderGraph) : Prop where
  builtin : ∀ node ∈ g.nodes, node.kind.isBuiltin = true
  textures : ∀ node ∈ g.nodes, ∀ texture, node.kind = .textureSample texture →
    ∀ source output, g.source? node.id 0 = some (source, output) →
      ∃ given ∈ g.nodes, given.id = source ∧ ∃ name, given.kind = .input .custom name
  names : ∀ node ∈ g.nodes, ∀ name, node.kind.givenName? = some name → g.Foreign name

/-- An expression stands for an output: it reads the output's value, and will, since it starts with
no local that is still to come. -/
structure Stands (M : Meaning V) (g : ShaderGraph) (walk : Walk) (memory : Memory V) (node : Node)
    (output : Nat) (expression : String) : Prop where
  bound : walk.sheet.get? ⟨node.id, output⟩ = some expression
  atom : Atomic expression
  apart : ∀ other ∈ g.nodes, other.id ∉ walk.emitted →
    other.kind.local? other.id ≠ some (base expression)
  reads : ∃ v, g.valueAt? M walk.emitted.length node.id output = some v ∧
    memory.read? M expression = some v

/-- The statements of a walk lead to memory in which the outputs of the emitted nodes have the
values of the graph. -/
structure Agrees (M : Meaning V) (g : ShaderGraph) (start : Memory V) (walk : Walk)
    (memory : Memory V) : Prop where
  run : start.run? M walk.sheet.statements = some memory
  nodup : walk.emitted.Nodup
  known : walk.emitted ⊆ g.ids
  declared : ∀ name, memory.locals name ≠ none →
    ∃ node ∈ g.nodes, node.kind.local? node.id = some name
  stands : ∀ node ∈ g.nodes, node.id ∈ walk.emitted → ∀ output expression,
    (node.kind.exposed node.id)[output]? = some expression →
      Stands M g walk memory node output expression
  legible : ∀ statement ∈ walk.sheet.statements, statement.Legible

/-! ### What is free -/

/-- A foreign name is no local in memory. -/
theorem Agrees.locals_foreign (h : Agrees M g start walk memory) {name : String}
    (hf : g.Foreign name) : memory.locals name = none := by
  by_contra hne
  obtain ⟨node, hn, hl⟩ := h.declared name hne
  exact hf.2 node hn hl

/-- Each node is emitted at most once. -/
theorem Agrees.length_le (h : Agrees M g start walk memory) :
    walk.emitted.length ≤ g.nodes.length := by
  have hle := (h.nodup.subperm h.known).length_le
  rwa [ids, List.length_map] at hle

theorem Agrees.named?_foreign (h : Agrees M g start walk memory) {name : String}
    (hf : g.Foreign name) : memory.named? M name = some (M.free name) := by
  rw [Memory.named?, if_neg hf.1, h.locals_foreign hf]
  rfl

theorem Agrees.read?_foreign (h : Agrees M g start walk memory) {operand : String}
    (hf : g.Foreign (base operand)) : memory.read? M operand = some (M.free operand) :=
  Memory.read?_of_free M hf.1 (h.locals_foreign hf)

/-- Locals have an underscore in their names. -/
theorem foreign_of_not_mem {name : String} (hu : '_' ∉ name.toList) (hr : name ∉ reserved) :
    g.Foreign name :=
  ⟨hr, fun _ _ hl ↦ hu (NodeKind.underscore_mem_local hl)⟩

/-- The expression of a given value is foreign. -/
theorem Plain.foreign_input (hp : Plain g) (hn : node ∈ g.nodes) {semantic : InputSemantic}
    {customName : String} (hk : node.kind = .input semantic customName)
    (hw : node.kind.Writable) : g.Foreign (base (semantic.expression customName)) := by
  rw [hk] at hw
  rcases (exposed_input hw).2 with ho | hg
  · exact foreign_of_not_mem ho.1 ho.2
  · exact hp.names node hn _ (hk ▸ hg)

/-- A sampler is named unlike any local, since its name ends in a letter. -/
theorem foreign_sampler (texture : String) : g.Foreign (texture ++ "Sampler") := by
  have hlast : (texture ++ "Sampler").toList.getLast? = some 'r' := by
    rw [String.toList_append, List.getLast?_append]
    rfl
  constructor
  · intro hm
    have hreserved : ∀ name ∈ reserved, name.toList.getLast? ≠ some 'r' := by decide
    exact hreserved _ hm hlast
  · intro node _ hl
    have hdigit := NodeKind.isDigit_getLast_local hl hlast
    revert hdigit
    decide

/-! ### Operands -/

/-- An input that nothing feeds has its default as operand and as meaning. -/
theorem operand_default {sheet : Sheet} {pin : Pin} {i : Nat} {operand : String}
    (hs : g.source? node.id i = none) (ho : g.operand sheet node (pin, i) = .ok operand) :
    operand = pin.default ∧
      ∀ depth, g.argument? M depth node.id (pin, i) = some (M.free operand) := by
  obtain ⟨rfl, -⟩ := eq_default_of_operand hs ho
  exact ⟨rfl, fun _ ↦ by simp only [argument?, hs]⟩

/-- The value of a node that the graph is given. -/
theorem valueAt?_input (hw : WellFormed g) (hf : node.Faithful) (hn : node ∈ g.nodes)
    {semantic : InputSemantic} {customName : String}
    (hk : node.kind = .input semantic customName) (depth : Nat) :
    g.valueAt? M (depth + 1) node.id 0 = some (M.free (semantic.expression customName)) := by
  have hlength := hf.length_inputs
  rw [hk] at hlength
  have hinputs : node.inputs = [] := List.eq_nil_of_length_eq_zero hlength
  rw [valueAt?_succ, hw.node?_eq_some_iff.mpr ⟨hn, rfl⟩, Option.bind_some, hinputs, hk]
  rfl

section

variable (hw : WellFormed g) (hf : ∀ node ∈ g.nodes, node.Faithful) (hp : Plain g)
  (h : Agrees M g start walk memory) (he : Emission g walk node walk')

include hw hf hp h he

/-- The operand on a connected input is an expression on an output of an emitted node. -/
theorem exists_stands_of_operand {pin : Pin} {i output : Nat} {source : NodeId} {operand : String}
    (hi : node.inputs[i]? = some pin) (hs : g.source? node.id i = some (source, output))
    (ho : g.operand walk.sheet node (pin, i) = .ok operand) :
    ∃ given ∈ g.nodes, given.id = source ∧
      (given.kind.exposed source)[output]? = some operand ∧
        Stands M g walk memory given output operand := by
  obtain ⟨-, ⟨given, hgiven, hlt⟩, -⟩ := hw.joined _ (mem_of_source? hs)
  obtain ⟨hmem, rfl⟩ := hw.node?_eq_some_iff.mp hgiven
  have hemitted : given.id ∈ walk.emitted := by
    refine he.fed _ (mem_feeders.mpr ⟨i, output, ?_, hs⟩)
    exact (List.getElem?_eq_some_iff.mp hi).1
  have hlength : output < (given.kind.exposed given.id).length := by
    rw [NodeKind.length_exposed (hp.builtin given hmem), ← (hf given hmem).length_outputs]
    exact hlt
  have hst := h.stands given hmem hemitted output _ (List.getElem?_eq_getElem hlength)
  simp only [ShaderGraph.operand, hs, hst.bound] at ho
  cases ho
  exact ⟨given, hmem, rfl, List.getElem?_eq_getElem hlength, hst⟩

/-- An operand reads what the graph gives the input, unless it names a texture. -/
theorem exists_argument {pin : Pin} {i : Nat} {operand : String} (hn : node ∈ g.nodes)
    (hi : node.inputs[i]? = some pin)
    (ht : ∀ texture, node.kind = .textureSample texture → i ≠ 0)
    (ho : g.operand walk.sheet node (pin, i) = .ok operand) :
    ∃ v, g.argument? M walk.emitted.length node.id (pin, i) = some v ∧
      memory.read? M operand = some v := by
  cases hs : g.source? node.id i with
  | some feed =>
    obtain ⟨source, output⟩ := feed
    obtain ⟨given, -, rfl, -, hst⟩ := exists_stands_of_operand hw hf hp h he hi hs ho
    obtain ⟨v, hv, hread⟩ := hst.reads
    exact ⟨v, by simpa only [argument?, hs] using hv, hread⟩
  | none =>
    obtain ⟨rfl, ha⟩ := operand_default (M := M) hs ho
    have hspec : node.kind.descriptor.inputs[i]? = some pin.spec := by
      rw [← (hf node hn).inputs, List.getElem?_map, hi]
      rfl
    have hout := isOutside_default (hp.builtin node hn) hspec ht
    exact ⟨_, ha _, h.read?_foreign (foreign_of_not_mem hout.1 hout.2)⟩

/-- A texture that a node is given is called by the name that its author chose. -/
private theorem texture_operand_given {texture : String} {pin : Pin} {source : NodeId}
    {output : Nat} {operand : String} (hn : node ∈ g.nodes)
    (hk : node.kind = .textureSample texture) (hi : node.inputs[0]? = some pin)
    (hs : g.source? node.id 0 = some (source, output))
    (ho : g.operand walk.sheet node (pin, 0) = .ok operand) :
    g.textureName node = operand ∧ g.Foreign operand ∧
      g.argument? M walk.emitted.length node.id (pin, 0) = some (M.free operand) := by
  obtain ⟨given, hg, rfl, hexposed, hst⟩ := exists_stands_of_operand hw hf hp h he hi hs ho
  obtain ⟨other, hother, hid, name, hkind⟩ := hp.textures node hn texture hk _ _ hs
  obtain rfl := hw.eq_of_id hother hg hid
  have hnode := hw.node?_eq_some_iff.mpr ⟨hg, rfl⟩
  rw [hkind] at hexposed
  obtain ⟨hlt, rfl⟩ := List.getElem?_eq_some_iff.mp hexposed
  obtain rfl : output = 0 := Nat.lt_one_iff.mp hlt
  refine ⟨?_, hp.names other hg _ (by rw [hkind]; rfl), ?_⟩
  · simp only [textureName, hs, hnode, Option.map_some, hkind]
    rfl
  · obtain ⟨v, hv, -⟩ := hst.reads
    have hsucc := valueAt?_of_le (Nat.le_succ _) hv
    rw [valueAt?_input hw (hf other hg) hg hkind] at hsucc
    simp only [argument?, hs, hv]
    exact hsucc.symm

/-- The first operand of a texture's node is the texture's name. -/
theorem texture_operand {texture : String} {pin : Pin} {pins : List Pin} {operand : String}
    (hn : node ∈ g.nodes) (hk : node.kind = .textureSample texture) (hi : node.inputs = pin :: pins)
    (ho : g.operand walk.sheet node (pin, 0) = .ok operand) :
    g.textureName node = operand ∧ g.Foreign operand ∧
      g.argument? M walk.emitted.length node.id (pin, 0) = some (M.free operand) := by
  cases hs : g.source? node.id 0 with
  | some feed => exact texture_operand_given hw hf hp h he hn hk (by rw [hi]; rfl) hs ho
  | none =>
    obtain ⟨rfl, ha⟩ := operand_default (M := M) hs ho
    have hdefault : pin.default = texture := by
      have hm := (hf node hn).inputs
      rw [hi, hk] at hm
      exact congrArg PinSpec.default (List.cons.inj hm).1
    refine ⟨by simp [textureName, hs, hi], ?_, ha _⟩
    rw [hdefault]
    exact hp.names node hn texture (by rw [hk]; rfl)

/-- The operands of a node that samples no texture read what the graph gives its inputs. -/
private theorem exists_reads {inputs : List String} (hn : node ∈ g.nodes)
    (ht : ∀ texture, node.kind ≠ .textureSample texture)
    (ho : g.operands walk.sheet node = .ok inputs) :
    ∃ values, node.inputs.zipIdx.mapM (g.argument? M walk.emitted.length node.id) = some values ∧
      memory.Reads M inputs values := by
  obtain ⟨hlength, hops⟩ := List.forall₂_iff_zip.mp (mapM_eq_ok_iff.mp ho)
  refine exists_mapM_eq_some (List.forall₂_iff_zip.mpr ⟨hlength, ?_⟩)
  intro input operand hm
  have hi := List.mem_zipIdx_iff_getElem?.mp (List.of_mem_zip hm).1
  exact exists_argument hw hf hp h he hn hi (fun texture hk ↦ absurd hk (ht texture)) (hops hm)

/-- The operands of a texture's node are the texture and what reads as the coordinate. -/
private theorem exists_sampled {texture : String} {inputs : List String} (hn : node ∈ g.nodes)
    (hk : node.kind = .textureSample texture) (ho : g.operands walk.sheet node = .ok inputs) :
    ∃ values, node.inputs.zipIdx.mapM (g.argument? M walk.emitted.length node.id) = some values ∧
      Supplied M memory (.textureSample texture) (M.free (g.textureName node ++ "Sampler")) inputs
        values := by
  have hlength := (hf node hn).length_inputs
  rw [hk] at hlength
  obtain ⟨image, coordinate, hi⟩ := List.length_eq_two.mp hlength
  rw [operands, hi] at ho
  obtain - | ⟨hfirst, - | ⟨hsecond, - | _⟩⟩ := mapM_eq_ok_iff.mp ho
  obtain ⟨hname, hforeign, hvalue⟩ := texture_operand hw hf hp h he hn hk hi hfirst
  obtain ⟨c, hc, hread⟩ := exists_argument hw hf hp h he hn (i := 1) (by rw [hi]; rfl)
    (fun _ _ ↦ Nat.one_ne_zero) hsecond
  refine ⟨[_, c], ?_, _, _, _, c, rfl, rfl, h.named?_foreign hforeign, ?_, hread⟩
  · rw [hi]
    exact mapM_eq_some_iff.mpr (.cons hvalue (.cons hc .nil))
  · rw [hname]
    exact h.named?_foreign (foreign_sampler _)

/-- The inputs of a node give it what the graph gives it. -/
theorem exists_supplied {inputs : List String} (hn : node ∈ g.nodes)
    (ho : g.operands walk.sheet node = .ok inputs) :
    ∃ values, node.inputs.zipIdx.mapM (g.argument? M walk.emitted.length node.id) = some values ∧
      Supplied M memory node.kind (M.free (g.textureName node ++ "Sampler")) inputs values := by
  cases hk : node.kind with
  | textureSample texture => exact exists_sampled hw hf hp h he hn hk ho
  | math | vector | input | output | custom =>
    exact exists_reads hw hf hp h he hn (fun texture ht ↦ by rw [hk] at ht; cases ht) ho

/-- The operands around a mark are atoms. -/
private theorem atomic_of_mem_operands {op : MathOperation} {mark : String} {inputs : List String}
    (hn : node ∈ g.nodes) (hk : node.kind = .math op) (hm : op.form = .between mark)
    (ho : g.operands walk.sheet node = .ok inputs) : ∀ operand ∈ inputs, Atomic operand := by
  intro operand hmem
  obtain ⟨hlength, hops⟩ := List.forall₂_iff_get.mp (mapM_eq_ok_iff.mp ho)
  obtain ⟨i, hlt, rfl⟩ := List.mem_iff_getElem.mp hmem
  have hoperand := hops i (by rw [hlength]; exact hlt) hlt
  rw [List.length_zipIdx] at hlength
  simp only [List.get_eq_getElem, List.getElem_zipIdx, Nat.zero_add] at hoperand
  have hi : node.inputs[i]? = some node.inputs[i] := List.getElem?_eq_getElem _
  cases hs : g.source? node.id i with
  | some feed =>
    obtain ⟨_, -, -, -, hst⟩ := exists_stands_of_operand hw hf hp h he hi hs hoperand
    exact hst.atom
  | none =>
    have hinputs : node.inputs.map Pin.spec = op.inputs := by
      rw [(hf node hn).inputs, hk]
      rfl
    have hspec : node.inputs[i].spec ∈ op.inputs := by
      rw [← hinputs]
      exact List.mem_map_of_mem (List.getElem_mem _)
    rw [(operand_default (M := M) hs hoperand).1]
    exact atomic_default hm hspec

/-! ### One node -/

/-- What running the statements of an emitted node does: it changes no local of another node, the
expressions on the node's outputs stand for them, and a result takes its value. -/
structure Effect (M : Meaning V) (g : ShaderGraph) (walk' : Walk) (node : Node)
    (inputs : List String) (memory memory' : Memory V) : Prop where
  run : memory.run? M (node.kind.written node.id inputs) = some memory'
  frame : ∀ name, node.kind.local? node.id ≠ some name → memory'.locals name = memory.locals name
  own : ∀ output expression, (node.kind.exposed node.id)[output]? = some expression →
    Stands M g walk' memory' node output expression
  applied : g.applied? M (memory.fields, memory.position) node =
    some (memory'.fields, memory'.position)

section

variable {inputs : List String} (hn : node ∈ g.nodes)
  (ho : g.operands walk.sheet node = .ok inputs)
  (hc : Contributed node.kind node.id inputs walk.sheet walk'.sheet)

include hn ho hc

private theorem exists_effect_local {name : String} (hl : node.kind.local? node.id = some name) :
    ∃ memory', Effect M g walk' node inputs memory memory' := by
  obtain ⟨values, hargs, hs⟩ := exists_supplied hw hf hp h he hn ho
  obtain ⟨v, hrun, hown⟩ := exists_declare hl
    ((length_operands ho).trans (hf node hn).length_inputs) hs
  refine ⟨_, hrun, ?_, ?_, ?_⟩
  · intro other hne
    refine Function.update_of_ne ?_ _ _
    rintro rfl
    exact hne hl
  · intro output expression hi
    obtain ⟨hbase, hatom, w, hvalue, hread⟩ := hown output expression hi
    refine ⟨hc.own output expression hi, hatom, ?_, w, ?_, hread⟩
    · intro other _ hnot hother
      rw [hbase] at hother
      rw [NodeKind.local?_inj hother hl, emitted_of_emit he.emit] at hnot
      exact hnot List.mem_cons_self
    · rw [emitted_of_emit he.emit, List.length_cons, valueAt?_succ, he.found, Option.bind_some,
        hargs]
      exact hvalue
  · rw [applied?, NodeKind.outputStage?_of_local hl]
    rfl

omit ho in
private theorem exists_effect_input {semantic : InputSemantic} {customName : String}
    (hk : node.kind = .input semantic customName) (hwrite : node.kind.Writable) :
    ∃ memory', Effect M g walk' node inputs memory memory' := by
  have hforeign := hp.foreign_input hn hk hwrite
  refine ⟨memory, ?_, fun _ _ ↦ rfl, ?_, ?_⟩
  · rw [hk]
    rfl
  · intro output expression hi
    have hbound := hc.own output expression hi
    rw [hk] at hi hwrite
    obtain ⟨hlt, rfl⟩ := List.getElem?_eq_some_iff.mp hi
    obtain rfl : output = 0 := Nat.lt_one_iff.mp hlt
    refine ⟨hbound, (exposed_input hwrite).1, fun other hother _ ↦ hforeign.2 other hother, ?_⟩
    rw [emitted_of_emit he.emit]
    exact ⟨_, valueAt?_input hw (hf node hn) hn hk _, h.read?_foreign hforeign⟩
  · rw [applied?, hk]
    rfl

private theorem exists_effect_output {semantic : OutputSemantic} {customName : String}
    (hk : node.kind = .output semantic customName) :
    ∃ memory', Effect M g walk' node inputs memory memory' := by
  have hlength := (hf node hn).length_inputs
  rw [hk] at hlength
  obtain ⟨pin, hi⟩ := List.length_eq_one_iff.mp hlength
  rw [operands, hi] at ho
  obtain - | @⟨_, operand, _, _, hfirst, - | _⟩ := mapM_eq_ok_iff.mp ho
  obtain ⟨v, hv, hread⟩ := exists_argument hw hf hp h he hn (i := 0) (by rw [hi]; rfl)
    (fun texture ht ↦ by rw [hk] at ht; cases ht) hfirst
  have hresult : g.result? M node = some v := by
    rw [result?, hi]
    exact argument?_of_le h.length_le hv
  have hexposed : node.kind.exposed node.id = [] := by
    rw [hk]
    rfl
  have hwritten : node.kind.written node.id [operand] =
      [semantic.statement customName operand] := by
    rw [hk]
    rfl
  have hstage : node.kind.outputStage?.isSome := by
    rw [hk]
    rfl
  have hown : ∀ (memory' : Memory V) (output : Nat) (expression : String),
      (node.kind.exposed node.id)[output]? = some expression →
        Stands M g walk' memory' node output expression := by
    intro memory' output expression hi
    rw [hexposed] at hi
    cases hi
  cases hfield : semantic.field? customName with
  | some field =>
    refine ⟨{ memory with fields := Function.update memory.fields field v }, ?_, fun _ _ ↦ rfl,
      hown _, applied?_of_field hstage (by rw [hk]; exact hfield) hresult _⟩
    rw [hwritten, OutputSemantic.statement, hfield]
    simp [Memory.run?, Memory.step?, hread]
  | none =>
    refine ⟨{ memory with position := M.operation .add [memory.position, v] }, ?_, fun _ _ ↦ rfl,
      hown _, applied?_of_offset hstage (by rw [hk]; exact hfield) hresult _⟩
    rw [hwritten, OutputSemantic.statement, hfield]
    simp [Memory.run?, Memory.step?, hread]

end

end

/-- What stands for an output of an emitted node does so when another node is emitted. -/
private theorem Stands.emit {other : Node} {output : Nat} {expression : String}
    (hst : Stands M g walk memory other output expression) (he : Emission g walk node walk')
    (hn : node ∈ g.nodes) (hne : other.id ≠ node.id) (hlt : output < OutputKey.stride)
    {inputs : List String} (hc : Contributed node.kind node.id inputs walk.sheet walk'.sheet)
    (heffect : Effect M g walk' node inputs memory memory') :
    Stands M g walk' memory' other output expression := by
  refine ⟨?_, hst.atom, ?_, ?_⟩
  · rw [hc.others ⟨other.id, output⟩ hlt hne]
    exact hst.bound
  · intro next hnext hnot
    rw [emitted_of_emit he.emit, List.mem_cons, not_or] at hnot
    exact hst.apart next hnext hnot.2
  · obtain ⟨v, hv, hread⟩ := hst.reads
    rw [emitted_of_emit he.emit, Memory.read?_congr M (heffect.frame _ (hst.apart node hn he.new))]
    exact ⟨v, valueAt?_of_le (Nat.le_succ _) hv, hread⟩

/-- A node whose statements do what they should keeps the agreement. -/
private theorem Agrees.emit (hw : WellFormed g) (h : Agrees M g start walk memory)
    (he : Emission g walk node walk') (hn : node ∈ g.nodes) {inputs : List String}
    (hc : Contributed node.kind node.id inputs walk.sheet walk'.sheet)
    (hlegible : ∀ statement ∈ node.kind.written node.id inputs, statement.Legible)
    (heffect : Effect M g walk' node inputs memory memory') :
    Agrees M g start walk' memory' := by
  have hemitted := emitted_of_emit he.emit
  refine ⟨?_, ?_, ?_, ?_, ?_, ?_⟩
  · rw [hc.statements, Memory.run?_append, h.run]
    exact heffect.run
  · rw [hemitted]
    exact List.nodup_cons.mpr ⟨he.new, h.nodup⟩
  · rw [hemitted]
    exact List.cons_subset.mpr ⟨List.mem_map_of_mem hn, h.known⟩
  · intro name hname
    by_cases hl : node.kind.local? node.id = some name
    · exact ⟨node, hn, hl⟩
    · rw [heffect.frame name hl] at hname
      exact h.declared name hname
  · intro other hother hmem output expression hi
    rw [hemitted, List.mem_cons] at hmem
    -- No older expression starts with the local of the new node, so all of them read as before.
    by_cases hid : other.id = node.id
    · obtain rfl := hw.eq_of_id hother hn hid
      exact heffect.own output expression hi
    · have hmem := hmem.resolve_left hid
      have hlt := (List.getElem?_eq_some_iff.mp hi).1
      have hstride := Nat.lt_of_lt_of_le hlt (NodeKind.length_exposed_le other.kind other.id)
      exact (h.stands other hother hmem output expression hi).emit he hn hid hstride hc heffect
  · intro statement hs
    rw [hc.statements, List.mem_append] at hs
    rcases hs with hs | hs
    · exact h.legible statement hs
    · exact hlegible statement hs

/-- Emitting a node keeps the agreement, and memory changes as the graph has it. -/
theorem Agrees.exists_step (hw : WellFormed g) (hf : ∀ node ∈ g.nodes, node.Faithful) (hp : Plain g)
    (h : Agrees M g start walk memory) (he : Emission g walk node walk') :
    ∃ memory', Agrees M g start walk' memory' ∧
      g.applied? M (memory.fields, memory.position) node =
        some (memory'.fields, memory'.position) := by
  have hn := (hw.node?_eq_some_iff.mp he.found).1
  obtain ⟨inputs, sheet, ho, hrun, -, rfl⟩ := emit_eq_ok_iff.mp he.emit
  have hlength := (length_operands ho).trans (hf node hn).length_inputs
  have hc := contributed_of_run (hp.builtin node hn) hlength hrun
  have hlegible : ∀ statement ∈ node.kind.written node.id inputs, statement.Legible :=
    legible_written hlength fun op mark hk hm ↦
      atomic_of_mem_operands hw hf hp h he hn hk hm ho
  obtain ⟨memory', heffect⟩ : ∃ memory', Effect M g
      { emitted := node.id :: walk.emitted, sheet := sheet } node inputs memory memory' := by
    rcases NodeKind.isBuiltin_cases (hp.builtin node hn) node.id with
      ⟨name, hl⟩ | ⟨semantic, name, hk⟩ | ⟨semantic, name, hk⟩
    · exact exists_effect_local hw hf hp h he hn ho hc hl
    · exact exists_effect_input hw hf hp h he hn hc hk (writable_of_run hrun)
    · exact exists_effect_output hw hf hp h he hn ho hc hk
  exact ⟨memory', h.emit hw he hn hc hlegible heffect, heffect.applied⟩

/-! ### A run -/

/-- Emitting nodes keeps the agreement, and memory changes node by node as the graph has it. -/
theorem Agrees.exists_run (hw : WellFormed g) (hf : ∀ node ∈ g.nodes, node.Faithful) (hp : Plain g)
    {nodes : List Node} (hs : Emissions g walk nodes walk') (h : Agrees M g start walk memory) :
    ∃ memory', Agrees M g start walk' memory' ∧
      nodes.foldlM (g.applied? M) (memory.fields, memory.position) =
        some (memory'.fields, memory'.position) := by
  induction hs generalizing memory with
  | nil => exact ⟨memory, h, rfl⟩
  | cons he _ ih =>
    obtain ⟨between, hb, happlied⟩ := h.exists_step hw hf hp he
    obtain ⟨memory', hm, hrest⟩ := ih hb
    refine ⟨memory', hm, ?_⟩
    rw [List.foldlM_cons, happlied]
    exact hrest

end ShaderGraph

end RenderKit
