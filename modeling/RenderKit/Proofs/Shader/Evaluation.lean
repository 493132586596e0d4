import RenderKit.Proofs.Refusal
import RenderKit.Proofs.Shader.Semantics
import Mathlib.Data.List.Induction

/-!
# What shader graphs mean

The value of an output of a node, from the values of what is connected to its inputs. A graph may
have cycles, so an output may have no value. The results of a stage are the values on its output
nodes: a field takes the value of the last node that writes it, and offsets are added up.
-/

namespace RenderKit

variable {V : Type}

namespace TextureSample

/-- The channels of the outputs; the first one is the whole sample. -/
def swizzles : List String :=
  ["", "rgb", "r", "g", "b", "a"]

end TextureSample

/-- The value of an output of a node of a family, from the values on its inputs and, for a texture,
that of its sampler. -/
def NodeKind.value? (M : Meaning V) (kind : NodeKind) (sampler : V) (arguments : List V)
    (output : Nat) : Option V :=
  match kind with
  | .math op =>
    if output = 0 then some (M.convert op.resultType (M.operation op arguments)) else none
  | .vector arity =>
    if output = 0 then some (M.convert arity.type (M.construct arity.type arguments)) else none
  | .textureSample _ =>
    match arguments with
    | [texture, coordinate] =>
      let v := M.convert .vec4 (M.sample texture sampler coordinate)
      TextureSample.swizzles[output]?.map fun swizzle ↦
        if swizzle = "" then v else M.channel swizzle v
    | _ => none
  | .input semantic customName =>
    if output = 0 then some (M.free (semantic.expression customName)) else none
  | .output .. | .custom _ => none

/-- The field that a node writes; an offset writes none. -/
def NodeKind.field? : NodeKind → Option String
  | .output semantic customName => semantic.field? customName
  | _ => none

/-- The name of what a node is given from outside, if the graph's author chose it. -/
def NodeKind.givenName? : NodeKind → Option String
  | .input .custom name => some name
  | .textureSample texture => some texture
  | _ => none

namespace ShaderGraph

/-- The name of the texture that a node samples: that of the given value on its first input, or the
input's default. -/
def textureName (g : ShaderGraph) (node : Node) : String :=
  match g.source? node.id 0 with
  | some (source, _) =>
    match (g.node? source).map Node.kind with
    | some (.input .custom name) => name
    | _ => ""
  | none => (node.inputs.head?.map (·.default)).getD ""

/-- The value of an output, from values that are at most so many nodes away. An input that nothing
feeds has the value of its default literal. -/
def valueAt? (M : Meaning V) (g : ShaderGraph) : Nat → NodeId → Nat → Option V
  | 0, _, _ => none
  | depth + 1, id, output => do
    let node ← g.node? id
    let arguments ← node.inputs.zipIdx.mapM fun input ↦
      match g.source? id input.2 with
      | some (source, output) => valueAt? M g depth source output
      | none => some (M.free input.1.default)
    node.kind.value? M (M.free (g.textureName node ++ "Sampler")) arguments output

/-- The value on an input of a node, from values that are at most so many nodes away. -/
def argument? (M : Meaning V) (g : ShaderGraph) (depth : Nat) (id : NodeId) (input : Pin × Nat) :
    Option V :=
  match g.source? id input.2 with
  | some (source, output) => g.valueAt? M depth source output
  | none => some (M.free input.1.default)

theorem valueAt?_succ (M : Meaning V) (g : ShaderGraph) (depth : Nat) (id : NodeId)
    (output : Nat) :
    g.valueAt? M (depth + 1) id output = (g.node? id).bind fun node ↦
      (node.inputs.zipIdx.mapM (g.argument? M depth id)).bind fun arguments ↦
        node.kind.value? M (M.free (g.textureName node ++ "Sampler")) arguments output :=
  rfl

private theorem argument?_of_values {M : Meaning V} {g : ShaderGraph} {depth depth' : Nat}
    (hvalue : ∀ id output v, g.valueAt? M depth id output = some v →
      g.valueAt? M depth' id output = some v) {id : NodeId} {input : Pin × Nat} {v : V}
    (h : g.argument? M depth id input = some v) : g.argument? M depth' id input = some v := by
  rw [argument?] at h ⊢
  split
  · next source output hs =>
    rw [hs] at h
    exact hvalue source output v h
  · next hs =>
    rw [hs] at h
    exact h

/-- A value does not change when nodes further away count. -/
theorem valueAt?_of_le {M : Meaning V} {g : ShaderGraph} {depth depth' : Nat} (hle : depth ≤ depth')
    {id : NodeId} {output : Nat} {v : V} (h : g.valueAt? M depth id output = some v) :
    g.valueAt? M depth' id output = some v := by
  induction depth generalizing depth' id output v with
  | zero => cases h
  | succ depth ih =>
    -- One node of depth is used up on both sides, and the inputs are values of what is left.
    obtain ⟨depth', rfl⟩ := Nat.exists_eq_add_one_of_ne_zero (by omega : depth' ≠ 0)
    rw [valueAt?_succ, Option.bind_eq_some_iff] at h ⊢
    obtain ⟨node, hn, h⟩ := h
    obtain ⟨arguments, ha, h⟩ := Option.bind_eq_some_iff.mp h
    refine ⟨node, hn, Option.bind_eq_some_iff.mpr ⟨arguments, ?_, h⟩⟩
    rw [mapM_eq_some_iff] at ha ⊢
    refine ha.imp fun input v hv ↦ argument?_of_values (fun id output v ↦ ih ?_) hv
    exact Nat.le_of_succ_le_succ hle

theorem argument?_of_le {M : Meaning V} {g : ShaderGraph} {depth depth' : Nat}
    (hle : depth ≤ depth') {id : NodeId} {input : Pin × Nat} {v : V}
    (h : g.argument? M depth id input = some v) : g.argument? M depth' id input = some v :=
  argument?_of_values (fun _ _ _ hv ↦ valueAt?_of_le hle hv) h

/-- The value that a result takes: that on its input. No two nodes are further away from each other
than there are nodes. -/
def result? (M : Meaning V) (g : ShaderGraph) (node : Node) : Option V :=
  node.inputs.zipIdx.head?.bind (g.argument? M g.nodes.length node.id)

/-- The last node of a stage that writes a field, in the order of the nodes. -/
def lastWriter? (g : ShaderGraph) (stage : Stage) (field : String) : Option Node :=
  (g.nodes.filter fun node ↦
    node.kind.field? == some field && node.kind.outputStage? == some stage).getLast?

/-- The nodes of a stage that offset the vertex's position, in order. -/
def offsets (g : ShaderGraph) (stage : Stage) : List Node :=
  g.nodes.filter fun node ↦ node.kind.field? == none && node.kind.outputStage? == some stage

/-- A position with the value of an offset added. -/
def offsetBy? (M : Meaning V) (g : ShaderGraph) (position : V) (node : Node) : Option V :=
  (g.result? M node).map fun v ↦ M.operation .add [position, v]

/-! ### Results one after the other -/

/-- The fields and the position after one node; only results change them. -/
def applied? (M : Meaning V) (g : ShaderGraph) (state : (String → V) × V) (node : Node) :
    Option ((String → V) × V) :=
  if node.kind.outputStage?.isSome then
    (g.result? M node).map fun v ↦
      match node.kind.field? with
      | some field => (Function.update state.1 field v, state.2)
      | none => (state.1, M.operation .add [state.2, v])
  else some state

section

variable {M : Meaning V} {g : ShaderGraph} {node : Node} {v : V}
  (hr : node.kind.outputStage?.isSome)

include hr

theorem applied?_of_field {field : String} (hf : node.kind.field? = some field)
    (hv : g.result? M node = some v) (state : (String → V) × V) :
    g.applied? M state node = some (Function.update state.1 field v, state.2) := by
  simp only [applied?, if_pos hr, hv, hf, Option.map_some]

theorem applied?_of_offset (hf : node.kind.field? = none) (hv : g.result? M node = some v)
    (state : (String → V) × V) :
    g.applied? M state node = some (state.1, M.operation .add [state.2, v]) := by
  simp only [applied?, if_pos hr, hv, hf, Option.map_some]

end

/-- Nodes that are no results may be left out. -/
theorem foldlM_applied?_filter (M : Meaning V) (g : ShaderGraph) (nodes : List Node)
    (state : (String → V) × V) :
    (nodes.filter (·.kind.outputStage?.isSome)).foldlM (g.applied? M) state =
      nodes.foldlM (g.applied? M) state := by
  induction nodes generalizing state with
  | nil => rfl
  | cons node nodes ih =>
    by_cases hr : node.kind.outputStage?.isSome
    · rw [List.filter_cons, if_pos hr, List.foldlM_cons, List.foldlM_cons]
      exact congrArg _ (funext ih)
    · rw [List.filter_cons, if_neg hr, List.foldlM_cons, ih, applied?, if_neg hr]
      rfl

/-- A field has the value of the last of the results that write it; without one it stays. -/
def Written (M : Meaning V) (g : ShaderGraph) (results : List Node) (fields fields' : String → V) :
    Prop :=
  ∀ field,
    match (results.filter (·.kind.field? == some field)).getLast? with
    | some node => g.result? M node = some (fields' field)
    | none => fields' field = fields field

section

variable {M : Meaning V} {g : ShaderGraph} {results : List Node} {fields fields' : String → V}
  {node : Node} (h : Written M g results fields fields')

include h

private theorem Written.concat_field {written : String} {v : V}
    (hf : node.kind.field? = some written) (hv : g.result? M node = some v) :
    Written M g (results ++ [node]) fields (Function.update fields' written v) := by
  intro field
  by_cases he : written = field
  · subst he
    have hlast : [node].filter (·.kind.field? == some written) = [node] := by simp [hf]
    rw [List.filter_append, hlast, List.getLast?_concat, Function.update_self]
    exact hv
  · have hlast : [node].filter (·.kind.field? == some field) = [] := by simp [hf, he]
    rw [List.filter_append, hlast, List.append_nil, Function.update_of_ne (Ne.symm he)]
    exact h field

private theorem Written.concat_offset (hf : node.kind.field? = none) :
    Written M g (results ++ [node]) fields fields' := by
  intro field
  have hlast : [node].filter (·.kind.field? == some field) = [] := by simp [hf]
  rw [List.filter_append, hlast, List.append_nil]
  exact h field

end

/-- Of results in order the last one that writes a field decides it, and offsets are added up. -/
theorem foldlM_applied? (M : Meaning V) (g : ShaderGraph) {results : List Node}
    (hr : ∀ node ∈ results, node.kind.outputStage?.isSome) {state state' : (String → V) × V}
    (h : results.foldlM (g.applied? M) state = some state') :
    Written M g results state.1 state'.1 ∧
      (results.filter (·.kind.field? == none)).foldlM (g.offsetBy? M) state.2 = some state'.2 := by
  -- The last node is split off, since it is the one that decides a field.
  induction results using List.reverseRecOn generalizing state' with
  | nil =>
    cases h
    exact ⟨fun _ ↦ rfl, rfl⟩
  | append_singleton results node ih =>
    rw [List.foldlM_append, Option.bind_eq_bind, Option.bind_eq_some_iff] at h
    obtain ⟨between, hb, h⟩ := h
    obtain ⟨hwritten, hposition⟩ := ih (fun other ho ↦ hr other (List.mem_append_left _ ho)) hb
    have ha : g.applied? M between node = some state' := by simpa using h
    have hnode : node.kind.outputStage?.isSome := hr node (by simp)
    obtain ⟨v, hv⟩ : ∃ v, g.result? M node = some v := by
      rw [applied?, if_pos hnode, Option.map_eq_some_iff] at ha
      exact ha.imp fun _ hv ↦ hv.1
    rw [List.filter_append]
    cases hf : node.kind.field? with
    | some written =>
      rw [applied?_of_field hnode hf hv] at ha
      cases ha
      have hnone : [node].filter (·.kind.field? == none) = [] := by simp [hf]
      rw [hnone, List.append_nil]
      exact ⟨hwritten.concat_field hf hv, hposition⟩
    | none =>
      rw [applied?_of_offset hnode hf hv] at ha
      cases ha
      have hnone : [node].filter (·.kind.field? == none) = [node] := by simp [hf]
      refine ⟨hwritten.concat_offset hf, ?_⟩
      rw [hnone, List.foldlM_append, hposition]
      simp [offsetBy?, hv]

end ShaderGraph

end RenderKit
