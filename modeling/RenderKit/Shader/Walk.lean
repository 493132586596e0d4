import RenderKit.Shader.Graph
import RenderKit.Way

/-!
# The order of emission

The source of a stage starts at its results and goes backward: a node is emitted once, behind all
nodes that feed it. A walk keeps the nodes on its way, by which a cycle shows, the emitted nodes
in order, and the sheet that they wrote. Each step goes to a node of the graph that is not on the
way yet, so the walk ends.
-/

namespace RenderKit

/-- What a walk has done: the emitted nodes, the latest first, and the sheet. -/
structure Walk where
  emitted : List NodeId := []
  sheet : Sheet := {}

namespace ShaderGraph

/-- The expression on an input: the one bound to the output that feeds it, or the default literal
of an input that nothing feeds. -/
def operand (g : ShaderGraph) (sheet : Sheet) (node : Node) (input : Pin × Nat) :
    Except CodegenError String :=
  match g.source? node.id input.2 with
  | some (source, output) =>
    match sheet.get? ⟨source, output⟩ with
    | some expression => .ok expression
    | none => .error (.missingVariable source output)
  | none =>
    if input.1.default = "" then .error (.unresolvedInput node.id input.1.name)
    else .ok input.1.default

/-- The expressions on the inputs of a node, in order. -/
def operands (g : ShaderGraph) (sheet : Sheet) (node : Node) : Except CodegenError (List String) :=
  node.inputs.zipIdx.mapM (g.operand sheet node)

/-- The nodes that feed a node, in the order of its inputs. -/
def feeders (g : ShaderGraph) (node : Node) : List NodeId :=
  (List.range node.inputs.length).filterMap fun i => (g.source? node.id i).map (·.1)

/-- Emits a node whose feeders were emitted: all its outputs must be bound then. -/
def emit (g : ShaderGraph) (walk : Walk) (node : Node) : Except CodegenError Walk := do
  let inputs ← g.operands walk.sheet node
  let (sheet, refused?) := (node.kind.snippet node.id inputs).run node.id walk.sheet
  if let some refused := refused? then throw refused
  match (List.range node.outputs.length).find? fun i => !sheet.isBound ⟨node.id, i⟩ with
  | some output => throw (.unboundOutput node.id output)
  | none => return { emitted := node.id :: walk.emitted, sheet := sheet }

/-- A node that is found has a number in the index. -/
theorem mem_keys_of_node? {g : ShaderGraph} {id : NodeId} {node : Node}
    (h : g.node? id = some node) : id ∈ g.index.keys := by
  obtain ⟨slot, hslot, -⟩ := Option.bind_eq_some_iff.1 h
  rw [Std.ExtTreeMap.mem_keys, Std.ExtTreeMap.mem_iff_isSome_getElem?, hslot]
  rfl

/-- Emits a node behind its feeders, at the end of a way of nodes that wait for it. -/
def visit (g : ShaderGraph) (way : List NodeId) (walk : Walk) (id : NodeId) :
    Except CodegenError Walk :=
  if id ∈ walk.emitted then .ok walk
  else if _ : id ∈ way then .error (.cycle id)
  else
    match _ : g.node? id with
    | none => .error (.nodeNotFound id)
    | some node => do
      let walk ← (g.feeders node).foldlM (fun walk feeder => g.visit (id :: way) walk feeder) walk
      g.emit walk node
termination_by room g.index.keys way
decreasing_by exact room_cons_lt (mem_keys_of_node? ‹_›) ‹_›

/-- A visit of a node that is neither emitted nor waiting visits its feeders and emits it. -/
theorem visit_eq (g : ShaderGraph) (way : List NodeId) (walk : Walk) (id : NodeId) :
    g.visit way walk id =
      if id ∈ walk.emitted then .ok walk
      else if id ∈ way then .error (.cycle id)
      else
        match g.node? id with
        | none => .error (.nodeNotFound id)
        | some node =>
          (g.feeders node).foldlM (g.visit (id :: way)) walk >>= (g.emit · node) := by
  rw [visit]
  split
  · rfl
  · split
    · rfl
    · split <;> simp_all

/-- The results of a stage, in the order of the nodes. -/
def roots (g : ShaderGraph) (stage : Stage) : List NodeId :=
  (g.nodes.filter fun node => node.kind.outputStage? == some stage).map (·.id)

/-- The walk from all results of a stage. -/
def walk (g : ShaderGraph) (stage : Stage) : Except CodegenError Walk :=
  (g.roots stage).foldlM (g.visit []) {}

/-- The statements of a stage. -/
def body (g : ShaderGraph) (stage : Stage) : Except CodegenError (List Statement) :=
  (g.walk stage).map (·.sheet.statements)

end ShaderGraph

end RenderKit
