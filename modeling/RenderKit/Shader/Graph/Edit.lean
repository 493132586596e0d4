import RenderKit.Shader.Graph

/-!
# Editing shader graphs

Adding and removing nodes and connections. Each edit checks its operands in a fixed order and then
marks the pins of the nodes at the ends of the connections that came or went. A refused edit has
no result, so the graph stays as it was.
-/

namespace RenderKit.ShaderGraph

/-- Puts a node behind the others. -/
def push (g : ShaderGraph) (node : Node) : ShaderGraph :=
  { g with nodes := g.nodes ++ [node], index := g.index.insert node.id g.nodes.length }

/-- Adds a node that the graph does not have. -/
def addNode (g : ShaderGraph) (node : Node) : Except GraphError ShaderGraph :=
  if g.hasNode node.id then .error (.duplicateNode node.id) else .ok (g.push node)

/-- The graph without the node in a slot and without some connections, its nodes indexed anew. -/
def without (g : ShaderGraph) (slot : Nat) (kept : List Connection) : ShaderGraph :=
  let nodes := g.nodes.eraseIdx slot
  { g with nodes := nodes, index := slotsById nodes, connections := kept }

/-- Removes a node with its connections. The node is handed out as it was. -/
def removeNode (g : ShaderGraph) (id : NodeId) : Except GraphError (Node × ShaderGraph) :=
  match g.index[id]?, g.node? id with
  | some slot, some node =>
    let (gone, kept) := g.connections.partition (·.touches id)
    .ok (node, (g.without slot kept).syncAll (gone.map (·.otherEnd id)).eraseDups)
  | _, _ => .error (.nodeNotFound id)

/-- Refuses a connection that the graph cannot have. -/
def checkConnection (g : ShaderGraph) (c : Connection) : Except GraphError Unit := do
  if c.source = c.target then .error (.selfConnection c.source)
  let some source := g.node? c.source | .error (.nodeNotFound c.source)
  let some target := g.node? c.target | .error (.nodeNotFound c.target)
  if source.outputs.length ≤ c.output then .error (.outputOutOfRange c.source c.output)
  if target.inputs.length ≤ c.input then .error (.inputOutOfRange c.target c.input)
  if (g.feed? c.target c.input).isSome then .error (.inputAlreadyConnected c.target c.input)

/-- Puts a connection behind the others and marks its pins. -/
def link (g : ShaderGraph) (c : Connection) : ShaderGraph :=
  ({ g with connections := g.connections ++ [c] }.syncPins c.source).syncPins c.target

/-- Adds a connection. -/
def connect (g : ShaderGraph) (c : Connection) : Except GraphError ShaderGraph := do
  g.checkConnection c
  return g.link c

/-- Removes the connection that ends at an input. -/
def disconnect (g : ShaderGraph) (target : NodeId) (input : Nat) :
    Except GraphError (Connection × ShaderGraph) :=
  match g.feed? target input with
  | none => .error (.connectionNotFound target input)
  | some c =>
    let rest := { g with connections := g.connections.eraseP (·.feeds target input) }
    .ok (c, (rest.syncPins c.source).syncPins c.target)

end RenderKit.ShaderGraph
