import RenderKit.Shader.Node
import RenderKit.Time.Instant
import Std.Data.ExtTreeMap

/-!
# Shader graphs

Nodes in the order in which they were added, an index of their numbers, and the connections between
their pins in the order in which they were made. An input takes one connection, an output any
number. A pin's mark says whether a connection ends there; `syncPins` sets the marks of one node by
the connections.
-/

namespace RenderKit

/-- A connection from an output of one node to an input of another. -/
structure Connection where
  source : NodeId
  output : Nat
  target : NodeId
  input : Nat
deriving DecidableEq, Repr

namespace Connection

/-- Whether a connection starts or ends at a node. -/
def touches (c : Connection) (node : NodeId) : Bool :=
  c.source == node || c.target == node

/-- Whether a connection ends at an input. -/
def feeds (c : Connection) (target : NodeId) (input : Nat) : Bool :=
  c.target == target && c.input == input

/-- Whether a connection starts at an output. -/
def leaves (c : Connection) (source : NodeId) (output : Nat) : Bool :=
  c.source == source && c.output == output

/-- The end of a connection away from a node it touches. -/
def otherEnd (c : Connection) (node : NodeId) : NodeId :=
  if c.source = node then c.target else c.source

end Connection

/-- Why a graph cannot be edited. -/
inductive GraphError where
  | duplicateNode (node : NodeId)
  | nodeNotFound (node : NodeId)
  | inputOutOfRange (node : NodeId) (index : Nat)
  | outputOutOfRange (node : NodeId) (index : Nat)
  | inputAlreadyConnected (node : NodeId) (index : Nat)
  | connectionNotFound (node : NodeId) (index : Nat)
  | selfConnection (node : NodeId)
deriving DecidableEq, Repr

namespace GraphError

/-- The diagnostic of an error. -/
def message : GraphError → String
  | .duplicateNode node => "node " ++ toString node ++ " already exists in the graph"
  | .nodeNotFound node => "node " ++ toString node ++ " does not exist in the graph"
  | .inputOutOfRange node index =>
    "node " ++ toString node ++ " has no input pin " ++ toString index
  | .outputOutOfRange node index =>
    "node " ++ toString node ++ " has no output pin " ++ toString index
  | .inputAlreadyConnected node index =>
    "input " ++ toString index ++ " of node " ++ toString node ++ " is already connected"
  | .connectionNotFound node index =>
    "input " ++ toString index ++ " of node " ++ toString node ++ " has no connection"
  | .selfConnection node => "node " ++ toString node ++ " cannot be connected to itself"

end GraphError

/-- Nodes, the slots of their numbers, and connections, with a name and the time of the first save
if a document told it. -/
structure ShaderGraph where
  name : String
  nodes : List Node := []
  index : Std.ExtTreeMap NodeId Nat := ∅
  connections : List Connection := []
  created : Option Time.Instant := none

namespace ShaderGraph

/-- The name of a graph that was given none. -/
def untitled : String := "Untitled"

/-- A graph without nodes. -/
def empty (name : String) : ShaderGraph :=
  { name := name }

/-- The graph under another name. -/
def rename (g : ShaderGraph) (name : String) : ShaderGraph :=
  { g with name := name }

/-- The numbers of the nodes in order. -/
def ids (g : ShaderGraph) : List NodeId :=
  g.nodes.map (·.id)

/-- The slots of nodes by their numbers. -/
def slotsById (nodes : List Node) : Std.ExtTreeMap NodeId Nat :=
  nodes.zipIdx.foldl (fun index entry => index.insert entry.1.id entry.2) ∅

/-- The node with a number. -/
def node? (g : ShaderGraph) (id : NodeId) : Option Node :=
  g.index[id]?.bind fun slot => g.nodes[slot]?

/-- Whether a node is in the graph. -/
def hasNode (g : ShaderGraph) (id : NodeId) : Bool :=
  g.index[id]?.isSome

/-- The connection that ends at an input. -/
def feed? (g : ShaderGraph) (target : NodeId) (input : Nat) : Option Connection :=
  g.connections.find? (·.feeds target input)

/-- The node and the output that an input takes its value from. -/
def source? (g : ShaderGraph) (target : NodeId) (input : Nat) : Option (NodeId × Nat) :=
  (g.feed? target input).map fun c => (c.source, c.output)

/-- A node with its pins marked by the connections. -/
def marked (connections : List Connection) (node : Node) : Node :=
  node.markPins (fun i => connections.any (·.feeds node.id i))
    (fun i => connections.any (·.leaves node.id i))

/-- Applies a change to the node with a number. -/
def modifyNode (g : ShaderGraph) (id : NodeId) (change : Node → Node) : ShaderGraph :=
  match g.index[id]? with
  | some slot => { g with nodes := g.nodes.modify slot change }
  | none => g

/-- Marks the pins of one node by the connections. -/
def syncPins (g : ShaderGraph) (id : NodeId) : ShaderGraph :=
  g.modifyNode id (marked g.connections)

/-- Marks the pins of several nodes. -/
def syncAll (g : ShaderGraph) (ids : List NodeId) : ShaderGraph :=
  ids.foldl syncPins g

@[simp] theorem id_marked (connections : List Connection) (node : Node) :
    (marked connections node).id = node.id := rfl

@[simp] theorem connections_modifyNode (g : ShaderGraph) (id : NodeId) (change : Node → Node) :
    (g.modifyNode id change).connections = g.connections := by
  unfold modifyNode
  split <;> rfl

@[simp] theorem index_modifyNode (g : ShaderGraph) (id : NodeId) (change : Node → Node) :
    (g.modifyNode id change).index = g.index := by
  unfold modifyNode
  split <;> rfl

/-- A change of one element keeps what it keeps of that element. -/
theorem map_modify_eq {α β : Type} {f : α → β} {change : α → α} (h : ∀ a, f (change a) = f a)
    (xs : List α) (i : Nat) : (xs.modify i change).map f = xs.map f := by
  apply List.ext_getElem?
  intro j
  simp only [List.getElem?_map, List.getElem?_modify]
  split
  · simp [Function.comp_def, h]
  · simp

/-- A change that keeps numbers keeps the nodes in their order. -/
theorem ids_modifyNode (g : ShaderGraph) (id : NodeId) {change : Node → Node}
    (h : ∀ node, (change node).id = node.id) : (g.modifyNode id change).ids = g.ids := by
  unfold modifyNode
  split
  · exact map_modify_eq h _ _
  · rfl

@[simp] theorem connections_syncPins (g : ShaderGraph) (id : NodeId) :
    (g.syncPins id).connections = g.connections := connections_modifyNode ..

@[simp] theorem index_syncPins (g : ShaderGraph) (id : NodeId) :
    (g.syncPins id).index = g.index := index_modifyNode ..

/-- Marking pins keeps the nodes in their order. -/
@[simp] theorem ids_syncPins (g : ShaderGraph) (id : NodeId) : (g.syncPins id).ids = g.ids :=
  ids_modifyNode g id fun _ => rfl

@[simp] theorem connections_syncAll (g : ShaderGraph) (ids : List NodeId) :
    (g.syncAll ids).connections = g.connections := by
  unfold syncAll
  induction ids generalizing g with
  | nil => rfl
  | cons id rest ih => simp [ih]

@[simp] theorem index_syncAll (g : ShaderGraph) (ids : List NodeId) :
    (g.syncAll ids).index = g.index := by
  unfold syncAll
  induction ids generalizing g with
  | nil => rfl
  | cons id rest ih => simp [ih]

end ShaderGraph

end RenderKit
