import RenderKit.Document.Graph
import RenderKit.Registry
import RenderKit.Shader.Graph.Edit

/-!
# Loading and saving graphs

A document becomes a graph through the same edits that a user makes: a fresh node for every record
and a connection for every record, in order, so a graph that was loaded is one that could have
been built. The numbers of the document serve to find the nodes only. What a load that fails has
made is lost, but the numbers it took stay taken.
-/

namespace RenderKit

/-- Why a graph cannot be saved or loaded. -/
inductive DocumentError where
  | file (e : FileError)
  | json
  | unsupportedVersion (version : String)
  | unknownCustomNode (name : String)
  | unknownNodeId (id : UInt32)
  | duplicateNodeId (id : UInt32)
  | graph (e : GraphError)
  | node (e : NodeError)
deriving DecidableEq, Repr

namespace DocumentError

/-- The diagnostic of an error. -/
def message : DocumentError → String
  | .file e => "failed to access graph file: " ++ e.message
  | .json => "failed to (de)serialize graph document"
  | .unsupportedVersion version => "unsupported graph document version '" ++ version ++ "'"
  | .unknownCustomNode name => "graph references unregistered custom node '" ++ name ++ "'"
  | .unknownNodeId id => "connection references unknown node id " ++ toString id
  | .duplicateNodeId id => "node id " ++ toString id ++ " appears more than once in the document"
  | .graph e => e.message
  | .node e => e.message

end DocumentError

/-- The family that a record tells, in the light of a registry. -/
def KindRecord.toKind (r : Registry) : KindRecord → Except DocumentError NodeKind
  | .math op => .ok (.math op)
  | .textureSample texture => .ok (.textureSample texture)
  | .vector components => ((VectorArity.of components).map NodeKind.vector).mapError .node
  | .input semantic customName => .ok (.input semantic customName)
  | .output semantic customName => .ok (.output semantic customName)
  | .custom definition =>
    match r.get? definition with
    | some d => .ok (.custom d)
    | none => .error (.unknownCustomNode definition)

/-- A graph in the making: the graph, the nodes' numbers by those of the document, and the supply
of numbers. -/
structure Loading where
  graph : ShaderGraph
  ids : List (NodeId × NodeId) := []
  supply : Supply

namespace Loading

/-- Adds the node of a record. A number that the document has used already is refused after its
node was made. -/
def addNode (r : Registry) (l : Loading) (record : NodeRecord) :
    Except (DocumentError × Supply) Loading := do
  let kind ← (record.kind.toKind r).mapError fun e => (e, l.supply)
  let (fresh, supply) := Node.create kind l.supply
  let node := (fresh.moveTo record.position).resize record.extent
  let graph ← (l.graph.addNode node).mapError fun e => (.graph e, supply)
  if (l.ids.lookup record.id).isSome then throw (.duplicateNodeId record.id, supply)
  return { graph := graph, ids := (record.id, node.id) :: l.ids, supply := supply }

/-- The node of a number in the document. -/
def resolve (l : Loading) (id : NodeId) : Except DocumentError NodeId :=
  match l.ids.lookup id with
  | some id => .ok id
  | none => .error (.unknownNodeId id)

/-- Adds the connection of a record. -/
def connect (l : Loading) (record : Connection) : Except DocumentError Loading := do
  let source ← l.resolve record.source
  let target ← l.resolve record.target
  let graph ← (l.graph.connect ⟨source, record.output, target, record.input⟩).mapError .graph
  return { l with graph := graph }

end Loading

namespace ShaderGraph

/-- The graph of a document, and the supply after the numbers that its nodes took. -/
def ofDocument (d : GraphDocument) (r : Registry) (supply : Supply) :
    Except DocumentError ShaderGraph × Supply :=
  if d.version ≠ GraphDocument.formatVersion then (.error (.unsupportedVersion d.version), supply)
  else
    let start : Loading :=
      { graph := { name := d.name, created := d.metadata.map (·.created) }, supply := supply }
    match d.nodes.foldlM (Loading.addNode r) start with
    | .error (e, supply) => (.error e, supply)
    | .ok loaded => ((d.connections.foldlM Loading.connect loaded).map (·.graph), loaded.supply)

/-- The graph that a text holds. -/
def ofString (text : String) (r : Registry) (supply : Supply) :
    Except DocumentError ShaderGraph × Supply :=
  match GraphDocument.ofString? text with
  | some d => ofDocument d r supply
  | none => (.error .json, supply)

/-- The text of a graph at a moment. -/
def documentText (g : ShaderGraph) (now : Time.Instant) : String :=
  (GraphDocument.ofGraph g now).toJson.document

/-- The graph that a file holds. -/
def load (files : FileTree) (path : String) (r : Registry) (supply : Supply) :
    Except DocumentError ShaderGraph × Supply :=
  match files.read path with
  | .ok text => ofString text r supply
  | .error e => (.error (.file e), supply)

/-- Writes a graph to a file at a moment. -/
def save (g : ShaderGraph) (files : FileTree) (path : String) (now : Time.Instant) (time : Int) :
    Except DocumentError FileTree :=
  (files.write path ⟨some (g.documentText now), time⟩).mapError .file

end ShaderGraph

end RenderKit
