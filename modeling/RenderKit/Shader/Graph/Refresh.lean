import RenderKit.Registry
import RenderKit.Shader.Graph

/-!
# Refreshing shader graphs

A node of a definition that was replaced in the registry takes the new one. It keeps its number
and its layout; connections that no longer fit the pins go.
-/

namespace RenderKit

/-- The definition that a node is to take: the one registered under its definition's name, if that
is another object. -/
def Node.replacement? (r : Registry) (node : Node) : Option SharedDefinition :=
  match node.kind with
  | .custom held => (r.get? held.name).filter fun d => !d.same held
  | _ => none

/-- The node with the registered definition. -/
def Node.refreshed (r : Registry) (node : Node) : Node :=
  match node.replacement? r with
  | some d => node.rebind d
  | none => node

namespace ShaderGraph

/-- Whether a connection fits the pins of its nodes. -/
def fits (g : ShaderGraph) (c : Connection) : Bool :=
  (g.node? c.source).any (fun node => c.output < node.outputs.length)
    && (g.node? c.target).any (fun node => c.input < node.inputs.length)

/-- The number of nodes with a definition to take. -/
def staleCount (g : ShaderGraph) (r : Registry) : Nat :=
  g.nodes.countP fun node => (node.replacement? r).isSome

/-- The graph with all nodes refreshed and only the connections that fit; their pins are marked
anew. -/
def rebound (g : ShaderGraph) (r : Registry) : ShaderGraph :=
  let fresh : ShaderGraph := { g with nodes := g.nodes.map (Node.refreshed r) }
  { fresh with connections := fresh.connections.filter fresh.fits }.syncAll fresh.ids

/-- Takes up the definitions that were replaced, and tells how many nodes took one. -/
def refresh (g : ShaderGraph) (r : Registry) : ShaderGraph × Nat :=
  let count := g.staleCount r
  (if count = 0 then g else g.rebound r, count)

end ShaderGraph

end RenderKit
