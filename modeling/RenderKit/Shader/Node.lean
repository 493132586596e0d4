import RenderKit.Definition.Basic
import RenderKit.Node.Input
import RenderKit.Node.Math
import RenderKit.Node.Output
import RenderKit.Node.Texture
import RenderKit.Node.Vector
import RenderKit.Number.Binary32

/-!
# Shader nodes

A node of a shader graph: its number, the family it belongs to with the parameters of that family,
its pins and where it stands in the editor. A fresh node takes the next number of the supply and
everything else from the face of its family.
-/

namespace RenderKit

/-- A family of nodes with its parameters. -/
inductive NodeKind where
  | math (op : MathOperation)
  | textureSample (texture : String)
  | vector (arity : VectorArity)
  | input (semantic : InputSemantic) (customName : String)
  | output (semantic : OutputSemantic) (customName : String)
  | custom (definition : SharedDefinition)

namespace NodeKind

/-- The face of a family's nodes. -/
def descriptor : NodeKind → Descriptor
  | .math op => op.descriptor
  | .textureSample texture => TextureSample.descriptor texture
  | .vector arity => arity.descriptor
  | .input semantic customName => semantic.descriptor customName
  | .output semantic customName => semantic.descriptor customName
  | .custom d => d.descriptor

/-- What a node of the family contributes, given the expressions on its inputs. -/
def snippet (kind : NodeKind) (node : NodeId) (inputs : List String) : Snippet :=
  match kind with
  | .math op => op.snippet node inputs
  | .textureSample _ => TextureSample.snippet node inputs
  | .vector arity => arity.snippet node inputs
  | .input semantic customName => semantic.snippet customName
  | .output semantic customName => semantic.snippet customName inputs
  | .custom d => d.definition.snippet node inputs

/-- The stage that a node is a result of. -/
def outputStage? : NodeKind → Option Stage
  | .output semantic _ => some semantic.stage
  | _ => none

/-- The field that a node adds to the fragment's output structure. -/
def customField? : NodeKind → Option String
  | .output .custom name => some name
  | _ => none

end NodeKind

/-- Where a node stands in the editor. -/
structure Position where
  x : Number.Binary32
  y : Number.Binary32
deriving DecidableEq, Repr

/-- How large a node is in the editor. -/
structure Extent where
  width : Number.Binary32
  height : Number.Binary32
deriving DecidableEq, Repr

/-- The size of a fresh node. -/
def Extent.initial : Extent :=
  ⟨.ofNat 200, .ofNat 150⟩

/-- The position of a fresh node. -/
def Position.origin : Position :=
  ⟨.zero, .zero⟩

/-- A node of a shader graph. -/
structure Node where
  id : NodeId
  name : String
  category : String
  position : Position
  extent : Extent
  inputs : List Pin
  outputs : List Pin
  kind : NodeKind

namespace Node

/-- A node with the face of its family and no connections. -/
def ofKind (id : NodeId) (kind : NodeKind) : Node :=
  { id := id
    name := kind.descriptor.name
    category := kind.descriptor.category
    position := .origin
    extent := .initial
    inputs := kind.descriptor.inputs.map PinSpec.pin
    outputs := kind.descriptor.outputs.map PinSpec.pin
    kind := kind }

/-- A fresh node. -/
def create (kind : NodeKind) (supply : Supply) : Node × Supply :=
  (ofKind supply.nextNode kind, supply.afterNode)

/-- The node at another position. -/
def moveTo (node : Node) (position : Position) : Node :=
  { node with position := position }

/-- The node with another size. -/
def resize (node : Node) (extent : Extent) : Node :=
  { node with extent := extent }

/-- The node with another definition: number and layout stay, all else is as in a fresh one. -/
def rebind (node : Node) (d : SharedDefinition) : Node :=
  { ofKind node.id (.custom d) with position := node.position, extent := node.extent }

/-- The node with its pins marked as connected or not, by their positions. -/
def markPins (node : Node) (input output : Nat → Bool) : Node :=
  { node with
    inputs := node.inputs.mapIdx fun i pin => { pin with connected := input i }
    outputs := node.outputs.mapIdx fun i pin => { pin with connected := output i } }

@[simp] theorem id_markPins (node : Node) (input output : Nat → Bool) :
    (node.markPins input output).id = node.id := rfl

@[simp] theorem kind_markPins (node : Node) (input output : Nat → Bool) :
    (node.markPins input output).kind = node.kind := rfl

@[simp] theorem length_inputs_markPins (node : Node) (input output : Nat → Bool) :
    (node.markPins input output).inputs.length = node.inputs.length := by
  simp [markPins]

@[simp] theorem length_outputs_markPins (node : Node) (input output : Nat → Bool) :
    (node.markPins input output).outputs.length = node.outputs.length := by
  simp [markPins]

end Node

end RenderKit
