import RenderKit.Shader.Graph
import RenderKit.Text.Quoted

/-!
# Diagnostic text of nodes

A node on one line: its number, name and category, how many pins it has, and its family with the
parameters.
-/

namespace RenderKit

/-- Named parts behind a head, in braces. -/
def recordText (head : String) (parts : List (String × String)) : String :=
  head ++ " \x7b " ++ ", ".intercalate (parts.map fun (name, text) => name ++ ": " ++ text)
    ++ " \x7d"

namespace NodeKind

/-- A family and its parameters. -/
def debugText : NodeKind → String
  | .math op => "Math(" ++ recordText "MathNode" [("operation", op.name)] ++ ")"
  | .textureSample texture =>
    "TextureSample("
      ++ recordText "TextureSampleNode" [("texture_name", Text.quoted texture)] ++ ")"
  | .vector arity =>
    "Vector(" ++ recordText "VectorNode" [("components", toString arity.components)] ++ ")"
  | .input semantic customName =>
    "Input("
      ++ recordText "InputNode"
        [("semantic", semantic.name), ("custom_name", Text.quoted customName)] ++ ")"
  | .output semantic customName =>
    "Output("
      ++ recordText "OutputNode"
        [("semantic", semantic.name), ("custom_name", Text.quoted customName)] ++ ")"
  | .custom d =>
    "Custom(" ++ recordText "CustomShaderNode" [("definition", Text.quoted d.name)] ++ ")"

end NodeKind

namespace Node

/-- A node on one line. -/
def debugText (node : Node) : String :=
  recordText "ShaderNode"
    [("id", toString node.id), ("name", Text.quoted node.name),
      ("category", Text.quoted node.category), ("inputs", toString node.inputs.length),
      ("outputs", toString node.outputs.length), ("kind", node.kind.debugText)]

end Node

end RenderKit
