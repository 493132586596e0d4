import RenderKit.Node.Descriptor
import RenderKit.Shader.Snippet
import RenderKit.Text.Identifier

/-!
# Input nodes

Values that the shader is given: interpolated attributes, constants of the frame, and anything
with a name that the surrounding shader declares. An input node writes no statement; its output
is the value's expression.
-/

namespace RenderKit

/-- A value that the shader is given. -/
inductive InputSemantic where
  | position
  | normal
  | uv
  | color
  | tangent
  | bitangent
  | time
  | cameraPosition
  | custom
deriving DecidableEq, Repr

namespace InputSemantic

/-- All given values. -/
def all : List InputSemantic :=
  [.position, .normal, .uv, .color, .tangent, .bitangent, .time, .cameraPosition, .custom]

/-- The name of a value in documents. -/
def name : InputSemantic → String
  | .position => "Position"
  | .normal => "Normal"
  | .uv => "Uv"
  | .color => "Color"
  | .tangent => "Tangent"
  | .bitangent => "Bitangent"
  | .time => "Time"
  | .cameraPosition => "CameraPosition"
  | .custom => "Custom"

/-- The value with a name. -/
def ofName? (s : String) : Option InputSemantic :=
  all.find? (·.name == s)

/-- The expression of a value; a custom one is called by its own name. -/
def expression (semantic : InputSemantic) (customName : String) : String :=
  match semantic with
  | .position => "input.position"
  | .normal => "input.normal"
  | .uv => "input.texCoord"
  | .color => "input.color"
  | .tangent => "input.tangent"
  | .bitangent => "input.bitangent"
  | .time => "Time"
  | .cameraPosition => "CameraPosition"
  | .custom => customName

/-- The title, the output's name and its type. -/
def face (semantic : InputSemantic) (customName : String) : String × String × PinType :=
  match semantic with
  | .position => ("Position", "Position", .vec3)
  | .normal => ("Normal", "Normal", .vec3)
  | .uv => ("UV", "UV", .vec2)
  | .color => ("Vertex Color", "Color", .vec4)
  | .tangent => ("Tangent", "Tangent", .vec3)
  | .bitangent => ("Bitangent", "Bitangent", .vec3)
  | .time => ("Time", "Time", .float)
  | .cameraPosition => ("Camera Position", "Position", .vec3)
  | .custom => (customName, customName, .float)

/-- The face of a value's nodes. -/
def descriptor (semantic : InputSemantic) (customName : String) : Descriptor :=
  let (title, pin, type) := semantic.face customName
  { name := title, category := "Input", outputs := [⟨pin, type, ""⟩] }

/-- The output is the value's expression. A custom name must be an identifier. -/
def snippet (semantic : InputSemantic) (customName : String) : Snippet :=
  if semantic = .custom && !Text.isIdentifier customName then .reject customName
  else .bind 0 (semantic.expression customName) .done

/-- Every value is found by its name. -/
@[simp] theorem ofName?_name (semantic : InputSemantic) :
    ofName? semantic.name = some semantic := by
  cases semantic <;> decide

end InputSemantic

end RenderKit
