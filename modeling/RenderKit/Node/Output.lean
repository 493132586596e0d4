import RenderKit.Node.Descriptor
import RenderKit.Shader.Snippet
import RenderKit.Shader.Stage
import RenderKit.Text.Identifier

/-!
# Output nodes

The results of a shader: the fields of the fragment's output structure, further fields with names
of their own, and the offset of a vertex. Output nodes are where the source of a stage starts.
-/

namespace RenderKit

/-- A result of the shader. -/
inductive OutputSemantic where
  | color
  | normal
  | emission
  | metallic
  | roughness
  | ambientOcclusion
  | positionOffset
  | custom
deriving DecidableEq, Repr

namespace OutputSemantic

/-- All results. -/
def all : List OutputSemantic :=
  [.color, .normal, .emission, .metallic, .roughness, .ambientOcclusion, .positionOffset, .custom]

/-- The name of a result in documents. -/
def name : OutputSemantic → String
  | .color => "Color"
  | .normal => "Normal"
  | .emission => "Emission"
  | .metallic => "Metallic"
  | .roughness => "Roughness"
  | .ambientOcclusion => "AmbientOcclusion"
  | .positionOffset => "PositionOffset"
  | .custom => "Custom"

/-- The result with a name. -/
def ofName? (s : String) : Option OutputSemantic :=
  all.find? (·.name == s)

/-- The stage that computes a result. -/
def stage : OutputSemantic → Stage
  | .positionOffset => .vertex
  | _ => .fragment

/-- The fields that every fragment's output structure has. -/
def builtinFields : List String :=
  ["color", "normal", "emission", "metallic", "roughness", "ao"]

/-- The field of the fragment's output structure that a result is assigned to. -/
def field? (semantic : OutputSemantic) (customName : String) : Option String :=
  match semantic with
  | .color => some "color"
  | .normal => some "normal"
  | .emission => some "emission"
  | .metallic => some "metallic"
  | .roughness => some "roughness"
  | .ambientOcclusion => some "ao"
  | .positionOffset => none
  | .custom => some customName

/-- What a result is assigned or added to. -/
def target (semantic : OutputSemantic) (customName : String) : String :=
  match semantic.field? customName with
  | some field => Statement.fieldText field
  | none => Statement.positionName

/-- The statement that gives a result its value. -/
def statement (semantic : OutputSemantic) (customName value : String) : Statement :=
  match semantic.field? customName with
  | some field => .assign field value
  | none => .offset value

/-- The title and the input. -/
def face (semantic : OutputSemantic) (customName : String) : String × PinSpec :=
  match semantic with
  | .color => ("Color", ⟨"Color", .vec3, "float3(0,0,0)"⟩)
  | .normal => ("Normal", ⟨"Normal", .vec3, "float3(0,0,1)"⟩)
  | .emission => ("Emission", ⟨"Emission", .vec3, "float3(0,0,0)"⟩)
  | .metallic => ("Metallic", ⟨"Metallic", .float, "0.0"⟩)
  | .roughness => ("Roughness", ⟨"Roughness", .float, "0.5"⟩)
  | .ambientOcclusion => ("AO", ⟨"AO", .float, "1.0"⟩)
  | .positionOffset => ("Position Offset", ⟨"Offset", .vec3, "float3(0,0,0)"⟩)
  | .custom => (customName, ⟨customName, .float, "0.0"⟩)

/-- The face of a result's nodes. -/
def descriptor (semantic : OutputSemantic) (customName : String) : Descriptor :=
  let (title, pin) := semantic.face customName
  { name := title ++ " Output", category := "Output", inputs := [pin] }

/-- Whether a name can be a further field of the fragment's output structure. -/
def isCustomField (name : String) : Bool :=
  Text.isIdentifier name && !builtinFields.contains name

/-- The operand is assigned to the result; offsets are added up. -/
def snippet (semantic : OutputSemantic) (customName : String) (operands : List String) :
    Snippet :=
  if semantic = .custom && !isCustomField customName then .reject customName
  else .write (semantic.statement customName (operands.head?.getD "")) .done

/-- Every result is found by its name. -/
@[simp] theorem ofName?_name (semantic : OutputSemantic) :
    ofName? semantic.name = some semantic := by
  cases semantic <;> decide

end OutputSemantic

end RenderKit
