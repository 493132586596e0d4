import RenderKit.Settings
import RenderKit.Shader.Walk

/-!
# Shader source

The source of a stage around the statements of its walk: constants, structures and the entry
point. The fragment's output structure has a field for every custom result, in the order of the
nodes and once each.
-/

namespace RenderKit

/-- A structure or buffer: its head, its members and what closes it. -/
def block (head : String) (members : List String) (closing : String) : String :=
  head ++ " \x7b\n" ++ Statement.lines "    " (members.map .verbatim) ++ "\x7d" ++ closing ++ "\n\n"

/-- The constants of a frame. -/
def frameConstants : String :=
  "// Common uniforms\n"
    ++ block "cbuffer PerFrameConstants : register(b0)"
      ["float4x4 World;", "float4x4 View;", "float4x4 Projection;",
        "float4x4 WorldViewProjection;", "float4x4 WorldInverseTranspose;",
        "float3 CameraPosition;", "float Time;"] ""

/-- What the vertex stage takes and what it passes on. -/
def vertexStructures : String :=
  "// Vertex shader input/output structures\n"
    ++ block "struct VertexInput"
      ["float3 position : POSITION;", "float3 normal : NORMAL;", "float2 texCoord : TEXCOORD0;",
        "float4 color : COLOR0;", "float3 tangent : TANGENT;", "float3 bitangent : BINORMAL;"] ";"
    ++ block "struct VertexOutput"
      ["float4 position : SV_POSITION;", "float3 worldPos : POSITION;",
        "float3 normal : NORMAL;", "float2 texCoord : TEXCOORD0;", "float4 color : COLOR0;",
        "float3 tangent : TANGENT;", "float3 bitangent : BINORMAL;"] ";"

/-- The results of the fragment stage, further fields behind the six that it always has. -/
def fragmentStructure (fields : List String) : String :=
  "// Fragment shader output structure\n"
    ++ block "struct FragmentOutput"
      (["float3 color;", "float3 normal;", "float3 emission;", "float metallic;",
        "float roughness;", "float ao;"] ++ fields.map fun field => "float " ++ field ++ ";") ";"

/-- What the results of the fragment stage start from. -/
def initialResults : List Statement :=
  [.assign "color" "float3(0, 0, 0)", .assign "normal" "input.normal",
    .assign "emission" "float3(0, 0, 0)", .assign "metallic" "0.0", .assign "roughness" "0.5",
    .assign "ao" "1.0"]

/-- What the vertex stage computes from the offset position. -/
def vertexResults : List Statement :=
  let point := "float4(" ++ Statement.positionName ++ ", 1.0)"
  [.assign "position" ("mul(" ++ point ++ ", WorldViewProjection)"),
    .assign "worldPos" ("mul(" ++ point ++ ", World).xyz"),
    .assign "normal" "normalize(mul(input.normal, (float3x3)WorldInverseTranspose))",
    .assign "texCoord" "input.texCoord", .assign "color" "input.color",
    .assign "tangent" "input.tangent", .assign "bitangent" "input.bitangent"]

namespace ShaderGraph

/-- The further fields of the fragment's output structure. -/
def customFields (g : ShaderGraph) : List String :=
  (g.nodes.filterMap (·.kind.customField?)).eraseDups

/-- The source of the fragment stage around its statements. -/
def fragmentText (fields : List String) (body : List Statement) (layout : Layout) : String :=
  frameConstants ++ vertexStructures ++ fragmentStructure fields
    ++ "float4 PSMain(VertexOutput input) : SV_TARGET \x7b\n"
    ++ Statement.lines layout.indent
      (.verbatim "FragmentOutput output;" :: initialResults ++ fields.map (.assign · "0.0"))
    ++ "\n"
    ++ Statement.lines layout.indent (body ++ [.verbatim "return float4(output.color, 1.0);"])
    ++ "\x7d\n"

/-- The source of the vertex stage around its statements. -/
def vertexText (body : List Statement) (layout : Layout) : String :=
  frameConstants ++ vertexStructures
    ++ "VertexOutput VSMain(VertexInput input) \x7b\n"
    ++ Statement.lines layout.indent
      ([.verbatim "VertexOutput output;",
          .verbatim ("float3 " ++ Statement.positionName ++ " = input.position;")]
        ++ body ++ vertexResults ++ [.verbatim "return output;"])
    ++ "\x7d\n"

/-- The source of a stage. -/
def source (g : ShaderGraph) (stage : Stage) (layout : Layout) : Except CodegenError String := do
  let body ← g.body stage
  match stage with
  | .fragment => return fragmentText g.customFields body layout
  | .vertex => return vertexText body layout

end ShaderGraph

end RenderKit
