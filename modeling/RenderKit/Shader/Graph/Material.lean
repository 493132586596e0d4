import RenderKit.Shader.Graph.Edit

/-!
# The standard material

A graph to start from: the four channels of a physically based material, each given by name and
wired to its result.
-/

namespace RenderKit.ShaderGraph

/-- The channels of the material: the name of the given value, and the result. -/
def materialChannels : List (String × OutputSemantic) :=
  [("Albedo", .color), ("Metallic", .metallic), ("Roughness", .roughness),
    ("AO", .ambientOcclusion)]

/-- Adds a channel in a row of the editor. -/
def addChannel (state : ShaderGraph × Supply) (channel : (String × OutputSemantic) × Nat) :
    ShaderGraph × Supply :=
  let (g, supply) := state
  let ((name, semantic), row) := channel
  let y := Number.Binary32.ofNat (100 * (row + 1))
  let (input, supply) := Node.create (.input .custom name) supply
  let (output, supply) := Node.create (.output semantic "") supply
  let g := g.push (input.moveTo ⟨.ofNat 100, y⟩)
  let g := g.push (output.moveTo ⟨.ofNat 500, y⟩)
  (g.link ⟨input.id, 0, output.id, 0⟩, supply)

/-- The standard material. -/
def standardMaterial (supply : Supply) : ShaderGraph × Supply :=
  materialChannels.zipIdx.foldl addChannel (.empty "Default PBR", supply)

end RenderKit.ShaderGraph
