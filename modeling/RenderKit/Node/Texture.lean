import RenderKit.Node.Descriptor
import RenderKit.Shader.Snippet

/-!
# Texture nodes

A node samples a texture once and offers the sample whole, without its alpha channel, and channel
by channel.
-/

namespace RenderKit.TextureSample

/-- The texture that a node samples when it is given no other. -/
def defaultTexture : String := "MainTexture"

/-- The outputs: name, type and the channels that each takes from the sample. -/
def channels : List (String × PinType × String) :=
  [("RGBA", .vec4, ""), ("RGB", .vec3, ".rgb"), ("R", .float, ".r"), ("G", .float, ".g"),
    ("B", .float, ".b"), ("A", .float, ".a")]

/-- The face of a texture's nodes. -/
def descriptor (texture : String) : Descriptor :=
  { name := "Texture Sample"
    category := "Texture"
    inputs := [⟨"Texture", .sampler2D, texture⟩, ⟨"UV", .vec2, "input.texCoord"⟩]
    outputs := channels.map fun (name, type, _) => ⟨name, type, ""⟩ }

/-- A local holds the sample, and the outputs are channels of it. Without both operands there is
nothing to sample. -/
def snippet (node : NodeId) : List String → Snippet
  | texture :: coordinate :: _ =>
    let result := localName "texture" node
    .write (.declare .vec4 result (.sample texture coordinate))
      (.binds (channels.zipIdx.map fun ((_, _, suffix), i) => (i, result ++ suffix)) .done)
  | _ => .done

end RenderKit.TextureSample
