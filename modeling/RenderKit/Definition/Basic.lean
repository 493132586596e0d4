import RenderKit.Definition.Template
import RenderKit.FileTree
import RenderKit.Node.Descriptor

/-!
# Definitions

Node families that are not built in. A native one is a function from the expressions on its inputs
to a snippet; a templated one is data, and may have come from a file. A definition that is in use
is shared: two definitions may say the same and still be two objects, which their handles tell
apart.
-/

namespace RenderKit

/-- A definition by a function. -/
structure NativeDefinition where
  descriptor : Descriptor
  snippet : NodeId → List String → Snippet

/-- The file that a definition was read from, and its time of modification then. -/
structure Backing where
  path : String
  modified : Int
deriving DecidableEq, Repr

/-- A definition by a template. -/
structure TemplateDefinition where
  descriptor : Descriptor
  segments : List Segment
  backing : Option Backing := none
deriving DecidableEq, Repr

/-- A definition of a node family. -/
inductive Definition where
  | native (d : NativeDefinition)
  | template (d : TemplateDefinition)

namespace TemplateDefinition

/-- What a node of the family contributes. -/
def snippet (d : TemplateDefinition) (node : NodeId) (inputs : List String) : Snippet :=
  Template.snippet d.segments d.descriptor.outputs.length node inputs

/-- Whether the file of a definition was modified since it was read. -/
def hasChanged (d : TemplateDefinition) (files : FileTree) : Bool :=
  match d.backing with
  | some b => files.hasChanged b.path b.modified
  | none => false

end TemplateDefinition

namespace Definition

/-- The face of a definition's nodes. -/
def descriptor : Definition → Descriptor
  | .native d => d.descriptor
  | .template d => d.descriptor

/-- The name of a definition. -/
def name (d : Definition) : String :=
  d.descriptor.name

/-- What a node of the family contributes. -/
def snippet : Definition → NodeId → List String → Snippet
  | .native d => d.snippet
  | .template d => d.snippet

end Definition

/-- A definition in use, and the handle that tells it from all others. -/
structure SharedDefinition where
  handle : Nat
  definition : Definition

namespace SharedDefinition

/-- The name of a shared definition. -/
def name (d : SharedDefinition) : String :=
  d.definition.name

/-- The face of a shared definition's nodes. -/
def descriptor (d : SharedDefinition) : Descriptor :=
  d.definition.descriptor

/-- Whether two are the same object. -/
def same (a b : SharedDefinition) : Bool :=
  a.handle == b.handle

end SharedDefinition

/-- Fresh numbers: for the next node, which start again when a word is used up, and for the next
definition in use. -/
structure Supply where
  nextNode : NodeId := 1
  nextHandle : Nat := 0
deriving DecidableEq, Repr

namespace Supply

/-- The supply after a node was numbered. -/
def afterNode (s : Supply) : Supply :=
  { s with nextNode := s.nextNode + 1 }

/-- Brings a definition into use. -/
def share (s : Supply) (d : Definition) : SharedDefinition × Supply :=
  (⟨s.nextHandle, d⟩, { s with nextHandle := s.nextHandle + 1 })

end Supply

end RenderKit
