import RenderKit.Document.Enumerations
import RenderKit.Json.Printer
import RenderKit.Json.Reader
import RenderKit.Shader.Graph
import RenderKit.Time.Reading

/-!
# Graph documents

A shader graph as it is written: version, times, nodes with their layout and the parameters of
their families, and connections by the numbers of the nodes. The members of a node that tell its
family stand beside its other members. They are set aside until the family is known, so whatever
stands there must be text, in range and not nested too deeply, whether it is used or not.
-/

namespace RenderKit

open Json

/-- A family and its parameters in a document. -/
inductive KindRecord where
  | math (op : MathOperation)
  | textureSample (texture : String)
  | vector (components : UInt32)
  | input (semantic : InputSemantic) (customName : String)
  | output (semantic : OutputSemantic) (customName : String)
  | custom (definition : String)
deriving DecidableEq, Repr

/-- A node in a document. -/
structure NodeRecord where
  id : NodeId
  name : String
  category : String
  position : Position
  extent : Extent
  kind : KindRecord
deriving DecidableEq, Repr

/-- When and by what a document was written. -/
structure DocumentMetadata where
  created : Time.Instant
  modified : Time.Instant
  generator : String
deriving DecidableEq, Repr

/-- A graph in a document. -/
structure GraphDocument where
  version : String
  metadata : Option DocumentMetadata
  name : String
  nodes : List NodeRecord
  connections : List Connection
deriving DecidableEq, Repr

namespace Position

/-- A position as a record. -/
def toJson (p : Position) : Value :=
  .record [("x", .ofBinary32 p.x), ("y", .ofBinary32 p.y)]

/-- The position that a record holds. -/
def ofJson? (v : Value) : Option Position := do
  let fields ← v.fields? ["x", "y"]
  return ⟨← fields.required "x" Value.binary32?, ← fields.required "y" Value.binary32?⟩

end Position

namespace Extent

/-- A size as a record. -/
def toJson (e : Extent) : Value :=
  .record [("width", .ofBinary32 e.width), ("height", .ofBinary32 e.height)]

/-- The size that a record holds. -/
def ofJson? (v : Value) : Option Extent := do
  let fields ← v.fields? ["width", "height"]
  return ⟨← fields.required "width" Value.binary32?, ← fields.required "height" Value.binary32?⟩

end Extent

namespace Connection

/-- A connection as a record. -/
def toJson (c : Connection) : Value :=
  .record
    [("sourceNodeId", .ofNat c.source.toNat), ("sourceOutputIndex", .ofNat c.output),
      ("targetNodeId", .ofNat c.target.toNat), ("targetInputIndex", .ofNat c.input)]

/-- The connection that a record holds. -/
def ofJson? (v : Value) : Option Connection := do
  let fields ← v.fields?
    ["sourceNodeId", "sourceOutputIndex", "targetNodeId", "targetInputIndex"]
  return { source := ← fields.required "sourceNodeId" Value.word32?
           output := ← fields.required "sourceOutputIndex" Value.word64?
           target := ← fields.required "targetNodeId" Value.word32?
           input := ← fields.required "targetInputIndex" Value.word64? }

end Connection

namespace KindRecord

/-- The names of the families, in the order in which they may also be counted. -/
def tags : List String :=
  ["MathNode", "TextureSampleNode", "VectorNode", "InputNode", "OutputNode", "CustomNode"]

/-- The members that tell a family. -/
def members : KindRecord → List (String × Value)
  | .math op => [("type", .ofText "MathNode"), ("operation", op.toJson)]
  | .textureSample texture =>
    [("type", .ofText "TextureSampleNode"), ("textureName", .ofText texture)]
  | .vector components =>
    [("type", .ofText "VectorNode"), ("components", .ofNat components.toNat)]
  | .input semantic customName =>
    [("type", .ofText "InputNode"), ("inputType", semantic.toJson),
      ("customName", .ofText customName)]
  | .output semantic customName =>
    [("type", .ofText "OutputNode"), ("outputType", semantic.toJson),
      ("customName", .ofText customName)]
  | .custom definition => [("type", .ofText "CustomNode"), ("definition", .ofText definition)]

/-- The family that a value names or counts. -/
def tag? : Value → Option String
  | .string (some s) => if s ∈ tags then some s else none
  | .number n => n.toNat? >>= fun i => tags[i]?
  | _ => none

/-- A value of an enumeration among members set aside, where the object may also hold an empty
object. -/
def variant? {α : Type} (ofName? : String → Option α) : Value → Option α
  | .object [(some s, .object [])] => ofName? s
  | v => v.variant? ofName?

/-- The family that members tell. -/
def ofMembers? (members : Fields) : Option KindRecord := do
  let [(_, tag)] := members.filter (·.1 == "type") | none
  let others := members.filter (·.1 != "type")
  match ← tag? tag with
  | "MathNode" =>
    let fields ← Value.known? ["operation"] others
    return .math (← fields.required "operation" (variant? MathOperation.ofName?))
  | "TextureSampleNode" =>
    let fields ← Value.known? ["textureName"] others
    return .textureSample
      (← fields.optional "textureName" TextureSample.defaultTexture Value.text?)
  | "VectorNode" =>
    let fields ← Value.known? ["components"] others
    return .vector (← fields.required "components" Value.word32?)
  | "InputNode" =>
    let fields ← Value.known? ["inputType", "customName"] others
    return .input (← fields.required "inputType" (variant? InputSemantic.ofName?))
      (← fields.optional "customName" "" Value.text?)
  | "OutputNode" =>
    let fields ← Value.known? ["outputType", "customName"] others
    return .output (← fields.required "outputType" (variant? OutputSemantic.ofName?))
      (← fields.optional "customName" "" Value.text?)
  | _ =>
    let fields ← Value.known? ["definition"] others
    return .custom (← fields.required "definition" Value.text?)

/-- The family of a node in a graph. -/
def ofKind : NodeKind → KindRecord
  | .math op => .math op
  | .textureSample texture => .textureSample texture
  | .vector arity => .vector arity.components
  | .input semantic customName => .input semantic customName
  | .output semantic customName => .output semantic customName
  | .custom d => .custom d.name

end KindRecord

namespace NodeRecord

/-- How many containers a member that is set aside may be nested in itself: of the hundred and
twenty-seven that a document may be deep there, three are around it. -/
def nestingLimit : Nat := 124

/-- Whether a value can be set aside: texts only, numbers in range, and at most that many
containers inside of each other. -/
def settable : Nat → Value → Bool
  | _, .null | _, .bool _ => true
  | _, .string s => s.isSome
  | _, .number n => (Number.Binary32.ofNumeral? n).isSome
  | 0, _ => false
  | depth + 1, .array items => items.all (settable depth)
  | depth + 1, .object members => members.all fun m => m.1.isSome && settable depth m.2

/-- The members that every node has. -/
def ownNames : List String := ["id", "name", "category", "position", "size"]

/-- A node as a record. -/
def toJson (n : NodeRecord) : Value :=
  .record
    ([("id", .ofNat n.id.toNat), ("name", .ofText n.name), ("category", .ofText n.category),
      ("position", n.position.toJson), ("size", n.extent.toJson)] ++ n.kind.members)

/-- The node that an object holds. -/
def ofJson? : Value → Option NodeRecord
  | .object members => do
    let members ← Value.namedMembers? members
    let own ← Value.known? ownNames members
    let others := members.filter fun m => !ownNames.contains m.1
    if !others.all fun m => settable nestingLimit m.2 then none
    return { id := ← own.required "id" Value.word32?
             name := ← own.required "name" Value.text?
             category := ← own.required "category" Value.text?
             position := ← own.required "position" Position.ofJson?
             extent := ← own.required "size" Extent.ofJson?
             kind := ← KindRecord.ofMembers? others }
  | _ => none

/-- A node of a graph. -/
def ofNode (n : Node) : NodeRecord :=
  ⟨n.id, n.name, n.category, n.position, n.extent, .ofKind n.kind⟩

end NodeRecord

namespace DocumentMetadata

/-- An instant as its text. -/
def instant? (v : Value) : Option Time.Instant :=
  v.text? >>= Time.Instant.ofString?

/-- Metadata as a record. -/
def toJson (m : DocumentMetadata) : Value :=
  .record
    [("created", .ofText m.created.text), ("modified", .ofText m.modified.text),
      ("generator", .ofText m.generator)]

/-- The metadata that a record holds. -/
def ofJson? (v : Value) : Option DocumentMetadata := do
  let fields ← v.fields? ["created", "modified", "generator"]
  return { created := ← fields.required "created" instant?
           modified := ← fields.required "modified" instant?
           generator := ← fields.required "generator" Value.text? }

/-- Metadata that may be missing or `null`. -/
def ofOptionalJson? : Value → Option (Option DocumentMetadata)
  | .null => some none
  | v => (ofJson? v).map some

end DocumentMetadata

namespace GraphDocument

/-- The version of documents. -/
def formatVersion : String := "1.0"

/-- What documents are written by. -/
def generator : String := "elemental 0.1.0"

/-- A document as a record. -/
def toJson (d : GraphDocument) : Value :=
  .record
    [("version", .ofText d.version),
      ("metadata", match d.metadata with
        | some m => m.toJson
        | none => .null),
      ("name", .ofText d.name), ("nodes", .array (d.nodes.map NodeRecord.toJson)),
      ("connections", .array (d.connections.map Connection.toJson))]

/-- The document that a record holds. -/
def ofJson? (v : Value) : Option GraphDocument := do
  let fields ← v.fields? ["version", "metadata", "name", "nodes", "connections"]
  return { version := ← fields.optional "version" formatVersion Value.text?
           metadata := ← fields.optional "metadata" none DocumentMetadata.ofOptionalJson?
           name := ← fields.required "name" Value.text?
           nodes := ← fields.required "nodes" (Value.list? NodeRecord.ofJson?)
           connections := ← fields.optional "connections" [] (Value.list? Connection.ofJson?) }

/-- The document that a text holds. -/
def ofString? (text : String) : Option GraphDocument :=
  Value.ofString? text >>= ofJson?

/-- The document of a graph at a moment, which is also its creation if none was carried over. -/
def ofGraph (g : ShaderGraph) (now : Time.Instant) : GraphDocument :=
  { version := formatVersion
    metadata := some ⟨g.created.getD now, now, generator⟩
    name := g.name
    nodes := g.nodes.map .ofNode
    connections := g.connections }

end GraphDocument

end RenderKit
