import RenderKit.Json.Decode
import RenderKit.Node.Descriptor

/-!
# Pins and descriptors as JSON

The document forms of pin types, pins and descriptors. What is written is read back as it was.
-/

namespace RenderKit

open Json

namespace PinType

/-- The name of a type. -/
def toJson (t : PinType) : Value :=
  .ofText t.name

/-- The type that a value names. -/
def ofJson? (v : Value) : Option PinType :=
  v.variant? ofName?

@[simp] theorem ofJson?_toJson (t : PinType) : ofJson? t.toJson = some t :=
  ofName?_name t

end PinType

namespace PinSpec

/-- A pin as a record. -/
def toJson (p : PinSpec) : Value :=
  .record [("name", .ofText p.name), ("type", p.type.toJson), ("defaultValue", .ofText p.default)]

/-- The pin that a record declares; its default literal may be missing. -/
def ofJson? (v : Value) : Option PinSpec := do
  let fields ← v.fields? ["name", "type", "defaultValue"]
  return { name := ← fields.required "name" Value.text?
           type := ← fields.required "type" PinType.ofJson?
           default := ← fields.optional "defaultValue" "" Value.text? }

@[simp] theorem ofJson?_toJson (p : PinSpec) : ofJson? p.toJson = some p := by
  obtain ⟨name, type, default⟩ := p
  cases type <;> rfl

end PinSpec

namespace Descriptor

/-- A descriptor as a record. -/
def toJson (d : Descriptor) : Value :=
  .record
    [("name", .ofText d.name), ("category", .ofText d.category),
      ("description", .ofText d.description), ("inputs", .array (d.inputs.map PinSpec.toJson)),
      ("outputs", .array (d.outputs.map PinSpec.toJson))]

/-- The descriptor that a record holds; name and category must be there. -/
def ofJson? (v : Value) : Option Descriptor := do
  let fields ← v.fields? ["name", "category", "description", "inputs", "outputs"]
  return { name := ← fields.required "name" Value.text?
           category := ← fields.required "category" Value.text?
           description := ← fields.optional "description" "" Value.text?
           inputs := ← fields.optional "inputs" [] (Value.list? PinSpec.ofJson?)
           outputs := ← fields.optional "outputs" [] (Value.list? PinSpec.ofJson?) }

end Descriptor

end RenderKit
