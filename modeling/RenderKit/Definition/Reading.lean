import RenderKit.Definition.Basic
import RenderKit.Document.Pin
import RenderKit.Json.Reader

/-!
# Reading definitions

Templated definitions as JSON records, alone or in files. A record is checked in a fixed order:
its name, the number of its outputs, the names of its inputs, those of its outputs, and last the
placeholders of its template.
-/

namespace RenderKit

open Json

/-- Why a definition cannot be read. -/
inductive DefinitionError where
  | file (e : FileError)
  | noFile (name : String)
  | json
  | emptyName
  | duplicatePin (name : String)
  | unknownPlaceholder (name : String)
  | tooManyOutputs (count : Nat)
deriving DecidableEq, Repr

namespace DefinitionError

/-- The diagnostic of an error. -/
def message : DefinitionError → String
  | .file e => "failed to read definition file: " ++ e.message
  | .noFile name =>
    "failed to read definition file: definition '" ++ name ++ "' has no backing file"
  | .json => "failed to parse definition"
  | .emptyName => "definition name must not be empty"
  | .duplicatePin name => "pin name '" ++ name ++ "' is declared more than once"
  | .unknownPlaceholder name =>
    "code template references unknown placeholder '\x7b\x7b" ++ name ++ "\x7d\x7d'"
  | .tooManyOutputs count =>
    "definition declares " ++ toString count ++ " outputs, more than a node can expose"

/-- An error of the template inside of a definition. -/
def ofTemplate : TemplateError → DefinitionError
  | .unknownPlaceholder name => .unknownPlaceholder name

end DefinitionError

/-- A definition as it is written. -/
structure DefinitionRecord where
  name : String
  category : String
  description : String
  inputs : List PinSpec
  outputs : List PinSpec
  code : String
deriving DecidableEq, Repr

namespace DefinitionRecord

/-- The category of a definition that names none. -/
def defaultCategory : String := "Custom"

/-- The definition that a record holds; name and code must be there. -/
def ofJson? (v : Value) : Option DefinitionRecord := do
  let fields ← v.fields? ["name", "category", "description", "inputs", "outputs", "code"]
  return { name := ← fields.required "name" Value.text?
           category := ← fields.optional "category" defaultCategory Value.text?
           description := ← fields.optional "description" "" Value.text?
           inputs := ← fields.optional "inputs" [] (Value.list? PinSpec.ofJson?)
           outputs := ← fields.optional "outputs" [] (Value.list? PinSpec.ofJson?)
           code := ← fields.required "code" Value.text? }

end DefinitionRecord

/-- The first name in a list that stands before it already; `seen` holds the names before. -/
def firstRepeated? (seen : List String) : List String → Option String
  | [] => none
  | name :: rest => if name ∈ seen then some name else firstRepeated? (name :: seen) rest

/-- Refuses pins of which two have one name. -/
def checkPinNames (pins : List PinSpec) : Except DefinitionError Unit :=
  match firstRepeated? [] (pins.map (·.name)) with
  | some name => .error (.duplicatePin name)
  | none => .ok ()

namespace TemplateDefinition

/-- The definition of a record, if it can be used. -/
def ofRecord (r : DefinitionRecord) : Except DefinitionError TemplateDefinition := do
  if Text.allBlank r.name then .error .emptyName
  if OutputKey.stride ≤ r.outputs.length then .error (.tooManyOutputs r.outputs.length)
  checkPinNames r.inputs
  checkPinNames r.outputs
  let segments ← (Template.parse r.inputs r.outputs r.code.toList).mapError .ofTemplate
  return { descriptor := ⟨r.name, r.category, r.description, r.inputs, r.outputs⟩
           segments := segments }

/-- The definition that a text holds. -/
def ofString (text : String) : Except DefinitionError TemplateDefinition :=
  match Value.ofString? text >>= DefinitionRecord.ofJson? with
  | some r => ofRecord r
  | none => .error .json

/-- The definition that a file holds; it remembers the file and its time of modification. -/
def ofFile (files : FileTree) (path : String) : Except DefinitionError TemplateDefinition := do
  let file ← (files.file path).mapError .file
  let text ← (files.read path).mapError .file
  return { ← ofString text with backing := some ⟨path, file.modified⟩ }

/-- The definition that the file of a definition holds now. -/
def reloaded (d : TemplateDefinition) (files : FileTree) :
    Except DefinitionError TemplateDefinition :=
  match d.backing with
  | some b => ofFile files b.path
  | none => .error (.noFile d.descriptor.name)

end TemplateDefinition

end RenderKit
