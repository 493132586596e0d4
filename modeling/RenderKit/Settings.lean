import RenderKit.FileTree
import RenderKit.Json.Decode
import RenderKit.Json.Printer
import RenderKit.Json.Reader

/-!
# Settings

Where definitions of node families are looked for, whether changed ones are taken up, and how
source is laid out. Every setting has a default, so a settings file holds only those that differ.
-/

namespace RenderKit

open Json

/-- The layout of shader source. -/
structure Layout where
  indentWidth : Nat := 4
deriving DecidableEq, Repr

namespace Layout

/-- The blanks in front of a statement. -/
def indent (l : Layout) : String :=
  String.ofList (List.replicate l.indentWidth ' ')

/-- A layout as a record. -/
def toJson (l : Layout) : Value :=
  .record [("indent_width", .ofNat l.indentWidth)]

/-- The layout that a record holds. -/
def ofJson? (v : Value) : Option Layout := do
  let fields ← v.fields? ["indent_width"]
  return { indentWidth := ← fields.required "indent_width" Value.word64? }

end Layout

/-- The settings of a run. -/
structure Settings where
  folders : List String
  recursive : Bool := false
  hotReload : Bool := false
  indentWidth : Nat := 4
deriving DecidableEq, Repr

/-- Why settings cannot be read or written. -/
inductive SettingsError where
  | file (e : FileError)
  | json
deriving DecidableEq, Repr

namespace SettingsError

/-- The diagnostic of an error. -/
def message : SettingsError → String
  | .file e => "failed to access config file: " ++ e.message
  | .json => "failed to (de)serialize config"

end SettingsError

namespace Settings

/-- The folder of definitions below a user's home. -/
def homeFolder : String := ".elemental/nodes"

/-- The folder of definitions of a project. -/
def projectFolder : String := "./nodes"

/-- The settings without a file, for a user with or without a home. -/
def initial (home : Option String) : Settings :=
  let own := home.toList.map fun path => FileTree.join path [homeFolder]
  { folders := own ++ [projectFolder] }

/-- One more folder to look for definitions in, behind the others. -/
def addFolder (s : Settings) (path : String) : Settings :=
  { s with folders := s.folders ++ [path] }

/-- The layout of source. -/
def layout (s : Settings) : Layout :=
  ⟨s.indentWidth⟩

/-- Settings as a record. -/
def toJson (s : Settings) : Value :=
  .record
    [("customNodeDirs", .array (s.folders.map .ofText)), ("recursiveScan", .bool s.recursive),
      ("hotReload", .bool s.hotReload), ("indentWidth", .ofNat s.indentWidth)]

/-- The settings that a record holds; what is missing is as in `default`. -/
def ofJson? (default : Settings) (v : Value) : Option Settings := do
  let fields ← v.fields? ["customNodeDirs", "recursiveScan", "hotReload", "indentWidth"]
  return { folders := ← fields.optional "customNodeDirs" default.folders (Value.list? Value.text?)
           recursive := ← fields.optional "recursiveScan" default.recursive Value.bool?
           hotReload := ← fields.optional "hotReload" default.hotReload Value.bool?
           indentWidth := ← fields.optional "indentWidth" default.indentWidth Value.word64? }

/-- The settings that a text holds. -/
def ofString? (default : Settings) (text : String) : Option Settings :=
  Value.ofString? text >>= ofJson? default

/-- The settings of a file. -/
def load (default : Settings) (files : FileTree) (path : String) :
    Except SettingsError Settings := do
  match files.read path with
  | .error e => .error (.file e)
  | .ok text =>
    match ofString? default text with
    | some s => .ok s
    | none => .error .json

/-- Writes settings to a file at a time. -/
def save (s : Settings) (files : FileTree) (path : String) (time : Int) :
    Except SettingsError FileTree :=
  (files.write path ⟨some s.toJson.document, time⟩).mapError .file

end Settings

end RenderKit
