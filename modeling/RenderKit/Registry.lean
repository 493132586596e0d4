import RenderKit.Definition.Reading
import RenderKit.Settings
import RenderKit.Shader.Node
import RenderKit.Table

/-!
# The registry

The definitions that can be used, by name. An entry that was registered from its document keeps
track of its file: while hot reloading is on, a check takes up every changed file that still
defines the same name. Folders are searched in the order of their paths, and a name that is taken
stays as it is.
-/

namespace RenderKit

/-- Why the registry refuses. -/
inductive RegistryError where
  | duplicateDefinition (name : String)
  | definitionNotFound (name : String)
  | folderNotFound (path : String)
  | definition (e : DefinitionError)
deriving DecidableEq, Repr

namespace RegistryError

/-- The diagnostic of an error. -/
def message : RegistryError → String
  | .duplicateDefinition name => "custom node '" ++ name ++ "' is already registered"
  | .definitionNotFound name => "custom node '" ++ name ++ "' is not registered"
  | .folderNotFound path => "directory does not exist: " ++ path
  | .definition e => e.message

end RegistryError

/-- A registered definition: one that is taken as it is, or one that follows its file. -/
inductive Registered where
  | fixed (d : SharedDefinition)
  | followed (handle : Nat) (d : TemplateDefinition)

namespace Registered

/-- The definition in use. -/
def shared : Registered → SharedDefinition
  | .fixed d => d
  | .followed handle d => ⟨handle, .template d⟩

end Registered

/-- Definitions by name, and whether their files are followed. -/
structure Registry where
  entries : Table Registered := .empty
  hotReload : Bool := false

namespace Registry

/-- A registry without definitions. -/
def empty : Registry := {}

/-- The registered names in ascending order. -/
def names (r : Registry) : List String :=
  r.entries.names

/-- Whether a name is registered. -/
def contains (r : Registry) (name : String) : Bool :=
  r.entries.contains name

/-- The definition that is registered under a name. -/
def get? (r : Registry) (name : String) : Option SharedDefinition :=
  (r.entries.get? name).map Registered.shared

/-- The registry with hot reloading on or off. -/
def setHotReload (r : Registry) (on : Bool) : Registry :=
  { r with hotReload := on }

/-- Registers a definition under a free name. -/
def insert (r : Registry) (name : String) (entry : Registered) : Except RegistryError Registry :=
  if Text.allBlank name then .error (.definition .emptyName)
  else if r.contains name then .error (.duplicateDefinition name)
  else .ok { r with entries := r.entries.insert name entry }

/-- Registers a definition as it is. -/
def register (r : Registry) (d : SharedDefinition) : Except RegistryError Registry :=
  r.insert d.name (.fixed d)

/-- Registers a templated definition, which follows its file from now on. -/
def registerTemplate (r : Registry) (d : TemplateDefinition) (supply : Supply) :
    Except RegistryError (Registry × Supply) :=
  let (shared, supply) := supply.share (.template d)
  (r.insert d.descriptor.name (.followed shared.handle d)).map fun r => (r, supply)

/-- Takes a definition out. -/
def unregister (r : Registry) (name : String) :
    Except RegistryError (SharedDefinition × Registry) :=
  match r.get? name with
  | some d => .ok (d, { r with entries := r.entries.erase name })
  | none => .error (.definitionNotFound name)

/-- A fresh node of a registered definition. -/
def createNode (r : Registry) (name : String) (supply : Supply) :
    Except RegistryError (Node × Supply) :=
  match r.get? name with
  | some d => .ok (Node.create (.custom d) supply)
  | none => .error (.definitionNotFound name)

/-- The extension of files with definitions. -/
def extension : String := "json"

/-- The paths of the files with definitions in a folder, in the order of their parts. -/
def definitionFiles (files : FileTree) (path : String) (recursive : Bool) : List String :=
  match files.place path with
  | .ok folder =>
    (sortPlaces (files.candidates folder recursive extension)).map fun place =>
      FileTree.join path (place.drop folder.length)
  | .error _ => []

/-- Registers the definition in a file; a file that cannot be used changes nothing. The number
counts the registered ones. -/
def loadFile (files : FileTree) (state : Registry × Supply × Nat) (path : String) :
    Registry × Supply × Nat :=
  let (r, supply, count) := state
  match TemplateDefinition.ofFile files path with
  | .error _ => state
  | .ok d =>
    match r.registerTemplate d supply with
    | .error _ => state
    | .ok (r, supply) => (r, supply, count + 1)

/-- Registers the definitions in a folder, and with `recursive` in the folders inside of it; tells
how many there were. -/
def loadFolder (r : Registry) (files : FileTree) (path : String) (recursive : Bool)
    (supply : Supply) : Except RegistryError (Registry × Supply × Nat) :=
  if files.isFolder path then
    .ok ((definitionFiles files path recursive).foldl (loadFile files) (r, supply, 0))
  else .error (.folderNotFound path)

/-- Registers the definitions in a folder of the settings; a folder that is missing changes
nothing. -/
def applyFolder (files : FileTree) (recursive : Bool) (state : Registry × Supply × Nat)
    (path : String) : Registry × Supply × Nat :=
  let (r, supply, count) := state
  match r.loadFolder files path recursive supply with
  | .error _ => state
  | .ok (r, supply, loaded) => (r, supply, count + loaded)

/-- Takes up the settings: the hot reload flag and the definitions in the folders, in order. -/
def applySettings (r : Registry) (settings : Settings) (files : FileTree) (supply : Supply) :
    Registry × Supply × Nat :=
  settings.folders.foldl (applyFolder files settings.recursive)
    (r.setHotReload settings.hotReload, supply, 0)

/-- What the file of an entry holds now, if it is to replace the entry: the entry follows its file,
the file has changed, and it defines the entry's name. -/
def replacement? (files : FileTree) (name : String) : Registered → Option TemplateDefinition
  | .fixed _ => none
  | .followed _ d =>
    if d.hasChanged files then
      match d.reloaded files with
      | .ok fresh => if fresh.descriptor.name = name then some fresh else none
      | .error _ => none
    else none

/-- The definitions that the entries' files hold now, for those to be replaced. -/
def replacements (r : Registry) (files : FileTree) : List (String × TemplateDefinition) :=
  r.entries.rows.filterMap fun (name, entry) =>
    (replacement? files name entry).map fun fresh => (name, fresh)

/-- Puts a definition in the place of the one of that name. -/
def replace (state : Registry × Supply) (change : String × TemplateDefinition) :
    Registry × Supply :=
  let (r, supply) := state
  let (name, fresh) := change
  let (shared, supply) := supply.share (.template fresh)
  ({ r with entries := r.entries.insert name (.followed shared.handle fresh) }, supply)

/-- Takes up changed files while hot reloading is on, and tells how many. -/
def checkForChanges (r : Registry) (files : FileTree) (supply : Supply) :
    Registry × Supply × Nat :=
  if r.hotReload then
    let changes := r.replacements files
    let (r, supply) := changes.foldl replace (r, supply)
    (r, supply, changes.length)
  else (r, supply, 0)

end Registry

end RenderKit
