import RenderKit.Document.Loading
import RenderKit.Schedule.PassGraph
import RenderKit.Shader.Graph.Material
import RenderKit.Shader.Source

/-!
# The command line

What the arguments of a run ask for, and the run on the files it may see. Arguments are taken from
left to right: an option that asks for help or for the version ends the reading, and the first
argument that cannot be used refuses the whole line. Behind a double dash every argument is a path.
-/

namespace RenderKit.CommandLine

/-- Why a command line is refused. -/
inductive UsageError where
  | unknownArgument (text : String)
  | missingValue (option : String)
  | emptyValue (option : String)
  | repeatedOption (option : String)
  | unexpectedValue (option : String)
  | extraPath (text : String)
deriving DecidableEq, Repr

namespace UsageError

/-- The diagnostic of an error. -/
def message : UsageError → String
  | .unknownArgument text => "unexpected argument '" ++ text ++ "'"
  | .missingValue option => "a value is required for '" ++ option ++ "'"
  | .emptyValue option => "the value for '" ++ option ++ "' must not be empty"
  | .repeatedOption option => "'" ++ option ++ "' cannot be used more than once"
  | .unexpectedValue option => "'" ++ option ++ "' takes no value"
  | .extraPath text => "unexpected argument '" ++ text ++ "'"

end UsageError

/-- What a run compiles and how. -/
structure Options where
  graph : Option String := none
  vertex : Bool := false
  folders : List String := []
  settings : Option String := none
deriving DecidableEq, Repr

/-- What a command line asks for. -/
inductive Request where
  | compile (options : Options)
  | help
  | version
deriving DecidableEq, Repr

/-- An option that takes a value. -/
inductive ValueOption where
  | nodes
  | config
deriving DecidableEq, Repr

namespace ValueOption

/-- How an option is written. -/
def flag : ValueOption → String
  | .nodes => "--nodes"
  | .config => "--config"

/-- Takes the value of an option in. -/
def set (option : ValueOption) (value : String) (o : Options) : Except UsageError Options :=
  match option with
  | .nodes =>
    if value = "" then .error (.emptyValue option.flag)
    else .ok { o with folders := o.folders ++ [value] }
  | .config =>
    if o.settings.isSome then .error (.repeatedOption option.flag)
    else if value = "" then .error (.emptyValue option.flag)
    else .ok { o with settings := some value }

end ValueOption

/-- Takes the path of a graph in. -/
def setGraph (path : String) (o : Options) : Except UsageError Options :=
  if o.graph.isSome then .error (.extraPath path)
  else if path = "" then .error (.emptyValue "graph")
  else .ok { o with graph := some path }

/-- A long argument in its name and the value behind its first equals sign. -/
def splitLong (text : String) : String × Option String :=
  let cs := text.toList
  let name := cs.takeWhile (· != '=')
  match cs.drop name.length with
  | _ :: value => (String.ofList name, some (String.ofList value))
  | [] => (text, none)

/-- What an argument is by its first characters. -/
inductive Shape where
  | separator
  | long (name : String) (value : Option String)
  | short (letters : List Char)
  | plain
deriving DecidableEq, Repr

/-- The shape of an argument. A single dash is a plain one. -/
def shapeOf (text : String) : Shape :=
  match text.toList with
  | ['-', '-'] => .separator
  | '-' :: '-' :: _ => .long (splitLong text).1 (splitLong text).2
  | '-' :: c :: rest => .short (c :: rest)
  | _ => .plain

/-- All arguments as paths. -/
def readPaths (o : Options) (args : List String) : Except UsageError Request :=
  (args.foldlM (fun o path => setGraph path o) o).map .compile

/-- Reads arguments, what was read before being in `o`. -/
def read (o : Options) : List String → Except UsageError Request
  | [] => .ok (.compile o)
  | arg :: rest =>
    match shapeOf arg with
    | .separator => readPaths o rest
    | .plain => do read (← setGraph arg o) rest
    | .short letters =>
      match letters.head? with
      | some 'V' => .ok .version
      | some 'h' => .ok .help
      | _ => .error (.unknownArgument arg)
    | .long "--version" none => .ok .version
    | .long "--help" none => .ok .help
    | .long "--vertex" none =>
      if o.vertex then .error (.repeatedOption "--vertex") else read { o with vertex := true } rest
    | .long "--nodes" (some value) => do read (← ValueOption.nodes.set value o) rest
    | .long "--config" (some value) => do read (← ValueOption.config.set value o) rest
    | .long name none =>
      match [ValueOption.nodes, .config].find? (·.flag == name), rest with
      | none, _ => .error (.unknownArgument arg)
      | some option, [] => .error (.missingValue option.flag)
      | some option, value :: rest =>
        match shapeOf value with
        | .plain => do read (← option.set value o) rest
        | _ => .error (.missingValue option.flag)
    | .long name (some _) =>
      if name = "--vertex" ∨ name = "--version" ∨ name = "--help" then
        .error (.unexpectedValue name)
      else .error (.unknownArgument arg)

/-- What a command line asks for. -/
def parse (args : List String) : Except UsageError Request :=
  read {} args

/-- Why a run fails. -/
inductive RunError where
  | settings (e : SettingsError)
  | document (e : DocumentError)
  | codegen (e : CodegenError)
  | schedule (e : ScheduleError)
deriving DecidableEq, Repr

namespace RunError

/-- The diagnostic of an error. -/
def message : RunError → String
  | .settings e => e.message
  | .document e => e.message
  | .codegen e => e.message
  | .schedule e => e.message

end RunError

/-- The settings of a run: those of its file or the initial ones, and its further folders. -/
def settings (o : Options) (initial : Settings) (files : FileTree) : Except RunError Settings := do
  let settings ← match o.settings with
    | some path => (Settings.load initial files path).mapError .settings
    | none => .ok initial
  return o.folders.foldl Settings.addFolder settings

/-- The source of the standard material, behind which the standard passes run once. -/
def compileStandard (layout : Layout) : Except RunError String := do
  let (graph, _) := ShaderGraph.standardMaterial {}
  let text ← (graph.source .fragment layout).mapError .codegen
  ((PassGraph.standard (σ := PUnit)).execute ()).1.mapError .schedule
  return text

/-- The source of the graph in a file, with the definitions that the settings lead to. -/
def compileFile (settings : Settings) (files : FileTree) (path : String) (stage : Stage) :
    Except RunError String := do
  let (registry, supply, _) := Registry.empty.applySettings settings files {}
  let graph ← (ShaderGraph.load files path registry supply).1.mapError .document
  (graph.source stage settings.layout).mapError .codegen

/-- The source that a run prints. Without a graph it is the standard material's, whatever the
stage. -/
def compile (o : Options) (initial : Settings) (files : FileTree) : Except RunError String := do
  let settings ← settings o initial files
  match o.graph with
  | none => compileStandard settings.layout
  | some path => compileFile settings files path (if o.vertex then .vertex else .fragment)

/-- The name and the version of the program. -/
def versionText : String := "elemental 0.1.0\n"

/-- The help of the program. -/
def helpText : String :=
  "Compile shader graphs and schedule render passes\n\n"
    ++ "Usage: elemental [OPTIONS] [GRAPH]\n\n"
    ++ "Arguments:\n"
    ++ "  [GRAPH]  Shader graph file to compile; omit to print the default PBR shader\n\n"
    ++ "Options:\n"
    ++ "      --vertex         Emit the vertex shader instead of the fragment shader\n"
    ++ "      --nodes <DIR>    Directory of custom node definitions (repeatable)\n"
    ++ "      --config <FILE>  Engine configuration file\n"
    ++ "  -h, --help           Print help\n"
    ++ "  -V, --version        Print version\n"

/-- How a run ends: its exit status, what it prints, and its diagnostic. -/
structure Outcome where
  status : Nat
  output : String := ""
  diagnostic : String := ""
deriving DecidableEq, Repr

/-- A run with these arguments. -/
def run (args : List String) (initial : Settings) (files : FileTree) : Outcome :=
  match parse args with
  | .error e => { status := 2, diagnostic := e.message }
  | .ok .help => { status := 0, output := helpText }
  | .ok .version => { status := 0, output := versionText }
  | .ok (.compile o) =>
    match compile o initial files with
    | .ok text => { status := 0, output := text ++ "\n" }
    | .error e => { status := 1, diagnostic := e.message }

end RenderKit.CommandLine
