import RenderKit.CommandLine

/-!
# The program

Gathers the files that a run may see, runs it on them, and prints what comes out. The settings tell
which folders count, so their file is read before those.
-/

namespace RenderKit.Main

/-- What stands at a path. -/
def entryAt (path : String) : IO Entry := do
  try
    let found ← (← IO.FS.realPath path).metadata
    match found.type with
    | .dir => return .folder
    | _ =>
      let bytes ← IO.FS.readBinFile path
      return .file ⟨String.fromUTF8? bytes, found.modified.sec⟩
  catch _ => return .missing

/-- The names in a folder. -/
def namesIn (path : String) : IO (List String) := do
  try
    return ((← (← IO.FS.realPath path).readDir).map (·.fileName)).toList
  catch _ => return []

/-- Takes what stands at a path into a tree, and what is inside of it down to a depth. -/
def gather (depth : Nat) (files : FileTree) (path : String) : IO FileTree := do
  let entry ← entryAt path
  let files := files.mount path entry
  match depth, entry with
  | depth + 1, .folder =>
    (← namesIn path).foldlM (fun files name => gather depth files (FileTree.join path [name])) files
  | _, _ => return files

/-- How deep folders are searched. -/
def searchDepth : Nat := 64

/-- The files that a compilation may see. -/
def visibleFiles (o : CommandLine.Options) (initial : Settings) : IO FileTree := do
  let named := o.settings.toList ++ o.graph.toList
  let files ← named.foldlM (gather 0) {}
  match CommandLine.settings o initial files with
  | .error _ => return files
  | .ok settings =>
    settings.folders.foldlM (gather (if settings.recursive then searchDepth else 1)) files

/-- Runs the program with these arguments. -/
def start (args : List String) : IO UInt32 := do
  let initial := Settings.initial (← IO.getEnv "HOME")
  let files ← match CommandLine.parse args with
    | .ok (.compile o) => visibleFiles o initial
    | _ => pure {}
  let outcome := CommandLine.run args initial files
  IO.print outcome.output
  if outcome.diagnostic ≠ "" then IO.eprintln outcome.diagnostic
  return outcome.status.toUInt32

end RenderKit.Main

/-- The entry point. -/
def main (args : List String) : IO UInt32 :=
  RenderKit.Main.start args
