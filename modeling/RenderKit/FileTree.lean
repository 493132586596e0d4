/-!
# File trees

The files a program can see, as a value: for every file its place below the working folder, its
text and its time of modification, and the folders. The working folder, the folders around it and
the root are always there. Paths are followed part by part; a part that stays where it is or goes
up needs the folder it stands in. A name has at most 255 bytes and a path at most 4095, and neither
holds a NUL. Listing a folder gives files in no particular order, and `sortPlaces` puts places in
the order of their parts.
-/

namespace RenderKit

/-- Why a file cannot be read or written. -/
inductive FileError where
  | notFound
  | notAFolder
  | isAFolder
  | lastPartStays
  | notEmpty
  | nameTooLong
  | nulInName
  | notText
deriving DecidableEq, Repr

namespace FileError

/-- The diagnostic of an error. -/
def message : FileError → String
  | .notFound => "No such file or directory (os error 2)"
  | .notAFolder => "Not a directory (os error 20)"
  | .isAFolder => "Is a directory (os error 21)"
  | .lastPartStays => "Invalid argument (os error 22)"
  | .notEmpty => "Directory not empty (os error 39)"
  | .nameTooLong => "File name too long (os error 36)"
  | .nulInName => "file name contained an unexpected NUL byte"
  | .notText => "stream did not contain valid UTF-8"

end FileError

/-- A file: its text, unless its bytes are none, and its time of modification. -/
structure File where
  text : Option String
  modified : Int
deriving DecidableEq, Repr

/-- The names of the folders from the working folder down to a file or folder, and its own. Two dots
in front lead out of the working folder, and a slash in front stands for the root. -/
abbrev Place := List String

namespace Place

/-- The name of the root. -/
def root : String := "/"

/-- Whether a place is the working folder, a folder around it, or the root. -/
def isAround (p : Place) : Bool :=
  p.all (· == "..") || p == [root]

/-- Whether a part of a path stays where it is. -/
def stays (part : String) : Bool :=
  part == "" || part == "."

/-- The place that a part of a path leads to, whether something is there or not. -/
def follow (p : Place) (part : String) : Place :=
  if stays part then p
  else if part = ".." then
    match p.getLast? with
    | none => [".."]
    | some name => if name = ".." then p ++ [".."] else if name = root then p else p.dropLast
  else p ++ [part]

/-- The folders around a place, the outermost first. -/
def parents (p : Place) : List Place :=
  (List.range (p.length - 1)).map fun n => p.take (n + 1)

/-- Whether a place is inside of a folder, at any depth. A way out of the folder, or to the root, does
not lead inside. -/
def holds (folder p : Place) : Bool :=
  folder.isPrefixOf p && folder.length < p.length
    && (p.drop folder.length).all fun part => part != ".." && part != root

/-- Whether a place comes before another or is the same, part by part. -/
def le : Place → Place → Bool
  | [], _ => true
  | _ :: _, [] => false
  | a :: as, b :: bs => if a = b then le as bs else decide (a < b)

/-- Whether a file of this name holds data in the format of that extension: a point and the
extension stand behind at least one character. -/
def hasExtension (extension name : String) : Bool :=
  let ending := '.' :: extension.toList
  ending.isSuffixOf name.toList && ending.length < name.toList.length

end Place

/-- Places in the order of their parts. -/
def sortPlaces (places : List Place) : List Place :=
  places.mergeSort Place.le

/-- What stands at a place. -/
inductive Entry where
  | missing
  | folder
  | file (f : File)
deriving DecidableEq, Repr

/-- The files, one at a place, and the folders. -/
structure FileTree where
  files : List (Place × File) := []
  folders : List Place := []
  distinct : (files.map (·.1)).Nodup := by exact List.nodup_nil
deriving DecidableEq, Repr

namespace FileTree

/-- What stands at a place; the working folder and those around it are always there. -/
def entry (t : FileTree) (place : Place) : Entry :=
  match t.files.lookup place with
  | some f => .file f
  | none => if place.isAround ∨ place ∈ t.folders then .folder else .missing

/-- A folder at a place. -/
def folderAt (t : FileTree) (place : Place) : Except FileError Place :=
  match t.entry place with
  | .folder => .ok place
  | .file _ => .error .notAFolder
  | .missing => .error .notFound

/-- The most bytes of a name. -/
def longestName : Nat := 255

/-- The most bytes of a path. -/
def longestPath : Nat := 4095

/-- The place that a part of a path names in a folder, unless the part is too long for a name. -/
def named (place : Place) (part : String) : Except FileError Place :=
  if longestName < part.utf8ByteSize then .error .nameTooLong else .ok (place.follow part)

/-- The folder that a part of a path leads to from a folder. -/
def descend (t : FileTree) (place : Place) (part : String) : Except FileError Place :=
  if Place.stays part then .ok place
  else named place part >>= t.folderAt

/-- The place that the last part of a path names in a folder. -/
def finish (t : FileTree) (place : Place) (part : String) : Except FileError Place :=
  if Place.stays part || part == ".." then t.descend place part
  else named place part

/-- The parts of a path between its slashes. -/
def parts (path : String) : List String :=
  (path.toList.splitOn '/').map String.ofList

/-- Where a path starts: in the working folder, or at the root if a slash is in front. -/
def start (path : String) : Place :=
  if path.toList.head? = some '/' then [Place.root] else []

/-- Refuses what no path can be: text with a NUL, an empty text, and one that is too long. -/
def checkPath (path : String) : Except FileError Unit :=
  if path.toList.contains '\x00' then .error .nulInName
  else if path = "" then .error .notFound
  else if longestPath < path.utf8ByteSize then .error .nameTooLong
  else .ok ()

/-- The folder around what a path names: the one that all parts but the last lead to. -/
def surrounding (t : FileTree) (path : String) : Except FileError Place :=
  (parts path).dropLast.foldlM t.descend (start path)

/-- The place that a path leads to; it may be free, but the folders on the way exist. -/
def place (t : FileTree) (path : String) : Except FileError Place := do
  checkPath path
  t.finish (← t.surrounding path) ((parts path).getLast?.getD "")

/-- What a path leads to. -/
def at? (t : FileTree) (path : String) : Except FileError Entry :=
  (t.place path).map t.entry

/-- Whether a path leads to a folder. -/
def isFolder (t : FileTree) (path : String) : Bool :=
  match t.at? path with
  | .ok .folder => true
  | _ => false

/-- The file that a path leads to. -/
def file (t : FileTree) (path : String) : Except FileError File := do
  match ← t.at? path with
  | .file f => .ok f
  | .folder => .error .isAFolder
  | .missing => .error .notFound

/-- The text of the file that a path leads to. -/
def read (t : FileTree) (path : String) : Except FileError String := do
  match (← t.file path).text with
  | some text => .ok text
  | none => .error .notText

/-- Whether what a path leads to has another time of modification than the recorded one. What is
missing has not changed; a folder in the place of a file has. -/
def hasChanged (t : FileTree) (path : String) (recorded : Int) : Bool :=
  match t.at? path with
  | .ok (.file f) => f.modified != recorded
  | .ok .folder => true
  | _ => false

/-- A path without the slashes at its end. -/
def withoutSlashes (path : String) : String :=
  String.ofList (path.toList.reverse.dropWhile (· == '/')).reverse

/-- Whether the last part of a path is a dot, slashes behind it apart. -/
def endsInDot (path : String) : Bool :=
  (parts (withoutSlashes path)).getLast? == some "."

/-- The place where a path lets a file be written. A slash at the end asks for a folder, whatever
stands there. -/
def writable (t : FileTree) (path : String) : Except FileError Place := do
  checkPath path
  let bare := withoutSlashes path
  if bare ≠ path then
    let _ ← t.surrounding bare
    .error .isAFolder
  let place ← t.place path
  match t.entry place with
  | .folder => .error .isAFolder
  | _ => .ok place

/-- Files at distinct places stay so when some are left out. -/
theorem nodup_places_filter {files : List (Place × File)} (h : (files.map (·.1)).Nodup)
    (keep : Place × File → Bool) : ((files.filter keep).map (·.1)).Nodup :=
  h.sublist (List.filter_sublist.map _)

/-- Puts a file at a place. -/
def put (t : FileTree) (place : Place) (f : File) : FileTree where
  files := (place, f) :: t.files.filter (·.1 != place)
  folders := t.folders
  distinct := by
    refine List.nodup_cons.2 ⟨fun h => ?_, nodup_places_filter t.distinct _⟩
    obtain ⟨entry, hentry, heq⟩ := List.mem_map.1 h
    simp [heq] at hentry

/-- Writes a file whose folder exists. -/
def write (t : FileTree) (path : String) (f : File) : Except FileError FileTree :=
  (t.writable path).map fun place => t.put place f

/-- Makes a folder at a place, unless one is there. -/
def addFolder (t : FileTree) (place : Place) : Except FileError FileTree :=
  match t.entry place with
  | .folder => .ok t
  | .file _ => .error .notAFolder
  | .missing => .ok { t with folders := place :: t.folders }

/-- Makes the folders that parts of a path name one inside the other, from a folder on. What was
made before a failure stays. -/
def addFolders (t : FileTree) (place : Place) : List String → Except FileError Unit × FileTree
  | [] => (.ok (), t)
  | part :: rest =>
    match named place part with
    | .error e => (.error e, t)
    | .ok inner =>
      match t.addFolder inner with
      | .error e => (.error e, t)
      | .ok t => t.addFolders inner rest

/-- Makes the folder that a path names and the folders around it, unless they are there. The name
in front of a dot at the end is not made, since the dot needs its folder. -/
def makeFolders (t : FileTree) (path : String) : Except FileError Unit × FileTree :=
  if path = "" then (.ok (), t)
  else match checkPath path with
    | .error e => (.error e, t)
    | .ok _ =>
      let names := (parts path).filter (!Place.stays ·)
      if endsInDot path then
        let (made, t) := t.addFolders (start path) names.dropLast
        (made >>= fun _ => (t.place path >>= t.folderAt).map fun _ => (), t)
      else t.addFolders (start path) names

/-- The path of the folder around what a path names, without parts at its end that stay. -/
def parent (path : String) : String :=
  let bare := (parts path).reverse.dropWhile Place.stays
  let around := (bare.drop 1).dropWhile Place.stays
  if around = [] then (if path.toList.head? = some '/' then "/" else "")
  else "/".intercalate around.reverse

/-- Puts what stands at a path into the tree, with the folders around it, whatever was there. -/
def mount (t : FileTree) (path : String) (e : Entry) : FileTree :=
  let place := (parts path).foldl Place.follow (start path)
  let around := { t with folders := (place.parents ++ t.folders).eraseDups }
  match e with
  | .missing => t
  | .folder => { around with folders := (place :: around.folders).eraseDups }
  | .file f => around.put place f

/-- The tree without what stands at the places of a kind. -/
def without (t : FileTree) (gone : Place → Bool) : FileTree where
  files := t.files.filter fun entry => !gone entry.1
  folders := t.folders.filter fun folder => !gone folder
  distinct := nodup_places_filter t.distinct _

/-- The tree without what is inside of a folder. -/
def emptied (t : FileTree) (folder : Place) : FileTree :=
  t.without (Place.holds folder)

/-- Removes an empty folder by a path that led to it when it had something in it. A folder whose
path went through what was inside of it cannot be found any more and stays, and so does one that is
named by a dot or stands around the working folder. -/
def removeEmptied (t : FileTree) (path : String) (folder : Place) :
    Except FileError Unit × FileTree :=
  match t.surrounding (withoutSlashes path) with
  | .error .notFound => (.ok (), t)
  | .error e => (.error e, t)
  | .ok _ =>
    if endsInDot path then (.error .lastPartStays, t)
    else if folder.isAround then (.error .notEmpty, t)
    else (.ok (), t.without (· == folder))

/-- Removes what a path leads to. A folder is emptied first and removed by its path then. -/
def remove (t : FileTree) (path : String) : Except FileError Unit × FileTree :=
  match t.place path with
  | .error e => (.error e, t)
  | .ok place =>
    match t.entry place with
    | .missing => (.error .notFound, t)
    | .file _ => (.ok (), t.without (· == place))
    | .folder => (t.emptied place).removeEmptied path place

/-- The places of the files in a folder, and with `deep` of those in folders inside of it, whose
names have an extension. -/
def candidates (t : FileTree) (folder : Place) (deep : Bool) (extension : String) : List Place :=
  (t.files.map (·.1)).filter fun place =>
    Place.holds folder place && (deep || place.length == folder.length + 1)
      && Place.hasExtension extension (place.getLast?.getD "")

/-- A path extended by further parts. -/
def join (path : String) (parts : List String) : String :=
  let parts := "/".intercalate parts
  if path.toList.getLast? == some '/' then path ++ parts else path ++ "/" ++ parts

/-- A file that was put at a place stands there. -/
@[simp] theorem entry_put_self (t : FileTree) (place : Place) (f : File) :
    (t.put place f).entry place = .file f := by
  simp [entry, put]

end FileTree

end RenderKit
