import Std.Data.ExtTreeMap
import Storyline.Text

/-!
A tree of folders and files, held in memory, and paths in it: names with slashes between them. A path
that starts with a slash starts at the root, any other one at the working folder. Paths are followed
name by name, so that a name on the way has to be that of a folder even where the way leads back out
of it.
-/

namespace Storyline

namespace Path

/-- The names of a path; empty ones stand for nothing. -/
def names (path : String) : List String := (Text.split '/' path.toList).map String.ofList

def isAbsolute (path : String) : Bool := path.toList.head? == some '/'

/-- A path seen from a folder. -/
def join (folder path : String) : String :=
  if isAbsolute path || folder.isEmpty then path
  else if folder.toList.getLast? == some '/' then folder ++ path
  else folder ++ "/" ++ path

/-- Names that lead nowhere. -/
def isIdle (name : String) : Bool := name == "" || name == "."

/-- The folder that the last name of a path lies in; the empty path is the working folder. Idle
names at the end of either are dropped. -/
def parent (path : String) : String :=
  let front := ((names path).reverse.dropWhile isIdle).tail.dropWhile isIdle
  if front.isEmpty && isAbsolute path then "/" else "/".intercalate front.reverse

/-- The greatest number of bytes in a path. -/
def longest : Nat := 4095

/-- A path may stand for something: it is not too long, and no character of it ends it early. -/
def isUsable (path : String) : Bool :=
  path.utf8ByteSize ≤ longest && !path.toList.contains '\x00'

end Path

/-- What a name in a folder stands for. -/
inductive FileItem where
  | folder
  | file (content : ByteArray)
deriving Inhabited

/-- What can go wrong with files. -/
inductive FileError where
  | notFound
  | notFolder
  | isFolder
  | badName
  | notText
deriving DecidableEq, Repr

def FileError.message : FileError → String
  | notFound => "no such file or folder"
  | notFolder => "not a folder"
  | isFolder => "is a folder"
  | badName => "bad name"
  | notText => "content is not text"

/-- A place in a tree: the names on the way from the root, last first. -/
abbrev Place := List String

/-- Folders and files by their places, and the working folder. -/
structure FileTree where
  items : Std.ExtTreeMap String FileItem := ∅
  working : Place := []

namespace FileTree

instance : Inhabited FileTree := ⟨{}⟩

/-- The text that stands for a place. -/
def key (place : Place) : String := "/".intercalate place.reverse

/-- What is at a place. The root is always there. -/
def item? (t : FileTree) (place : Place) : Option FileItem :=
  if place.isEmpty then some .folder else t.items[key place]?

/-- Puts an item at a place. -/
def put (t : FileTree) (place : Place) (item : FileItem) : FileTree :=
  { t with items := t.items.insert (key place) item }

/-! ### Ways -/

/-- The greatest number of bytes in a name. -/
def longestName : Nat := 255

/-- Follows names from a place. All but the last one have to be those of folders; the last one
need not be there. -/
def follow (t : FileTree) : Place → List String → Except FileError Place
  | place, [] => .ok place
  | place, name :: rest =>
    if Path.isIdle name then follow t place rest
    else if name = ".." then follow t place.tail rest
    else if longestName < name.utf8ByteSize then .error .badName
    else if rest.isEmpty then .ok (name :: place)
    else
      match t.item? (name :: place) with
      | some .folder => follow t (name :: place) rest
      | some (.file _) => .error .notFolder
      | none => .error .notFound

/-- The place where a path starts. -/
def start (t : FileTree) (path : String) : Place :=
  if Path.isAbsolute path then [] else t.working

/-- The place that a path leads to. -/
def locate (t : FileTree) (path : String) : Except FileError Place :=
  if Path.isUsable path then t.follow (t.start path) (Path.names path) else .error .badName

/-- What a path leads to. -/
def find? (t : FileTree) (path : String) : Option FileItem :=
  match t.locate path with
  | .ok place => t.item? place
  | .error _ => none

/-! ### Files -/

def isFile (t : FileTree) (path : String) : Bool :=
  match t.find? path with
  | some (.file _) => true
  | _ => false

/-- The text of a file. -/
def read (t : FileTree) (path : String) : Except FileError String := do
  match t.item? (← t.locate path) with
  | none => throw .notFound
  | some .folder => throw .isFolder
  | some (.file content) =>
    match String.fromUTF8? content with
    | some text => return text
    | none => throw .notText

/-! ### Changes -/

/-- Changes of a tree that keep what they did when they fail. -/
abbrev Change := EStateM FileError FileTree

/-- The tree after a change, as far as it came. -/
def after (t : FileTree) (change : Change Unit) : FileTree :=
  match change t with
  | .ok _ t => t
  | .error _ t => t

/-- Sets the content of a file in a folder that is there. -/
def write (path : String) (content : ByteArray) : Change Unit := do
  let t ← get
  let place ← ofExcept (t.locate path)
  match t.item? place with
  | some .folder => throw .isFolder
  | _ => set (t.put place (.file content))

/-- Follows names from a place and makes the folders that are missing on the way. -/
def makeWay : Place → List String → Change Unit
  | _, [] => return ()
  | place, name :: rest => do
    if Path.isIdle name then makeWay place rest
    else if name = ".." then makeWay place.tail rest
    else if longestName < name.utf8ByteSize then throw .badName
    else
      match (← get).item? (name :: place) with
      | some .folder => makeWay (name :: place) rest
      | some (.file _) => throw .notFolder
      | none =>
        modify (·.put (name :: place) .folder)
        makeWay (name :: place) rest

/-- A place where a folder has to be. -/
def needFolder (place : Except FileError Place) : Change Unit := do
  match (← get).item? (← ofExcept place) with
  | some .folder => return ()
  | some (.file _) => throw .notFolder
  | none => throw .notFound

/-- Makes the folder that a path leads to and all that are missing on the way. Where the path ends
in a dot the last folder has to be there already. -/
def createFolders (path : String) : Change Unit := do
  if !Path.isUsable path then throw .badName
  let t ← get
  let names := Path.names path
  if (names.reverse.dropWhile (· == "")).head? == some "." then
    let steps := names.filter (!Path.isIdle ·)
    makeWay (t.start path) steps.dropLast
    needFolder ((← get).follow (t.start path) steps)
  else makeWay (t.start path) names

/-- Puts a file at a path, and the folders on the way to it. -/
def writeWithFolders (path : String) (content : ByteArray) : Change Unit := do
  createFolders (Path.parent path)
  write path content

/-- The tree with a file put at a path, as far as that can be done. -/
def withFile (t : FileTree) (path : String) (content : ByteArray) : FileTree :=
  t.after (writeWithFolders path content)

/-- A tree of one folder, which is the working folder, and some files with texts by their paths.
Those that cannot be written are left out. -/
def ofTexts (folder : String) (files : List (String × String)) : FileTree :=
  files.foldl (fun t f => t.withFile f.1 f.2.toUTF8)
    { ({} : FileTree).put [folder] .folder with working := [folder] }

/-! ### Listing -/

/-- The paths of all that lies below a folder, seen from there, in order; folders end in a
slash. -/
def listing (t : FileTree) (folder : Place) : List String :=
  let start := if folder.isEmpty then [] else (key folder).toList ++ ['/']
  let paths := t.items.toList.filterMap fun (path, item) =>
    if start.isPrefixOf path.toList then
      let name := String.ofList (path.toList.drop start.length)
      some (match item with
        | .folder => name ++ "/"
        | .file _ => name)
    else none
  paths.mergeSort

end FileTree

end Storyline
