import Storyline.Error
import Storyline.Files.Tree
import Storyline.Ron.Codec
import Storyline.Ron.Writer

/-!
Archives: data kept under names. One that works on files keeps the data of a name as text in the
file of that name, which ends in `.ron`, below a folder of its own.
-/

namespace Storyline

/-- What files are needed for. Failures are told in words. -/
structure FileSystem (m : Type → Type) where
  isFile : String → m Bool
  createFolders : String → m (Except String Unit)
  read : String → m (Except String String)
  write : String → String → m (Except String Unit)

/-- A change of files in memory, its failure told in words. -/
def FileTree.telling (change : FileTree.Change Unit) : StateM FileTree (Except String Unit) := fun t =>
  match change t with
  | .ok () t => (.ok (), t)
  | .error e t => (.error e.message, t)

/-- Files in memory. -/
def FileTree.system : FileSystem (StateM FileTree) where
  isFile path := do return (← get).isFile path
  createFolders path := FileTree.telling (FileTree.createFolders path)
  read path := do return ((← get).read path).mapError FileError.message
  write path text := FileTree.telling (FileTree.write path text.toUTF8)

namespace FileSystem

variable {m : Type → Type} [Monad m]

/-- An operation whose failure is one of files. -/
def orFail {α : Type} (r : m (Except String α)) : ExceptT PersistError m α := do
  match ← r with
  | .ok a => return a
  | .error detail => throw (.io detail)

/-- Reads the data of a text file. -/
def readData {α : Type} [Ron.Codec α] (fs : FileSystem m) (path : String) :
    ExceptT PersistError m α := do
  match Ron.read Ron.Codec.form (← orFail (fs.read path)) with
  | .ok a => return a
  | .error e => throw (.decode e.message)

end FileSystem

/-- Data under names. -/
structure Archive (m : Type → Type) where
  isFile : String → m Bool
  createFolder : String → ExceptT PersistError m Unit
  save : {α : Type} → [Ron.Codec α] → String → α → ExceptT PersistError m Unit
  load : {α : Type} → [Ron.Codec α] → String → ExceptT PersistError m α

namespace Archive

/-- The name of a file of some kind. -/
def fileName (name suffix : String) : String := name ++ "." ++ suffix

/-- The path of the file of a name. -/
def path (base name : String) : String := Path.join base (name ++ ".ron")

/-- The archive of the text files below a folder. -/
def ofFiles {m : Type → Type} [Monad m] (fs : FileSystem m) (base : String) : Archive m where
  isFile name := fs.isFile (path base name)
  createFolder name := FileSystem.orFail (fs.createFolders (Path.join base name))
  save name a := do
    let path := path base name
    FileSystem.orFail (fs.createFolders (Path.parent path))
    match Ron.write? .pretty (Ron.Codec.doc a) with
    | some text => FileSystem.orFail (fs.write path text)
    | none => throw (.encode "nested too deeply")
  load name := do
    let path := path base name
    if !(← fs.isFile path) then throw (.notFound path)
    fs.readData path

/-- What an archive was asked for. -/
inductive Call where
  | isFile (name : String)
  | createFolder (name : String)
  | save (name : String)
  | load (name : String)
deriving DecidableEq, Repr

/-- Notes a call, behind those before it. -/
def noting {m : Type → Type} [Monad m] {α : Type} (c : Call) (r : m α) : StateT (List Call) m α := do
  modify (· ++ [c])
  r

/-- An archive that notes what it is asked for. -/
def watched {m : Type → Type} [Monad m] (a : Archive m) : Archive (StateT (List Call) m) where
  isFile name := noting (.isFile name) (a.isFile name)
  createFolder name := ExceptT.mk (noting (.createFolder name) (a.createFolder name).run)
  save name x := ExceptT.mk (noting (.save name) (a.save name x).run)
  load name := ExceptT.mk (noting (.load name) (a.load name).run)

end Archive

end Storyline
