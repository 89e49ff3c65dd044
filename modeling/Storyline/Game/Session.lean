import Storyline.Files.Archive
import Storyline.Game.Play

/-!
Games and their files: saves, and the settings of the player.
-/

namespace Storyline

/-- Changes of a game that use files and keep what they did when they fail. -/
abbrev Session (σ : Type) (m : Type → Type) := ExceptT GameError (StateT (Game σ) m)

namespace Session

variable {σ α : Type} {m : Type → Type} [Monad m]

/-- An operation on an archive. -/
def archived (r : ExceptT PersistError m α) : Session σ m α := do
  match ← r.run with
  | .ok a => return a
  | .error e => throw (.persist e)

/-- A change that needs no files. -/
def play (p : Play σ α) : Session σ m α := do
  match p (← get) with
  | .ok a g => set g; return a
  | .error e g => set g; throw e

/-- The name under which a save is kept. -/
def saveName (c : GameConfig) (name : String) : String :=
  c.savesFolder ++ "/" ++ Archive.fileName name c.saveSuffix

/-- The name under which the settings are kept. -/
def settingsName (c : GameConfig) : String := Archive.fileName c.settingsName c.settingsSuffix

/-- The save of a game as it is now: the one that it holds, renewed. -/
def snapshot (g : Game σ) (name : String) (now : Instant) : SavedGame :=
  { g.live.saved.getD (.new name g.config.version now) with
    name
    version := g.config.version
    store := g.store.toData
    updated := now }

/-- Notes the save that a game goes on with. -/
def hold (saved : SavedGame) : Session σ m Unit :=
  modify fun g => { g with live := { g.live with saved := some saved } }

/-- Saves the store under a name. -/
def saveGame (archive : Archive m) (name : String) (now : Instant) :
    Session σ m SavedGame := do
  let g ← get
  let saved := snapshot g name now
  archived (archive.createFolder g.config.savesFolder)
  archived (archive.save (saveName g.config name) saved)
  hold saved
  return saved

/-- Loads the contents of the store from a save. -/
def loadGame (archive : Archive m) (name : String) : Session σ m SavedGame := do
  let saved : SavedGame ← archived (archive.load (saveName (← get).config name))
  modify fun g => g.mapStage fun s => { s with store := s.store.load saved.store }
  hold saved
  return saved

/-- Reads the settings; where there are none they are written first. -/
def readSettings (archive : Archive m) : Session σ m GameSettings := do
  let name := settingsName (← get).config
  if !(← archive.isFile name) then archived (archive.save name ({} : GameSettings))
  let settings : GameSettings ← archived (archive.load name)
  modify fun g => { g with settings }
  return settings

/-- Changes the settings. -/
def saveSettings (archive : Archive m) (settings : GameSettings) :
    Session σ m GameSettings := do
  archived (archive.save (settingsName (← get).config) settings)
  modify fun g => { g with settings }
  return settings

end Session

end Storyline
