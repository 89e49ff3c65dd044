import Storyline.Ron.Codec
import Storyline.Store

/-!
Saves: the contents of the store under a name, with the version of the game and two times.
-/

namespace Storyline

/-- A save of a game. -/
structure SavedGame where
  name : String
  version : String
  created : Instant
  updated : Instant
  store : Data := []
deriving Inhabited

namespace SavedGame

/-- An empty save, made now. -/
def new (name version : String) (now : Instant) : SavedGame :=
  { name, version, created := now, updated := now }

/-- What a game that starts now notes before it is saved. -/
def newGame (version : String) (now : Instant) : SavedGame :=
  new s!"NewGame-{now.millis}" version now

end SavedGame

open Ron (Codec Form)
open Ron.Form (Structure)

namespace SavedGame

/-- The two times of a save. -/
def times : Structure SavedGame where
  name := "SaveMeta"
  fields := [
    ("created", Structure.set Form.instant fun t s => { s with created := t }),
    ("updated", Structure.set Form.instant fun t s => { s with updated := t })]
  required := ["created", "updated"]

/-- The contents of the store. -/
def contents : Structure SavedGame where
  name := "SavedGameData"
  fields := [("store", Structure.set (Form.map Codec.form) fun d s => { s with store := d })]
  required := ["store"]

def fields : Structure SavedGame where
  name := "SavedGame"
  fields := [
    ("name", Structure.set Form.text fun n s => { s with name := n }),
    ("version", Structure.set Form.text fun v s => { s with version := v }),
    ("meta", times.read),
    ("game", contents.read)]
  required := ["name", "version", "meta", "game"]

end SavedGame

instance : Codec SavedGame where
  doc s := .struct none [
    ("name", .text s.name),
    ("version", .text s.version),
    ("meta", .struct none
      [("created", .instant s.created), ("updated", .instant s.updated)]),
    ("game", .struct none [("store", .map (s.store.map fun e => (e.1, Codec.doc e.2)))])]
  form := SavedGame.fields.read (SavedGame.new "" "" default)

end Storyline
