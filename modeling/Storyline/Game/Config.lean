import Storyline.Ron.Codec

/-!
What a game is set up with, and the settings that its player may change.
-/

namespace Storyline

/-- The setup of a game. -/
structure GameConfig where
  /-- Noted in every save. -/
  version : String := "0.1.0"
  settingsName : String := "settings"
  settingsSuffix : String := "config"
  saveSuffix : String := "save"
  savesFolder : String := "saves"
  /-- Namespaces of the store that every game starts with, beside its own. -/
  namespaces : List String := []
deriving DecidableEq, Repr, Inhabited

/-- What the player of a game may change. -/
structure GameSettings where
  volume : Number := .one
deriving DecidableEq, Repr, Inhabited

open Ron (Codec Form)
open Ron.Form (Structure)

def GameConfig.fields : Structure GameConfig where
  name := "GameConfig"
  fields := [
    ("version", Structure.set Form.text fun s c => { c with version := s }),
    ("settings_name", Structure.set Form.text fun s c => { c with settingsName := s }),
    ("settings_suffix", Structure.set Form.text fun s c => { c with settingsSuffix := s }),
    ("save_suffix", Structure.set Form.text fun s c => { c with saveSuffix := s }),
    ("saves_folder", Structure.set Form.text fun s c => { c with savesFolder := s }),
    ("namespaces", Structure.set (Form.list Form.text) fun l c => { c with namespaces := l })]

instance : Codec GameConfig where
  doc c := .struct none [
    ("version", .text c.version),
    ("settings_name", .text c.settingsName),
    ("settings_suffix", .text c.settingsSuffix),
    ("save_suffix", .text c.saveSuffix),
    ("saves_folder", .text c.savesFolder),
    ("namespaces", .list (c.namespaces.map .text))]
  form := GameConfig.fields.read {}

def GameSettings.fields : Structure GameSettings where
  name := "GameSettings"
  fields := [("volume", Structure.set Form.number fun v _ => ⟨v⟩)]

instance : Codec GameSettings where
  doc s := .struct none [("volume", .number s.volume)]
  form := GameSettings.fields.read {}

end Storyline
