import Storyline.Ident

/-!
The kinds of scripted elements, and what can go wrong with elements.
-/

namespace Storyline

inductive Kind where
  | character
  | image
  | sound
  | scene
  | story
  | script
  | condition
  | menu
deriving DecidableEq, Repr

namespace Kind

/-- All kinds. -/
def all : List Kind := [character, image, sound, scene, story, script, condition, menu]

def name : Kind → String
  | character => "character"
  | image => "image"
  | sound => "sound"
  | scene => "scene"
  | story => "story"
  | script => "script"
  | condition => "condition"
  | menu => "menu"

/-- The kind of a name. -/
def ofName? (name : String) : Option Kind := all.find? (·.name = name)

end Kind

inductive ElementError where
  | notFound (id : ElementId)
  | wrongKind (id : ElementId) (expected found : Kind)
  | invalidConfig (problem : String)
deriving DecidableEq, Repr

def ElementError.message : ElementError → String
  | notFound id => s!"element not found: {id}"
  | wrongKind id expected found => s!"element {id} is a {found.name}, expected {expected.name}"
  | invalidConfig problem => s!"invalid element config: {problem}"

end Storyline
