import Storyline.Log
import Storyline.Sentence
import Storyline.Ident

/-!
Characters: they say lines, which stay on screen until they are hidden.
-/

namespace Storyline

structure CharacterConfig where
  /-- The colour of lines that have none of their own. -/
  color : Option String := none
deriving DecidableEq, Repr, Inhabited

/-- The lines on screen. -/
structure CharacterState where
  /-- The line said last comes first. -/
  recent : List NodeId := []
deriving DecidableEq, Repr

/-- The state without a line. -/
def CharacterState.without (s : CharacterState) (line : NodeId) : CharacterState :=
  ⟨s.recent.filter (· ≠ line)⟩

inductive CharacterRecord where
  | said (line : NodeId)
  | hid (line : NodeId)
deriving DecidableEq, Repr

instance : Undoable CharacterState CharacterRecord where
  rollback
    | .said line, s, store => (s.without line, store)
    | .hid line, s, store => (if line ∈ s.recent then s else ⟨line :: s.recent⟩, store)

structure Character where
  id : ElementId
  name : String
  config : CharacterConfig := {}
  /-- Nodes appended and not taken yet, the last one first. -/
  pending : List NodeId := []
  tracked : Tracked CharacterState CharacterRecord := { state := {} }

namespace Character

/-- The lines on screen, in the order they were said. -/
def lines (c : Character) : List NodeId := c.tracked.state.recent.reverse

def isShowing (c : Character) (line : NodeId) : Bool := line ∈ c.tracked.state.recent

/-- The sentence as this character speaks it: in their name if it names no speaker, and in their
colour if it has the default one. -/
def speak (c : Character) (s : Sentence) : Sentence :=
  { s with
    speaker := some (s.speaker.getD c.name)
    style := match c.config.color with
      | some color => if s.style.color = defaultColor then { s.style with color } else s.style
      | none => s.style }

/-- Puts a line on screen. -/
def say (c : Character) (line : NodeId) : Character :=
  { c with tracked := c.tracked.change ⟨line :: c.tracked.state.recent⟩ (.said line) }

/-- Takes a line off screen; nothing if it is not showing. -/
def hide? (c : Character) (line : NodeId) : Option Character :=
  if c.isShowing line then
    some { c with tracked := c.tracked.change (c.tracked.state.without line) (.hid line) }
  else none

end Character

end Storyline
