import Storyline.Element.Kind
import Storyline.Log
import Storyline.Placement

/-!
Images: a source, a position, whether they are displayed and the transform last applied.
-/

namespace Storyline

structure ImageConfig where
  src : String
  position : Position := .center
  /-- Whether the image is visible from the start. -/
  display : Bool := false
  zIndex : Int := 0
deriving DecidableEq, Repr

/-- What is wrong with a configuration, if anything is. -/
def ImageConfig.problem? (c : ImageConfig) : Option String :=
  if c.src.isEmpty then some "image src is required" else c.position.problem?

structure ImageState where
  src : String
  position : Position
  displayed : Bool
  transform : Option Transform := none
deriving DecidableEq, Repr

inductive ImageRecord where
  | src (previous : String)
  | position (previous : Position)
  | displayed (previous : Bool)
  | transform (previous : Option Transform)
deriving DecidableEq, Repr

instance : Undoable ImageState ImageRecord where
  rollback
    | .src previous, s, store => ({ s with src := previous }, store)
    | .position previous, s, store => ({ s with position := previous }, store)
    | .displayed previous, s, store => ({ s with displayed := previous }, store)
    | .transform previous, s, store => ({ s with transform := previous }, store)

structure Image where
  id : ElementId
  name : String
  config : ImageConfig
  /-- The name under which the screen knows the image, from its first action on. -/
  presented : Option String := none
  pending : List NodeId := []
  tracked : Tracked ImageState ImageRecord

namespace Image

/-- An image of a valid configuration. -/
def new (id : ElementId) (name : String) (config : ImageConfig) : Except ElementError Image :=
  match config.problem? with
  | some problem => .error (.invalidConfig problem)
  | none => .ok {
      id, name, config
      tracked := { state := {
        src := config.src, position := config.position, displayed := config.display } } }

def state (i : Image) : ImageState := i.tracked.state

def setSrc (i : Image) (src : String) : Image :=
  { i with tracked := i.tracked.change { i.state with src } (.src i.state.src) }

def setPosition (i : Image) (position : Position) : Image :=
  { i with tracked := i.tracked.change { i.state with position } (.position i.state.position) }

/-- Shows or hides the image. -/
def setDisplayed (i : Image) (displayed : Bool) : Image :=
  { i with tracked := i.tracked.change { i.state with displayed } (.displayed i.state.displayed) }

def applyTransform (i : Image) (t : Transform) : Image :=
  { i with
    tracked := i.tracked.change { i.state with transform := some t } (.transform i.state.transform) }

end Image

/-- A change of an image that the screen animates. -/
inductive ImageEvent where
  | setPosition (position : Position) (transform : Transform)
  | show (transform : Transform)
  | hide (transform : Transform)
  | applyTransform (transform : Transform)
deriving DecidableEq, Repr

def ImageEvent.name : ImageEvent → String
  | setPosition .. => "setPosition"
  | «show» _ => "show"
  | hide _ => "hide"
  | applyTransform _ => "applyTransform"

end Storyline
