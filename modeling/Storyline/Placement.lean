import Storyline.Number.Shortest
import Storyline.Instant

/-!
Where images stand and how they move there.
-/

namespace Storyline

/-- Where an image stands on the stage. -/
inductive Position where
  | left
  | center
  | right
  /-- A fraction of the stage along both axes. -/
  | align (x y : Number)
  /-- Coordinates on the stage. -/
  | coord (x y : Number)
deriving DecidableEq, Repr

namespace Position

instance : Inhabited Position := ⟨center⟩

/-- A fractional position lies on the stage: both fractions are within `0..=1`. -/
def isValid : Position → Bool
  | align x y => x.inUnit && y.inUnit
  | _ => true

/-- What is wrong with a position, if anything is. -/
def problem? : Position → Option String
  | align x y =>
    if x.inUnit && y.inUnit then none
    else some s!"align ({x.text}, {y.text}) must be within 0..=1"
  | _ => none

end Position

/-- The target of an image animation. What it leaves open stays as it is. -/
structure Transform where
  position : Option Position := none
  opacity : Option Number := none
  scale : Option Number := none
  rotation : Option Number := none
  duration : Span := .zero
deriving DecidableEq, Repr

namespace Transform

instance : Inhabited Transform := ⟨{}⟩

/-- The transform that only takes time. -/
def fade (duration : Span) : Transform := { duration := duration }

end Transform

end Storyline
