import Storyline.Game.Config
import Storyline.Game.Saved
import Storyline.Ron.Script
import Storyline.Ron.Writer

/-!
# Data that a text can hold

* `Legible`, for each type of data that is kept: all numbers in it are numbers and have a decimal text that
  reads back, all dates in it have a text that reads back, its integers are in the range of their fields,
  and its records are in the order of their keys;
* `Value.nesting`: how deep lists and records stand in each other.
-/

namespace Storyline

/-- A number that is one, and whose decimal text reads back as the number if it has any. -/
structure Number.Legible (x : Number) : Prop where
  isNaN : x.isNaN = false
  reads : x.isInfinite = false → ofNumeral? (Ron.numeral x) = some x

/-- A date whose text reads back as the date. -/
def Instant.Legible (t : Instant) : Prop := ofText? t.text = some t

namespace Value

mutual

def Legible : Value → Prop
  | null | bool _ | text _ => True
  | number x => x.Legible
  | date t => t.Legible
  | list items => LegibleItems items
  | record fields => Record.Ordered fields ∧ LegibleFields fields

def LegibleItems : List Value → Prop
  | [] => True
  | v :: items => v.Legible ∧ LegibleItems items

def LegibleFields : List (String × Value) → Prop
  | [] => True
  | (_, v) :: fields => v.Legible ∧ LegibleFields fields

end

mutual

/-- The lists and records that stand in each other. -/
def nesting : Value → Nat
  | null | bool _ | number _ | text _ | date _ => 0
  | list items => nestingItems items + 1
  | record fields => nestingFields fields + 1

def nestingItems : List Value → Nat
  | [] => 0
  | v :: items => max v.nesting (nestingItems items)

def nestingFields : List (String × Value) → Nat
  | [] => 0
  | (_, v) :: fields => max v.nesting (nestingFields fields)

end

end Value

def Position.Legible : Position → Prop
  | left | center | right => True
  | align x y | coord x y => x.Legible ∧ y.Legible

structure Transform.Legible (t : Transform) : Prop where
  position : ∀ p ∈ t.position, p.Legible
  opacity : ∀ x ∈ t.opacity, x.Legible
  scale : ∀ x ∈ t.scale, x.Legible
  rotation : ∀ x ∈ t.rotation, x.Legible
  seconds : t.duration.seconds < UInt64.size

structure ImageConfig.Legible (c : ImageConfig) : Prop where
  position : c.position.Legible
  zIndex_low : -0x80000000 ≤ c.zIndex
  zIndex_high : c.zIndex ≤ 0x7fffffff

def SoundConfig.Legible (c : SoundConfig) : Prop := c.volume.Legible

def GameSettings.Legible (s : GameSettings) : Prop := s.volume.Legible

structure SavedGame.Legible (s : SavedGame) : Prop where
  created : s.created.Legible
  updated : s.updated.Legible
  namespaces : Record.Ordered s.store
  ordered : ∀ e ∈ s.store, Record.Ordered e.2
  fields : ∀ e ∈ s.store, Value.LegibleFields e.2

end Storyline
