/-!
Deferred values: a value computed once, from what it is resolved with. Until then a cell holds its
receiver and those who listen for the value; afterwards it holds the value alone.
-/

namespace Storyline

/-- What can go wrong with a deferred value. -/
inductive AwaitError where
  | alreadyResolved
deriving DecidableEq, Repr

def AwaitError.message : AwaitError → String
  | alreadyResolved => "awaitable already resolved"

namespace Deferred

/-- A deferred value of type `α`, with a receiver of type `ρ` and listeners of type `κ`. -/
structure Cell (ρ κ α : Type) where
  receiver : Option ρ
  result : Option α := none
  listeners : List κ := []

namespace Cell

variable {ρ κ α : Type}

/-- A cell that waits. -/
def fresh (r : ρ) : Cell ρ κ α := { receiver := some r }

def isSolved (c : Cell ρ κ α) : Bool := c.result.isSome

/-- Takes the receiver out, which is possible once. -/
def begin? (c : Cell ρ κ α) : Except AwaitError (ρ × Cell ρ κ α) :=
  match c.receiver with
  | some r => .ok (r, { c with receiver := none })
  | none => .error .alreadyResolved

/-- Sets the value and hands out the listeners in the order they came. -/
def solve (c : Cell ρ κ α) (a : α) : List κ × Cell ρ κ α :=
  (c.listeners, { c with result := some a, listeners := [] })

/-- Adds a listener. If the value is there already it is answered, to be heard at once. -/
def listen (c : Cell ρ κ α) (k : κ) : Option α × Cell ρ κ α :=
  match c.result with
  | some a => (some a, c)
  | none => (none, { c with listeners := c.listeners ++ [k] })

/-- A cell in words. -/
def describe [ToString α] (c : Cell ρ κ α) : String :=
  let result := match c.result with
    | some a => s!"Some({a})"
    | none => "None"
  s!"Awaitable \x7b result: {result}, listeners: {c.listeners.length} \x7d"

end Cell

end Deferred

end Storyline
