import Storyline.Game.Saved
import Storyline.Stage.Execute

/-!
The live part of a game: how far its story was played, which step waits, and what was played
before.
-/

namespace Storyline

/-- What a game does at present. -/
inductive Status where
  /-- Nothing was played yet. -/
  | idle
  | running
  /-- A step waits for its future. -/
  | suspended
  | terminated
deriving DecidableEq, Repr

/-- What came of asking for the next step. -/
inductive Step where
  | advanced (outcome : Outcome)
  /-- A step waits. Its future may have its outcome already, which the next step takes over. -/
  | suspended (future : FutureId)
  | terminated
deriving DecidableEq, Repr

/-- A step that waits, and how many commits its element had before. -/
structure Pending where
  node : NodeId
  future : FutureId
  callee : ElementId
  before : Nat
deriving DecidableEq, Repr

/-- A step that was played, and whether its element recorded a change for it. -/
structure HistoryEntry where
  outcome : Outcome
  committed : Bool
deriving DecidableEq, Repr

/-- How far a game was played. -/
structure Live where
  story : Option ElementId := none
  /-- The nodes that the story plays one after the other. -/
  units : List NodeId := []
  /-- The place of the unit that was reached last. -/
  unit : Nat := 0
  /-- The node to be executed next, unless a step waits. -/
  current : Option NodeId := none
  pending : Option Pending := none
  saved : Option SavedGame := none
  /-- The steps that were played, the last one first. -/
  history : List HistoryEntry := []
  /-- Namespaces that are empty at the start of a game, beside the game's own. -/
  namespaces : List String := []
  started : Bool := false
  terminated : Bool := false
deriving Inhabited

namespace Live

def status (l : Live) (futures : Futures) : Status :=
  if l.terminated then .terminated
  else
    match l.pending with
    | some p =>
      if !futures.isSolved p.future then .suspended
      else if l.started then .running else .idle
    | none => if l.started then .running else .idle

/-- Goes on to the first unit, or to the next one once the game has started. -/
def nextUnit (l : Live) : Option NodeId × Live :=
  let index := if l.started then l.unit + 1 else 0
  match l.units[index]? with
  | some node => (some node, { l with started := true, unit := index })
  | none => (none, { l with started := true })

/-- Notes that a node was reached, which may be a unit. -/
def reach (l : Live) (node : NodeId) : Live :=
  match l.units.findIdx? (· = node) with
  | some index => { l with started := true, unit := index }
  | none => { l with started := true }

/-- Back to the first unit. -/
def restart (l : Live) (saved : SavedGame) : Live :=
  { l with
    unit := 0
    current := l.units.head?
    pending := none
    saved := some saved
    history := []
    started := true
    terminated := false }

/-- Adds a namespace to those of every game. -/
def addNamespace (l : Live) (key : String) : Live :=
  if key ∈ l.namespaces then l else { l with namespaces := l.namespaces ++ [key] }

/-- Takes an outcome over and goes on at a node. -/
def adopt (l : Live) (outcome : Outcome) (committed : Bool) (next : Option NodeId) : Live :=
  { l with current := next, history := ⟨outcome, committed⟩ :: l.history }

end Live

end Storyline
