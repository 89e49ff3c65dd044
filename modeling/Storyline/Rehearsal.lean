import Storyline.Game.Session
import Storyline.Stage.Headless
import Storyline.Stage.Recorder

/-!
Rehearsals: a game that is played without a display, with files in memory and a clock that ticks
whenever it is read, so that all that happens follows from what was asked for. Elements and nodes
can be given labels.
-/

namespace Storyline

/-- The screens of rehearsals: one that answers everything at once, or one that answers nothing. -/
abbrev DryScreen := Headless ⊕ Recorder

/-- Something that the screen of a rehearsal was told. -/
inductive Event where
  | entry (text : String)
  | cue (c : Cue)

namespace DryScreen

def screen : Screen DryScreen := Headless.screen.either Recorder.screen

/-- How much a screen was told. -/
def size : DryScreen → Nat
  | .inl h => h.entries.length
  | .inr r => r.cues.length

/-- The last `n` things that a screen was told, in order. -/
def last (n : Nat) : DryScreen → List Event
  | .inl h => (h.entries.take n).reverse.map .entry
  | .inr r => (r.cues.take n).reverse.map .cue

/-- What a screen was told since it was in an earlier state, in order. -/
def news (earlier later : DryScreen) : List Event := later.last (later.size - earlier.size)

/-- The futures that a screen keeps, in the order they came. -/
def kept : DryScreen → Array FutureId
  | .inl _ => #[]
  | .inr r => r.kept

end DryScreen

/-- Changes of files in memory that note what an archive was asked for. -/
abbrev MemoryFiles := StateT (List Archive.Call) (StateM FileTree)

structure Rehearsal where
  game : Game DryScreen
  /-- The folder of the archive, as a name in the root of the tree. -/
  folder : String
  files : FileTree := ({} : FileTree).put [folder] .folder
  elements : List (String × ElementId) := []
  nodes : List (String × List NodeId) := []
  /-- What the archive was asked for, in order. -/
  calls : List Archive.Call := []
  /-- What the clock shows when it is read next. -/
  clock : Instant := ⟨1767225600, 0⟩

/-- Changes of a rehearsal. -/
abbrev Rehearse := StateM Rehearsal

namespace Rehearsal

variable {α : Type}

/-! ### Labels -/

/-- Gives a label to an element. -/
def labelElement (label : String) (id : ElementId) : Rehearse Unit :=
  modify fun r => { r with elements := (label, id) :: r.elements }

/-- Gives a label to some nodes. -/
def labelNodes (label : String) (nodes : List NodeId) : Rehearse Unit :=
  modify fun r => { r with nodes := (label, nodes) :: r.nodes }

/-! ### Playing -/

def play (p : Play DryScreen α) : Rehearse (Except GameError α) := fun r =>
  match p r.game with
  | .ok a game => (.ok a, { r with game })
  | .error e game => (.error e, { r with game })

def perform (p : Perform DryScreen α) : Rehearse (Except GameError α) := play (Play.perform p)

def build (b : Build α) : Rehearse (Except GameError α) := play (Play.build b)

/-- Changes the stage. -/
def setStage (f : Stage DryScreen → Stage DryScreen) : Rehearse Unit :=
  modify fun r => { r with game := r.game.mapStage f }

/-- Answers a future and tells its outcome. -/
def resolve (f : FutureId) (answer : Resolution) :
    Rehearse (Except AwaitError (Option Outcome)) := fun r =>
  match r.game.stage.futures.resolve f answer with
  | .ok futures =>
    (.ok (futures.result? f), { r with game := r.game.mapStage ({ · with futures }) })
  | .error e => (.error e, r)

/-! ### Files and the clock -/

/-- The time; every reading is a second later than the one before. -/
def now : Rehearse Instant := fun r =>
  (r.clock, { r with clock := { r.clock with seconds := r.clock.seconds + 1 } })

/-- An operation on the archive. -/
def onArchive (p : Archive MemoryFiles → MemoryFiles α) : Rehearse α := fun r =>
  let archive := (Archive.ofFiles FileTree.system r.folder).watched
  let ((a, calls), files) := ((p archive).run r.calls).run r.files
  (a, { r with calls, files })

/-- An operation of the game on the archive. -/
def session (p : Archive MemoryFiles → Session DryScreen MemoryFiles α) :
    Rehearse (Except GameError α) := do
  let game := (← get).game
  let (answer, game) ← onArchive fun archive => (p archive).run.run game
  modify ({ · with game })
  return answer

end Rehearsal

end Storyline
