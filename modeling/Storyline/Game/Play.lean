import Storyline.Game.Config
import Storyline.Game.Live

/-!
Playing a game step by step, and taking steps back. What a step did before it failed stays done.
-/

namespace Storyline

/-- A game on a screen with states of type `σ`. -/
structure Game (σ : Type) where
  config : GameConfig
  settings : GameSettings := {}
  live : Live := {}
  stage : Stage σ

/-- Changes of a game that keep what they did when they fail. -/
abbrev Play (σ : Type) := EStateM GameError (Game σ)

namespace Game

variable {σ α : Type}

/-- The key of the namespace that every game has. -/
def ownNamespace : String := "game"

/-- Registers all namespaces of a game, empty. -/
def emptyNamespaces (namespaces : List String) (s : Store) : Store :=
  namespaces.foldl (fun s key => s.register { name := key, key })
    (s.register { name := "Game", key := ownNamespace })

/-- Changes the stage. -/
def mapStage (g : Game σ) (f : Stage σ → Stage σ) : Game σ := { g with stage := f g.stage }

def store (g : Game σ) : Store := g.stage.store

def world (g : Game σ) : World := g.stage.world

def status (g : Game σ) : Status := g.live.status g.stage.futures

/-- Registers a namespace, which is empty now and at the start of every game. -/
def registerNamespace (g : Game σ) (key : String) : Game σ :=
  { g with live := g.live.addNamespace key }.mapStage fun s =>
    { s with store := s.store.register { name := key, key } }

/-- A game without a story. -/
def new (config : GameConfig) (screen : σ) : Game σ :=
  config.namespaces.foldl registerNamespace {
    config
    stage := { world := .new, store := emptyNamespaces [] {}, futures := {}, screen } }

/-- Makes a story the one to play, without hanging it under the root. -/
def loadStory (g : Game σ) (story : ElementId) (units : List NodeId) : Game σ :=
  { g with live := { g.live with story := some story, units } }

/-- Starts anew: at the first unit, with all namespaces of the game emptied. -/
def newGame (g : Game σ) (now : Instant) : Game σ :=
  { g with live := g.live.restart (.newGame g.config.version now) }.mapStage fun s =>
    { s with store := emptyNamespaces g.live.namespaces s.store }

end Game

namespace Play

variable {σ α : Type}

/-- A change of the stage. -/
def perform (p : Perform σ α) : Play σ α := fun g =>
  match p g.stage with
  | .ok a s => .ok a { g with stage := s }
  | .error e s => .error e { g with stage := s }

/-- A change of the world. -/
def build (change : Build α) : Play σ α := perform (.build change)

/-- A change of how far the game was played. -/
def modifyLive (f : Live → Live) : Play σ Unit := modify fun g => { g with live := f g.live }

/-- Hangs a story under the root and makes it the one to play. -/
def registerStory (h : Handle Story) : Play σ Unit := do
  let units ← build (Build.setRoot h)
  modify fun g => g.loadStory h.id units

/-- Takes the outcome of a step over and goes on behind its node. -/
def adopt (outcome : Outcome) (callee : ElementId) (before : Nat) : Play σ Step := do
  let world := (← get).world
  modifyLive (·.adopt outcome (before < world.commits callee) (world.graph.child? outcome.node))
  return .advanced outcome

/-- Ends the wait of a step with its outcome. The pick of a menu is grafted in first. -/
def resume (p : Pending) (outcome : Outcome) : Play σ Step := do
  modifyLive fun l => { l with pending := none }
  match outcome.choice with
  | some index => build (Build.choose outcome.node index)
  | none => pure ()
  adopt outcome p.callee p.before

/-- Executes the action at a node. -/
def execute (screen : Screen σ) (node : NodeId) : Play σ Step := do
  modifyLive (·.reach node)
  let callee ← build (Build.ofExcept ((← get).world.calleeOf node))
  let before := (← get).world.commits callee
  match ← perform (Perform.execute screen node) with
  | .suspended future =>
    modifyLive fun l => { l with pending := some { node, future, callee, before } }
    return .suspended future
  | .immediate outcome => adopt outcome callee before

/-- The next step: the end of a wait, the action at the current node, or the next unit. -/
def next (screen : Screen σ) : Play σ Step := do
  let g ← get
  if g.live.story.isNone then throw .noStory
  match g.live.pending with
  | some p =>
    match g.stage.futures.result? p.future with
    | none => return .suspended p.future
    | some outcome => resume p outcome
  | none =>
    if g.live.current.isNone then
      modifyLive fun l =>
        let (node, l) := l.nextUnit
        { l with current := node }
    match (← get).live.current with
    | some node => execute screen node
    | none =>
      modifyLive fun l => { l with terminated := true }
      return .terminated

/-- What was got through in playing. -/
structure Progress where
  outcomes : List Outcome := []
  /-- The future that play waits for, if it does. -/
  blocked : Option FutureId := none
  terminated : Bool := false
deriving DecidableEq, Repr

/-- Plays on until a future is left open or the story ends, `limit` steps at most; `past` holds
the outcomes so far, the last one first. -/
def playFrom (screen : Screen σ) : Nat → List Outcome → Play σ Progress
  | 0, past => return { outcomes := past.reverse }
  | limit + 1, past => do
    match ← next screen with
    | .advanced outcome => playFrom screen limit (outcome :: past)
    | .suspended f =>
      if (← get).stage.futures.isSolved f then playFrom screen limit past
      else return { outcomes := past.reverse, blocked := some f }
    | .terminated => return { outcomes := past.reverse, terminated := true }

/-- Plays on until a future is left open or the story ends. A story that leads in a circle does
not end, so there is a limit to the number of steps. -/
def playUntilBlocked (screen : Screen σ) (limit : Nat) : Play σ Progress :=
  playFrom screen limit []

/-- Takes a step back that waits: what it recorded is undone and its node is the next to be
executed. -/
def undoPending (p : Pending) : Play σ Unit := do
  modifyLive fun l => { l with pending := none }
  if p.before < (← get).world.commits p.callee then
    discard (perform (Perform.undoAction p.node))
  modifyLive fun l => { l with current := some p.node }

/-- Takes the last played step back, after one that waits. Answers its outcome. -/
def undoLast : Play σ (Option Outcome) := do
  match (← get).live.pending with
  | some p => undoPending p
  | none => pure ()
  match (← get).live.history with
  | [] => return none
  | e :: rest =>
    modifyLive fun l => { l with history := rest }
    if e.committed then discard (perform (Perform.undoAction e.outcome.node))
    modifyLive fun l => { l with current := some e.outcome.node, terminated := false }
    return some e.outcome

end Play

end Storyline
