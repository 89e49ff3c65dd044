import Storyline.Stage.Cue
import Storyline.World

/-!
Executing actions. An action changes its element and the store, records the change, tells the
screen, and is either done at once or waits for a future.
-/

namespace Storyline

/-- All that an action may touch. -/
structure Stage (σ : Type) where
  world : World
  store : Store
  futures : Futures
  screen : σ

/-- How an action ended: done, or waiting for a future. -/
inductive Executed where
  | immediate (outcome : Outcome)
  | suspended (future : FutureId)
deriving DecidableEq, Repr

/-- Changes of a stage that keep what they did when they fail. -/
abbrev Perform (σ : Type) := EStateM GameError (Stage σ)

namespace Perform

variable {σ α : Type}

/-- A change of the world. -/
def build (change : Build α) : Perform σ α := fun s =>
  match change s.world with
  | .ok a w => .ok a { s with world := w }
  | .error e w => .error e { s with world := w }

/-- Gives the screen a cue and answers the futures it answers. -/
def send (screen : Screen σ) (cue : Cue) : Perform σ Unit := modify fun s =>
  let (state, answers) := screen.receive cue s.screen
  { s with screen := state, futures := answers.foldl Futures.settle s.futures }

/-- A new future. -/
def future (receiver : Resolution → Outcome) : Perform σ FutureId := fun s =>
  let (f, futures) := s.futures.add receiver
  .ok f { s with futures }

/-- A future that ends an action with its plain outcome, whatever the answer. -/
def suspend (a : Action) : Perform σ FutureId := future fun _ => a.outcome

/-- Gives the screen a cue with a future that ends in an outcome, with the pick if there is one. -/
def ask (screen : Screen σ) (o : Outcome) (cue : FutureId → Cue) : Perform σ FutureId := do
  let f ← future o.answered
  send screen (cue f)
  return f

/-- Executes an action on an image. The image gets its name on the screen first if it has none. -/
def image (screen : Screen σ) (a : Action) (change : Image → Image) (event : Option ImageEvent) :
    Perform σ Executed := do
  let image ← build (Build.find Image a.callee)
  let (name, image) ← match image.presented with
    | some name => pure (name, image)
    | none => do
      let (n, ids) := (← get).world.ids.take
      modify fun s => { s with world := { s.world with ids } }
      let name := Counter.label "image" (toString n) ":"
      let image := { image with presented := some name }
      build (Build.put image)
      send screen (.addImage name image)
      pure (name, image)
  build (Build.put (change image))
  match event with
  | none => return .immediate a.outcome
  | some event =>
    let f ← suspend a
    send screen (.animate name event f)
    return .suspended f

/-- Executes an action, whether or not a node holds it. -/
def executeAction (screen : Screen σ) (a : Action) : Perform σ Executed :=
  match a.kind with
  | .say line => do
    let character ← build (Build.find Character a.callee)
    let spoken := character.speak line
    build (Build.put (character.say a.node))
    let f ← suspend a
    send screen (.say a.node spoken f)
    return if spoken.style.pause then .suspended f else .immediate a.outcome
  | .hideLine line => do
    let character ← build (Build.find Character a.callee)
    match character.hide? line with
    | some character =>
      build (Build.put character)
      send screen (.hideSay line)
    | none => pure ()
    return .immediate a.outcome
  | .scene chain => do
    let scene ← build (Build.find Scene a.callee)
    send screen (.scene scene)
    build (Build.ofEdit (Graph.splice a.node chain))
    return .immediate a.outcome
  | .setBackground src => do
    let scene ← build (Build.find Scene a.callee)
    build (Build.put (scene.setBackground src))
    let f ← suspend a
    send screen (.background src f)
    return .suspended f
  | .sleep duration => do
    discard (build (Build.find Scene a.callee))
    let f ← suspend a
    send screen (.sleep duration f)
    return .suspended f
  | .story chain => do
    build (Build.ofEdit (Graph.splice a.node chain))
    return .immediate a.outcome
  | .setSrc src => image screen a (·.setSrc src) none
  | .setPosition p t => image screen a (·.setPosition p) (some (.setPosition p t))
  | .showImage t => image screen a (·.setDisplayed true) (some (.show t))
  | .hideImage t => image screen a (·.setDisplayed false) (some (.hide t))
  | .applyTransform t => image screen a (·.applyTransform t) (some (.applyTransform t))
  | .condition => do
    let condition ← build (Build.find Condition a.callee)
    let (chain, condition, store) := condition.run (← get).store
    modify fun s => { s with store }
    build (Build.put condition)
    build (Build.ofEdit (Graph.splice a.node chain))
    return .immediate a.outcome
  | .script => do
    let script ← build (Build.find Script a.callee)
    let (script, store) := script.run a.node (← get).store
    modify fun s => { s with store }
    build (Build.put script)
    return .immediate a.outcome
  | .menu => do
    let menu ← build (Build.find Menu a.callee)
    return .suspended (← ask screen a.outcome (.menu a.node menu.prompt menu.prompts))
  | .play => do
    let sound := (← build (Build.find Sound a.callee)).play
    build (Build.put sound)
    if sound.config.blocks then
      let f ← suspend a
      send screen (.play sound (some f))
      return .suspended f
    else
      send screen (.play sound none)
      return .immediate a.outcome
  | .stop => do
    let sound := (← build (Build.find Sound a.callee)).stop
    build (Build.put sound)
    send screen (.stop sound)
    return .immediate a.outcome

/-- Executes the action that a node holds. -/
def execute (screen : Screen σ) (node : NodeId) : Perform σ Executed := do
  match (← get).world.action? node with
  | none => throw (.missingAction node)
  | some a =>
    send screen (.handle a)
    executeAction screen a

/-- Takes the latest commit of the element behind a node back. -/
def undoAction (node : NodeId) : Perform σ Nat := fun s =>
  match s.world.undoAction node s.store with
  | .ok (count, world, store) => .ok count { s with world, store }
  | .error e => .error e s

end Perform

end Storyline
