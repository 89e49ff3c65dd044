import Storyline.Game.Session
import Storyline.Player.Command
import Storyline.Player.Console

/-!
Turns of the terminal player. It plays until the screen waits for an answer; the next line of input
is the answer or a command. Commands that use files leave the question open.
-/

namespace Storyline.Player

/-- Where the player stands after a line. -/
inductive Stand where
  /-- It asks for the next line. -/
  | asking (w : Waiting)
  | over
deriving DecidableEq, Repr

/-- Changes the screen. -/
def onConsole (f : Console → Console) : Play Console Unit :=
  modify fun g => g.mapStage fun s => { s with screen := f s.screen }

/-- Answers a future; one that was answered before stays as it is. -/
def settle (f : FutureId) (r : Resolution) : Play Console Unit :=
  modify fun g => g.mapStage fun s => { s with futures := s.futures.settle (f, r) }

/-- Takes the question that the screen asks off it. -/
def takeWaiting : Play Console (Option Waiting) := do
  let waiting := (← get).stage.screen.waiting
  onConsole fun c => { c with waiting := none }
  return waiting

/-- Asks for a line. -/
def ask (w : Waiting) : Play Console Stand := do
  onConsole (·.put (.out "> "))
  return .asking w

/-- Plays until the screen asks for something, `limit` steps at most. -/
def advance : Nat → Play Console Stand
  | 0 => return .over
  | limit + 1 => do
    match ← Play.next Console.screen with
    | .advanced _ => advance limit
    | .terminated =>
      onConsole (·.print "\n-- The End --")
      return .over
    | .suspended f =>
      if (← get).stage.futures.isSolved f then advance limit
      else
        match ← takeWaiting with
        | some w => ask w
        | none => advance limit

/-- A bound on the steps between two questions of the story. -/
def stepLimit : Nat := 1000

/-- Takes an answer to what was asked. One that is no entry of a menu is asked for again. -/
def answer (w : Waiting) (text : String) : Play Console Stand :=
  match w with
  | .line f => do
    settle f .proceed
    advance stepLimit
  | .menu f count =>
    let again : Play Console Stand := do
      onConsole (·.print s!"Pick 1-{count}")
      ask w
    match entryNumber? text with
    | some (n + 1) =>
      if n < count then do
        settle f (.choose n)
        advance stepLimit
      else again
    | _ => again

/-- Takes a step back and plays on from there. -/
def undo : Play Console Stand := do
  let report := match ← Play.undoLast with
    | some outcome => s!"(undid {outcome.tag})"
    | none => "(nothing to undo)"
  onConsole (·.print report)
  advance stepLimit

/-- Takes a command, which came at some time, while something is asked for. -/
def obey {m : Type → Type} [Monad m] (archive : Archive m) (now : Instant) (w : Waiting) :
    Command → Session Console m Stand
  | .quit => return .over
  | .undo => Session.play undo
  | .save name => do
    let saved ← Session.saveGame archive name now
    Session.play (onConsole (·.print s!"(saved {saved.name})"))
    Session.play (ask w)
  | .load name => do
    let saved ← Session.loadGame archive name
    Session.play (onConsole (·.print s!"(loaded {saved.name} from {saved.updated.display})"))
    Session.play (ask w)
  | .answer text => Session.play (answer w text)

end Storyline.Player
