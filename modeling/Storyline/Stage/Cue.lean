import Storyline.Action
import Storyline.Deferred.Cell
import Storyline.Element

/-!
What the interpreter tells the screen, and how the screen answers. A cue that asks for an answer
carries a future; the screen may answer it, and any other it still holds, at once or the host may
do so later. A future takes one answer and turns it into the outcome of its step.
-/

namespace Storyline

/-- How a waiting step is answered. -/
inductive Resolution where
  /-- The line was read, or what was to be seen or heard has ended. -/
  | proceed
  /-- An entry of a menu was picked. -/
  | choose (index : Nat)
deriving DecidableEq, Repr

/-- An outcome, with the pick if it was waited for one. -/
def Outcome.answered (o : Outcome) : Resolution → Outcome
  | .proceed => o
  | .choose index => o.withChoice index

/-- The name of a future. -/
structure FutureId where
  val : Nat
deriving DecidableEq, Repr

/-- A future outcome. Nobody listens to it: it is looked at. -/
abbrev Future := Deferred.Cell (Resolution → Outcome) Empty Outcome

/-- All futures of a session, by name. -/
structure Futures where
  cells : Array Future := #[]

namespace Futures

instance : Inhabited Futures := ⟨{}⟩

def get? (fs : Futures) (f : FutureId) : Option Future := fs.cells[f.val]?

/-- The outcome of a future, once it is answered. -/
def result? (fs : Futures) (f : FutureId) : Option Outcome := (fs.get? f).bind (·.result)

def isSolved (fs : Futures) (f : FutureId) : Bool := (fs.result? f).isSome

/-- A new future. -/
def add (fs : Futures) (receiver : Resolution → Outcome) : FutureId × Futures :=
  (⟨fs.cells.size⟩, ⟨fs.cells.push (.fresh receiver)⟩)

/-- Answers a future, which is possible once. -/
def resolve (fs : Futures) (f : FutureId) (r : Resolution) : Except AwaitError Futures :=
  match fs.get? f with
  | none => .error .alreadyResolved
  | some cell => do
    let (receiver, cell) ← cell.begin?
    return ⟨fs.cells.setIfInBounds f.val (cell.solve (receiver r)).2⟩

/-- Answers a future unless it was answered before. -/
def settle (fs : Futures) (answer : FutureId × Resolution) : Futures :=
  match fs.resolve answer.1 answer.2 with
  | .ok fs => fs
  | .error _ => fs

end Futures

/-- What the interpreter tells the screen. -/
inductive Cue where
  /-- An action is about to be executed. -/
  | handle (action : Action)
  | say (node : NodeId) (line : Sentence) (future : FutureId)
  | menu (node : NodeId) (prompt : Option Sentence) (choices : List Sentence) (future : FutureId)
  | hideSay (line : NodeId)
  | scene (scene : Scene)
  | background (src : String) (future : FutureId)
  | sleep (duration : Span) (future : FutureId)
  /-- An image is about to be used for the first time. -/
  | addImage (name : String) (image : Image)
  | animate (name : String) (event : ImageEvent) (future : FutureId)
  /-- A sound starts; with a future if the story waits for its end. -/
  | play (sound : Sound) (future : Option FutureId)
  | stop (sound : Sound)

/-- Whether a screen may ignore a cue: it announces something or takes it away, and no step ever
waits for it. -/
def Cue.isOptional : Cue → Bool
  | .handle _ | .hideSay _ | .scene _ | .addImage .. | .stop _ => true
  | _ => false

/-- A screen with states of type `σ`: how it takes a cue, and which futures it answers then. -/
structure Screen (σ : Type) where
  receive : Cue → σ → σ × List (FutureId × Resolution)

/-- One of two screens, whichever there is a state of. -/
def Screen.either {σ τ : Type} (a : Screen σ) (b : Screen τ) : Screen (σ ⊕ τ) where
  receive
    | c, .inl s => let (s, answers) := a.receive c s; (.inl s, answers)
    | c, .inr t => let (t, answers) := b.receive c t; (.inr t, answers)

end Storyline
