import Storyline.Stage.Cue

/-!
The screen of the terminal player. It prints what it is told; lines and menus wait for an answer
of the player, unless it answers them itself.
-/

namespace Storyline.Player

/-- What comes out of the terminal player. -/
inductive Output where
  | out (text : String)
  | err (text : String)
  /-- Some time passes. -/
  | pause (d : Span)
deriving DecidableEq, Repr

/-- What the player is asked for. -/
inductive Waiting where
  | line (future : FutureId)
  | menu (future : FutureId) (count : Nat)
deriving DecidableEq, Repr

/-- The state of the screen. -/
structure Console where
  /-- Whether all is answered at once, with the first entry of every menu. -/
  auto : Bool := false
  /-- What came out, the last first. -/
  output : List Output := []
  waiting : Option Waiting := none
deriving DecidableEq, Repr, Inhabited

namespace Console

def put (c : Console) (o : Output) : Console := { c with output := o :: c.output }

/-- Prints a line. -/
def print (c : Console) (text : String) : Console := c.put (.out (text ++ "\n"))

/-- Asks for an answer, or gives it. -/
def ask (c : Console) (w : Waiting) (f : FutureId) (r : Resolution) :
    Console × List (FutureId × Resolution) :=
  if c.auto then (c, [(f, r)]) else ({ c with waiting := some w }, [])

/-- Prints a line. -/
def printLine (c : Console) (line : Sentence) : Console :=
  c.print (match line.speaker with
    | some name => s!"{name}: {line.text}"
    | none => line.text)

/-- Prints the entries of a menu under their numbers. -/
def printEntries (c : Console) : Nat → List Sentence → Console
  | _, [] => c
  | n, choice :: rest => (c.print s!"  {n}. {choice.text}").printEntries (n + 1) rest

/-- Prints a menu. -/
def printMenu (c : Console) (prompt : Option Sentence) (choices : List Sentence) : Console :=
  let c := match prompt with
    | some p => c.print p.text
    | none => c
  c.printEntries 1 choices

/-- Takes a cue. -/
def receive : Cue → Console → Console × List (FutureId × Resolution)
  | .handle _, c | .hideSay _, c | .addImage .., c => (c, [])
  | .say _ line f, c => (c.printLine line).ask (.line f) f .proceed
  | .menu _ prompt choices f, c =>
    (c.printMenu prompt choices).ask (.menu f choices.length) f (.choose 0)
  | .scene s, c => (c.print s!"\n== {s.name} ==", [])
  | .background src f, c => (c.print s!"[background: {src}]", [(f, .proceed)])
  | .sleep d f, c =>
    let c := c.print "..."
    (if c.auto then c else c.put (.pause d), [(f, .proceed)])
  | .animate name event f, c => (c.print s!"[{name} {event.name}]", [(f, .proceed)])
  | .play s f, c => (c.print s!"[sound: {s.config.src}]", f.toList.map (·, .proceed))
  | .stop s, c => (c.print s!"[sound stopped: {s.name}]", [])

/-- The screen of the terminal player. -/
def screen : Screen Console := ⟨receive⟩

end Console

end Storyline.Player
