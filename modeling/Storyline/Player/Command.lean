import Storyline.Number.Nearest
import Storyline.Text

/-!
The lines of input of the terminal player: commands, and answers to what was asked.
-/

namespace Storyline.Player

/-- The lines of a text; the last one may lack its end. -/
def linesOf (text : String) : List String :=
  let lines := (Text.split '\n' text.toList).map String.ofList
  if lines.getLast? = some "" then lines.dropLast else lines

/-- What a line of input asks for. -/
inductive Command where
  | quit
  | undo
  | save (name : String)
  | load (name : String)
  /-- An answer to what was asked. -/
  | answer (text : String)
deriving DecidableEq, Repr

/-- The text behind a word and a space. -/
def argument? (word line : String) : Option String :=
  let start := (word ++ " ").toList
  if start.isPrefixOf line.toList then some (Text.trim (String.ofList (line.toList.drop start.length)))
  else none

/-- Reads a line of input. -/
def Command.ofLine (line : String) : Command :=
  let line := Text.trim line
  if line = "quit" || line = "exit" then .quit
  else if line = "undo" then .undo
  else
    match argument? "save" line, argument? "load" line with
    | some name, _ => .save name
    | none, some name => .load name
    | none, none => .answer line

/-- The number of a menu entry: digits, with a plus in front or not, for a number below `2 ^ 64`. -/
def entryNumber? (text : String) : Option Nat :=
  let digits := match text.toList with
    | '+' :: rest => rest
    | cs => cs
  if digits.isEmpty || !digits.all Char.isDigit then none
  else
    let n := Number.digitsValue digits
    if n < UInt64.size then some n else none

end Storyline.Player
