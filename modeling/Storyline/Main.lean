import Std.Time.DateTime
import Storyline.Player.Terminal

/-!
The terminal player as a program: lines from the terminal, files of the machine, and its clock.
-/

namespace Storyline.Main

open Player (Output)

/-- An operation on files whose failure is told in words. -/
def attempt {α : Type} (action : IO α) : IO (Except String α) := do
  try
    return .ok (← action)
  catch e => return .error (toString e)

/-- Whether a path leads to a file that can be read. -/
def isFile (path : String) : IO Bool := do
  match ← attempt (do let h ← IO.FS.Handle.mk path .read; h.read 1) with
  | .ok _ => return true
  | .error _ => return false

/-- The files of the machine. -/
def files : FileSystem IO where
  isFile := isFile
  createFolders path := if path.isEmpty then return .ok () else attempt (IO.FS.createDirAll path)
  read path := attempt (IO.FS.readFile path)
  write path text := attempt (IO.FS.writeFile path text)

/-- The time of the machine's clock. -/
def now : IO Instant := do
  let t ← Std.Time.Timestamp.now
  return ⟨t.toSecondsSinceUnixEpoch.val, t.toNanosecondsSinceUnixEpoch.val.toNat % 1000000000⟩

/-- Shows what came out of the player. -/
def emit (outputs : List Output) : IO Unit := do
  for o in outputs do
    match o with
    | .out text => IO.print text
    | .err text => IO.eprint text
    | .pause d => IO.sleep d.millis.toUInt32
  (← IO.getStdout).flush

/-- Plays until the player is over; answers its exit code. -/
partial def run (p : Player.Terminal) : IO UInt32 := do
  let (outputs, p) := p.drain
  emit outputs
  match p.stand with
  | .error code => return code.toUInt32
  | .ok _ =>
    let line ← (← IO.getStdin).getLine
    run (← p.take files (if line.isEmpty then none else some line) (← now))

end Storyline.Main

def main (arguments : List String) : IO UInt32 := do
  Storyline.Main.run (← Storyline.Player.Terminal.ofArguments Storyline.Main.files arguments
    (← Storyline.Main.now))
