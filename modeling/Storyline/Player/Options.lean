/-!
The command line of the terminal player.
-/

namespace Storyline.Player

/-- How the player is started. -/
structure Options where
  /-- Plays through without asking. -/
  auto : Bool := false
  /-- The file with the setup of the game. -/
  config : Option String := none
  /-- The folder of saves. -/
  saves : String := "."
deriving DecidableEq, Repr, Inhabited

/-- What a command line asks for. -/
inductive Request where
  | play (o : Options)
  | help
  | unknown (argument : String)
deriving DecidableEq, Repr

/-- Reads a command line on top of some options. -/
def Request.ofArguments : List String → Options → Request
  | [], o => .play o
  | "--auto" :: rest, o => ofArguments rest { o with auto := true }
  | "--config" :: path :: rest, o => ofArguments rest { o with config := some path }
  | "--saves" :: folder :: rest, o => ofArguments rest { o with saves := folder }
  | "--help" :: _, _ | "-h" :: _, _ => .help
  | argument :: _, _ => .unknown argument

/-- How to use the player. -/
def usage : String :=
  "Usage: preview [--auto] [--config <path>] [--saves <dir>]\n\n" ++
    "Commands at a line: <enter>, undo, save <name>, load <name>, quit\n" ++
    "At a menu: the number of a choice\n"

end Storyline.Player
