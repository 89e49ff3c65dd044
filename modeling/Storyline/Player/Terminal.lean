import Storyline.Player.Options
import Storyline.Player.Tale
import Storyline.Player.Turn

/-!
The terminal player as a whole: from its command line over the lines of its input to its exit code.
-/

namespace Storyline.Player

/-- The terminal player between two lines of input. -/
structure Terminal where
  game : Game Console
  /-- The folder of saves. -/
  saves : String := "."
  /-- What is asked for; an exit code once the player is over. -/
  stand : Except Nat Waiting

namespace Terminal

/-- Takes what came of a line; an error ends the player. -/
def settled (saves : String) : Except GameError Stand × Game Console → Terminal
  | (.ok (.asking w), game) => { game, saves, stand := .ok w }
  | (.ok .over, game) => { game, saves, stand := .error 0 }
  | (.error e, game) =>
    let report := s!"Error: {e.message}\n"
    { game := game.mapStage fun s => { s with screen := s.screen.put (.err report) }
      saves
      stand := .error 1 }

/-- A player that ends before it has begun. -/
def refused (text : String) (code : Nat) : Terminal where
  game := Game.new {} (({} : Console).put (.err text))
  stand := .error code

/-- Starts to play with some setup. -/
def begin (o : Options) (config : GameConfig) (now : Instant) : Terminal :=
  let story : Play Console Stand := do
    Play.registerStory (← Play.build tale)
    modify (·.newGame now)
    advance stepLimit
  match story (Game.new config { auto := o.auto }) with
  | .ok stand game => settled o.saves (.ok stand, game)
  | .error e game => settled o.saves (.error e, game)

variable {m : Type → Type} [Monad m]

/-- Starts the player from its command line. -/
def ofArguments (fs : FileSystem m) (arguments : List String) (now : Instant) : m Terminal := do
  match Request.ofArguments arguments {} with
  | .help => return refused usage 0
  | .unknown argument => return refused (s!"Unknown argument: {argument}\n" ++ usage) 1
  | .play o =>
    match o.config with
    | none => return begin o {} now
    | some path =>
      match ← (fs.readData path : ExceptT PersistError m GameConfig).run with
      | .ok config => return begin o config now
      | .error e => return refused s!"Failed to load config {path}: {e.message}\n" 1

/-- Takes a line of input, or the end of it. -/
def take (p : Terminal) (fs : FileSystem m) (line : Option String) (now : Instant) : m Terminal := do
  match p.stand, line with
  | .error _, _ => return p
  | .ok _, none => return { p with stand := .error 0 }
  | .ok w, some line =>
    let archive := Archive.ofFiles fs p.saves
    return settled p.saves (← ((obey archive now w (.ofLine line)).run).run p.game)

/-- Takes lines of input with the times they come at, and the end of input behind them. -/
def takeAll (p : Terminal) (fs : FileSystem m) : List (String × Instant) → m Terminal
  | [] => p.take fs none default
  | (line, now) :: rest => do takeAll (← p.take fs (some line) now) fs rest

/-- What came out since this was asked last. -/
def drain (p : Terminal) : List Output × Terminal :=
  (p.game.stage.screen.output.reverse,
    { p with game := p.game.mapStage fun s => { s with screen := { s.screen with output := [] } } })

/-- The exit code of a player that is over. -/
def code (p : Terminal) : Nat :=
  match p.stand with
  | .error code => code
  | .ok _ => 0

/-- Plays all of some input at one time; answers what came out, in order, and the exit code. -/
def playAll (fs : FileSystem m) (arguments : List String) (input : String) (now : Instant) :
    m (List Output × Nat) := do
  let p ← takeAll (← ofArguments fs arguments now) fs ((linesOf input).map (·, now))
  return (p.drain.1, p.code)

end Terminal

end Storyline.Player
