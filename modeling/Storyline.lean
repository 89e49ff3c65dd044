import Storyline.Action
import Storyline.Deferred.Cell
import Storyline.Deferred.Program
import Storyline.Element
import Storyline.Element.Character
import Storyline.Element.Condition
import Storyline.Element.Image
import Storyline.Element.Kind
import Storyline.Element.Menu
import Storyline.Element.Scene
import Storyline.Element.Script
import Storyline.Element.Sound
import Storyline.Error
import Storyline.Files.Archive
import Storyline.Files.Tree
import Storyline.Game.Config
import Storyline.Game.Live
import Storyline.Game.Play
import Storyline.Game.Saved
import Storyline.Game.Session
import Storyline.Graph.Basic
import Storyline.Graph.Chains
import Storyline.Graph.Edges
import Storyline.Ident
import Storyline.Instant
import Storyline.Instant.Text
import Storyline.Log
import Storyline.Main
import Storyline.Number
import Storyline.Number.Digits
import Storyline.Number.Nearest
import Storyline.Number.Shortest
import Storyline.Placement
import Storyline.Player.Command
import Storyline.Player.Console
import Storyline.Player.Options
import Storyline.Player.Tale
import Storyline.Player.Terminal
import Storyline.Player.Turn
import Storyline.Value
import Storyline.Rehearsal
import Storyline.Ron.Codec
import Storyline.Ron.Doc
import Storyline.Ron.Form
import Storyline.Ron.Reader
import Storyline.Ron.Script
import Storyline.Ron.Skip
import Storyline.Ron.Writer
import Storyline.Sentence
import Storyline.Stage.Cue
import Storyline.Stage.Execute
import Storyline.Stage.Headless
import Storyline.Stage.Recorder
import Storyline.Store
import Storyline.Store.Recipe
import Storyline.Text
import Storyline.Text.Printable
import Storyline.World
import Storyline.World.Author
import Storyline.Proofs.Effect
import Storyline.Proofs.Graph.Edges
import Storyline.Proofs.Graph.Reached
import Storyline.Proofs.Graph.Regraft
import Storyline.Proofs.Graph.WellFormed
import Storyline.Proofs.Graph.Paired
import Storyline.Proofs.Element
import Storyline.Proofs.Stage.Execute
import Storyline.Proofs.Game.Next
import Storyline.Proofs.World.Calls
import Storyline.Proofs.Game.Account
import Storyline.Proofs.Game.Aligned
import Storyline.Proofs.Game.Undo
import Storyline.Proofs.Game.TakenBack
import Storyline.Proofs.Story.Tree
import Storyline.Proofs.Story.Rows
import Storyline.Proofs.Story.RowsInSequence
import Storyline.Proofs.Story.Roles
import Storyline.Proofs.Story.Statement
import Storyline.Proofs.Story.Turn
import Storyline.Proofs.Story.Course
import Storyline.Proofs.Story.Through
import Storyline.Proofs.Story.RowsLinked
import Storyline.Proofs.Story.Draft
import Storyline.Proofs.Story.Written
import Storyline.Proofs.Story.Called
import Storyline.Proofs.Story.Drafted
import Storyline.Proofs.Story.Standing
import Storyline.Proofs.Story.Traced
import Storyline.Proofs.Stage.Grafts
import Storyline.Proofs.Graph.SinglyLinked
import Storyline.Proofs.Story.ListsInSequence
import Storyline.Proofs.World.Strokes
import Storyline.Proofs.Story.Sheet
import Storyline.Proofs.Game.Playing
import Storyline.Proofs.Story.Ahead
import Storyline.Proofs.Game.Returns
import Storyline.Proofs.Game.Spot
import Storyline.Proofs.Game.Replays
import Storyline.Proofs.Deferred.Notified
import Storyline.Proofs.Deferred.Moved
import Storyline.Proofs.Game.Timing
import Storyline.Proofs.Record
import Storyline.Proofs.Ron.Shuffled
import Storyline.Proofs.Ron.Tokens
import Storyline.Proofs.Ron.Reading
import Storyline.Proofs.Ron.Restored
import Storyline.Proofs.Graph.Backed
import Storyline.Proofs.Stage.Lived
import Storyline.Proofs.Stage.Moved
import Storyline.Proofs.Stage.Numbered
import Storyline.Proofs.Game.Presented
import Storyline.Proofs.Number.Digits
import Storyline.Proofs.Number.Nearest
import Storyline.Proofs.Number.Shortest
import Storyline.Proofs.Instant.Calendar
import Storyline.Proofs.Ron.Numerals
import Storyline.Proofs.Ron.Dates
import Storyline.Proofs.Store
import Storyline.Proofs.Ron.Proper
import Storyline.Proofs.Files
import Storyline.Proofs.Game.Saves
import Storyline.Proofs.Game.Handled
import Storyline.Proofs.Game.Status
import Storyline.Proofs.Log.Session
import Storyline.Proofs.Game.Failed
import Storyline.Proofs.Game.Onward
import Storyline.Proofs.Game.Housed
import Storyline.Proofs.Story.Homes
import Storyline.Proofs.Game.Opening
import Storyline.Proofs.Graph.Steps
import Storyline.Proofs.Graph.Setting
import Storyline.Proofs.Graph.Refused
import Storyline.Proofs.Graph.Aborted
import Storyline.Proofs.Log.Single
import Storyline.Proofs.Element.Lines
import Storyline.Proofs.Element.Trials
import Storyline.Proofs.Store.Loading
import Storyline.Proofs.World.Gathered
import Storyline.Proofs.World.Stint
import Storyline.Proofs.World.Owed
import Storyline.Proofs.Number.Unit
import Storyline.Proofs.Element.Placed
import Storyline.Proofs.Game.OnStage
import Storyline.Proofs.World.HalfDone
import Storyline.Proofs.Graph.InLine
import Storyline.Proofs.Graph.Walker
import Storyline.Proofs.Element.Branches
import Storyline.Proofs.Game.Downhill
import Storyline.Proofs.Player.Prompt
import Storyline.Proofs.Player.Loop
import Storyline.Proofs.Player.Meeting
import Storyline.Proofs.World.Looking
import Storyline.Proofs.Player.Passing
import Storyline.Proofs.Player.Scenes
import Storyline.Proofs.Player.StepsBack
