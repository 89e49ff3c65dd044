import Storyline.Graph.Basic
import Storyline.Log
import Storyline.Deferred.Cell
import Storyline.Element.Kind

/-!
All that can go wrong in a game, sorted by where it comes from.
-/

namespace Storyline

/-- What can go wrong with files. -/
inductive PersistError where
  | io (detail : String)
  | decode (detail : String)
  | encode (detail : String)
  | notFound (path : String)
deriving DecidableEq, Repr

def PersistError.message : PersistError → String
  | io detail => "IO error: " ++ detail
  | decode detail => "RON deserialization error: " ++ detail
  | encode detail => "RON serialization error: " ++ detail
  | notFound path => "file not found: " ++ path

inductive GameError where
  | graph (e : GraphError)
  | log (e : LogError)
  | await (e : AwaitError)
  | element (e : ElementError)
  | store (e : StoreError)
  | persist (e : PersistError)
  | missingAction (node : NodeId)
  | noStory
deriving DecidableEq, Repr

/-- A coarse sorting of errors by what a host can do about them. -/
inductive ErrorKind where
  /-- A malformed change of the story; it was not made. -/
  | structural
  /-- A log used out of turn. -/
  | logMisuse
  /-- A deferred value resolved twice. -/
  | resolution
  /-- A missing element, action or namespace, or an element of another kind. -/
  | lookup
  | persistence
  /-- A step of a game that has nothing to play. -/
  | lifecycle
deriving DecidableEq, Repr

namespace ErrorKind

/-- All kinds in order. -/
def all : List ErrorKind := [structural, logMisuse, resolution, lookup, persistence, lifecycle]

/-- Whether the host may note the error and carry on. -/
def isRecoverable : ErrorKind → Bool
  | logMisuse | resolution => true
  | _ => false

end ErrorKind

namespace GameError

/-- What went wrong, apart from where. -/
def detail : GameError → String
  | graph e => e.message
  | log e => e.message
  | await e => e.message
  | element e => e.message
  | store e => e.message
  | persist e => e.message
  | missingAction node => s!"no action at node {node}"
  | noStory => "no story loaded"

def message (e : GameError) : String :=
  match e with
  | graph _ => "graph error: " ++ e.detail
  | log _ => "transaction error: " ++ e.detail
  | await _ => "await error: " ++ e.detail
  | element _ => "element error: " ++ e.detail
  | store _ => "store error: " ++ e.detail
  | persist _ => "persistence error: " ++ e.detail
  | missingAction _ | noStory => e.detail

def kind : GameError → ErrorKind
  | graph _ => .structural
  | log _ => .logMisuse
  | await _ => .resolution
  | element (.invalidConfig _) => .structural
  | element _ | store _ | missingAction _ => .lookup
  | persist _ => .persistence
  | noStory => .lifecycle

end GameError

end Storyline
