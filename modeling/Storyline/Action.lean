import Storyline.Graph.Basic
import Storyline.Sentence
import Storyline.Placement

/-!
Actions: what a content node of the story graph does, to which element, and what comes of it.
-/

namespace Storyline

/-- What an action does, by the kind of its element. -/
inductive ActionKind where
  | say (line : Sentence)
  | hideLine (line : NodeId)
  /-- Runs a scene's chain. -/
  | scene (chain : Option Chain)
  | setBackground (src : String)
  | sleep (duration : Span)
  /-- Runs a story's chain. -/
  | story (chain : Option Chain)
  | setSrc (src : String)
  | setPosition (position : Position) (transform : Transform)
  | showImage (transform : Transform)
  | hideImage (transform : Transform)
  | applyTransform (transform : Transform)
  | condition
  | script
  | menu
  | play
  | stop
deriving DecidableEq, Repr

/-- The tag of an action: the kind of its element and what it does. -/
def ActionKind.tag : ActionKind → String
  | say _ => "character:say"
  | hideLine _ => "character:hide"
  | scene _ => "scene:action"
  | setBackground _ => "scene:setBackground"
  | sleep _ => "scene:sleep"
  | story _ => "story:action"
  | setSrc _ => "image:setSrc"
  | setPosition .. => "image:setPosition"
  | showImage _ => "image:show"
  | hideImage _ => "image:hide"
  | applyTransform _ => "image:applyTransform"
  | condition => "condition:action"
  | script => "script:action"
  | menu => "menu:action"
  | play => "sound:play"
  | stop => "sound:stop"

/-- One step of a story: the content of a node. -/
structure Action where
  node : NodeId
  callee : ElementId
  kind : ActionKind
deriving DecidableEq, Repr

def Action.tag (a : Action) : String := a.kind.tag

/-- What came of a step. Play goes on at the child of its node. -/
structure Outcome where
  tag : String
  node : NodeId
  /-- The entry picked, for a menu. -/
  choice : Option Nat := none
deriving DecidableEq, Repr, Inhabited

/-- The outcome of an action, apart from any choice. -/
def Action.outcome (a : Action) : Outcome := { tag := a.tag, node := a.node }

def Outcome.withChoice (o : Outcome) (index : Nat) : Outcome := { o with choice := some index }

/-- An action described by its tag and its node. -/
structure ActionData where
  tag : String
  content : NodeData ActionKind
deriving DecidableEq, Repr

def Action.toData (a : Action) : ActionData :=
  { tag := a.tag, content := ⟨toString a.node, some a.kind⟩ }

end Storyline
