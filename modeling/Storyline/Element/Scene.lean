import Storyline.Log
import Storyline.Ident

/-!
Scenes and stories: both wrap lists of nodes into one composite action; a scene has a background
too. The composites of a story are the units that are played in order.
-/

namespace Storyline

structure SceneConfig where
  /-- The background when the scene starts. -/
  background : Option String := none
deriving DecidableEq, Repr, Inhabited

structure SceneState where
  background : Option String := none
deriving DecidableEq, Repr

/-- The background before a change. -/
structure SceneRecord where
  previous : Option String
deriving DecidableEq, Repr

instance : Undoable SceneState SceneRecord where
  rollback r _ store := (⟨r.previous⟩, store)

structure Scene where
  id : ElementId
  name : String
  config : SceneConfig := {}
  pending : List NodeId := []
  /-- Every node wrapped by this scene, in order. -/
  actions : List NodeId := []
  tracked : Tracked SceneState SceneRecord

namespace Scene

def new (id : ElementId) (name : String) (config : SceneConfig) : Scene :=
  { id, name, config, tracked := { state := ⟨config.background⟩ } }

def background (s : Scene) : Option String := s.tracked.state.background

def setBackground (s : Scene) (src : String) : Scene :=
  { s with tracked := s.tracked.change ⟨some src⟩ ⟨s.background⟩ }

end Scene

structure Story where
  id : ElementId
  name : String
  /-- The units, in order. -/
  actions : List NodeId := []

end Storyline
