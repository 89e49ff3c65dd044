import Storyline.Log
import Storyline.Number
import Storyline.Ident

/-!
Sounds: they are playing or not. A sound that is played in step with the story holds it up until
it ends, unless it loops.
-/

namespace Storyline

structure SoundConfig where
  src : String
  looping : Bool := false
  volume : Number := .one
  sync : Bool := false
deriving DecidableEq, Repr

/-- Whether the story waits for the sound to end. -/
def SoundConfig.blocks (c : SoundConfig) : Bool := c.sync && !c.looping

structure SoundState where
  playing : Bool := false
deriving DecidableEq, Repr

/-- Whether the sound was playing before a change. -/
inductive SoundRecord where
  | play (previous : Bool)
  | stop (previous : Bool)
deriving DecidableEq, Repr

instance : Undoable SoundState SoundRecord where
  rollback
    | .play previous, _, store => (⟨previous⟩, store)
    | .stop previous, _, store => (⟨previous⟩, store)

structure Sound where
  id : ElementId
  name : String
  config : SoundConfig
  pending : List NodeId := []
  tracked : Tracked SoundState SoundRecord := { state := {} }

namespace Sound

def isPlaying (s : Sound) : Bool := s.tracked.state.playing

def play (s : Sound) : Sound := { s with tracked := s.tracked.change ⟨true⟩ (.play s.isPlaying) }

def stop (s : Sound) : Sound := { s with tracked := s.tracked.change ⟨false⟩ (.stop s.isPlaying) }

end Sound

end Storyline
