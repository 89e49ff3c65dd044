import Storyline.Stage.Cue

/-!
A screen that only keeps what it is told. It answers nothing, so that the host can answer every
future when it likes.
-/

namespace Storyline

/-- The future that a cue carries, if it carries one. -/
def Cue.future? : Cue → Option FutureId
  | .say _ _ f | .menu _ _ _ f | .background _ f | .sleep _ f | .animate _ _ f => some f
  | .play _ f => f
  | .handle _ | .hideSay _ | .scene _ | .addImage .. | .stop _ => none

/-- Cues that were taken and their futures. -/
structure Recorder where
  /-- Whether cues that a screen may do without are let go. -/
  essential : Bool := false
  /-- The cues, the last one first. -/
  cues : List Cue := []
  /-- The futures in the order they came. -/
  kept : Array FutureId := #[]

namespace Recorder

instance : Inhabited Recorder := ⟨{}⟩

/-- Takes a cue. -/
def receive (c : Cue) (r : Recorder) : Recorder :=
  if r.essential && c.isOptional then r
  else { r with cues := c :: r.cues, kept := r.kept ++ c.future?.toArray }

/-- The screen that keeps everything. -/
def screen : Screen Recorder := ⟨fun c r => (r.receive c, [])⟩

end Recorder

end Storyline
