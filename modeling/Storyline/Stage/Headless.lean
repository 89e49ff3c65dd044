import Storyline.Stage.Cue

/-!
A screen without a display: it answers every future at once and keeps a transcript of what it
would have shown.
-/

namespace Storyline

structure Headless where
  /-- What would have been shown, last first. -/
  entries : List String := []
  /-- Menu picks still to be given; later ones pick the first entry. -/
  picks : List Nat := []
deriving DecidableEq, Repr

namespace Headless

instance : Inhabited Headless := ⟨{}⟩

/-- The transcript in order. -/
def transcript (h : Headless) : List String := h.entries.reverse

/-- Adds a pick behind those already waiting. -/
def pushPick (h : Headless) (index : Nat) : Headless := { h with picks := h.picks ++ [index] }

/-- The text behind a word at the start of an entry. -/
def textAfter? : List Char → List Char → Option String
  | [], rest => some (String.ofList rest)
  | c :: cs, d :: ds => if c = d then textAfter? cs ds else none
  | _ :: _, [] => none

/-- The dialogue alone. -/
def lines (h : Headless) : List String :=
  h.transcript.filterMap fun e => textAfter? "say ".toList e.toList

def note (h : Headless) (entry : String) : Headless := { h with entries := entry :: h.entries }

/-- The entry of a line. -/
def sayEntry (line : Sentence) : String :=
  match line.speaker with
  | some name => s!"say {name}: {line.text}"
  | none => s!"say {line.text}"

/-- The entry of a menu and its pick. -/
def menuEntry (prompt : Option Sentence) (choices : List Sentence) (index : Nat) : String :=
  let title := (prompt.map (·.text)).getD ""
  let labels := " | ".intercalate (choices.map (·.text))
  s!"menu {title} [{labels}] -> {index}"

/-- Takes a cue: notes it and answers its future. -/
def receive : Cue → Headless → Headless × List (FutureId × Resolution)
  | .handle _, h => (h, [])
  | .say _ line f, h => (h.note (sayEntry line), [(f, .proceed)])
  | .menu _ prompt choices f, h =>
    let index := h.picks.headD 0
    ({ h with picks := h.picks.tail }.note (menuEntry prompt choices index), [(f, .choose index)])
  | .hideSay line, h => (h.note s!"hide {line}", [])
  | .scene s, h => (h.note s!"scene {s.name}", [])
  | .background src f, h => (h.note s!"background {src}", [(f, .proceed)])
  | .sleep d f, h => (h.note s!"sleep {d.millis}ms", [(f, .proceed)])
  | .addImage name image, h => (h.note s!"image {image.name} as {name}", [])
  | .animate name event f, h => (h.note s!"image {name} {event.name}", [(f, .proceed)])
  | .play s f, h => (h.note s!"sound {s.name} play", f.toList.map (·, .proceed))
  | .stop s, h => (h.note s!"sound {s.name} stop", [])

/-- The screen without a display. -/
def screen : Screen Headless := ⟨receive⟩

end Headless

end Storyline
