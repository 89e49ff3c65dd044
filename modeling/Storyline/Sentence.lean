/-!
Lines of dialogue: runs of text with a colour each, a speaker if there is one, and how the whole
line is shown.
-/

namespace Storyline

/-- The colour of text that was given none. -/
def defaultColor : String := "#fff"

/-- A run of text with its own colour. -/
structure Word where
  text : String
  color : String := defaultColor
deriving DecidableEq, Repr, Inhabited

/-- How a line is shown. A line that does not pause is followed by the next step at once. -/
structure SentenceStyle where
  color : String := defaultColor
  pause : Bool := true
  display : Bool := true
deriving DecidableEq, Repr, Inhabited

/-- A line of dialogue, or the prompt of a menu. -/
structure Sentence where
  speaker : Option String := none
  words : List Word
  style : SentenceStyle := {}
deriving DecidableEq, Repr, Inhabited

namespace Sentence

/-- The sentence of one plain word. -/
def plain (text : String) : Sentence := { words := [{ text := text }] }

/-- The text without its styling; words are joined as they stand. -/
def text (s : Sentence) : String := String.join (s.words.map Word.text)

end Sentence

end Storyline
