import Storyline.Ident
import Storyline.Instant.Text
import Storyline.Placement
import Storyline.Ron.Form
import Storyline.Sentence
import Storyline.Value

/-!
What can be written and read back: dates, spans of time, values of the store, lines of dialogue and
positions of images. What may be missing on reading has the value that it has when nothing is said.
-/

namespace Storyline.Ron

/-- Types whose data has a document and a form to read it with. -/
class Codec (α : Type) where
  doc : α → Doc
  form : Form α

open Form (Structure)

/-! ### Dates, spans and identities -/

namespace Form

/-- An instant of time. -/
def instant : Form Instant := fun _ => do
  match Instant.ofText? (← Reader.text) with
  | some t => return t
  | none => throw (.expected "date")

/-- A natural number below a bound. -/
def below (bound : Nat) : Form Nat := fun _ => Reader.natural (bound - 1)

end Form

def Doc.instant (t : Instant) : Doc := .text t.text

instance : Codec NodeId where
  doc n := .wrapped (.int n.val)
  form x := do return ⟨← Form.wrapper "NodeId" (Form.below UInt64.size) x⟩

/-- The seconds and nanoseconds of a span of time, as far as they were read. -/
def spanFields : Structure (Nat × Nat) where
  name := "Duration"
  fields := [
    ("secs", Structure.set (Form.below UInt64.size) fun n s => (n, s.2)),
    ("nanos", Structure.set (Form.below UInt32.size) fun n s => (s.1, n))]
  required := ["secs", "nanos"]
  closed := true

instance : Codec Span where
  doc d := .struct none [("secs", .int d.seconds), ("nanos", .int d.nanos)]
  form x := do
    let (seconds, nanos) ← spanFields.read (0, 0) x
    let d := Span.of seconds nanos
    if d.seconds < UInt64.size then return d else throw .outOfRange

/-! ### Values -/

mutual

/-- The document of a value. -/
def valueDoc : Value → Doc
  | .null => .symbol "Null"
  | .bool b => .tagged "Bool" (.bool b)
  | .number n => .tagged "Number" (.number n)
  | .text s => .tagged "String" (.text s)
  | .date t => .tagged "Date" (.instant t)
  | .list items => .tagged "Array" (.list (valueDocs items))
  | .record fields => .tagged "Record" (.map (fieldDocs fields))

/-- The documents of the items of a list. -/
def valueDocs : List Value → List Doc
  | [] => []
  | v :: rest => valueDoc v :: valueDocs rest

/-- The documents of the fields of a record. -/
def fieldDocs : List (String × Value) → List (String × Doc)
  | [] => []
  | (key, v) :: rest => (key, valueDoc v) :: fieldDocs rest

end

/-- A value, where that many levels may be opened. Two of them go into telling the case, and four
into a value within a value. -/
def readValue : Nat → List Char → Except ReadError (Value × List Char)
  | room + 2, cs =>
    let payload {α : Type} (r : Reader α) : Reader α := Form.payload (fun _ => r) {}
    let inner : Reader Value := match room with
      | n + 2 => readValue n
      | _ => throw .tooDeep
    let nested {α : Type} (r : Reader α) : Reader α :=
      payload (if room = 0 then throw .tooDeep else r)
    let value : Reader Value := do
      match ← Reader.name with
      | "Null" => return .null
      | "Bool" => return .bool (← payload Reader.bool)
      | "Number" => return .number (← payload Reader.number)
      | "String" => return .text (← payload Reader.text)
      | "Date" => return .date (← payload (Form.instant {}))
      | "Array" => return .list (← nested (Form.items inner))
      | "Record" => return .record (← nested (Form.entries inner))
      | name => throw (.unknown name)
    value cs
  | _, _ => .error .tooDeep

instance : Codec Value where
  doc := valueDoc
  form x := readValue x.room

instance : Codec Fields where
  doc fields := .map (fieldDocs fields)
  form := Form.map Codec.form

/-! ### Lines of dialogue -/

/-- The document of the style of a word. -/
def wordStyleDoc (color : String) : Doc := .struct none [("color", .text color)]

/-- The style of a word, which is its colour. -/
def wordStyle : Structure String where
  name := "WordConfig"
  fields := [("color", Structure.set Form.text fun c _ => c)]

def wordFields : Structure Word where
  name := "Word"
  fields := [
    ("text", Structure.set Form.text fun t w => { w with text := t }),
    ("config", Structure.set (wordStyle.read defaultColor) fun c w => { w with color := c })]
  required := ["text"]

instance : Codec Word where
  doc w := .struct none [("text", .text w.text), ("config", wordStyleDoc w.color)]
  form := wordFields.read { text := "" }

def sentenceStyle : Structure SentenceStyle where
  name := "SentenceConfig"
  fields := [
    ("color", Structure.set Form.text fun c s => { s with color := c }),
    ("pause", Structure.set Form.bool fun b s => { s with pause := b }),
    ("display", Structure.set Form.bool fun b s => { s with display := b })]

instance : Codec SentenceStyle where
  doc s := .struct none
    [("color", .text s.color), ("pause", .bool s.pause), ("display", .bool s.display)]
  form := sentenceStyle.read {}

def sentenceFields : Structure Sentence where
  name := "Sentence"
  fields := [
    ("character", Structure.set (Form.option Form.text) fun c s => { s with speaker := c }),
    ("text", Structure.set (Form.list Codec.form) fun ws s => { s with words := ws }),
    ("config", Structure.set Codec.form fun c s => { s with style := c })]
  required := ["text"]

instance : Codec Sentence where
  doc s := .struct none [
    ("character", .ofOption .text s.speaker),
    ("text", .list (s.words.map Codec.doc)),
    ("config", Codec.doc s.style)]
  form := sentenceFields.read { words := [] }

/-! ### Positions -/

/-- The two axes of a position, as far as they were read. -/
def axes : Structure (Number × Number) where
  fields := [
    ("x", Structure.set Form.number fun x p => (x, p.2)),
    ("y", Structure.set Form.number fun y p => (p.1, y))]
  required := ["x", "y"]

/-- The document of a position with two axes. -/
def axesDoc (name : String) (x y : Number) : Doc :=
  .struct (some name) [("x", .number x), ("y", .number y)]

instance : Codec Position where
  doc
    | .left => .symbol "Left"
    | .center => .symbol "Center"
    | .right => .symbol "Right"
    | .align x y => axesDoc "Align" x y
    | .coord x y => axesDoc "Coord" x y
  form := Form.deeper fun c => do
    match ← Form.caseName c with
    | "Left" => return .left
    | "Center" => return .center
    | "Right" => return .right
    | "Align" =>
      Reader.blanks
      let (x, y) ← axes.read (.zero, .zero) c
      return .align x y
    | "Coord" =>
      Reader.blanks
      let (x, y) ← axes.read (.zero, .zero) c
      return .coord x y
    | name => throw (.unknown name)

def transformFields : Structure Transform where
  name := "Transform"
  fields := [
    ("position", Structure.set (Form.option Codec.form) fun p t => { t with position := p }),
    ("opacity", Structure.set (Form.option Form.number) fun n t => { t with opacity := n }),
    ("scale", Structure.set (Form.option Form.number) fun n t => { t with scale := n }),
    ("rotation", Structure.set (Form.option Form.number) fun n t => { t with rotation := n }),
    ("duration", Structure.set Codec.form fun d t => { t with duration := d })]

instance : Codec Transform where
  doc t := .struct none [
    ("position", .ofOption Codec.doc t.position),
    ("opacity", .ofOption .number t.opacity),
    ("scale", .ofOption .number t.scale),
    ("rotation", .ofOption .number t.rotation),
    ("duration", Codec.doc t.duration)]
  form := transformFields.read {}

end Storyline.Ron
