import Storyline.Number.Shortest
import Storyline.Ron.Doc
import Storyline.Text.Printable

/-!
The text of documents, in two layouts. The compact one has no blanks; the pretty one gives every
item and every field a line of its own, indented by its depth and ended by a comma.
-/

namespace Storyline.Ron

/-- How documents are laid out. -/
inductive Layout where
  | compact
  | pretty
deriving DecidableEq, Repr

namespace Layout

/-- The start of a line that stands `n` levels deep. -/
def line : Layout → Nat → List Char
  | compact, _ => []
  | pretty, n => '\n' :: List.replicate (4 * n) ' '

/-- What follows the colon of a field, and the comma of a tuple. -/
def gap : Layout → List Char
  | compact => []
  | pretty => [' ']

/-- What follows the last of several lines. -/
def last : Layout → List Char
  | compact => []
  | pretty => [',']

/-- Items between brackets, each on a line of its own. -/
def block (l : Layout) (n : Nat) (opening closing : Char) (items : List (List Char)) :
    List Char :=
  if items.isEmpty then [opening, closing]
  else
    opening :: ([','].intercalate (items.map (l.line (n + 1) ++ ·)) ++ l.last ++ l.line n
      ++ [closing])

/-- Items between brackets, all on one line. -/
def row (l : Layout) (items : List (List Char)) : List Char :=
  '(' :: ((',' :: l.gap).intercalate items ++ [')'])

end Layout

/-- A character within a quoted text. -/
def escaped (c : Char) : List Char :=
  match c with
  | '\x00' => ['\\', '0']
  | '\t' => ['\\', 't']
  | '\r' => ['\\', 'r']
  | '\n' => ['\\', 'n']
  | '\'' => ['\\', '\'']
  | '"' => ['\\', '"']
  | '\\' => ['\\', '\\']
  | c =>
    if Text.isPrintable c then [c]
    else '\\' :: 'u' :: '\x7b' :: (Nat.toDigits 16 c.toNat ++ ['\x7d'])

/-- A quoted text. -/
def quoted (s : String) : List Char := '"' :: (s.toList.flatMap escaped ++ ['"'])

/-- A number; one without a fraction still shows that it is no integer. -/
def numeral (x : Number) : List Char :=
  x.text.toList ++ (if x.isWhole then ['.', '0'] else [])

mutual

/-- The text of a document that starts on a line `n` levels deep. -/
def render (l : Layout) (n : Nat) : Doc → List Char
  | .bool b => (if b then "true" else "false").toList
  | .int i => (toString i).toList
  | .number x => numeral x
  | .text s => quoted s
  | .absent => "None".toList
  | .present d => "Some(".toList ++ render l n d ++ [')']
  | .wrapped d => '(' :: (render l n d ++ [')'])
  | .symbol name => name.toList
  | .tagged name d => name.toList ++ '(' :: (render l n d ++ [')'])
  | .tuple name items => name.toList ++ l.row (renderItems l n items)
  | .struct name entries =>
    (name.getD "").toList ++ l.block n '(' ')' (renderFields l (n + 1) entries)
  | .list items => l.block n '[' ']' (renderItems l (n + 1) items)
  | .map entries => l.block n '\x7b' '\x7d' (renderEntries l (n + 1) entries)

/-- The texts of some documents. -/
def renderItems (l : Layout) (n : Nat) : List Doc → List (List Char)
  | [] => []
  | d :: rest => render l n d :: renderItems l n rest

/-- The texts of fields. -/
def renderFields (l : Layout) (n : Nat) : List (String × Doc) → List (List Char)
  | [] => []
  | (name, d) :: rest =>
    (name.toList ++ ':' :: (l.gap ++ render l n d)) :: renderFields l n rest

/-- The texts of the entries of a map. -/
def renderEntries (l : Layout) (n : Nat) : List (String × Doc) → List (List Char)
  | [] => []
  | (key, d) :: rest =>
    (quoted key ++ ':' :: (l.gap ++ render l n d)) :: renderEntries l n rest

end

/-- The text of a document, unless that is nested too deeply. -/
def write? (l : Layout) (d : Doc) : Option String :=
  if d.depth ≤ Doc.levels then some (String.ofList (render l 0 d)) else none

end Storyline.Ron
