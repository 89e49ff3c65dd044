import Storyline.Number

/-!
Documents: the data that configurations, settings and saves are made of, before it is laid out as
text. What is nested too deeply is not written, so that it can be told how much there is to read.
-/

namespace Storyline.Ron

/-- The data of a text. -/
inductive Doc where
  | bool (b : Bool)
  | int (n : Int)
  | number (x : Number)
  | text (s : String)
  | absent
  | present (d : Doc)
  /-- Data in a wrapper of no name of its own. -/
  | wrapped (d : Doc)
  /-- One of several names. -/
  | symbol (name : String)
  /-- One of several names, with data. -/
  | tagged (name : String) (d : Doc)
  /-- One of several names, with data in a fixed order. -/
  | tuple (name : String) (items : List Doc)
  /-- Data under field names; under one of several names, if it has one. -/
  | struct (name : Option String) (entries : List (String × Doc))
  | list (items : List Doc)
  | map (entries : List (String × Doc))
deriving Inhabited

namespace Doc

mutual

/-- The number of levels a document opens. -/
def depth : Doc → Nat
  | bool _ | int _ | number _ | text _ | absent | symbol _ => 0
  | present d | wrapped d | tagged _ d => d.depth + 1
  | tuple _ items | list items => depthItems items + 1
  | struct _ entries | map entries => depthEntries entries + 1

/-- The levels of the deepest item, the item itself being one. -/
def depthItems : List Doc → Nat
  | [] => 0
  | d :: rest => max (d.depth + 1) (depthItems rest)

/-- The levels of the deepest entry, the entry itself being one. -/
def depthEntries : List (String × Doc) → Nat
  | [] => 0
  | (_, d) :: rest => max (d.depth + 1) (depthEntries rest)

end

/-- The number of levels that a text may open. -/
def levels : Nat := 128

/-- Data that may be missing. -/
def ofOption {α : Type} (doc : α → Doc) : Option α → Doc
  | some a => present (doc a)
  | none => absent

end Doc

end Storyline.Ron
