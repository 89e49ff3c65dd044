/-!
Texts: cut at a separator, as paths are cut into names and inputs into lines, and freed of the blanks
at their ends.
-/

namespace Storyline.Text

/-- Puts a character in front of the first part. -/
def extend (c : Char) : List (List Char) → List (List Char)
  | [] => [[c]]
  | part :: rest => (c :: part) :: rest

/-- The runs of characters between separators; there is always one more than there are
separators. -/
def split (sep : Char) (cs : List Char) : List (List Char) :=
  cs.foldr (fun c parts => if c = sep then [] :: parts else extend c parts) [[]]

/-- The white space characters of Unicode. -/
def isBlank (c : Char) : Bool :=
  let n := c.toNat
  (9 ≤ n && n ≤ 13) || n == 0x20 || n == 0x85 || n == 0xa0 || n == 0x1680
    || (0x2000 ≤ n && n ≤ 0x200a) || n == 0x2028 || n == 0x2029 || n == 0x202f
    || n == 0x205f || n == 0x3000

/-- A text without the blanks at its two ends. -/
def trim (s : String) : String :=
  String.ofList ((s.toList.dropWhile isBlank).reverse.dropWhile isBlank).reverse

end Storyline.Text
