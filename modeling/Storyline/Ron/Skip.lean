import Storyline.Ron.Reader

/-!
Data that is read only to get behind it: what stands under a field name that nobody knows. Its
kind shows in its first characters.
-/

namespace Storyline.Ron.Reader

variable {α : Type}

/-- Data behind an opening bracket, up to the closing one; a comma may follow the data. -/
def bracketed (r : Reader α) : Reader α := do
  blanks
  let a ← r
  discard comma
  expect ')'
  return a

/-- Data under a key, behind the key. -/
def underKey (r : Reader α) : Reader α := do
  blanks
  expect ':'
  blanks
  r

/-- Takes one of several whole words off, if one stands there. -/
def acceptWord (words : List String) : Reader Bool := fun cs =>
  match words.find? fun w => startsWithWord w.toList cs with
  | some w => .ok (true, cs.drop w.length)
  | none => .ok (false, cs)

/-- Whether the data behind an opening bracket starts with a field name. -/
def startsWithField : Reader Bool := fun cs => do
  match splitName? (← behindBlanks .blank cs) with
  | none => return (false, cs)
  | some (_, rest) =>
    match ← behindBlanks .blank rest with
    | [] => throw .unexpectedEnd
    | c :: _ => return (c == ':', cs)

/-- Data in brackets that may have names of their own. -/
def skipBrackets (item : Reader Unit) : Reader Unit := do
  expect '('
  if ← startsWithField then
    run ')' (fun _ => do discard name; underKey item) ()
  else
    run ')' (fun _ => item) ()

/-- Data of any kind. `one` and `two` read data one and two levels further in, where there is
room for that. -/
def skipData (implicitSome : Bool) (one two : Option (Reader Unit)) : Reader Unit := do
  let inner := one.getD (throw .tooDeep)
  let item := two.getD (throw .tooDeep)
  let opening (r : Reader Unit) : Reader Unit := if one.isNone then throw .tooDeep else r
  if ← acceptWord ["true", "false"] then return
  if startsWithWord "Some".toList (← get) then
    discard (accept "Some".toList)
    blanks
    if ← accept ['('] then bracketed inner
    else if implicitSome then inner
    else throw (.expected "option")
    return
  if ← acceptWord ["None"] then return
  if ← accept ['(', ')'] then return
  if ← acceptWord ["inf", "-inf", "NaN"] then return
  match splitName? (← get) with
  | some (_, rest) =>
    set rest
    blanks
    if ['('].isPrefixOf (← get) then opening (skipBrackets item)
  | none =>
    match ← peek with
    | '(' => opening (skipBrackets item)
    | '[' => opening do
      expect '['
      run ']' (fun _ => item) ()
    | '\x7b' => opening do
      expect '\x7b'
      run '\x7d' (fun _ => do item; underKey item) ()
    | '.' => discard number
    | '"' | 'r' => discard text
    | '\'' => anyChar
    | c =>
      if c.isDigit || c == '+' || c == '-' then anyNumber else throw (.expected "data")

/-- Data of any kind, where `room` levels may be opened. -/
def skip (implicitSome : Bool) : Nat → List Char → Except ReadError (Unit × List Char)
  | 0, cs => skipData implicitSome none none cs
  | 1, cs => skipData implicitSome (some (skip implicitSome 0)) none cs
  | n + 2, cs =>
    skipData implicitSome (some (skip implicitSome (n + 1))) (some (skip implicitSome n)) cs

end Storyline.Ron.Reader
