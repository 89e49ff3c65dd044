import Storyline.Value
import Storyline.Ron.Doc
import Storyline.Ron.Skip

/-!
Forms: how data of some type is read out of a text, given what the head of the text allows and how
many levels may still be opened.
-/

namespace Storyline.Ron

/-- What reading depends on. -/
structure Context where
  /-- The levels that may still be opened. -/
  room : Nat := Doc.levels
  /-- Whether data that may be missing may be given without saying that it is there. -/
  implicitSome : Bool := false
  /-- Whether data in a wrapper is given without it. -/
  unwrapped : Bool := false
deriving Inhabited

/-- How data is read. -/
abbrev Form (α : Type) := Context → Reader α

namespace Form

open Reader

variable {α σ : Type}

/-- Data one level further in. -/
def deeper (f : Form α) : Form α := fun x =>
  match x.room with
  | 0 => throw .tooDeep
  | n + 1 => f { x with room := n }

def bool : Form Bool := fun _ => Reader.bool
def number : Form Number := fun _ => Reader.number
def text : Form String := fun _ => Reader.text

/-- Data that may be missing. -/
def option (f : Form α) : Form (Option α) := fun x => do
  if ← accept "None".toList then return none
  if ← accept "Some".toList then
    blanks
    if ← accept ['('] then return some (← bracketed (deeper f x))
  if x.implicitSome then return some (← deeper f x)
  throw (.expected "option")

/-- A name in front of an opening bracket; it may be missing but not be another one. -/
def ownName (name : String) : Reader Unit := fun cs =>
  if !(cs.head?.map isNameChar).getD false then .ok ((), cs)
  else
    match splitName? cs with
    | some (n, rest) => if n = name then .ok ((), rest) else .error (.unknown n)
    | none => .error (.expected "name")

/-- Data in a wrapper. -/
def wrapper (name : String) (f : Form α) : Form α := fun x => do
  if x.unwrapped then return ← deeper f x
  ownName name
  blanks
  expect '('
  bracketed (deeper f x)

/-- Items in square brackets. -/
def items (item : Reader α) : Reader (List α) := do
  expect '['
  return (← run ']' (fun as => do return (← item) :: as) []).reverse

/-- Values under keys in curly brackets. Of two under one key the later stays. -/
def entries (value : Reader α) : Reader (List (String × α)) := do
  expect '\x7b'
  run '\x7d' (fun r => do
    let key ← Reader.text
    return Record.put key (← underKey value) r) []

def list (f : Form α) : Form (List α) := deeper fun x => items (deeper f x)

def map (f : Form α) : Form (List (String × α)) := deeper fun x => entries (deeper f x)

/-- The name of one of several cases. -/
def caseName : Form String := deeper fun _ => Reader.name

/-- The data of a case, behind its name. -/
def payload (f : Form α) : Form α := fun x => do
  blanks
  expect '('
  bracketed (deeper f x)

/-- A structure: its name, how each of its fields is read into what has been read so far, and the
fields that may not be missing. -/
structure Structure (σ : Type) where
  name : String := ""
  fields : List (String × (σ → Form σ))
  required : List String := []
  /-- Whether other names than those of the fields are refused. -/
  closed : Bool := false

/-- Reads a field, unless it was read before. -/
def Structure.field (d : Structure σ) (x : Context) (s : List String × σ) :
    Reader (List String × σ) := do
  let name ← caseName x
  match d.fields.find? fun f => f.1 = name with
  | some (_, f) =>
    if name ∈ s.1 then throw (.duplicateField name)
    return (name :: s.1, ← underKey (deeper (f s.2) x))
  | none =>
    if d.closed then throw (.unknown name)
    underKey (deeper (fun x => skip x.implicitSome x.room) x)
    return s

/-- The fields of a structure, from the opening bracket on. -/
def Structure.body (d : Structure σ) (start : σ) : Form σ := fun x => do
  expect '('
  let (seen, s) ← deeper (fun x => run ')' (d.field x) ([], start)) x
  match d.required.find? fun name => !seen.contains name with
  | some name => throw (.missingField name)
  | none => return s

/-- Reads a structure into what it is without any field. -/
def Structure.read (d : Structure σ) (start : σ) : Form σ := fun x => do
  ownName d.name
  blanks
  d.body start x

/-- A field that replaces part of what has been read so far. -/
def Structure.set (f : Form α) (put : α → σ → σ) : σ → Form σ := fun s x => do
  return put (← f x) s

/-! ### Whole texts -/

/-- Takes off what stands in front of every text of a form. -/
def acceptMarks : List String → Reader Bool
  | [] => return true
  | m :: rest => do
    if ← accept m.toList then
      blanks
      acceptMarks rest
    else return false

/-- Allows what a name at the head of a text allows. -/
def allow (name : String) (x : Context) : Reader Context :=
  match name with
  | "implicit_some" => return { x with implicitSome := true }
  | "unwrap_newtypes" => return { x with unwrapped := true }
  | "unwrap_variant_newtypes" => return x
  | _ => throw (.unknown name)

/-- The names between the brackets of a line at the head, no more than the clock has characters. -/
def allowances : List Char → Context → Reader Context
  | [], _ => throw (.expected "end of names")
  | _ :: rest, x => do
    let x ← allow (← Reader.name) x
    let more ← comma
    let next := ((← get).head?.map isNameChar).getD false
    if more && next then allowances rest x
    else if next then throw (.expected "comma")
    else return x

/-- The lines at the head of a text, which say what it may leave out, no more than the clock has
characters. -/
def head : List Char → Context → Reader Context
  | [], _ => throw (.expected "data")
  | _ :: rest, x => do
    blanks
    if (← get).head? != some '#' then return x
    if !(← acceptMarks ["#", "!", "[", "enable", "("]) then throw (.expected "head")
    let x ← allowances (← clock) x
    blanks
    if !(← acceptMarks [")", "]"]) then throw (.expected "end of head")
    head rest x

/-- A whole text: its head, data of a form, and nothing behind them. -/
def whole (f : Form α) : Reader α := do
  let x ← head (← clock) {}
  let a ← f x
  blanks
  if !(← get).isEmpty then throw (.expected "end of text")
  return a

end Form

/-- Reads a whole text. -/
def read {α : Type} (f : Form α) (text : String) : Except ReadError α :=
  (f.whole text.toList).map (·.1)

end Storyline.Ron
