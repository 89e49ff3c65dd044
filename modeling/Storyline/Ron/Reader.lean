import Storyline.Number.Nearest

/-!
Readers of text: the smallest parts that data is written with. Blanks and comments may stand
between any two of them. A reader takes what it reads off the front of the text; what it makes of
a text that it refuses does not matter, for nothing goes on behind an error.
-/

namespace Storyline.Ron

/-- What can be wrong with a text. -/
inductive ReadError where
  | unexpectedEnd
  | expected (what : String)
  | outOfRange
  | tooDeep
  | duplicateField (name : String)
  | missingField (name : String)
  | unknown (name : String)
deriving DecidableEq, Repr

def ReadError.message : ReadError → String
  | unexpectedEnd => "unexpected end of text"
  | expected what => s!"expected {what}"
  | outOfRange => "number out of range"
  | tooDeep => "nested too deeply"
  | duplicateField name => s!"field {name} given twice"
  | missingField name => s!"field {name} missing"
  | unknown name => s!"unknown name {name}"

/-- Reads data of type `α` off the front of a text. -/
abbrev Reader := StateT (List Char) (Except ReadError)

namespace Reader

/-! ### Characters -/

/-- Takes a given text off, if it stands there. -/
def accept (word : List Char) : Reader Bool := fun cs =>
  if word.isPrefixOf cs then .ok (true, cs.drop word.length) else .ok (false, cs)

/-- Takes off a character that has to be there. -/
def expect (c : Char) : Reader Unit := do
  if !(← accept [c]) then throw (.expected (toString c))

/-- The next character, which stays. -/
def peek : Reader Char := fun cs =>
  match cs with
  | c :: _ => .ok (c, cs)
  | [] => .error .unexpectedEnd

/-! ### Blanks -/

def isSpace (c : Char) : Bool := c == ' ' || c == '\t' || c == '\n' || c == '\r'

/-- Where the text between two parts stands. -/
inductive Gap where
  | blank
  | line
  /-- In a comment, within as many others. -/
  | block (outer : Nat)

/-- The text behind blanks and comments. -/
def behindBlanks : Gap → List Char → Except ReadError (List Char)
  | .blank, '/' :: '/' :: cs => behindBlanks .line cs
  | .blank, '/' :: '*' :: cs => behindBlanks (.block 0) cs
  | .blank, '/' :: _ => .error (.expected "comment")
  | .blank, c :: cs => if isSpace c then behindBlanks .blank cs else .ok (c :: cs)
  | .line, '\n' :: cs => behindBlanks .blank cs
  | .line, _ :: cs => behindBlanks .line cs
  | .block n, '/' :: '*' :: cs => behindBlanks (.block (n + 1)) cs
  | .block 0, '*' :: '/' :: cs => behindBlanks .blank cs
  | .block (n + 1), '*' :: '/' :: cs => behindBlanks (.block n) cs
  | .block n, _ :: cs => behindBlanks (.block n) cs
  | .block _, [] => .error .unexpectedEnd
  | .blank, [] | .line, [] => .ok []

def blanks : Reader Unit := fun cs => (behindBlanks .blank cs).map ((), ·)

/-- A comma with blanks around it, if there is one. -/
def comma : Reader Bool := do
  blanks
  if ← accept [','] then
    blanks
    return true
  else return false

/-! ### Names -/

def isLetter (c : Char) : Bool := c.isAlpha || c == '_'
def isNameChar (c : Char) : Bool := c.isAlphanum || c == '_'

/-- The characters of names that are written with a mark in front. -/
def isMarkedNameChar (c : Char) : Bool := isNameChar c || c == '.' || c == '+' || c == '-'

/-- A name at the front of a text, and the rest. One that runs on into characters which only
marked names have is none, and neither is the start of a text without escapes. -/
def splitName? (cs : List Char) : Option (String × List Char) :=
  match cs with
  | [] => none
  | ['r'] => none
  | 'r' :: '"' :: _ => none
  | 'r' :: '#' :: rest =>
    let name := rest.takeWhile isMarkedNameChar
    if name.isEmpty then none else some (String.ofList name, rest.dropWhile isMarkedNameChar)
  | c :: _ =>
    let rest := cs.dropWhile isNameChar
    if !isLetter c || (rest.head?.map isMarkedNameChar).getD false then none
    else some (String.ofList (cs.takeWhile isNameChar), rest)

/-- A name. -/
def name : Reader String := fun cs =>
  match splitName? cs with
  | some (n, rest) => .ok (n, rest)
  | none => .error (.expected "name")

/-- Whether a word stands at the front of a text that does not run on as a name. -/
def startsWithWord (word cs : List Char) : Bool :=
  word.isPrefixOf cs && !((cs.drop word.length).head?.map isNameChar).getD false

/-! ### Truth values and numbers -/

def bool : Reader Bool := do
  if ← accept "true".toList then return true
  else if ← accept "false".toList then return false
  else throw (.expected "truth value")

def isFloatChar (c : Char) : Bool :=
  c.isDigit || c == 'e' || c == 'E' || c == '.' || c == '+' || c == '-' || c == '_'

/-- The words that stand for numbers. -/
def numberWords : List (String × Number) :=
  [("inf", .infinity), ("+inf", .infinity), ("-inf", Number.infinity.neg),
    ("NaN", .nan), ("+NaN", .nan), ("-NaN", .nan)]

/-- A number, with or without a fraction. -/
def number : Reader Number := fun cs =>
  match numberWords.find? fun w => startsWithWord w.1.toList cs with
  | some (word, x) => .ok (x, cs.drop word.length)
  | none =>
    match Number.ofNumeral? (cs.takeWhile isFloatChar) with
    | some x => .ok (x, cs.dropWhile isFloatChar)
    | none => .error (.expected "number")

/-- The value of a digit, whatever the base. -/
def digit? (c : Char) : Option Nat :=
  if c.isDigit then some (c.toNat - '0'.toNat)
  else if 'a' ≤ c && c ≤ 'f' then some (c.toNat - 'a'.toNat + 10)
  else if 'A' ≤ c && c ≤ 'F' then some (c.toNat - 'A'.toNat + 10)
  else none

def isIntChar (c : Char) : Bool := (digit? c).isSome || c == '_'

/-- The base of an integer and the text behind the mark that tells it. -/
def splitBase : List Char → Nat × List Char
  | '0' :: 'x' :: cs => (16, cs)
  | '0' :: 'b' :: cs => (2, cs)
  | '0' :: 'o' :: cs => (8, cs)
  | cs => (10, cs)

/-- The value of digits in a base, underscores among them aside. -/
def digitsIn? (base : Nat) : Nat → List Char → Option Nat
  | n, [] => some n
  | n, c :: cs =>
    if c = '_' then digitsIn? base n cs
    else
      match digit? c with
      | some d => if d < base then digitsIn? base (base * n + d) cs else none
      | none => none

/-- An integer without a sign. -/
def natural (most : Nat) : Reader Nat := fun cs =>
  let (base, cs) := splitBase cs
  let digits := cs.takeWhile isIntChar
  if digits.isEmpty || digits.head? = some '_' then .error (.expected "integer")
  else
    match digitsIn? base 0 digits with
    | none => .error (.expected "integer")
    | some n => if n ≤ most then .ok (n, cs.dropWhile isIntChar) else .error .outOfRange

/-- An integer from `-most - 1` to `most`. -/
def integer (most : Nat) : Reader Int := do
  if ← accept ['-'] then return -(← natural (most + 1))
  else
    discard (accept ['+'])
    return ← natural most

/-- A number of any kind, which is not looked at. -/
def anyNumber : Reader Unit := fun cs =>
  let (signed, body) := match cs with
    | '+' :: rest => (true, rest)
    | '-' :: rest => (true, rest)
    | _ => (false, cs)
  let whole := (body.takeWhile isFloatChar).length ≤ (body.takeWhile isIntChar).length
  let asNumber : Reader Unit := discard number
  if !whole then asNumber cs
  else if signed then
    match integer 0x7fffffffffffffff cs with
    | .ok (_, rest) => .ok ((), rest)
    | .error _ => asNumber cs
  else
    match natural (UInt64.size - 1) cs with
    | .ok (_, rest) => .ok ((), rest)
    | .error _ => asNumber cs

/-! ### Texts -/

/-- The character of a code point, if it has one. -/
def charOf? (n : Nat) : Option Char :=
  if h : n.isValidChar then some (Char.ofNatAux n h) else none

/-- The character that one letter behind a backslash stands for. -/
def shortEscape? : Char → Option Char
  | '\'' => some '\''
  | '"' => some '"'
  | '\\' => some '\\'
  | 'n' => some '\n'
  | 'r' => some '\r'
  | 't' => some '\t'
  | '0' => some '\x00'
  | _ => none

/-- Puts a character in front of what was read. -/
def consChar (c : Char) (r : Except ReadError (List Char × List Char)) :
    Except ReadError (List Char × List Char) :=
  r.map fun (s, rest) => (c :: s, rest)

/-- The characters up to the closing quote, escapes resolved, and what follows. Within an escape
by code point its digits so far are counted and summed. -/
def quotedBody : Option (Nat × Nat) → List Char → Except ReadError (List Char × List Char)
  | none, '"' :: cs => .ok ([], cs)
  | none, '\\' :: 'u' :: '\x7b' :: cs => quotedBody (some (0, 0)) cs
  | none, '\\' :: 'x' :: a :: b :: cs =>
    match digit? a, digit? b with
    | some a, some b => consChar (Char.ofNat (16 * a + b)) (quotedBody none cs)
    | _, _ => .error (.expected "two digits")
  | none, '\\' :: c :: cs =>
    match shortEscape? c with
    | some c => consChar c (quotedBody none cs)
    | none => .error (.expected "escape")
  | none, c :: cs => consChar c (quotedBody none cs)
  | some (count, n), '\x7d' :: cs =>
    match charOf? n with
    | some c => if count = 0 then .error (.expected "digit") else consChar c (quotedBody none cs)
    | none => .error (.expected "code point")
  | some (count, n), c :: cs =>
    match digit? c with
    | some d =>
      if count < 6 then quotedBody (some (count + 1, 16 * n + d)) cs
      else .error (.expected "end of escape")
    | none => .error (.expected "digit")
  | _, [] => .error .unexpectedEnd

/-- The characters up to a quote with that many marks behind it, and what follows. -/
def rawBody (marks : Nat) : List Char → Except ReadError (List Char × List Char)
  | [] => .error .unexpectedEnd
  | c :: cs =>
    if c = '"' && (List.replicate marks '#').isPrefixOf cs then .ok ([], cs.drop marks)
    else consChar c (rawBody marks cs)

/-- A text in quotes, with escapes or without them. -/
def text : Reader String := fun cs =>
  match cs with
  | '"' :: cs => (quotedBody none cs).map fun (s, rest) => (String.ofList s, rest)
  | 'r' :: cs =>
    match cs.dropWhile (· == '#') with
    | '"' :: rest =>
      (rawBody (cs.takeWhile (· == '#')).length rest).map fun (s, rest) => (String.ofList s, rest)
    | _ => .error (.expected "text")
  | _ => .error (.expected "text")

/-- A single character in quotes, which is not looked at. -/
def anyChar : Reader Unit := fun cs =>
  match cs with
  | '\'' :: '\\' :: 'x' :: a :: b :: '\'' :: rest =>
    if (digit? a).isSome && (digit? b).isSome then .ok ((), rest)
    else .error (.expected "two digits")
  | '\'' :: '\\' :: 'u' :: '\x7b' :: rest =>
    let digits := rest.takeWhile fun c => (digit? c).isSome
    let value := digits.foldl (fun n c => 16 * n + (digit? c).getD 0) 0
    match rest.dropWhile fun c => (digit? c).isSome with
    | '\x7d' :: '\'' :: rest =>
      if 0 < digits.length && digits.length ≤ 6 && (charOf? value).isSome then .ok ((), rest)
      else .error (.expected "code point")
    | _ => .error (.expected "end of escape")
  | '\'' :: '\\' :: c :: '\'' :: rest =>
    if (shortEscape? c).isSome then .ok ((), rest) else .error (.expected "escape")
  | '\'' :: c :: '\'' :: rest =>
    if c = '\'' || c = '\\' then .error (.expected "character") else .ok ((), rest)
  | _ => .error (.expected "character")

/-! ### Runs -/

/-- A clock for what takes a character off the text at every step: it has a character for each
that is left, and one more. -/
def clock : Reader (List Char) := fun cs => .ok (' ' :: cs, cs)

/-- Reads items with commas between them up to a closing bracket, which stays; the last one may
have a comma too. Each step passes what was read so far on. There are no more items than the clock
has characters. -/
def runFrom {σ : Type} (close : Char) (step : σ → Reader σ) : List Char → σ → Reader σ
  | [], _ => throw (.expected (toString close))
  | _ :: rest, s => do
    blanks
    if (← peek) = close then return s
    let s ← step s
    if ← comma then runFrom close step rest s else return s

/-- Reads a run of items and the closing bracket. Every item but the last takes a comma off the
text. -/
def run {σ : Type} (close : Char) (step : σ → Reader σ) (s : σ) : Reader σ := do
  let s ← runFrom close step (← clock) s
  blanks
  expect close
  return s

end Reader

end Storyline.Ron
