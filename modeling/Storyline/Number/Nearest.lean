import Storyline.Number
import Storyline.Number.Digits

/-!
The binary64 number nearest to a decimal. Among two equally near the one with an even significand
is taken, magnitudes past the largest finite number become infinite, and those that round to
nothing become zero. All arithmetic is exact.
-/

namespace Storyline.Number

/-- The number of bits of a natural number. -/
def bitLength (n : Nat) : Nat := if n = 0 then 0 else n.log2 + 1

/-- `num / den` rounded to a natural number, a half going to the even neighbour. -/
def roundEven (num den : Nat) : Nat :=
  let floor := num / den
  let rest := 2 * (num % den)
  if rest < den then floor
  else if den < rest then floor + 1
  else floor + floor % 2

/-- `floor (num / den · 2 ^ 1074 / 2 ^ s)`, for the scale `s`. -/
def floorAt (num den s : Nat) : Nat := num * Nat.pow 2 1074 / (den * Nat.pow 2 s)

/-- The scale at which `num / den` has a significand of 53 bits, or the least one. -/
def scaleFor (num den : Nat) : Nat :=
  let guess := bitLength num + 1074 - bitLength den - 53
  if 2 * hiddenBit ≤ floorAt num den guess then guess + 1 else guess

/-- The positive number nearest to `num / den`. A significand that rounds up to `2 ^ 53` carries
into the exponent field by plain addition. -/
def ofRatio (num den : Nat) : Number :=
  let s := scaleFor num den
  let word := s * hiddenBit + roundEven (num * Nat.pow 2 1074) (den * Nat.pow 2 s)
  if infinity.magnitude ≤ word then infinity else ⟨word.toUInt64⟩

/-- The positive number nearest to `digits · 10 ^ exponent`. Magnitudes outside all finite
numbers are settled by their count of digits. -/
def ofDigits (digits : Nat) (exponent : Int) : Number :=
  if digits = 0 then zero
  else
    let size := (decimalLength digits : Int) + exponent
    if 310 < size then infinity
    else if size < -330 then zero
    else if 0 ≤ exponent then ofRatio (digits * Nat.pow 10 exponent.toNat) 1
    else ofRatio digits (Nat.pow 10 (-exponent).toNat)

/-- The number nearest to `± digits · 10 ^ exponent`. -/
def ofDecimal (negative : Bool) (digits : Nat) (exponent : Int) : Number :=
  if negative then (ofDigits digits exponent).neg else ofDigits digits exponent

/-- The value of a run of decimal digits. -/
def digitsValue (cs : List Char) : Nat :=
  cs.foldl (fun n c => 10 * n + (c.toNat - '0'.toNat)) 0

/-- The sign in front of a numeral, and what follows. -/
def splitSign : List Char → Bool × List Char
  | '-' :: cs => (true, cs)
  | '+' :: cs => (false, cs)
  | cs => (false, cs)

/-- The exponent part of a numeral: nothing, or `e`, a sign and at least one digit. -/
def exponentPart : List Char → Option Int
  | [] => some 0
  | c :: cs =>
    if c = 'e' || c = 'E' then
      let (negative, digits) := splitSign cs
      if digits.isEmpty || !digits.all Char.isDigit then none
      else some (if negative then -(digitsValue digits : Int) else digitsValue digits)
    else none

/-- The number a decimal numeral stands for: a sign, digits with at most one point among them and
at least one digit, and an exponent part. -/
def ofNumeral? (text : List Char) : Option Number :=
  let (negative, body) := splitSign text
  let whole := body.takeWhile Char.isDigit
  let rest := body.dropWhile Char.isDigit
  let (fraction, tail) := match rest with
    | '.' :: r => (r.takeWhile Char.isDigit, r.dropWhile Char.isDigit)
    | r => ([], r)
  if whole.isEmpty && fraction.isEmpty then none
  else (exponentPart tail).map fun e =>
    ofDecimal negative (digitsValue (whole ++ fraction)) (e - fraction.length)

/-- The number of an integer. -/
def ofInt (n : Int) : Number := ofDecimal (n < 0) n.natAbs 0

end Storyline.Number
