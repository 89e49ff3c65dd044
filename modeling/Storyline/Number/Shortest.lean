import Storyline.Number.Nearest

/-!
The decimal text of a number: the fewest digits that read back as the number, of those the ones
nearest to it, a tie going away from zero, written without an exponent.

Every finite binary64 number is a whole multiple of `10 ^ -1100`, so all of it is done on natural
numbers counted in that unit.
-/

namespace Storyline.Number

/-- Decimal places of the unit in which magnitudes are counted. -/
def places : Nat := 1100

/-- Units in a quarter of `2 ^ (scale - 1074)`. -/
def quarter (x : Number) : Nat := Nat.pow 2 x.scale * Nat.pow 10 places / Nat.pow 2 1076

/-- The magnitude of a finite number in units. -/
def units (x : Number) : Nat := 4 * x.significand * x.quarter

/-- The magnitudes that read back as a number, in units: those from `lowest` to `highest`, the ends
among them iff `closed`. -/
structure Spread where
  value : Nat
  lowest : Nat
  highest : Nat
  closed : Bool
deriving DecidableEq, Repr

/-- The spread of a finite number: half a step to either side, or a quarter down where the steps
below are half as wide. The ends read back as the number iff its significand is even. -/
def spread (x : Number) : Spread :=
  let quarter := x.quarter
  let value := 4 * x.significand * quarter
  { value
    lowest :=
      if x.significand = hiddenBit ∧ 0 < x.scale then value - quarter else value - 2 * quarter
    highest := value + 2 * quarter
    closed := x.significand % 2 = 0 }

namespace Spread

/-- The magnitude `n` reads back as the number. -/
def holds (s : Spread) (n : Nat) : Bool :=
  if s.closed then s.lowest ≤ n && n ≤ s.highest else s.lowest < n && n < s.highest

/-- The multiple of `step` next to the number that reads back as it, the nearer one if both
neighbours do, the upper one of two equally near. -/
def onGrid? (s : Spread) (step : Nat) : Option Nat :=
  let below := s.value / step * step
  let above := below + step
  match s.holds below, s.holds above with
  | true, true => some (if s.value - below < above - s.value then below else above)
  | true, false => some below
  | false, true => some above
  | false, false => none

/-- The shortest decimal, trying `n` more digit counts, the next of them the one with the grid
`step`. -/
def shortestFrom (s : Spread) : Nat → Nat → Nat
  | 0, _ => s.value
  | n + 1, step => (s.onGrid? step).getD (shortestFrom s n (step / 10))

/-- The shortest decimal that reads back as a number other than zero; 17 digits are enough. -/
def shortest (s : Spread) : Nat :=
  s.shortestFrom 17 (Nat.pow 10 (decimalLength s.value - 1))

end Spread

/-- The text of a count of units: whole part, and a fraction where there is one. -/
def unitsText (n : Nat) : String :=
  let whole := String.ofList (decimalDigits (n / Nat.pow 10 places))
  let part := n % Nat.pow 10 places
  if part = 0 then whole
  else
    let digits := decimalDigits part
    let padded := List.replicate (places - digits.length) '0' ++ digits
    whole ++ "." ++ String.ofList (padded.reverse.dropWhile (· == '0')).reverse

/-- The decimal text of a number. -/
def text (x : Number) : String :=
  if x.isNaN then "NaN"
  else
    let body :=
      if x.isInfinite then "inf" else if x.isZero then "0" else unitsText x.spread.shortest
    if x.isNegative then "-" ++ body else body

/-- A finite number without a fraction. -/
def isWhole (x : Number) : Bool :=
  x.magnitude < infinity.magnitude && x.units % Nat.pow 10 places == 0

end Storyline.Number
