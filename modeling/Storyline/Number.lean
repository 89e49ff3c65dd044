/-!
Numbers as the words of the binary64 format. Equality of words tells `0` from `-0` and makes a
NaN equal to itself; `same` is the numeric comparison. A finite word stands for
`± significand · 2 ^ exponent`.
-/

namespace Storyline

/-- A binary64 number, given by its word. -/
structure Number where
  bits : UInt64
deriving DecidableEq, Repr

namespace Number

instance : Inhabited Number := ⟨⟨0⟩⟩

/-- The number of a machine float. -/
def ofFloat (x : Float) : Number := ⟨x.toBits⟩

/-- The machine float of a number. -/
def toFloat (x : Number) : Float := Float.ofBits x.bits

def zero : Number := ⟨0⟩
def one : Number := ⟨0x3ff0000000000000⟩
def infinity : Number := ⟨0x7ff0000000000000⟩
def nan : Number := ⟨0x7ff8000000000000⟩

/-- The sign bit of a word, `2 ^ 63`. -/
def signBit : Nat := 0x8000000000000000

/-- The first bit past the significand field of a word, `2 ^ 52`. -/
def hiddenBit : Nat := 0x10000000000000

/-- The word without its sign bit. -/
def magnitude (x : Number) : Nat := x.bits.toNat % signBit

/-- The sign bit is set. -/
def isNegative (x : Number) : Bool := signBit ≤ x.bits.toNat

def isNaN (x : Number) : Bool := infinity.magnitude < x.magnitude
def isInfinite (x : Number) : Bool := x.magnitude == infinity.magnitude
def isZero (x : Number) : Bool := x.magnitude == 0

/-- The machine's sum. -/
def add (x y : Number) : Number := ofFloat (x.toFloat + y.toFloat)

/-- Flips the sign bit. -/
def neg (x : Number) : Number := ⟨x.bits ^^^ 0x8000000000000000⟩

/-- The significand of a finite number, a natural number below `2 ^ 53`. -/
def significand (x : Number) : Nat :=
  if x.magnitude < hiddenBit then x.magnitude else hiddenBit + x.magnitude % hiddenBit

/-- The exponent of a finite number, shifted up by 1074 so that it is a natural number. -/
def scale (x : Number) : Nat := x.magnitude / hiddenBit - 1

/-- Numeric equality: a NaN equals nothing and the two zeros are equal. -/
def same (x y : Number) : Bool :=
  !x.isNaN && !y.isNaN && (x.bits == y.bits || (x.isZero && y.isZero))

/-- Between `0` and `1`, both included. Words of positive numbers are ordered as the numbers
are, so the words up to that of `1` are those of `0 ≤ x ≤ 1`; the other zero is added. -/
def inUnit (x : Number) : Bool := x.isZero || x.bits ≤ one.bits

end Number

end Storyline
