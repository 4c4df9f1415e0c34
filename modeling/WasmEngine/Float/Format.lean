/-!
# Binary floating-point formats

A format is given by the widths of its fraction and exponent fields; its words are natural numbers
below `2 ^ width`. `decode` reads a word as a `Datum`: not a number, an infinity, or a sign together
with a value `significand * 2 ^ exponent`. In the other direction `round` takes a sign and an exact
non-negative ratio and returns the word of the nearest representable value, a tie going to the even
neighbour.

All arithmetic goes through these two functions: decode, compute exactly, round once.
-/

namespace WasmEngine

/-- The widths of the fields of a binary interchange format. -/
structure FloatFormat where
  fractionBits : Nat
  exponentBits : Nat
  deriving DecidableEq, Repr

/-- What a word stands for. -/
inductive Datum where
  | nan
  | infinite (negative : Bool)
  | finite (negative : Bool) (significand : Nat) (exponent : Int)
  deriving DecidableEq, Repr

namespace FloatFormat

/-- Single precision. -/
def single : FloatFormat := ⟨23, 8⟩

/-- Double precision. -/
def double : FloatFormat := ⟨52, 11⟩

/-- The width of a word. -/
def width (f : FloatFormat) : Nat := 1 + f.exponentBits + f.fractionBits

/-- The weight of the sign bit. -/
def signWeight (f : FloatFormat) : Nat := Nat.pow 2 (f.exponentBits + f.fractionBits)

/-- The weight of the lowest exponent bit. -/
def exponentWeight (f : FloatFormat) : Nat := Nat.pow 2 f.fractionBits

/-- The exponent field of infinities and of what is not a number. -/
def exponentMask (f : FloatFormat) : Nat := Nat.pow 2 f.exponentBits - 1

/-- The distance between exponent fields and exponents. -/
def bias (f : FloatFormat) : Nat := Nat.pow 2 (f.exponentBits - 1) - 1

/-- The exponent of the smallest positive value. -/
def minExponent (f : FloatFormat) : Int := 1 - (f.bias : Int) - f.fractionBits

/-- The word of positive infinity, which is also the bound of the finite magnitudes. -/
def infinity (f : FloatFormat) : Nat := f.exponentMask * f.exponentWeight

/-- The canonical word for what is not a number: positive, with only the top fraction bit set. -/
def canonicalNaN (f : FloatFormat) : Nat := f.infinity + f.exponentWeight / 2

/-- The weight of a sign. -/
def sign (f : FloatFormat) (negative : Bool) : Nat :=
  if negative then f.signWeight else 0

/-- A word without its sign bit. -/
def magnitude (f : FloatFormat) (word : Nat) : Nat := word % f.signWeight

/-- Whether the sign bit is set. -/
def isNegative (f : FloatFormat) (word : Nat) : Bool := f.signWeight ≤ word % (2 * f.signWeight)

/-- What a word stands for. -/
def decode (f : FloatFormat) (word : Nat) : Datum :=
  let negative := f.isNegative word
  let exponent := f.magnitude word / f.exponentWeight
  let fraction := word % f.exponentWeight
  if exponent = f.exponentMask then
    if fraction = 0 then .infinite negative else .nan
  else if exponent = 0 then .finite negative fraction f.minExponent
  else .finite negative (f.exponentWeight + fraction) (f.minExponent + (exponent - 1 : Nat))

end FloatFormat

/-- `n * 2 ^ e` as a ratio. -/
def scaleRatio (n : Nat) (e : Int) : Nat × Nat :=
  (n * Nat.pow 2 e.toNat, Nat.pow 2 (-e).toNat)

/-- The natural number nearest to a ratio, a tie going to the even neighbour. -/
def roundHalfEven (num den : Nat) : Nat :=
  let q := num / den
  let r := num % den
  if 2 * r < den then q
  else if den < 2 * r then q + 1
  else if q % 2 = 0 then q else q + 1

/-- The largest `e` with `2 ^ e ≤ num / den`, for positive `num` and `den`. -/
def ratioLog2 (num den : Nat) : Int :=
  let e : Int := (num.log2 : Int) - den.log2
  if den * Nat.pow 2 e.toNat ≤ num * Nat.pow 2 (-e).toNat then e else e - 1

namespace FloatFormat

/-- The exponent of the last place kept of a positive ratio. -/
def lastPlace (f : FloatFormat) (num den : Nat) : Int :=
  max f.minExponent (ratioLog2 num den - f.fractionBits)

/-- The word nearest to a signed ratio. The exponent field is written one short, so that the leading
bit of a normal significand, or of one that rounding has carried over, brings it up. -/
def round (f : FloatFormat) (negative : Bool) (num den : Nat) : Nat :=
  if num = 0 then f.sign negative
  else
    let e := f.lastPlace num den
    let significand := roundHalfEven (num * Nat.pow 2 (-e).toNat) (den * Nat.pow 2 e.toNat)
    let magnitude := (e - f.minExponent).toNat * f.exponentWeight + significand
    f.sign negative + min magnitude f.infinity

/-- The word nearest to a datum. -/
def encode (f : FloatFormat) : Datum → Nat
  | .nan => f.canonicalNaN
  | .infinite negative => f.sign negative + f.infinity
  | .finite negative significand exponent =>
    let (num, den) := scaleRatio significand exponent
    f.round negative num den

/-- The word nearest to an integer. -/
def ofInt (f : FloatFormat) (n : Int) : Nat :=
  f.round (n < 0) n.natAbs 1

end FloatFormat

end WasmEngine
