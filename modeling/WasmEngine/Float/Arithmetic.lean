import WasmEngine.Float.Format

/-!
# Floating-point operations

The operations of the WebAssembly float instructions, on the words of any `FloatFormat`. Arithmetic is
exact on the decoded values and rounds once; whatever is not a number comes out as the canonical
word. The sign operations `abs`, `neg` and `copysign` touch the sign bit only.
-/

namespace WasmEngine

namespace Datum

/-- Whether the sign is negative. What is not a number counts as positive. -/
def isNegative : Datum → Bool
  | nan => false
  | infinite s => s
  | finite s _ _ => s

/-- The opposite value. -/
def neg : Datum → Datum
  | nan => nan
  | infinite s => infinite !s
  | finite s m e => finite (!s) m e

/-- A signed significand. -/
def signed (negative : Bool) (significand : Nat) : Int :=
  if negative then -(significand : Int) else significand

/-- Two finite values over their common exponent. -/
def aligned (s₁ : Bool) (m₁ : Nat) (e₁ : Int) (s₂ : Bool) (m₂ : Nat) (e₂ : Int) : Int × Int × Int :=
  let e := min e₁ e₂
  (signed s₁ (m₁ * Nat.pow 2 (e₁ - e).toNat), signed s₂ (m₂ * Nat.pow 2 (e₂ - e).toNat), e)

/-- The exact sum. A sum of zero is negative only if both operands are. -/
def add : Datum → Datum → Datum
  | nan, _ => nan
  | _, nan => nan
  | infinite s₁, infinite s₂ => if s₁ = s₂ then infinite s₁ else nan
  | infinite s₁, finite .. => infinite s₁
  | finite .., infinite s₂ => infinite s₂
  | finite s₁ m₁ e₁, finite s₂ m₂ e₂ =>
    let (a, b, e) := aligned s₁ m₁ e₁ s₂ m₂ e₂
    let sum := a + b
    if sum = 0 then finite (s₁ && s₂) 0 e else finite (sum < 0) sum.natAbs e

/-- The exact product. -/
def mul : Datum → Datum → Datum
  | nan, _ => nan
  | _, nan => nan
  | infinite s₁, infinite s₂ => infinite (s₁ != s₂)
  | infinite s₁, finite s₂ m₂ _ => if m₂ = 0 then nan else infinite (s₁ != s₂)
  | finite s₁ m₁ _, infinite s₂ => if m₁ = 0 then nan else infinite (s₁ != s₂)
  | finite s₁ m₁ e₁, finite s₂ m₂ e₂ => finite (s₁ != s₂) (m₁ * m₂) (e₁ + e₂)

/-- The order of two values, if both are numbers. The two zeros are equal. -/
def compare? : Datum → Datum → Option Ordering
  | nan, _ => none
  | _, nan => none
  | infinite s₁, infinite s₂ =>
    some (if s₁ = s₂ then .eq else if s₁ then .lt else .gt)
  | infinite s₁, finite .. => some (if s₁ then .lt else .gt)
  | finite .., infinite s₂ => some (if s₂ then .gt else .lt)
  | finite s₁ m₁ e₁, finite s₂ m₂ e₂ =>
    let (a, b, _) := aligned s₁ m₁ e₁ s₂ m₂ e₂
    some (compare a b)

end Datum

/-- The square root of a natural number, rounded down. -/
def sqrtFloor (n : Nat) : Nat :=
  if n = 0 then 0
  else
    let r := 2 * sqrtFloor (n / 4)
    if (r + 1) * (r + 1) ≤ n then r + 1 else r
termination_by n

/-- The ways of rounding to an integer. -/
inductive IntegerRounding where
  | up
  | down
  | toZero
  | halfEven
  deriving DecidableEq, Repr

/-- Round `± m / 2 ^ k` to the magnitude of an integer. -/
def IntegerRounding.apply (mode : IntegerRounding) (negative : Bool) (m k : Nat) : Nat :=
  let q := m / Nat.pow 2 k
  let inexact := m % Nat.pow 2 k ≠ 0
  match mode with
  | up => if inexact && !negative then q + 1 else q
  | down => if inexact && negative then q + 1 else q
  | toZero => q
  | halfEven => roundHalfEven m (Nat.pow 2 k)

namespace FloatFormat

/-- The sum. -/
def add (f : FloatFormat) (a b : Nat) : Nat :=
  f.encode ((f.decode a).add (f.decode b))

/-- The difference. -/
def sub (f : FloatFormat) (a b : Nat) : Nat :=
  f.encode ((f.decode a).add (f.decode b).neg)

/-- The product. -/
def mul (f : FloatFormat) (a b : Nat) : Nat :=
  f.encode ((f.decode a).mul (f.decode b))

/-- The quotient. A number other than zero divided by zero is infinite. -/
def div (f : FloatFormat) (a b : Nat) : Nat :=
  match f.decode a, f.decode b with
  | .nan, _ | _, .nan => f.canonicalNaN
  | .infinite _, .infinite _ => f.canonicalNaN
  | .infinite s₁, .finite s₂ _ _ => f.encode (.infinite (s₁ != s₂))
  | .finite s₁ _ _, .infinite s₂ => f.sign (s₁ != s₂)
  | .finite s₁ m₁ e₁, .finite s₂ m₂ e₂ =>
    if m₂ = 0 then
      if m₁ = 0 then f.canonicalNaN else f.encode (.infinite (s₁ != s₂))
    else
      let (num, den) := scaleRatio m₁ (e₁ - e₂)
      f.round (s₁ != s₂) num (den * m₂)

/-- The square root. Enough places of the root are taken that a last one, set if the root is not
exact, stands for all that follow. -/
def sqrt (f : FloatFormat) (a : Nat) : Nat :=
  match f.decode a with
  | .nan => f.canonicalNaN
  | .infinite s => if s then f.canonicalNaN else f.infinity
  | .finite s m e =>
    if m = 0 then f.sign s
    else if s then f.canonicalNaN
    else
      let m' := if e % 2 = 0 then m else 2 * m
      let e' := if e % 2 = 0 then e else e - 1
      let places := f.fractionBits + 3
      let square := m' * Nat.pow 2 (2 * places)
      let root := sqrtFloor square
      let sticky := if root * root = square then 0 else 1
      let (num, den) := scaleRatio (2 * root + sticky) (e' / 2 - places - 1)
      f.round false num den

/-- Round to an integer. The sign survives, also that of zero. -/
def roundToInteger (f : FloatFormat) (mode : IntegerRounding) (a : Nat) : Nat :=
  match f.decode a with
  | .nan => f.canonicalNaN
  | .infinite s => f.encode (.infinite s)
  | .finite s m e =>
    if 0 ≤ e then f.encode (.finite s m e)
    else f.round s (mode.apply s m (-e).toNat) 1

/-- The smaller of two numbers; negative zero is below zero. -/
def min (f : FloatFormat) (a b : Nat) : Nat :=
  match (f.decode a).compare? (f.decode b) with
  | none => f.canonicalNaN
  | some .lt => a
  | some .eq => if f.isNegative a then a else b
  | some .gt => b

/-- The larger of two numbers; negative zero is below zero. -/
def max (f : FloatFormat) (a b : Nat) : Nat :=
  match (f.decode a).compare? (f.decode b) with
  | none => f.canonicalNaN
  | some .gt => a
  | some .eq => if f.isNegative a then b else a
  | some .lt => b

/-- Clear the sign bit. -/
def abs (f : FloatFormat) (a : Nat) : Nat :=
  f.magnitude a

/-- Flip the sign bit. -/
def neg (f : FloatFormat) (a : Nat) : Nat :=
  f.sign (!f.isNegative a) + f.magnitude a

/-- The magnitude of the first word with the sign of the second. -/
def copysign (f : FloatFormat) (a b : Nat) : Nat :=
  f.sign (f.isNegative b) + f.magnitude a

/-- Convert a word of one format to the nearest word of another. -/
def convert (source target : FloatFormat) (a : Nat) : Nat :=
  target.encode (source.decode a)

end FloatFormat

/-! ### Integers out of floats -/

/-- The value of a word rounded toward zero, if it is a number and finite. -/
inductive Truncation where
  | nan
  | infinite (negative : Bool)
  | integer (value : Int)
  deriving DecidableEq, Repr

/-- Drop the fraction of a value. -/
def Datum.truncate : Datum → Truncation
  | nan => .nan
  | infinite s => .infinite s
  | finite s m e => .integer (signed s (m * Nat.pow 2 e.toNat / Nat.pow 2 (-e).toNat))

end WasmEngine
