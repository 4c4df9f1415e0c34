import WasmEngine.Float.Format

/-!
# Decimal texts of floats

Writing takes the fewest digits that read back as the same word, and of those the ones nearest to the
value (`FloatFormat.shortest`); they are set out without an exponent, and an integer without a
point. Reading accepts digits with an optional point and exponent, the infinities and `nan`, and rounds
the exact decimal once.
-/

namespace WasmEngine

/-- The decimal number `digits * 10 ^ exponent`. -/
structure Decimal where
  digits : Nat
  exponent : Int
  deriving DecidableEq, Repr

/-- How many decimal digits a number has; zero has one. -/
def decimalLength (n : Nat) : Nat :=
  (Nat.toDigits 10 n).length

/-- The largest `p` with `10 ^ p ≤ num / den`, for positive `num` and `den`. -/
def ratioLog10 (num den : Nat) : Int :=
  if den ≤ num then (decimalLength (num / den) : Int) - 1
  else
    let length := decimalLength (den / num)
    if den ≤ num * Nat.pow 10 (length - 1) then 1 - (length : Int) else -(length : Int)

/-- Whether a decimal lies between two ratios of the same denominator, ends included if `closed`. -/
def Decimal.isBetween (d : Decimal) (low high den : Nat) (closed : Bool) : Bool :=
  let value := d.digits * Nat.pow 10 d.exponent.toNat * den
  let scale := Nat.pow 10 (-d.exponent).toNat
  if closed then low * scale ≤ value && value ≤ high * scale
  else low * scale < value && value < high * scale

/-- Of the two neighbours of `value / den` among the multiples of `10 ^ exponent`, the one that lies
between the bounds; of two the nearer, and of two equally near the larger. -/
def Decimal.onGrid? (low value high den : Nat) (closed : Bool) (exponent : Int) : Option Decimal :=
  let num := value * Nat.pow 10 (-exponent).toNat
  let unit := den * Nat.pow 10 exponent.toNat
  let below : Decimal := ⟨num / unit, exponent⟩
  let above : Decimal := ⟨num / unit + 1, exponent⟩
  let roundUp := unit ≤ 2 * (num % unit)
  match below.isBetween low high den closed, above.isBetween low high den closed with
  | true, true => some (if roundUp then above else below)
  | true, false => some below
  | false, true => some above
  | false, false => none

namespace FloatFormat

/-- The shortest decimal that reads back as `significand * 2 ^ exponent`. The numbers that do lie half
way to the neighbours on both sides; below a power of two the neighbour is half as far away. -/
def shortest (f : FloatFormat) (significand : Nat) (exponent : Int) : Decimal :=
  let (num, den) := scaleRatio 1 (exponent - 2)
  let value := 4 * significand * num
  let low := (4 * significand - if significand = f.exponentWeight then 1 else 2) * num
  let high := (4 * significand + 2) * num
  let closed := significand % 2 = 0
  let leading := ratioLog10 value den
  let lengths := List.range (f.fractionBits + 1)
  (lengths.findSome? fun (n : Nat) => Decimal.onGrid? low value high den closed (leading - n)).getD
    ⟨0, 0⟩

end FloatFormat

/-- Drop zeros at the end of the digits. -/
def Decimal.trim (d : Decimal) : Decimal :=
  let kept := (Nat.toDigits 10 d.digits).reverse.dropWhile (· = '0')
  let dropped := decimalLength d.digits - kept.length
  ⟨d.digits / Nat.pow 10 dropped, d.exponent + dropped⟩

/-- A decimal set out without an exponent. -/
def Decimal.positional (d : Decimal) : String :=
  let digits := Nat.toDigits 10 d.digits
  if 0 ≤ d.exponent then
    String.ofList (digits ++ List.replicate d.exponent.toNat '0')
  else
    let places := (-d.exponent).toNat
    let padded := List.replicate (places + 1 - digits.length) '0' ++ digits
    let whole := padded.length - places
    String.ofList (padded.take whole ++ '.' :: padded.drop whole)

/-- The text of a word. -/
def FloatFormat.text (f : FloatFormat) (word : Nat) : String :=
  match f.decode word with
  | .nan => "NaN"
  | .infinite s => if s then "-inf" else "inf"
  | .finite s m e =>
    let digits := if m = 0 then "0" else (f.shortest m e).trim.positional
    if s then "-" ++ digits else digits

/-! ### Reading -/

namespace Decimal

/-- The value of decimal digits. -/
def ofDigits (cs : List Char) : Nat :=
  cs.foldl (fun n c => 10 * n + (c.toNat - '0'.toNat)) 0

/-- Digits, the mark of an exponent apart: a whole part, and behind a point a fraction. At least one of
them has a digit. -/
def mantissa? (cs : List Char) : Option Decimal :=
  let whole := cs.takeWhile Char.isDigit
  match cs.dropWhile Char.isDigit with
  | [] => if whole.isEmpty then none else some ⟨ofDigits whole, 0⟩
  | c :: fraction =>
    if c = '.' && fraction.all Char.isDigit && !(whole.isEmpty && fraction.isEmpty) then
      some ⟨ofDigits (whole ++ fraction), -(fraction.length : Int)⟩
    else none

/-- An exponent: an optional sign and at least one digit. -/
def exponent? (cs : List Char) : Option Int :=
  let value? (digits : List Char) : Option Nat :=
    if digits.isEmpty || !digits.all Char.isDigit then none else some (ofDigits digits)
  match cs with
  | '-' :: digits => (value? digits).map fun n => -(n : Int)
  | '+' :: digits => (value? digits).map Int.ofNat
  | digits => (value? digits).map Int.ofNat

/-- A decimal with an optional exponent. -/
def ofChars? (cs : List Char) : Option Decimal :=
  let isMark (c : Char) := c = 'e' || c = 'E'
  match cs.dropWhile (!isMark ·) with
  | [] => mantissa? cs
  | _ :: exponent => do
    let m ← mantissa? (cs.takeWhile (!isMark ·))
    let e ← exponent? exponent
    return ⟨m.digits, m.exponent + e⟩

end Decimal

namespace FloatFormat

/-- Beyond these powers of ten every format of up to eleven exponent bits overflows, or has no value
but zero. -/
def maxDecimalExponent : Int := 400

/-- The word nearest to a decimal. -/
def ofDecimal (f : FloatFormat) (negative : Bool) (d : Decimal) : Nat :=
  let magnitude := d.exponent + decimalLength d.digits
  if d.digits = 0 || magnitude < -maxDecimalExponent then f.sign negative
  else if maxDecimalExponent < magnitude then f.encode (.infinite negative)
  else f.round negative (d.digits * Nat.pow 10 d.exponent.toNat)
    (Nat.pow 10 (-d.exponent).toNat)

/-- The word a text stands for: an optional sign, then a decimal, an infinity or `nan`, in letters of
either case. -/
def ofText? (f : FloatFormat) (s : String) : Option Nat :=
  let (negative, cs) := match s.toList with
    | '-' :: cs => (true, cs)
    | '+' :: cs => (false, cs)
    | cs => (false, cs)
  match Decimal.ofChars? cs with
  | some d => some (f.ofDecimal negative d)
  | none =>
    let word := String.ofList (cs.map Char.toLower)
    if word = "inf" || word = "infinity" then some (f.encode (.infinite negative))
    else if word = "nan" then some (f.sign negative + f.canonicalNaN)
    else none

end FloatFormat

end WasmEngine
