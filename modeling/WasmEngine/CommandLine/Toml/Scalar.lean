import WasmEngine.CommandLine.Toml.Reader
import WasmEngine.Float.Decimal
import WasmEngine.Text.Hexadecimal

/-!
# Numbers, truth values and dates of TOML

Each is a word without blanks in it, apart from the one that can stand between a date and a time. Integers have 64
bits and a sign. Of floats and dates it only matters that they are well formed, since no setting is one.
-/

namespace WasmEngine.CommandLine.Toml

/-! ### Integers -/

/-- Split at every mark. -/
def splitAt (mark : Char) : List Char → List (List Char)
  | [] => [[]]
  | c :: rest =>
    if c = mark then [] :: splitAt mark rest
    else match splitAt mark rest with
      | first :: others => (c :: first) :: others
      | [] => [[c]]

/-- Digits of a base, with single underscores between them. -/
def digits? (base : Nat) (cs : List Char) : Option Nat :=
  let groups := splitAt '_' cs
  if groups.any List.isEmpty then none
  else groups.flatten.foldlM (fun n c => (hexDigit? c).bind fun d =>
    if d < base then some (n * base + d) else none) 0

/-- A number in base ten, which starts with a zero only if that is all. -/
def decimal? (cs : List Char) : Option Nat :=
  if cs.head? = some '0' && cs.length ≠ 1 then none else digits? 10 cs

/-- A sign, if there is one, and what follows it. -/
def signed : List Char → Option Char × List Char
  | '+' :: rest => (some '+', rest)
  | '-' :: rest => (some '-', rest)
  | rest => (none, rest)

/-- An integer of 64 bits. A sign can only stand before a number in base ten. -/
def integer? (cs : List Char) : Option Int := do
  let n ← match cs with
    | '0' :: 'x' :: rest => (digits? 16 rest).map Int.ofNat
    | '0' :: 'o' :: rest => (digits? 8 rest).map Int.ofNat
    | '0' :: 'b' :: rest => (digits? 2 rest).map Int.ofNat
    | _ =>
      let (sign, rest) := signed cs
      (decimal? rest).map fun n => if sign = some '-' then -(n : Int) else n
  if -0x8000000000000000 ≤ n ∧ n < 0x8000000000000000 then some n else none

/-! ### Floats -/

/-- The exponent of a float, behind its mark. -/
def isExponent (cs : List Char) : Bool := (digits? 10 (signed cs).2).isSome

/-- A float with a fraction, an exponent or both. It must not be beyond all positive doubles. -/
def isFiniteFloat (cs : List Char) : Bool :=
  let isMark (c : Char) := c = 'e' || c = 'E'
  let mantissa := cs.takeWhile (!isMark ·)
  let exponent := cs.drop (mantissa.length + 1)
  let marked := mantissa.length < cs.length
  let whole := mantissa.takeWhile (· ≠ '.')
  let fraction := mantissa.drop (whole.length + 1)
  let pointed := whole.length < mantissa.length
  (decimal? (signed whole).2).isSome && (marked || pointed) &&
    (!pointed || (digits? 10 fraction).isSome) && (!marked || isExponent exponent) &&
    FloatFormat.double.ofText? (String.ofList (cs.filter (· ≠ '_'))) ≠
      some (FloatFormat.double.encode (.infinite false))

/-- A float. -/
def isFloat (cs : List Char) : Bool :=
  let (_, word) := signed cs
  word = "inf".toList || word = "nan".toList || isFiniteFloat cs

/-! ### Dates and times -/

/-- Two digits whose number lies in a range. -/
def isBetween (low high : Nat) (tens ones : Char) : Bool :=
  let n := 10 * (tens.toNat - '0'.toNat) + (ones.toNat - '0'.toNat)
  tens.isDigit && ones.isDigit && low ≤ n && n ≤ high

/-- The number of days of a month. -/
def daysOf (year month : Nat) : Nat :=
  if month = 2 then
    if year % 4 = 0 && (year % 100 ≠ 0 || year % 400 = 0) then 29 else 28
  else if month = 4 || month = 6 || month = 9 || month = 11 then 30
  else 31

/-- A day of the calendar, as in `1970-01-31`. -/
def isDate : List Char → Bool
  | [y₁, y₂, y₃, y₄, '-', m₁, m₂, '-', d₁, d₂] =>
    [y₁, y₂, y₃, y₄].all Char.isDigit && isBetween 1 12 m₁ m₂ &&
      isBetween 1 (daysOf (Decimal.ofDigits [y₁, y₂, y₃, y₄]) (Decimal.ofDigits [m₁, m₂])) d₁ d₂
  | _ => false

/-- What follows a time of the day, as in `23:59:60.25`. -/
def afterTime? : List Char → Option (List Char)
  | h₁ :: h₂ :: ':' :: m₁ :: m₂ :: ':' :: s₁ :: s₂ :: rest =>
    if isBetween 0 23 h₁ h₂ && isBetween 0 59 m₁ m₂ && isBetween 0 60 s₁ s₂ then
      match rest with
      | '.' :: fraction =>
        if (fraction.takeWhile Char.isDigit).isEmpty then none
        else some (fraction.dropWhile Char.isDigit)
      | _ => some rest
    else none
  | _ => none

/-- The distance from universal time, which may be left out. -/
def isOffset : List Char → Bool
  | [] | ['Z'] | ['z'] => true
  | [sign, h₁, h₂, ':', m₁, m₂] =>
    (sign = '+' || sign = '-') && isBetween 0 23 h₁ h₂ && isBetween 0 59 m₁ m₂
  | _ => false

/-- A time of a known day. -/
def isTimeOfDate (cs : List Char) : Bool := (afterTime? cs).any isOffset

/-- A time of any day, or a date with a time, which is marked by the letter between them. -/
def isTime (cs : List Char) : Bool :=
  afterTime? cs = some [] ||
    match cs.drop 10 with
    | mark :: time => (mark = 'T' || mark = 't') && isDate (cs.take 10) && isTimeOfDate time
    | [] => false

/-! ### Words -/

/-- Characters of words. -/
def isWordChar (c : Char) : Bool :=
  c.isAlphanum || c = '+' || c = '-' || c = '_' || c = '.' || c = ':'

/-- The value of a word that is no date. -/
def word? (cs : List Char) : Option ConfigValue :=
  if cs = "true".toList then some (.boolean true)
  else if cs = "false".toList then some (.boolean false)
  else if isFloat cs || isTime cs then some .other
  else (integer? cs).map .integer

namespace Reader

/-- Take a time behind a date and a blank, if that comes next. -/
def timeOfDate : Reader Unit := do
  expect " "
  if isTimeOfDate (← takeWhile isWordChar) then return () else failure

/-- A number, a truth value or a date. -/
def scalar : Reader ConfigValue := do
  let word ← takeWhile isWordChar
  if isDate word then
    timeOfDate <|> pure ()
    return .other
  else match word? word with
    | some v => return v
    | none => failure

end Reader

end WasmEngine.CommandLine.Toml
