import WasmEngine.Float.Arithmetic
import WasmEngine.Instruction.Numeric
import WasmEngine.Trap
import WasmEngine.Value

/-!
# Evaluation of numeric instructions

`NumericOp.eval` computes the result of a numeric instruction on cells. An operand is read at the width
of its type, so bits beyond that do not count; the result is a word of its type with zeros above it. The
exceptions are the reinterpretations, which hand their cell on as it is.

Division and the conversions to integers can trap.
-/

namespace WasmEngine

/-- Whether an integer comparison holds. -/
def IntRelation.holds {w : Nat} (r : IntRelation) (a b : BitVec w) : Bool :=
  match r with
  | eq => a == b
  | ne => a != b
  | lt .signed => a.slt b
  | lt .unsigned => a.ult b
  | gt .signed => b.slt a
  | gt .unsigned => b.ult a
  | le .signed => a.sle b
  | le .unsigned => a.ule b
  | ge .signed => b.sle a
  | ge .unsigned => b.ule a

/-- The value of an integer operation with one operand. -/
def IntUnary.eval {w : Nat} (op : IntUnary) (a : BitVec w) : BitVec w :=
  match op with
  | clz => a.clz
  | ctz => a.ctz
  | popcnt => a.cpop

/-- The quotient rounded toward zero. It is undefined for the divisor zero, and for the least signed
number divided by `-1`, whose quotient is out of range. -/
def divide {w : Nat} (s : Signedness) (a b : BitVec w) : Except TrapCode (BitVec w) :=
  if b = 0 then .error .integerDivideByZero
  else match s with
    | .signed => if a = BitVec.intMin w ∧ b = -1 then .error .integerOverflow else .ok (a.sdiv b)
    | .unsigned => .ok (a / b)

/-- The remainder, which has the sign of the dividend. It is undefined for the divisor zero only. -/
def remainder {w : Nat} (s : Signedness) (a b : BitVec w) : Except TrapCode (BitVec w) :=
  if b = 0 then .error .integerDivideByZero
  else match s with
    | .signed => .ok (a.srem b)
    | .unsigned => .ok (a % b)

/-- The value of an integer operation with two operands. Shifts and rotations take their distance
modulo the width. -/
def IntBinary.eval {w : Nat} (op : IntBinary) (a b : BitVec w) : Except TrapCode (BitVec w) :=
  let distance := b.toNat % w
  match op with
  | add => .ok (a + b)
  | sub => .ok (a - b)
  | mul => .ok (a * b)
  | div s => divide s a b
  | rem s => remainder s a b
  | and => .ok (a &&& b)
  | or => .ok (a ||| b)
  | xor => .ok (a ^^^ b)
  | shl => .ok (a <<< distance)
  | shr .signed => .ok (a.sshiftRight distance)
  | shr .unsigned => .ok (a >>> distance)
  | rotl => .ok (a.rotateLeft distance)
  | rotr => .ok (a.rotateRight distance)

/-- The format of floats of a width. -/
def FloatWidth.format : FloatWidth → FloatFormat
  | w32 => .single
  | w64 => .double

/-- Whether a float comparison holds. Only `ne` holds of what is not a number. -/
def FloatRelation.holds (r : FloatRelation) (order : Option Ordering) : Bool :=
  match r with
  | eq => order == some .eq
  | ne => order != some .eq
  | lt => order == some .lt
  | gt => order == some .gt
  | le => order == some .lt || order == some .eq
  | ge => order == some .gt || order == some .eq

/-- The value of a float operation with one operand. -/
def FloatUnary.eval (f : FloatFormat) (op : FloatUnary) (a : Nat) : Nat :=
  match op with
  | abs => f.abs a
  | neg => f.neg a
  | ceil => f.roundToInteger .up a
  | floor => f.roundToInteger .down a
  | trunc => f.roundToInteger .toZero a
  | nearest => f.roundToInteger .halfEven a
  | sqrt => f.sqrt a

/-- The value of a float operation with two operands. -/
def FloatBinary.eval (f : FloatFormat) (op : FloatBinary) (a b : Nat) : Nat :=
  match op with
  | add => f.add a b
  | sub => f.sub a b
  | mul => f.mul a b
  | div => f.div a b
  | min => f.min a b
  | max => f.max a b
  | copysign => f.copysign a b

/-! ### Floats to integers -/

namespace Signedness

/-- The least number of a width. -/
def least (s : Signedness) (w : Nat) : Int :=
  match s with
  | signed => -(Nat.pow 2 (w - 1) : Int)
  | unsigned => 0

/-- The greatest number of a width. -/
def greatest (s : Signedness) (w : Nat) : Int :=
  match s with
  | signed => Nat.pow 2 (w - 1) - 1
  | unsigned => Nat.pow 2 w - 1

end Signedness

/-- The nearest integer in range, and zero for what is not a number. -/
def Truncation.clamp (s : Signedness) (w : Nat) : Truncation → BitVec w
  | nan => 0
  | infinite true => BitVec.ofInt w (s.least w)
  | infinite false => BitVec.ofInt w (s.greatest w)
  | integer n => BitVec.ofInt w (max (s.least w) (min n (s.greatest w)))

/-- The bounds between which a float lies if its integer part is in range: the next floats beyond the range, in the
format of the source. -/
def truncationBounds (target : IntWidth) (source : FloatWidth) (s : Signedness) : Int × Int :=
  match s, target, source with
  | .signed, .w32, .w32 => (-2147483904, 2147483648)
  | .signed, .w32, .w64 => (-2147483649, 2147483648)
  | .signed, .w64, .w32 => (-9223373136366403584, 9223372036854775808)
  | .signed, .w64, .w64 => (-9223372036854777856, 9223372036854775808)
  | .unsigned, .w32, _ => (-1, 4294967296)
  | .unsigned, .w64, _ => (-1, 18446744073709551616)

/-- The integer part of a value, if that lies between two bounds. -/
def Datum.truncateBetween (x lower upper : Datum) (s : Signedness) (w : Nat) : Except TrapCode (BitVec w) :=
  if x = nan then .error .invalidConversion
  else if FloatRelation.le.holds (x.compare? lower) || FloatRelation.ge.holds (x.compare? upper) then
    .error .integerOverflow
  else .ok (x.truncate.clamp s w)

/-- The value of a word as an integer, if it lies between the bounds of the conversion. -/
def FloatWidth.truncate (source : FloatWidth) (target : IntWidth) (s : Signedness) (word : Nat) :
    Except TrapCode (BitVec target.bits) :=
  let f := source.format
  let bounds := truncationBounds target source s
  (f.decode word).truncateBetween (f.decode (f.ofInt bounds.1)) (f.decode (f.ofInt bounds.2)) s target.bits

/-- The integer nearest to the value of a word, rounded toward zero. -/
def FloatWidth.saturate (source : FloatWidth) (target : IntWidth) (s : Signedness) (word : Nat) :
    BitVec target.bits :=
  (source.format.decode word).truncate.clamp s target.bits

/-! ### Cells -/

namespace Cell

/-- A truth value as a number. -/
def ofBool (b : Bool) : Cell := if b then 1 else 0

/-- The integer in a cell. -/
def toInt (w : IntWidth) (c : Cell) : BitVec w.bits := c.setWidth w.bits

/-- The cell of an integer. -/
def ofInt {w : Nat} (a : BitVec w) : Cell := a.setWidth 64

/-- The word of the float in a cell. -/
def toFloat (w : FloatWidth) (c : Cell) : Nat := (c.setWidth w.format.width).toNat

/-- The cell of a float's word. -/
def ofFloat (w : FloatWidth) (word : Nat) : Cell := (BitVec.ofNat w.format.width word).setWidth 64

/-- The number that the integer in a cell stands for. -/
def number (w : IntWidth) (s : Signedness) (c : Cell) : Int :=
  match s with
  | .signed => (c.toInt w).toInt
  | .unsigned => (c.toInt w).toNat

/-- The low bits of a cell, extended with their sign to a width. -/
def extendSign (low : Nat) (w : IntWidth) (c : Cell) : Cell :=
  ofInt ((c.setWidth low).signExtend w.bits)

end Cell

/-- The result of a numeric instruction. One that takes a single operand looks at `a` only. -/
def NumericOp.eval (op : NumericOp) (a b : Cell) : Except TrapCode Cell :=
  match op with
  | intTest w => .ok (.ofBool (a.toInt w == 0))
  | intCompare w r => .ok (.ofBool (r.holds (a.toInt w) (b.toInt w)))
  | floatCompare w r =>
    let order := (w.format.decode (a.toFloat w)).compare? (w.format.decode (b.toFloat w))
    .ok (.ofBool (r.holds order))
  | intUnary w op => .ok (.ofInt (op.eval (a.toInt w)))
  | intBinary w op => return .ofInt (← op.eval (a.toInt w) (b.toInt w))
  | floatUnary w op => .ok (.ofFloat w (op.eval w.format (a.toFloat w)))
  | floatBinary w op => .ok (.ofFloat w (op.eval w.format (a.toFloat w) (b.toFloat w)))
  | wrap => .ok (.ofInt (a.toInt .w32))
  | truncate target source s =>
    return .ofInt (← source.truncate target s (a.toFloat source))
  | extend .signed => .ok (a.extendSign 32 .w64)
  | extend .unsigned => .ok (.ofInt (a.toInt .w32))
  | convert target source s => .ok (.ofFloat target (target.format.ofInt (a.number source s)))
  | demote => .ok (.ofFloat .w32 (FloatFormat.double.convert .single (a.toFloat .w64)))
  | promote => .ok (.ofFloat .w64 (FloatFormat.single.convert .double (a.toFloat .w32)))
  | reinterpretFloat _ | reinterpretInt _ => .ok a
  | extend8 w => .ok (a.extendSign 8 w)
  | extend16 w => .ok (a.extendSign 16 w)
  | extend32 => .ok (a.extendSign 32 .w64)
  | truncateSat target source s => .ok (.ofInt (source.saturate target s (a.toFloat source)))

end WasmEngine
