import WasmEngine.Types

/-!
# Numeric instructions

The instructions that take one or two numbers from the stack and put one back, described by what they do:
an operation, the width it works at and, where it matters, whether words are read as signed.

Their opcodes are consecutive, so one list in opcode order (`NumericOp.plain`) fixes them all; the
conversions that saturate have a list of their own. Mnemonic and signature are read off the description.
-/

namespace WasmEngine

/-- The widths of integers. -/
inductive IntWidth where
  | w32
  | w64
  deriving DecidableEq, Repr

/-- The widths of floats. -/
inductive FloatWidth where
  | w32
  | w64
  deriving DecidableEq, Repr

/-- How a word is read as a number. -/
inductive Signedness where
  | signed
  | unsigned
  deriving DecidableEq, Repr

/-- Comparisons of integers. -/
inductive IntRelation where
  | eq
  | ne
  | lt (s : Signedness)
  | gt (s : Signedness)
  | le (s : Signedness)
  | ge (s : Signedness)
  deriving DecidableEq, Repr

/-- Comparisons of floats. -/
inductive FloatRelation where
  | eq
  | ne
  | lt
  | gt
  | le
  | ge
  deriving DecidableEq, Repr

/-- Integer operations with one operand. -/
inductive IntUnary where
  | clz
  | ctz
  | popcnt
  deriving DecidableEq, Repr

/-- Integer operations with two operands. -/
inductive IntBinary where
  | add
  | sub
  | mul
  | div (s : Signedness)
  | rem (s : Signedness)
  | and
  | or
  | xor
  | shl
  | shr (s : Signedness)
  | rotl
  | rotr
  deriving DecidableEq, Repr

/-- Float operations with one operand. -/
inductive FloatUnary where
  | abs
  | neg
  | ceil
  | floor
  | trunc
  | nearest
  | sqrt
  deriving DecidableEq, Repr

/-- Float operations with two operands. -/
inductive FloatBinary where
  | add
  | sub
  | mul
  | div
  | min
  | max
  | copysign
  deriving DecidableEq, Repr

/-- A numeric instruction. -/
inductive NumericOp where
  | intTest (w : IntWidth)
  | intCompare (w : IntWidth) (r : IntRelation)
  | floatCompare (w : FloatWidth) (r : FloatRelation)
  | intUnary (w : IntWidth) (op : IntUnary)
  | intBinary (w : IntWidth) (op : IntBinary)
  | floatUnary (w : FloatWidth) (op : FloatUnary)
  | floatBinary (w : FloatWidth) (op : FloatBinary)
  | wrap
  | truncate (target : IntWidth) (source : FloatWidth) (s : Signedness)
  | extend (s : Signedness)
  | convert (target : FloatWidth) (source : IntWidth) (s : Signedness)
  | demote
  | promote
  | reinterpretFloat (w : FloatWidth)
  | reinterpretInt (w : IntWidth)
  | extend8 (w : IntWidth)
  | extend16 (w : IntWidth)
  | extend32
  | truncateSat (target : IntWidth) (source : FloatWidth) (s : Signedness)
  deriving DecidableEq, Repr

namespace IntWidth

/-- The number of bits. -/
def bits : IntWidth → Nat
  | w32 => 32
  | w64 => 64

/-- The type of integers of this width. -/
def type : IntWidth → ValueType
  | w32 => .i32
  | w64 => .i64

end IntWidth

/-- The type of floats of this width. -/
def FloatWidth.type : FloatWidth → ValueType
  | w32 => .f32
  | w64 => .f64

/-- The ending of a mnemonic. -/
def Signedness.suffix : Signedness → String
  | signed => "_s"
  | unsigned => "_u"

namespace NumericOp

/-! ### Opcodes -/

/-- The instructions of one-byte opcodes, in the order of those. -/
def plain : List NumericOp :=
  let relations : List IntRelation :=
    [.eq, .ne, .lt .signed, .lt .unsigned, .gt .signed, .gt .unsigned, .le .signed, .le .unsigned,
      .ge .signed, .ge .unsigned]
  let floatRelations : List FloatRelation := [.eq, .ne, .lt, .gt, .le, .ge]
  let intUnaries : List IntUnary := [.clz, .ctz, .popcnt]
  let intBinaries : List IntBinary :=
    [.add, .sub, .mul, .div .signed, .div .unsigned, .rem .signed, .rem .unsigned, .and, .or, .xor,
      .shl, .shr .signed, .shr .unsigned, .rotl, .rotr]
  let floatUnaries : List FloatUnary := [.abs, .neg, .ceil, .floor, .trunc, .nearest, .sqrt]
  let floatBinaries : List FloatBinary := [.add, .sub, .mul, .div, .min, .max, .copysign]
  [intTest .w32] ++ relations.map (intCompare .w32) ++
  [intTest .w64] ++ relations.map (intCompare .w64) ++
  floatRelations.map (floatCompare .w32) ++
  floatRelations.map (floatCompare .w64) ++
  intUnaries.map (intUnary .w32) ++ intBinaries.map (intBinary .w32) ++
  intUnaries.map (intUnary .w64) ++ intBinaries.map (intBinary .w64) ++
  floatUnaries.map (floatUnary .w32) ++ floatBinaries.map (floatBinary .w32) ++
  floatUnaries.map (floatUnary .w64) ++ floatBinaries.map (floatBinary .w64) ++
  [wrap,
    truncate .w32 .w32 .signed, truncate .w32 .w32 .unsigned,
    truncate .w32 .w64 .signed, truncate .w32 .w64 .unsigned,
    extend .signed, extend .unsigned,
    truncate .w64 .w32 .signed, truncate .w64 .w32 .unsigned,
    truncate .w64 .w64 .signed, truncate .w64 .w64 .unsigned,
    convert .w32 .w32 .signed, convert .w32 .w32 .unsigned,
    convert .w32 .w64 .signed, convert .w32 .w64 .unsigned, demote,
    convert .w64 .w32 .signed, convert .w64 .w32 .unsigned,
    convert .w64 .w64 .signed, convert .w64 .w64 .unsigned, promote,
    reinterpretFloat .w32, reinterpretFloat .w64, reinterpretInt .w32, reinterpretInt .w64,
    extend8 .w32, extend16 .w32, extend8 .w64, extend16 .w64, extend32]

/-- The instructions behind the byte `0xFC`, in the order of what follows it. -/
def saturating : List NumericOp :=
  [truncateSat .w32 .w32 .signed, truncateSat .w32 .w32 .unsigned,
    truncateSat .w32 .w64 .signed, truncateSat .w32 .w64 .unsigned,
    truncateSat .w64 .w32 .signed, truncateSat .w64 .w32 .unsigned,
    truncateSat .w64 .w64 .signed, truncateSat .w64 .w64 .unsigned]

/-- The first opcode of `plain`. -/
def firstPlain : Nat := 0x45

/-- The code of the first of `saturating`: the byte `0xFC`, then zero. -/
def firstSaturating : Nat := 0xFC00

/-- The instruction of a one-byte opcode. -/
def ofOpcode? (opcode : Nat) : Option NumericOp :=
  if opcode < firstPlain then none else plain[opcode - firstPlain]?

/-- The instruction of a code: a one-byte opcode, or `0xFC00` plus what follows the byte `0xFC`. -/
def ofCode? (code : Nat) : Option NumericOp :=
  if code < firstSaturating then ofOpcode? code else saturating[code - firstSaturating]?

/-- Whether the instruction is a conversion that saturates. -/
def isSaturating : NumericOp → Bool
  | truncateSat .. => true
  | _ => false

/-- Whether the instruction extends the sign of a part of a word. -/
def isSignExtension : NumericOp → Bool
  | extend8 _ | extend16 _ | extend32 => true
  | _ => false

/-- The code of an instruction. -/
def code (op : NumericOp) : Nat :=
  if op.isSaturating then firstSaturating + saturating.idxOf op
  else firstPlain + plain.idxOf op

/-! ### Signatures -/

/-- The types of the operands, the deeper one first. -/
def params : NumericOp → List ValueType
  | intTest w | intUnary w _ | reinterpretInt w | extend8 w | extend16 w => [w.type]
  | intCompare w _ | intBinary w _ => [w.type, w.type]
  | floatUnary w _ | reinterpretFloat w => [w.type]
  | floatCompare w _ | floatBinary w _ => [w.type, w.type]
  | wrap | extend32 => [.i64]
  | truncate _ source _ | truncateSat _ source _ => [source.type]
  | extend _ => [.i32]
  | convert _ source _ => [source.type]
  | demote => [.f64]
  | promote => [.f32]

/-- The type of the result. -/
def result : NumericOp → ValueType
  | intTest _ | intCompare .. | floatCompare .. | wrap => .i32
  | intUnary w _ | intBinary w _ | extend8 w | extend16 w => w.type
  | floatUnary w _ | floatBinary w _ => w.type
  | truncate target _ _ | truncateSat target _ _ => target.type
  | extend _ | extend32 => .i64
  | convert target _ _ => target.type
  | demote => .f32
  | promote => .f64
  | reinterpretFloat .w32 => .i32
  | reinterpretFloat .w64 => .i64
  | reinterpretInt .w32 => .f32
  | reinterpretInt .w64 => .f64

/-- Whether the instruction takes one operand; the others take two. -/
def isUnary (op : NumericOp) : Bool := op.params.length = 1

/-! ### Mnemonics -/

end NumericOp

/-- The name of a comparison in mnemonics. -/
def IntRelation.text : IntRelation → String
  | eq => "eq"
  | ne => "ne"
  | lt s => "lt" ++ s.suffix
  | gt s => "gt" ++ s.suffix
  | le s => "le" ++ s.suffix
  | ge s => "ge" ++ s.suffix

/-- The name of a comparison in mnemonics. -/
def FloatRelation.text : FloatRelation → String
  | eq => "eq"
  | ne => "ne"
  | lt => "lt"
  | gt => "gt"
  | le => "le"
  | ge => "ge"

/-- The name of an operation in mnemonics. -/
def IntUnary.text : IntUnary → String
  | clz => "clz"
  | ctz => "ctz"
  | popcnt => "popcnt"

/-- The name of an operation in mnemonics. -/
def IntBinary.text : IntBinary → String
  | add => "add"
  | sub => "sub"
  | mul => "mul"
  | div s => "div" ++ s.suffix
  | rem s => "rem" ++ s.suffix
  | and => "and"
  | or => "or"
  | xor => "xor"
  | shl => "shl"
  | shr s => "shr" ++ s.suffix
  | rotl => "rotl"
  | rotr => "rotr"

/-- The name of an operation in mnemonics. -/
def FloatUnary.text : FloatUnary → String
  | abs => "abs"
  | neg => "neg"
  | ceil => "ceil"
  | floor => "floor"
  | trunc => "trunc"
  | nearest => "nearest"
  | sqrt => "sqrt"

/-- The name of an operation in mnemonics. -/
def FloatBinary.text : FloatBinary → String
  | add => "add"
  | sub => "sub"
  | mul => "mul"
  | div => "div"
  | min => "min"
  | max => "max"
  | copysign => "copysign"

namespace NumericOp

/-- The instruction proper, without the type in front. -/
def verb : NumericOp → String
  | intTest _ => "eqz"
  | intCompare _ r => r.text
  | floatCompare _ r => r.text
  | intUnary _ op => op.text
  | intBinary _ op => op.text
  | floatUnary _ op => op.text
  | floatBinary _ op => op.text
  | wrap => "wrap_i64"
  | truncate _ source s => "trunc_" ++ source.type.text ++ s.suffix
  | extend s => "extend_i32" ++ s.suffix
  | convert _ source s => "convert_" ++ source.type.text ++ s.suffix
  | demote => "demote_f64"
  | promote => "promote_f32"
  | reinterpretFloat w => "reinterpret_" ++ w.type.text
  | reinterpretInt w => "reinterpret_" ++ w.type.text
  | extend8 _ => "extend8_s"
  | extend16 _ => "extend16_s"
  | extend32 => "extend32_s"
  | truncateSat _ source s => "trunc_sat_" ++ source.type.text ++ s.suffix

/-- The mnemonic. Tests and comparisons are named after their operands, all others after their
result. -/
def text (op : NumericOp) : String :=
  let type := match op with
    | intTest w | intCompare w _ => w.type
    | floatCompare w _ => w.type
    | _ => op.result
  type.text ++ "." ++ op.verb

end NumericOp

end WasmEngine
