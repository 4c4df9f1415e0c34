import WasmEngine.Binary.Cursor
import WasmEngine.Features
import WasmEngine.Instruction.Basic

/-!
# The binary form of instructions

An instruction is an opcode followed by its immediates. Instructions of a proposal that is off are
refused at their opcode, as are bytes that are no opcode. `Decoder.instruction` reads one instruction.
-/

namespace WasmEngine.Decoder

variable {α : Type}

/-- Fail at an offset unless a proposal is on. -/
def require (features : Features) (p : Proposal) (offset : Nat) : Decoder Unit :=
  if features.has p then return () else fail (.disabled p) offset

/-- The type of a value, where references need their proposal. -/
def valueTypeOf (features : Features) : Decoder ValueType := do
  let start ← position
  let t ← valueType
  if t.isRef then require features .referenceTypes start
  return t

/-- The signature of a block. Value types are negative numbers of one byte, and the byte `0x40` stands
for no value; all else is the index of a type. -/
def blockType (features : Features) : Decoder BlockType := do
  let start ← position
  let b ← peek
  if b = 0x40 then
    let _ ← byte
    return .empty
  else if b &&& 0xC0 = 0x40 then return .value (← valueTypeOf features)
  else
    let index ← s33
    require features .multiValue start
    if index < 0 then fail (.blockType index) start else return .index index.toNat

/-- Alignment and offset. -/
def memArg : Decoder MemArg := do
  let align ← u32
  let offset ← u32
  return { align, offset }

/-- A byte that is kept for later versions and is zero in this one. -/
def zeroByte : Decoder Unit := do
  let start ← position
  if (← byte) = 0 then return () else fail .nonZeroByte start

/-- The labels of a table of branches and the label for all other operands. -/
def branchTable : Decoder Instruction := do
  let labels ← vector u32
  return .brTable labels (← u32)

/-- Signature and table of an indirect call. Without reference types there is only one table. -/
def indirectCall (features : Features) : Decoder Instruction := do
  let type ← u32
  let start ← position
  let table ← u32
  if table ≠ 0 && !features.referenceTypes then fail .nonZeroByte start
  else return .callIndirect type table

/-- The type of a typed selection, which is a vector of one type. -/
def typedSelect (features : Features) : Decoder Instruction := do
  let start ← position
  if (← u32) ≠ 1 then fail .selectArity start
  else return .selectTyped (← valueTypeOf features)

/-- What follows the byte `0xFC`, which stands at `start`. -/
def longInstruction (features : Features) (start : Nat) : Decoder Instruction := do
  let sub ← u32
  match NumericOp.saturating[sub]? with
  | some op =>
    require features .saturatingFloatToInt start
    return .numeric op
  | none =>
    require features (if 15 ≤ sub && sub ≤ 17 then .referenceTypes else .bulkMemory) start
    match sub with
    | 8 =>
      let data ← u32
      zeroByte
      return .memoryInit data
    | 9 => return .dataDrop (← u32)
    | 10 =>
      zeroByte
      zeroByte
      return .memoryCopy
    | 11 =>
      zeroByte
      return .memoryFill
    | 12 =>
      let element ← u32
      return .tableInit element (← u32)
    | 13 => return .elemDrop (← u32)
    | 14 =>
      let target ← u32
      return .tableCopy target (← u32)
    | 15 => return .tableGrow (← u32)
    | 16 => return .tableSize (← u32)
    | 17 => return .tableFill (← u32)
    | _ => fail (.longOpcode sub) start

/-- An opcode that stands for a load, a store or a numeric instruction. -/
def tabledInstruction (features : Features) (opcode : UInt8) (start : Nat) :
    Decoder Instruction :=
  match LoadOp.ofOpcode? opcode.toNat, StoreOp.ofOpcode? opcode.toNat,
    NumericOp.ofOpcode? opcode.toNat with
  | some op, _, _ => return .load op (← memArg)
  | none, some op, _ => return .store op (← memArg)
  | none, none, some op => do
    if op.isSignExtension then require features .signExtension start
    return .numeric op
  | none, none, none => fail (.opcode opcode) start

/-- One instruction. -/
def instruction (features : Features) : Decoder Instruction := do
  let start ← position
  let opcode ← byte
  match opcode with
  | 0x00 => return .unreachable
  | 0x01 => return .nop
  | 0x02 => return .block (← blockType features)
  | 0x03 => return .loop (← blockType features)
  | 0x04 => return .if_ (← blockType features)
  | 0x05 => return .else_
  | 0x0B => return .end_
  | 0x0C => return .br (← u32)
  | 0x0D => return .brIf (← u32)
  | 0x0E => branchTable
  | 0x0F => return .return_
  | 0x10 => return .call (← u32)
  | 0x11 => indirectCall features
  | 0x1A => return .drop
  | 0x1B => return .select
  | 0x1C =>
    require features .referenceTypes start
    typedSelect features
  | 0x20 => return .localGet (← u32)
  | 0x21 => return .localSet (← u32)
  | 0x22 => return .localTee (← u32)
  | 0x23 => return .globalGet (← u32)
  | 0x24 => return .globalSet (← u32)
  | 0x25 =>
    require features .referenceTypes start
    return .tableGet (← u32)
  | 0x26 =>
    require features .referenceTypes start
    return .tableSet (← u32)
  | 0x3F =>
    zeroByte
    return .memorySize
  | 0x40 =>
    zeroByte
    return .memoryGrow
  | 0x41 => return .i32Const (BitVec.ofInt 32 (← s32))
  | 0x42 => return .i64Const (BitVec.ofInt 64 (← s64))
  | 0x43 => return .f32Const (← word32)
  | 0x44 => return .f64Const (← word64)
  | 0xD0 =>
    require features .referenceTypes start
    return .refNull (← refType)
  | 0xD1 =>
    require features .referenceTypes start
    return .refIsNull
  | 0xD2 =>
    require features .referenceTypes start
    return .refFunc (← u32)
  | 0xFC => longInstruction features start
  | opcode => tabledInstruction features opcode start

end WasmEngine.Decoder
