import WasmEngine.Binary.Instruction
import WasmEngine.Module.Syntax

/-!
# The binary form of function bodies and initializers

A body declares its locals in groups of one type and goes on with instructions up to the `end` that
closes the function. Every instruction keeps the offset of its opcode. An initializer is a single constant
instruction and an `end`.
-/

namespace WasmEngine

/-- Bounds on what a decoder accepts: the number of locals a function declares beside its parameters, and
the size of a section in bytes. -/
structure DecodeLimits where
  maxLocals : Nat := 50000
  maxSectionSize : Nat := 0x40000000
  deriving DecidableEq, Repr

namespace Decoder

/-- A number of groups of locals. `total` counts the locals of the groups before. -/
def localGroups (features : Features) (limit : Nat) :
    (groups total : Nat) → Decoder (List ValueType)
  | 0, _ => return []
  | groups + 1, total => do
    let start ← position
    let count ← u32
    if limit < total + count then fail (.tooManyLocals limit) start
    let type ← valueTypeOf features
    let rest ← localGroups features limit groups (total + count)
    return List.replicate count type ++ rest

/-- How deep the blocks are nested behind an instruction. -/
def depthAfter (depth : Nat) (i : Instruction) : Nat :=
  if i.opensBlock then depth + 1 else if i = .end_ then depth - 1 else depth

/-- Instructions up to the `end` that closes `depth` blocks. Each takes at least one byte, so no more of
them follow than there are bytes, which is what `fuel` counts. -/
def instructionsFrom (features : Features) :
    (fuel depth : Nat) → Decoder (List (Nat × Instruction))
  | _, 0 => return []
  | 0, _ => do fail (.shortage .body) (← position)
  | fuel + 1, depth => do
    let start ← position
    if ← atEnd then fail (.shortage .body) start
    let i ← instruction features
    let rest ← instructionsFrom features fuel (depthAfter depth i)
    return (start, i) :: rest

/-- A function body that takes up the whole window. -/
def functionBody (features : Features) (limits : DecodeLimits) : Decoder FunctionBody := do
  let offset ← position
  let groups ← count
  let locals ← localGroups features limits.maxLocals groups 0
  let code ← instructionsFrom features ((← remaining) + 1) 1
  finish "function body"
  return { locals, code, offset }

/-- The instruction of an initializer. References need one of the two proposals that bring them. -/
def constInstruction (features : Features) : Decoder ConstExpr := do
  let start ← position
  let opcode ← byte
  let references := features.referenceTypes || features.bulkMemory
  if opcode = 0x41 then return .i32 (BitVec.ofInt 32 (← s32))
  else if opcode = 0x42 then return .i64 (BitVec.ofInt 64 (← s64))
  else if opcode = 0x43 then return .f32 (← word32)
  else if opcode = 0x44 then return .f64 (← word64)
  else if opcode = 0x23 then return .globalGet (← u32)
  else if opcode = 0xD0 && references then return .refNull (← refType)
  else if opcode = 0xD2 && references then return .refFunc (← u32)
  else if opcode = 0x0B then fail (.constant .empty) start
  else fail (.constant (.opcode opcode)) start

/-- An initializer: one instruction and an `end`. -/
def constExpr (features : Features) : Decoder ConstExpr := do
  let expr ← constInstruction features
  let close ← position
  if (← byte) = 0x0B then return expr else fail (.constant .tooLong) close

end Decoder

end WasmEngine
