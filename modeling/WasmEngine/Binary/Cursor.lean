import WasmEngine.Binary.Leb128
import WasmEngine.Binary.LittleEndian
import WasmEngine.Types

/-!
# Cursors over a module's bytes

A `Cursor` is a position in a window of a module's bytes. Positions count from the start of the module,
also in a window split off from another (`Cursor.split`), so each fault is reported at its place in the
module.

A `Decoder` reads at a cursor and moves it on. One that fails leaves the cursor where it got to.
-/

namespace WasmEngine

/-- A position in the window of `data` that ends before `stop`. -/
structure Cursor where
  data : ByteArray
  pos : Nat
  stop : Nat

namespace Cursor

/-- The cursor at the start of all of some bytes. -/
def ofBytes (data : ByteArray) : Cursor := ⟨data, 0, data.size⟩

/-- How many bytes are left in the window. -/
def remaining (c : Cursor) : Nat := c.stop - c.pos

/-- Whether no byte is left in the window. -/
def isEmpty (c : Cursor) : Bool := c.stop ≤ c.pos

/-- The byte at a position before the end of the window. -/
def byteAt (c : Cursor) (i : Nat) : Option UInt8 :=
  if i < c.stop then c.data[i]? else none

/-- The bytes from the position on. -/
def take (c : Cursor) (length : Nat) : ByteArray :=
  c.data.extract c.pos (c.pos + length)

/-- The cursor moved on. -/
def advance (c : Cursor) (length : Nat) : Cursor :=
  { c with pos := c.pos + length }

/-- The window of the next bytes. -/
def window (c : Cursor) (length : Nat) : Cursor :=
  { c with stop := c.pos + length }

end Cursor

/-- Reads at a cursor and moves it on, or fails at an offset. -/
abbrev Decoder := EStateM DecodeError Cursor

namespace Decoder

variable {α : Type}

/-- Fail at an offset. -/
def fail (fault : DecodeFault) (offset : Nat) : Decoder α :=
  throw ⟨fault, offset⟩

/-- The position. -/
def position : Decoder Nat := return (← get).pos

/-- How many bytes are left. -/
def remaining : Decoder Nat := return (← get).remaining

/-- Whether no byte is left. -/
def atEnd : Decoder Bool := return (← get).isEmpty

/-- The next byte, without moving on. -/
def peek : Decoder UInt8 := do
  let c ← get
  match c.byteAt c.pos with
  | some b => return b
  | none => fail (.shortage .window) c.pos

/-- The next byte. -/
def byte : Decoder UInt8 := do
  let b ← peek
  modify (·.advance 1)
  return b

/-- The next bytes. -/
def bytes (length : Nat) : Decoder ByteArray := do
  let c ← get
  if c.remaining < length then fail (.shortage .window) c.pos
  else
    set (c.advance length)
    return c.take length

/-- The window of the next bytes, which are skipped. -/
def split (length : Nat) : Decoder Cursor := do
  let c ← get
  if c.remaining < length then fail (.lengthExceeds length c.remaining) c.pos
  else
    set (c.advance length)
    return c.window length

/-- Run a decoder in the window of the next bytes. -/
def within (length : Nat) (d : Decoder α) : Decoder (α × Cursor) := do
  let inner ← split length
  match d.run inner with
  | .ok a rest => return (a, rest)
  | .error e _ => throw e

/-- Fail unless the window has been read to its end. -/
def finish (what : String) : Decoder Unit := do
  let c ← get
  if c.isEmpty then return ()
  else fail (.leftOver what c.remaining) c.pos

/-- An integer together with its length, as a decoder that moves over it. -/
def ofLeb128 (read : (Nat → Option UInt8) → Nat → Except DecodeError (α × Nat)) : Decoder α := do
  let c ← get
  match read c.byteAt c.pos with
  | .ok (value, length) =>
    set (c.advance length)
    return value
  | .error e => throw e

/-- An unsigned integer of 32 bits. -/
def u32 : Decoder Nat := ofLeb128 (Leb128.unsigned 32)

/-- A signed integer of 32 bits. -/
def s32 : Decoder Int := ofLeb128 (Leb128.signed 32)

/-- A signed integer of 33 bits. -/
def s33 : Decoder Int := ofLeb128 (Leb128.signed 33)

/-- A signed integer of 64 bits. -/
def s64 : Decoder Int := ofLeb128 (Leb128.signed 64)

/-- A word of 32 bits, the lowest byte first. -/
def word32 : Decoder (BitVec 32) := return BitVec.ofNat 32 (littleEndian (← bytes 4).toList)

/-- A word of 64 bits, the lowest byte first. -/
def word64 : Decoder (BitVec 64) := return BitVec.ofNat 64 (littleEndian (← bytes 8).toList)

/-- The length of a vector, which has at least as many bytes as items. -/
def count : Decoder Nat := do
  let start ← position
  let n ← u32
  if (← remaining) < n then fail (.shortage (.vector n)) start else return n

/-- A number of items, one after the other. -/
def items (d : Decoder α) : Nat → Decoder (List α)
  | 0 => return []
  | n + 1 => return (← d) :: (← items d n)

/-- A vector: its length, then its items. -/
def vector (d : Decoder α) : Decoder (List α) := do
  items d (← count)

/-- A name: its length in bytes, then its text. -/
def name : Decoder String := do
  let length ← u32
  let start ← position
  match String.fromUTF8? (← bytes length) with
  | some s => return s
  | none => fail .utf8 start

/-- The type of a value. -/
def valueType : Decoder ValueType := do
  let start ← position
  let b ← byte
  match ValueType.ofByte? b with
  | some t => return t
  | none => fail (.valueType b) start

/-- The type of a reference. -/
def refType : Decoder RefType := do
  let start ← position
  let b ← byte
  match RefType.ofByte? b with
  | some t => return t
  | none => fail (.refType b) start

/-- Limits: a flag that says whether there is a maximum, then the minimum and the maximum. -/
def limits : Decoder Limits := do
  let start ← position
  let flag ← byte
  if flag = 0 then return ⟨← u32, none⟩
  else if flag = 1 then
    let min ← u32
    let max ← u32
    return ⟨min, some max⟩
  else fail (.limitsFlag flag) start

end Decoder

end WasmEngine
