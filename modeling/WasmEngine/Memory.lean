import WasmEngine.Binary.LittleEndian
import WasmEngine.Fault.Embedding
import WasmEngine.Value

/-!
# Linear memory

A `Memory` is an array of bytes whose size is a whole number of pages. It can grow up to its `cap`, never
shrinks, and is read and written only within its bounds: an access that would cross them traps and changes
nothing.

Every change to the bytes is one `put`: bytes take the place of as many others.
-/

namespace WasmEngine

/-- A linear memory: its declared maximum and the greatest size it may reach, both in pages, its bytes, and
the greatest size it has had. -/
structure Memory where
  max : Option Nat
  cap : Nat
  bytes : ByteArray
  peak : Nat

/-- Add zeros at the end of bytes. -/
def pushZeros : Nat → ByteArray → ByteArray
  | 0, b => b
  | n + 1, b => pushZeros n (b.push 0)

/-- A number of equal bytes. -/
def equalBytes (byte : UInt8) : Nat → ByteArray → ByteArray
  | 0, b => b
  | n + 1, b => equalBytes byte n (b.push byte)

namespace Memory

/-- The size in pages. -/
def pages (m : Memory) : Nat := m.bytes.size / pageSize

/-- The type of the memory as it is: its size and its declared maximum. -/
def limits (m : Memory) : Limits := ⟨m.pages, m.max⟩

/-- A new memory of zeros. It can grow to the declared maximum, but not beyond `pageCap`. -/
def allocate (l : Limits) (pageCap : Nat) : Except ResourceFault Memory :=
  let cap := match l.max with
    | some max => min max pageCap
    | none => pageCap
  if cap < l.min then .error (.memorySize l.min cap)
  else .ok ⟨l.max, cap, pushZeros (l.min * pageSize) ByteArray.empty, l.min⟩

/-- Bytes lie within the memory. -/
def contains (m : Memory) (start length : Nat) : Bool :=
  start + length ≤ m.bytes.size

/-- The bytes from a position on. -/
def slice (m : Memory) (start length : Nat) : ByteArray :=
  m.bytes.extract start (start + length)

/-- Put bytes at a position. -/
def put (m : Memory) (start : Nat) (piece : ByteArray) : Memory :=
  { m with bytes := piece.copySlice 0 m.bytes start piece.size }

/-! ### Reading -/

/-- Read bytes. -/
def read (m : Memory) (start length : Nat) : Except TrapCode ByteArray :=
  if m.contains start length then .ok (m.slice start length) else .error .memoryOutOfBounds

/-- Read a number of `width` bytes, the lowest first. -/
def load (m : Memory) (start width : Nat) : Except TrapCode Cell :=
  if m.contains start width then
    .ok (BitVec.ofNat 64 (littleEndian (m.slice start width).toList))
  else .error .memoryOutOfBounds

/-- Go on to count the bytes other than zero from a position on, and to list the first of them. -/
def countNonZero (m : Memory) (listed : Nat) : (left pos count : Nat) → Array (Nat × UInt8) →
    Nat × List (Nat × UInt8)
  | 0, _, count, first => (count, first.toList)
  | left + 1, pos, count, first =>
    let byte := m.bytes[pos]?.getD 0
    if byte = 0 then countNonZero m listed left (pos + 1) count first
    else countNonZero m listed left (pos + 1) (count + 1)
      (if count < listed then first.push (pos, byte) else first)

/-- How many bytes are not zero, and the first of them with their positions. -/
def nonZero (m : Memory) (listed : Nat) : Nat × List (Nat × UInt8) :=
  m.countNonZero listed m.bytes.size 0 0 #[]

/-! ### Writing

Each of these goes on from a memory to a memory. A trap leaves it as it was. -/

/-- What changes a memory or traps. -/
abbrev Change := EStateM TrapCode Memory

/-- Change the memory if a condition on it holds, and trap otherwise. -/
def changeIf (condition : Memory → Bool) (change : Memory → Memory) : Change Unit := fun m =>
  if condition m then .ok () (change m) else .error .memoryOutOfBounds m

/-- Write bytes. -/
def write (start : Nat) (piece : ByteArray) : Change Unit :=
  changeIf (·.contains start piece.size) (·.put start piece)

/-- Write the low `width` bytes of a cell, the lowest first. -/
def store (start width : Nat) (c : Cell) : Change Unit :=
  changeIf (·.contains start width) (·.put start (toLittleEndian width c.toNat).toByteArray)

/-- Set bytes to one value. -/
def fill (start : Nat) (byte : UInt8) (length : Nat) : Change Unit :=
  changeIf (·.contains start length) (·.put start (equalBytes byte length ByteArray.empty))

/-- Copy bytes, as they are before the copy. -/
def copy (target source length : Nat) : Change Unit :=
  changeIf (fun m => m.contains source length && m.contains target length)
    fun m => m.put target (m.slice source length)

/-- Copy bytes from a segment. -/
def init (target : Nat) (segment : ByteArray) (source length : Nat) : Change Unit :=
  changeIf (fun m => source + length ≤ segment.size && m.contains target length)
    (·.put target (segment.extract source (source + length)))

/-! ### Growing -/

/-- Add pages of zeros. Gives the size before, or the fault that there is no room. -/
def grow (delta : Nat) : EStateM ResourceFault Memory Nat := fun m =>
  let old := m.pages
  if old + delta ≤ m.cap then
    .ok old { m with
      bytes := pushZeros (delta * pageSize) m.bytes
      peak := Nat.max m.peak (old + delta) }
  else .error (.memoryGrowth delta old m.cap) m

/-- Set a single byte. Past the end nothing happens. -/
def poke (m : Memory) (start : Nat) (byte : UInt8) : Memory :=
  if m.contains start 1 then m.put start [byte].toByteArray else m

end Memory

end WasmEngine
