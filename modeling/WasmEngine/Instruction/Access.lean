import WasmEngine.Instruction.Evaluation

/-!
# Loads and stores

The instructions that read and write linear memory: how many bytes they move, the type of the value on
the stack, and what a load makes of the bytes it has read (`LoadOp.extend`). Their opcodes are
consecutive, in the order of `LoadOp.all` and `StoreOp.all`.
-/

namespace WasmEngine

/-- A load: of a whole value, or of an integer of fewer bytes than its type has. -/
inductive LoadOp where
  | int (w : IntWidth)
  | float (w : FloatWidth)
  | int8 (w : IntWidth) (s : Signedness)
  | int16 (w : IntWidth) (s : Signedness)
  | int32 (s : Signedness)
  deriving DecidableEq, Repr

/-- A store: of a whole value, or of the low bytes of an integer. -/
inductive StoreOp where
  | int (w : IntWidth)
  | float (w : FloatWidth)
  | int8 (w : IntWidth)
  | int16 (w : IntWidth)
  | int32
  deriving DecidableEq, Repr

/-- The immediates of a load or store: the exponent of the promised alignment, and an offset that is
added to the address. -/
structure MemArg where
  align : Nat
  offset : Nat
  deriving DecidableEq, Repr

namespace LoadOp

/-- The loads in the order of their opcodes. -/
def all : List LoadOp :=
  [int .w32, int .w64, float .w32, float .w64,
    int8 .w32 .signed, int8 .w32 .unsigned, int16 .w32 .signed, int16 .w32 .unsigned,
    int8 .w64 .signed, int8 .w64 .unsigned, int16 .w64 .signed, int16 .w64 .unsigned,
    int32 .signed, int32 .unsigned]

/-- The opcode of the first of `all`. -/
def firstOpcode : Nat := 0x28

/-- The load of an opcode. -/
def ofOpcode? (opcode : Nat) : Option LoadOp :=
  if opcode < firstOpcode then none else all[opcode - firstOpcode]?

/-- The exponent of the natural alignment: the number of bytes read is two to its power. -/
def naturalAlign : LoadOp → Nat
  | int8 .. => 0
  | int16 .. => 1
  | int .w32 | float .w32 | int32 _ => 2
  | int .w64 | float .w64 => 3

/-- How many bytes are read. -/
def width (op : LoadOp) : Nat := Nat.pow 2 op.naturalAlign

/-- The type of the value that is put on the stack. -/
def type : LoadOp → ValueType
  | int w | int8 w _ | int16 w _ => w.type
  | float w => w.type
  | int32 _ => .i64

/-- What is put on the stack for the bytes that were read, given as the number they stand for. -/
def extend : LoadOp → Cell → Cell
  | int8 w .signed, c => c.extendSign 8 w
  | int16 w .signed, c => c.extendSign 16 w
  | int32 .signed, c => c.extendSign 32 .w64
  | _, c => c

/-- The mnemonic. -/
def text (op : LoadOp) : String :=
  op.type.text ++ ".load" ++
    match op with
    | int _ | float _ => ""
    | int8 _ s => "8" ++ s.suffix
    | int16 _ s => "16" ++ s.suffix
    | int32 s => "32" ++ s.suffix

/-- The load of a mnemonic. -/
def ofText? (s : String) : Option LoadOp := all.find? (·.text == s)

end LoadOp

namespace StoreOp

/-- The stores in the order of their opcodes. -/
def all : List StoreOp :=
  [int .w32, int .w64, float .w32, float .w64, int8 .w32, int16 .w32, int8 .w64, int16 .w64, int32]

/-- The opcode of the first of `all`. -/
def firstOpcode : Nat := 0x36

/-- The store of an opcode. -/
def ofOpcode? (opcode : Nat) : Option StoreOp :=
  if opcode < firstOpcode then none else all[opcode - firstOpcode]?

/-- The exponent of the natural alignment: the number of bytes written is two to its power. -/
def naturalAlign : StoreOp → Nat
  | int8 _ => 0
  | int16 _ => 1
  | int .w32 | float .w32 | int32 => 2
  | int .w64 | float .w64 => 3

/-- How many bytes are written. -/
def width (op : StoreOp) : Nat := Nat.pow 2 op.naturalAlign

/-- The type of the value that is taken from the stack. -/
def type : StoreOp → ValueType
  | int w | int8 w | int16 w => w.type
  | float w => w.type
  | int32 => .i64

/-- The mnemonic. -/
def text (op : StoreOp) : String :=
  op.type.text ++ ".store" ++
    match op with
    | int _ | float _ => ""
    | int8 _ => "8"
    | int16 _ => "16"
    | int32 => "32"

/-- The store of a mnemonic. -/
def ofText? (s : String) : Option StoreOp := all.find? (·.text == s)

end StoreOp

end WasmEngine
