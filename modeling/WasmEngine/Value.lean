import WasmEngine.Float.Decimal
import WasmEngine.Types

/-!
# Values

A `Value` is what crosses the boundary between a program and the engine it embeds. Numbers are words, so
that the payload of what is not a number survives; references are addresses in a store, or null.

Inside the engine a value lives in an untyped `Cell` of 64 bits (`Value.toCell`), from which it is read
back by its type (`Value.ofCell`). A null reference is the cell zero and any other the address plus
one.
-/

namespace WasmEngine

/-- The address of a function or of a host reference in a store. -/
abbrev Addr := BitVec 32

/-- An untyped word of the operand stack, a local, a global or a table. -/
abbrev Cell := BitVec 64

/-- A WebAssembly value. -/
inductive Value where
  | i32 (word : BitVec 32)
  | i64 (word : BitVec 64)
  | f32 (word : BitVec 32)
  | f64 (word : BitVec 64)
  | ref (type : RefType) (addr : Option Addr)
  deriving DecidableEq, Repr

/-- The cell of a reference. -/
def Cell.ofRef : Option Addr → Cell
  | none => 0
  | some addr => addr.setWidth 64 + 1

/-- The reference in a cell. -/
def Cell.toRef (c : Cell) : Option Addr :=
  if c = 0 then none else some ((c - 1).setWidth 32)

namespace Value

/-- The type of a value. -/
def type : Value → ValueType
  | i32 _ => .i32
  | i64 _ => .i64
  | f32 _ => .f32
  | f64 _ => .f64
  | ref t _ => .ref t

/-- The null reference of a type. -/
def null (type : RefType) : Value := ref type none

/-- The value of a type that locals start with: zero or null. -/
def zero : ValueType → Value
  | .i32 => i32 0
  | .i64 => i64 0
  | .f32 => f32 0
  | .f64 => f64 0
  | .ref t => null t

/-- Whether a value is a null reference. -/
def isNull : Value → Bool
  | ref _ none => true
  | _ => false

/-- The cell that holds a value. -/
def toCell : Value → Cell
  | i32 w => w.setWidth 64
  | i64 w => w
  | f32 w => w.setWidth 64
  | f64 w => w
  | ref _ a => Cell.ofRef a

/-- The value of a type that a cell holds. -/
def ofCell (type : ValueType) (c : Cell) : Value :=
  match type with
  | .i32 => i32 (c.setWidth 32)
  | .i64 => i64 c
  | .f32 => f32 (c.setWidth 32)
  | .f64 => f64 c
  | .ref t => ref t c.toRef

/-- The value as it is shown: integers as signed numbers, floats as decimals. -/
def text : Value → String
  | i32 w => toString w.toInt
  | i64 w => toString w.toInt
  | f32 w => FloatFormat.single.text w.toNat
  | f64 w => FloatFormat.double.text w.toNat
  | ref t none => s!"null {t.text}"
  | ref t (some a) => s!"{t.text}({a.toNat})"

end Value

end WasmEngine
