import WasmEngine.Instruction.Basic
import WasmEngine.Value

/-!
# Code in its executable form

What the engine runs: a flat array of `Op`s in which no blocks are left. Every branch says where it goes
and how the operand stack is reshaped on the way, as operand heights are known before code runs.
A `PlainOp` works on the stack and the store and goes on with the next op; only the other ops change
where execution continues.
-/

namespace WasmEngine

/-- How a branch reshapes the operand stack: the cells on top that it carries along, and the cells
beneath those that it discards. -/
structure Reshape where
  keep : Nat
  drop : Nat
  deriving DecidableEq, Repr

/-- Where a branch goes, and how it reshapes the stack. -/
structure BranchTarget where
  pc : Nat
  reshape : Reshape
  deriving DecidableEq, Repr

/-- An op that is always followed by the next one. -/
inductive PlainOp where
  | drop
  | select
  | localGet (index : Nat)
  | localSet (index : Nat)
  | localTee (index : Nat)
  | globalGet (index : Nat)
  | globalSet (index : Nat)
  | tableGet (table : Nat)
  | tableSet (table : Nat)
  | tableInit (element table : Nat)
  | elemDrop (element : Nat)
  | tableCopy (target source : Nat)
  | tableGrow (table : Nat)
  | tableSize (table : Nat)
  | tableFill (table : Nat)
  | load (op : LoadOp) (offset : Nat)
  | store (op : StoreOp) (offset : Nat)
  | memorySize
  | memoryGrow
  | memoryInit (data : Nat)
  | dataDrop (data : Nat)
  | memoryCopy
  | memoryFill
  | const (cell : Cell)
  | refIsNull
  | refFunc (func : Nat)
  | numeric (op : NumericOp)
  deriving DecidableEq, Repr

/-- An op. `brUnless` skips the first arm of a conditional, and `jump` the second. -/
inductive Op where
  | unreachable
  | br (target : BranchTarget)
  | brIf (target : BranchTarget)
  | brUnless (pc : Nat)
  | jump (pc : Nat)
  | brTable (targets : List BranchTarget) (default : BranchTarget)
  | ret
  | call (func : Nat)
  | callIndirect (type table : Nat)
  | plain (op : PlainOp)
  deriving DecidableEq, Repr

/-- A function body in executable form. `locals` are the declared ones, without parameters. Each op has
the offset in the module of the instruction it stands for, and `maxHeight` is the greatest number of operands that
the body ever has on the stack. -/
structure CompiledBody where
  locals : List ValueType
  ops : Array Op
  offsets : Array Nat
  maxHeight : Nat
  deriving DecidableEq, Repr

/-- The offset in the module of an op. Past the last op it is zero. -/
def CompiledBody.offsetOf (b : CompiledBody) (pc : Nat) : Nat :=
  b.offsets[pc]?.getD 0

/-- The op of an instruction that does nothing but work on the stack and the store. -/
def Instruction.plainOp? : Instruction → Option PlainOp
  | drop => some .drop
  | select | selectTyped _ => some .select
  | localGet x => some (.localGet x)
  | localSet x => some (.localSet x)
  | localTee x => some (.localTee x)
  | globalGet x => some (.globalGet x)
  | globalSet x => some (.globalSet x)
  | tableGet x => some (.tableGet x)
  | tableSet x => some (.tableSet x)
  | tableInit e t => some (.tableInit e t)
  | elemDrop e => some (.elemDrop e)
  | tableCopy t s => some (.tableCopy t s)
  | tableGrow t => some (.tableGrow t)
  | tableSize t => some (.tableSize t)
  | tableFill t => some (.tableFill t)
  | load op arg => some (.load op arg.offset)
  | store op arg => some (.store op arg.offset)
  | memorySize => some .memorySize
  | memoryGrow => some .memoryGrow
  | memoryInit d => some (.memoryInit d)
  | dataDrop d => some (.dataDrop d)
  | memoryCopy => some .memoryCopy
  | memoryFill => some .memoryFill
  | i32Const w => some (.const (Value.i32 w).toCell)
  | i64Const w => some (.const (Value.i64 w).toCell)
  | f32Const w => some (.const (Value.f32 w).toCell)
  | f64Const w => some (.const (Value.f64 w).toCell)
  | refNull t => some (.const (Value.null t).toCell)
  | refIsNull => some .refIsNull
  | refFunc f => some (.refFunc f)
  | numeric op => some (.numeric op)
  | unreachable | nop | block _ | loop _ | if_ _ | else_ | end_ | br _ | brIf _ | brTable .. | return_
  | call _ | callIndirect .. => none

end WasmEngine
