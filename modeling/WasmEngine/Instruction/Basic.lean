import WasmEngine.Instruction.Access

/-!
# Instructions

An `Instruction` as a module holds it: structured control, whose blocks are closed by `end`, and the
plain instructions, which only work on the stack and the store. Indices are natural numbers; what they
may refer to is for validation to say.
-/

namespace WasmEngine

/-- The signature of a block: from nothing to at most one value, or any signature of the module. -/
inductive BlockType where
  | empty
  | value (type : ValueType)
  | index (type : Nat)
  deriving DecidableEq, Repr

/-- An instruction of a function body. -/
inductive Instruction where
  | unreachable
  | nop
  | block (type : BlockType)
  | loop (type : BlockType)
  | if_ (type : BlockType)
  | else_
  | end_
  | br (label : Nat)
  | brIf (label : Nat)
  | brTable (labels : List Nat) (default : Nat)
  | return_
  | call (func : Nat)
  | callIndirect (type table : Nat)
  | drop
  | select
  | selectTyped (type : ValueType)
  | localGet (index : Nat)
  | localSet (index : Nat)
  | localTee (index : Nat)
  | globalGet (index : Nat)
  | globalSet (index : Nat)
  | tableGet (table : Nat)
  | tableSet (table : Nat)
  | tableInit (element table : Nat)
  | elemDrop (element : Nat)
  | tableCopy (target source : Nat)
  | tableGrow (table : Nat)
  | tableSize (table : Nat)
  | tableFill (table : Nat)
  | load (op : LoadOp) (arg : MemArg)
  | store (op : StoreOp) (arg : MemArg)
  | memorySize
  | memoryGrow
  | memoryInit (data : Nat)
  | dataDrop (data : Nat)
  | memoryCopy
  | memoryFill
  | i32Const (word : BitVec 32)
  | i64Const (word : BitVec 64)
  | f32Const (word : BitVec 32)
  | f64Const (word : BitVec 64)
  | refNull (type : RefType)
  | refIsNull
  | refFunc (func : Nat)
  | numeric (op : NumericOp)
  deriving DecidableEq, Repr

/-- Whether an instruction opens a block. -/
def Instruction.opensBlock : Instruction → Bool
  | block _ | loop _ | if_ _ => true
  | _ => false

end WasmEngine
