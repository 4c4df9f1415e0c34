import WasmEngine.Instruction.Evaluation
import WasmEngine.Machine.Stack
import WasmEngine.Store.Instantiate

/-!
# Running single ops

What one op does in a frame: to the operand stack, to the store, and to where execution goes on (`Flow`).
`PlainOp.exec` is for the ops that are always followed by the next one, `Op.exec` for all of them.

A trap leaves the stack wherever the op had got to, and memories, tables, globals and segments as they were
before it.
-/

namespace WasmEngine

/-- What surrounds the code of an active WebAssembly function: its module, its index there, the address of its
instance, where its locals begin on the operand stack, and how many results it returns. -/
structure Scope where
  module : Module
  func : Nat
  instance_ : Nat
  base : Nat
  results : Nat

/-- An active WebAssembly function, with its body and the op it is at. A frame that waits is at the op that made the
call. -/
structure Frame extends Scope where
  body : CompiledBody
  pc : Nat

/-- The frame's line in a stack trace. -/
def Frame.trace (f : Frame) : TraceFrame :=
  ⟨f.func, f.module.funcName? f.func, f.body.offsetOf f.pc⟩

/-- The store and the operand stack that an op works on. -/
structure Running (σ : Type) where
  store : Store σ
  stack : Stack

/-- Computations of running code. -/
abbrev Exec (σ : Type) := EStateM Error (Running σ)

/-- Where execution goes on behind an op. -/
inductive Flow where
  | next
  | goto (pc : Nat)
  | call (addr : Nat)
  | ret
  deriving DecidableEq, Repr

namespace Exec

variable {σ α : Type}

/-- Pop a cell. -/
def pop : Exec σ Cell :=
  modifyGet fun r => (r.stack.top, { r with stack := r.stack.pop })

/-- Pop a word of 32 bits, as a number. -/
def popNat : Exec σ Nat := return ((← pop).setWidth 32).toNat

/-- Push a cell. -/
def push (c : Cell) : Exec σ Unit :=
  modify fun r => { r with stack := r.stack.push c }

/-- Push a word of 32 bits. -/
def pushNat (n : Nat) : Exec σ Unit := push ((BitVec.ofNat 32 n).setWidth 64)

/-- Change the stack. -/
def changeStack (change : Stack → Stack) : Exec σ Unit :=
  modify fun r => { r with stack := change r.stack }

/-- Change the store. -/
def changeStore (change : Store σ → Store σ) : Exec σ Unit :=
  modify fun r => { r with store := change r.store }

/-- An operation on the store. -/
def onStore (act : StoreM σ α) : Exec σ α := fun ⟨store, stack⟩ =>
  match act store with
  | .ok a store => .ok a ⟨store, stack⟩
  | .error e store => .error e ⟨store, stack⟩

/-- Trap. -/
def trap (code : TrapCode) : Exec σ α := throw (.ofCode code)

/-- What a computation gives, or its trap. -/
def orTrap : Except TrapCode α → Exec σ α
  | .ok a => pure a
  | .error code => trap code

/-- The error of an index that refers to nothing. -/
def missing (entity : RuntimeEntity) (index : Nat) : Error :=
  .ofFault (.runtime (.unknown entity index))

/-- What an index refers to, or the error that there is nothing. -/
def known (entity : RuntimeEntity) (index : Nat) : Option α → Exec σ α
  | some a => pure a
  | none => throw (missing entity index)

/-- The instance of a function. -/
def instanceOf (f : Scope) : Exec σ ModuleInstance := do
  known .instance_ f.instance_ (← get).store.instances[f.instance_]?

/-- The address of a function of the function's instance. -/
def funcAddr (f : Scope) (index : Nat) : Exec σ Nat := do
  known .func index (← instanceOf f).funcs[index]?

/-- The address of a table of the function's instance. -/
def tableAddr (f : Scope) (index : Nat) : Exec σ Nat := do
  known .table index (← instanceOf f).tables[index]?

/-- The address of a global of the function's instance. -/
def globalAddr (f : Scope) (index : Nat) : Exec σ Nat := do
  known .global index (← instanceOf f).globals[index]?

/-- The address of the first memory of the function's instance. -/
def memoryAddr (f : Scope) : Exec σ Nat := do
  known .memory 0 (← instanceOf f).memories[0]?

/-- The table at an address. -/
def tableAt (addr : Nat) : Exec σ Table := do
  known .table addr (← get).store.tables[addr]?

/-- The first memory of the function's instance. -/
def memoryOf (f : Scope) : Exec σ Memory := do
  let addr ← memoryAddr f
  return (← known .memory 0 (← get).store.memories[addr]?).memory

/-- Change the table at an address. -/
def onTable (addr : Nat) (act : EStateM TrapCode Table α) : Exec σ α :=
  onStore (Store.onTable addr (missing .table addr) .ofCode act)

/-- Change the first memory of the function's instance. -/
def onMemory (f : Scope) (act : EStateM TrapCode Memory α) : Exec σ α := do
  let addr ← memoryAddr f
  onStore (Store.onMemory addr (missing .memory 0) .ofCode act)

end Exec

/-- Grow a table or a memory: the size before, or all ones if there is no room. -/
def growthResult : Option Nat → Nat
  | some old => old
  | none => 0xFFFFFFFF

/-- Grow a memory. Gives the size before, or nothing if there is no room. -/
def Memory.grow? (delta : Nat) : EStateM TrapCode Memory (Option Nat) := fun m =>
  match Memory.grow delta m with
  | .ok old m => .ok (some old) m
  | .error _ m => .ok none m

open Exec in
/-- What a plain op does in an active function. -/
def PlainOp.exec {σ : Type} (f : Scope) : PlainOp → Exec σ Unit
  | drop => do
    let _ ← pop
  | select => do
    let condition ← popNat
    let second ← pop
    let first ← pop
    push (if condition ≠ 0 then first else second)
  | localGet x => do push ((← get).stack.get (f.base + x))
  | localSet x => do
    let c ← pop
    changeStack (·.set (f.base + x) c)
  | localTee x => changeStack fun s => s.set (f.base + x) s.top
  | globalGet x => do
    let addr ← globalAddr f x
    let g ← known .global x (← get).store.globals[addr]?
    push g.cell
  | globalSet x => do
    let addr ← globalAddr f x
    let c ← pop
    let _ ← known .global x (← get).store.globals[addr]?
    changeStore (Store.setGlobalCell addr c)
  | tableGet x => do
    let addr ← tableAddr f x
    let index ← popNat
    push (← orTrap ((← tableAt addr).get index))
  | tableSet x => do
    let addr ← tableAddr f x
    let c ← pop
    let index ← popNat
    onTable addr (Table.set index c)
  | tableSize x => do
    let addr ← tableAddr f x
    pushNat (← tableAt addr).size
  | tableGrow x => do
    let addr ← tableAddr f x
    let delta ← popNat
    let c ← pop
    pushNat (growthResult (← onTable addr (Table.grow delta c)))
  | tableFill x => do
    let addr ← tableAddr f x
    let length ← popNat
    let c ← pop
    let start ← popNat
    onTable addr (Table.fill start c length)
  | tableCopy target source => do
    let targetAddr ← tableAddr f target
    let sourceAddr ← tableAddr f source
    let length ← popNat
    let start ← popNat
    let dest ← popNat
    if targetAddr = sourceAddr then onTable targetAddr (Table.copyWithin dest start length)
    else
      let items ← orTrap ((← tableAt sourceAddr).slice start length)
      onTable targetAddr (Table.init dest items 0 length)
  | tableInit element table => do
    let addr ← tableAddr f table
    let items ← known .element element (← instanceOf f).elements[element]?
    let length ← popNat
    let start ← popNat
    let dest ← popNat
    onTable addr (Table.init dest items start length)
  | elemDrop x => changeStore (Store.dropElement f.instance_ x)
  | load op offset => do
    let start := (← popNat) + offset
    push (op.extend (← orTrap ((← memoryOf f).load start op.width)))
  | store op offset => do
    let c ← pop
    let start := (← popNat) + offset
    onMemory f (Memory.store start op.width c)
  | memorySize => do pushNat (← memoryOf f).pages
  | memoryGrow => do
    let delta ← popNat
    pushNat (growthResult (← onMemory f (Memory.grow? delta)))
  | memoryInit x => do
    let segment ← known .data x (← instanceOf f).data[x]?
    let length ← popNat
    let start ← popNat
    let dest ← popNat
    onMemory f (Memory.init dest segment start length)
  | dataDrop x => changeStore (Store.dropData f.instance_ x)
  | memoryCopy => do
    let length ← popNat
    let start ← popNat
    let dest ← popNat
    onMemory f (Memory.copy dest start length)
  | memoryFill => do
    let length ← popNat
    let byte ← popNat
    let start ← popNat
    onMemory f (Memory.fill start (UInt8.ofNat byte) length)
  | const c => push c
  | refIsNull => do
    let c ← pop
    pushNat (if c = 0 then 1 else 0)
  | refFunc x => do
    let addr ← funcAddr f x
    push (BitVec.ofNat 64 (addr + 1))
  | numeric op => do
    if op.isUnary then
      let c ← pop
      push (← orTrap (op.eval c 0))
    else
      let right ← pop
      let left ← pop
      push (← orTrap (op.eval left right))

namespace Exec

variable {σ : Type}

/-- Take a branch. One that does not go forward polls the interrupt flag. -/
def branch (f : Frame) (t : BranchTarget) : Exec σ Flow := do
  changeStack (·.reshape t.reshape)
  if t.pc ≤ f.pc then onStore Store.pollInterrupt
  return .goto t.pc

/-- The function that a table has at the index on the stack, if its signature is the one expected. -/
def indirectCallee (f : Scope) (type table : Nat) : Exec σ Nat := do
  let addr ← tableAddr f table
  let index ← popNat
  match (← tableAt addr).get index with
  | .error _ => trap .undefinedElement
  | .ok c => match c.toRef with
    | none => trap .uninitializedElement
    | some callee =>
      let expected ← known .type type f.module.types[type]?
      let entity ← known .func callee.toNat (← get).store.funcs[callee.toNat]?
      if entity.type = expected then return callee.toNat else trap .indirectCallTypeMismatch

/-- Leave nothing above the function's base but its results. -/
def leave (f : Scope) : Exec σ Unit := do
  modify fun r =>
    let height := r.stack.height
    { store := { r.store with stats := r.store.stats.record 0 height }
      stack := r.stack.reshape ⟨f.results, height - (f.base + f.results)⟩ }

end Exec

open Exec in
/-- What an op does in a frame. -/
def Op.exec {σ : Type} (f : Frame) : Op → Exec σ Flow
  | unreachable => trap .unreachable
  | br t => branch f t
  | brIf t => do if (← popNat) ≠ 0 then branch f t else return .next
  | brUnless pc => do if (← popNat) = 0 then return .goto pc else return .next
  | jump pc => return .goto pc
  | brTable targets default => do
    let index ← popNat
    branch f (targets[index]?.getD default)
  | ret => do
    leave f.toScope
    return .ret
  | call x => return .call (← funcAddr f.toScope x)
  | callIndirect type table => return .call (← indirectCallee f.toScope type table)
  | plain op => do
    op.exec f.toScope
    return .next

/-- Count an op and pay for it. -/
def Store.charge {σ : Type} : StoreM σ Unit := fun s =>
  let s := { s with stats.opsExecuted := s.stats.opsExecuted + 1 }
  match s.fuel with
  | none => .ok () s
  | some 0 => .error (.ofCode .outOfFuel) s
  | some (n + 1) => .ok () { s with fuel := some n }

open Exec in
/-- Run the op that a frame is at. -/
def Frame.exec {σ : Type} (f : Frame) : Exec σ Flow := do
  let _ ← instanceOf f.toScope
  match f.body.ops[f.pc]? with
  | none => throw (.ofFault (.runtime .pastEnd))
  | some op =>
    onStore Store.charge
    op.exec f

end WasmEngine
