import WasmEngine.Machine.Step

/-!
# Structured execution

What running code means before blocks are gone: a frame goes through the instructions of its body as they were
read, and keeps a stack of labels, one for each block that is open. A branch finds its label on that stack. The
values that the label asks for are carried along, everything else above the label's height is discarded, and
execution goes on at the start of a loop, or behind the end of any other block.

Structured frames run in the same machine as those with executable bodies do (`Activation`), and are paid for in the
same way: opening a block, closing one and `nop` cost nothing.
-/

namespace WasmEngine

/-! ### Blocks in a sequence of instructions -/

namespace Instruction

/-- The code behind the end of a block: `depth` is the number of blocks that are open within it. -/
def behind : (depth : Nat) → List (Nat × Instruction) → List (Nat × Instruction)
  | _, [] => []
  | depth, (_, i) :: rest => match i with
    | .block _ | .loop _ | .if_ _ => behind (depth + 1) rest
    | .end_ => match depth with
      | 0 => rest
      | depth + 1 => behind depth rest
    | _ => behind depth rest

/-- The second arm of a conditional whose first arm one is in, if there is one. -/
def secondArm : (depth : Nat) → List (Nat × Instruction) → Option (List (Nat × Instruction))
  | _, [] => none
  | depth, (_, i) :: rest => match i with
    | .block _ | .loop _ | .if_ _ => secondArm (depth + 1) rest
    | .else_ => match depth with
      | 0 => some rest
      | depth + 1 => secondArm (depth + 1) rest
    | .end_ => match depth with
      | 0 => none
      | depth + 1 => secondArm depth rest
    | _ => secondArm depth rest

end Instruction

/-- The signature of a block. -/
def RawModule.blockType (m : RawModule) : BlockType → FuncType
  | .empty => ⟨[], []⟩
  | .value t => ⟨[], [t]⟩
  | .index i => m.types[i]?.getD ⟨[], []⟩

/-- The body of a function as it was read, unless the function is imported. -/
def RawModule.source? (m : RawModule) (func : Nat) : Option FunctionBody :=
  let imported := m.importedCount .func
  if func < imported then none else m.bodies[func - imported]?

/-- The topmost cells on top of those below a height. What is in between is gone. -/
def Stack.unwind (s : Stack) (height count : Nat) : Stack :=
  ⟨s.cells.shrink height ++ s.cells.extract (s.height - count)⟩

/-! ### Labels -/

/-- An open block: whether it is a loop, how many values a branch to it carries, how high the stack is beneath its
own operands, and the code that a branch to it goes on with. -/
structure Label where
  loops : Bool
  arity : Nat
  height : Nat
  continuation : List (Nat × Instruction)

/-- The label of a loop, whose parameters are on the stack. -/
def Label.loop (type : FuncType) (height : Nat) (rest : List (Nat × Instruction)) : Label where
  loops := true
  arity := type.params.length
  height := height - type.params.length
  continuation := rest

/-- The label of another block, whose parameters are on the stack. -/
def Label.block (type : FuncType) (height : Nat) (rest : List (Nat × Instruction)) : Label where
  loops := false
  arity := type.results.length
  height := height - type.params.length
  continuation := Instruction.behind 0 rest

/-- An active function: the code that lies ahead, the labels of the open blocks, the innermost first, and the offset of
the end of its body. -/
structure StructuredFrame extends Scope where
  code : List (Nat × Instruction)
  labels : List Label
  close : Nat

namespace StructuredFrame

/-! ### Execution -/

/-- Pass over `nop` and over the starts and ends of blocks, with a stack of a height. -/
def settle (m : RawModule) (height : Nat) :
    List (Nat × Instruction) → List Label → List (Nat × Instruction) × List Label
  | [], labels => ([], labels)
  | (offset, i) :: rest, labels => match i with
    | .nop => settle m height rest labels
    | .block type => settle m height rest (.block (m.blockType type) height rest :: labels)
    | .loop type => settle m height rest (.loop (m.blockType type) height rest :: labels)
    | .end_ => settle m height rest labels.tail
    | _ => ((offset, i) :: rest, labels)

/-- The frame of a function that starts. -/
def start (f : WasmFunc) (body : CompiledBody) (base : Nat) : StructuredFrame :=
  let code := ((f.module.source? f.index).map (·.code)).getD []
  { toScope := .start f base
    code
    labels := [.block ⟨[], f.type.results⟩ (base + f.type.params.length + body.locals.length) code]
    close := (code.getLast?.map (·.1)).getD 0 }

/-- The frame's line in a stack trace. -/
def trace (f : StructuredFrame) : TraceFrame :=
  let (code, _) := settle f.module.toRawModule 0 f.code f.labels
  ⟨f.func, f.module.funcName? f.func, (code.head?.map (·.1)).getD f.close⟩

/-- The frame with other code ahead. -/
def goto (f : StructuredFrame) (code : List (Nat × Instruction)) : StructuredFrame := { f with code }

section

variable {σ : Type}

open Exec

/-- Return: the results take the place of everything above the function's base. -/
def leave (f : StructuredFrame) : Exec σ (Transfer StructuredFrame) := do
  modify fun r =>
    { store := { r.store with stats := r.store.stats.record 0 r.stack.height }
      stack := r.stack.unwind f.base f.results }
  return .ret

/-- Branch to a label. A branch to a loop stays within it, and polls the interrupt flag. -/
def branch (f : StructuredFrame) (label : Nat) : Exec σ (Transfer StructuredFrame) :=
  match f.labels.drop label with
  | [] => throw (.ofFault (.runtime .pastEnd))
  | l :: outer => do
    changeStack (·.unwind l.height l.arity)
    if l.loops then
      onStore Store.pollInterrupt
      return .go { f with code := l.continuation, labels := l :: outer }
    else return .go { f with code := l.continuation, labels := outer }

/-- Run an instruction, with the code behind it. -/
def run (f : StructuredFrame) (rest : List (Nat × Instruction)) :
    Instruction → Exec σ (Transfer StructuredFrame)
  | .unreachable => trap .unreachable
  | .if_ type => do
    let condition ← popNat
    let label := .block (f.module.blockType type) (← get).stack.height rest
    if condition = 0 then match Instruction.secondArm 0 rest with
      | some arm => return .go { f with code := arm, labels := label :: f.labels }
      | none => return .go (f.goto (Instruction.behind 0 rest))
    else return .go { f with code := rest, labels := label :: f.labels }
  | .else_ => return .go { f with code := Instruction.behind 0 rest, labels := f.labels.tail }
  | .br label => f.branch label
  | .brIf label => do if (← popNat) ≠ 0 then f.branch label else return .go (f.goto rest)
  | .brTable labels default => do
    let index ← popNat
    f.branch (labels[index]?.getD default)
  | .return_ => f.leave
  | .call x => return .call (← funcAddr f.toScope x) f
  | .callIndirect type table => return .call (← indirectCallee f.toScope type table) f
  | i => match i.plainOp? with
    | some op => do
      op.exec f.toScope
      return .go (f.goto rest)
    | none => return .go (f.goto rest)

/-- Run the instruction in front. At the end of the code, the function returns. -/
def front (f : StructuredFrame) : Exec σ (Transfer StructuredFrame) :=
  match f.code with
  | [] => f.leave
  | (_, i) :: rest => f.run rest i

/-- Come to rest, and run the instruction in front, which is paid for. -/
def exec (f : StructuredFrame) : Exec σ (Transfer StructuredFrame) := do
  let _ ← instanceOf f.toScope
  let (code, labels) := settle f.module.toRawModule (← get).stack.height f.code f.labels
  onStore Store.charge
  { f with code, labels }.front

end

instance : Activation StructuredFrame where
  start := start
  instance_ f := f.instance_
  trace := trace
  exec := exec
  resume f := f.goto f.code.tail

end StructuredFrame

end WasmEngine
