import WasmEngine.Code.Op
import WasmEngine.Validation.Context

/-!
# Typing of code

One pass over the instructions of a body keeps the types of the operands on the stack, one list for each
block that is open. Behind an instruction that never goes on, the operands of its block are gone, and what is
popped beyond that has an unknown type, which fits everything.

Since the types on the stack are known at each instruction, so is its height. `Typing.step` therefore also
says how each branch reshapes the stack, and `peak` is the greatest height there ever was.
-/

namespace WasmEngine

/-- The type of an operand, or nothing if it is unknown. -/
abbrev Operand := Option ValueType

/-- What opened a block: the body itself, `block`, `loop`, `if`, or the `else` that took the place of an
`if`. -/
inductive FrameKind where
  | body
  | block
  | loop
  | ifArm
  | elseArm
  deriving DecidableEq, Repr

/-- An open block: what opened it, its signature, how many operands lie below its own, these, the topmost
first, and whether the current instruction cannot be reached. -/
structure ControlFrame where
  kind : FrameKind
  type : FuncType
  base : Nat
  operands : List Operand
  unreachable : Bool
  deriving DecidableEq, Repr

/-- The types of what a branch to the block carries. -/
def ControlFrame.labelTypes (f : ControlFrame) : List ValueType :=
  if f.kind = .loop then f.type.params else f.type.results

/-- The open blocks, and the greatest height of the stack so far. -/
structure Typing where
  frame : ControlFrame
  outer : List ControlFrame
  peak : Nat
  deriving DecidableEq, Repr

/-- What an instruction leads to: the typing behind it together with the reshapes of its branches, or the end
of the body with the greatest height of the stack. -/
inductive Typing.Progress where
  | next (typing : Typing) (reshapes : List Reshape)
  | closed (peak : Nat)
  deriving DecidableEq, Repr

namespace Typing

/-- The typing at the start of a function with these results. -/
def start (results : List ValueType) : Typing where
  frame := ⟨.body, ⟨[], results⟩, 0, [], false⟩
  outer := []
  peak := 0

/-- How many operands there are. -/
def height (t : Typing) : Nat := t.frame.base + t.frame.operands.length

/-! ### Operands -/

/-- Push an operand. -/
def push (o : Operand) (t : Typing) : Typing :=
  { t with
    frame.operands := o :: t.frame.operands
    peak := max t.peak (t.height + 1) }

/-- Push operands, the deepest first. -/
def pushAll (types : List ValueType) (t : Typing) : Typing :=
  types.foldl (fun t type => t.push (some type)) t

/-- Pop an operand of the innermost block. -/
def pop (t : Typing) : Except ValidationFault (Operand × Typing) :=
  match t.frame.operands with
  | o :: rest => .ok (o, { t with frame.operands := rest })
  | [] => if t.frame.unreachable then .ok (none, t) else .error (.clash .underflow)

/-- Pop an operand of a type. -/
def expect (type : ValueType) (t : Typing) : Except ValidationFault Typing := do
  let (o, t) ← t.pop
  match o with
  | none => return t
  | some found => if found = type then return t else throw (.clash (.operand type found))

/-- Pop operands of these types, the last of which is on top. -/
def popAll (types : List ValueType) (t : Typing) : Except ValidationFault Typing :=
  types.foldrM expect t

/-- Pop operands and push others. -/
def apply (type : FuncType) (t : Typing) : Except ValidationFault Typing := do
  return (← t.popAll type.params).pushAll type.results

/-- Nothing behind the current instruction is reached within the block. -/
def setUnreachable (t : Typing) : Typing :=
  { t with frame.operands := [], frame.unreachable := true }

/-! ### Blocks -/

/-- Open a block. -/
def enter (kind : FrameKind) (type : FuncType) (t : Typing) : Except ValidationFault Typing := do
  let t ← t.popAll type.params
  return { t with
    frame := ⟨kind, type, t.height, [], false⟩
    outer := t.frame :: t.outer }.pushAll type.params

/-- The operands of the innermost block are its results, and nothing else. -/
def checkResults (t : Typing) : Except ValidationFault Typing := do
  let t ← t.popAll t.frame.type.results
  if t.frame.operands.isEmpty then return t
  else throw (.clash (.leftOver t.frame.operands.length))

/-- Go on with the second arm of a conditional. -/
def switch (t : Typing) : Except ValidationFault Typing := do
  if t.frame.kind ≠ .ifArm then throw (.nesting .strayElse)
  else
    let t ← t.checkResults
    return { t with frame.kind := .elseArm, frame.unreachable := false }.pushAll t.frame.type.params

/-- Close the innermost block. A conditional without a second arm leaves its parameters as they are. -/
def close (t : Typing) : Except ValidationFault Progress := do
  let t ← t.checkResults
  let type := t.frame.type
  if t.frame.kind = .ifArm ∧ type.params ≠ type.results then throw (.clash .missingElse)
  else match t.outer with
    | [] => return .closed (max t.peak type.results.length)
    | frame :: outer => return .next ({ t with frame, outer }.pushAll type.results) []

/-- How a branch reshapes the stack as it is, and the types of what it carries. -/
def branch (label : Nat) (t : Typing) : Except ValidationFault (Reshape × List ValueType) :=
  match (t.frame :: t.outer)[label]? with
  | none => .error (.unknownLabel label)
  | some target =>
    let keep := target.labelTypes.length
    .ok (⟨keep, t.height - (target.base + keep)⟩, target.labelTypes)

/-- The branches of a table. Every label has to accept the operands, which stay where they are, and carries
as many as the default. -/
def branches (arity : Nat) : List Nat → Typing → Except ValidationFault (List Reshape × Typing)
  | [], t => return ([], t)
  | label :: labels, t => do
    let (reshape, types) ← t.branch label
    if types.length ≠ arity then throw (.clash .branchArity)
    else
      let t ← t.apply ⟨types, types⟩
      let (reshapes, t) ← branches arity labels t
      return (reshape :: reshapes, t)

/-! ### Instructions -/

/-- Two numbers of the same type and a condition become one of the numbers. -/
def select (t : Typing) : Except ValidationFault Typing := do
  let t ← t.expect .i32
  let (first, t) ← t.pop
  let (second, t) ← t.pop
  if first.any (·.isRef) || second.any (·.isRef) then throw (.clash .selectReference)
  else match first, second with
    | some a, some b =>
      if a = b then return t.push first else throw (.clash (.selectOperands b a))
    | some _, none => return t.push first
    | none, _ => return t.push second

/-- A reference of any type becomes a number. -/
def refIsNull (t : Typing) : Except ValidationFault Typing := do
  let (o, t) ← t.pop
  match o with
  | some (.ref _) | none => return t.push (some .i32)
  | some type => throw (.clash (.reference type))

/-- The types of what the function returns. -/
def results (t : Typing) : List ValueType :=
  (t.outer.getLastD t.frame).type.results

/-- Check one instruction. -/
def step (c : Context) (locals : List ValueType) (t : Typing) :
    Instruction → Except ValidationFault Progress
  | .unreachable => return .next t.setUnreachable []
  | .block type => do
    return .next (← t.enter .block (← c.blockType type)) []
  | .loop type => do
    return .next (← t.enter .loop (← c.blockType type)) []
  | .if_ type => do
    let t ← t.expect .i32
    return .next (← t.enter .ifArm (← c.blockType type)) []
  | .else_ => return .next (← t.switch) []
  | .end_ => t.close
  | .br label => do
    let (reshape, types) ← t.branch label
    return .next (← t.popAll types).setUnreachable [reshape]
  | .brIf label => do
    let t ← t.expect .i32
    let (reshape, types) ← t.branch label
    return .next (← t.apply ⟨types, types⟩) [reshape]
  | .brTable labels default => do
    let t ← t.expect .i32
    let (reshape, types) ← t.branch default
    let (reshapes, t) ← branches types.length labels t
    return .next (← t.popAll types).setUnreachable (reshapes ++ [reshape])
  | .return_ => do
    return .next (← t.popAll t.results).setUnreachable []
  | .drop => do
    let (_, t) ← t.pop
    return .next t []
  | .select => return .next (← t.select) []
  | .refIsNull => return .next (← t.refIsNull) []
  | i => do
    return .next (← t.apply (← c.signature locals i)) []

end Typing

/-- An instruction that was found to be well typed, with its offset and the reshapes of its branches. -/
structure TypedInstruction where
  offset : Nat
  instruction : Instruction
  reshapes : List Reshape
  deriving DecidableEq, Repr

namespace Typing

/-- Check instructions up to the end of a body, which is the end of the list. Gives the greatest height of the
stack, or a fault with the offset it was found at; `last` is the offset of the instruction before. -/
def run (c : Context) (locals : List ValueType) (last : Nat) :
    Typing → List (Nat × Instruction) → Except (ValidationFault × Nat) (List TypedInstruction × Nat)
  | _, [] => throw (.nesting .missingEnd, last)
  | t, (offset, i) :: rest =>
    match t.step c locals i with
    | .error fault => throw (fault, offset)
    | .ok (.next t reshapes) => do
      let (typed, peak) ← run c locals offset t rest
      return (⟨offset, i, reshapes⟩ :: typed, peak)
    | .ok (.closed peak) =>
      match rest with
      | [] => return ([⟨offset, i, []⟩], peak)
      | (next, _) :: _ => throw (.nesting .afterEnd, next)

end Typing

end WasmEngine
