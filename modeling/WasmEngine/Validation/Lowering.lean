import WasmEngine.Validation.Typing

/-!
# From instructions to ops

Code that is known to be well typed is brought into executable form. Blocks leave no ops behind: a branch to
a loop goes back to the op at its start, every other branch goes on to the op behind the end of its block.

`TypedInstruction.lower` walks through the code once. On the way in it knows where the open loops start; on
the way out it knows where the open blocks end (`Landing`). So each target is known when its op is made.
-/

namespace WasmEngine

/-- Where an open block goes on: behind its end, and, for a conditional, at its second arm if there is
one. -/
structure Landing where
  close : Nat
  arm : Option Nat := none
  deriving DecidableEq, Repr

/-- The place reached by a branch: the start of a loop, or the end of any other block. `starts` has an entry
for each open block, the innermost first. -/
def labelTarget (starts : List (Option Nat)) (landings : List Landing) (label : Nat) : Nat :=
  match starts[label]? with
  | some (some pc) => pc
  | _ => (landings[label]?.map (·.close)).getD 0

/-- Leave the innermost block. -/
def leaveBlock {α : Type} (r : α × List Landing) : α × List Landing :=
  (r.1, r.2.tail)

namespace TypedInstruction

/-- The ops of code that starts at the op `pc`, each with the offset of its instruction, and the landings of
the blocks that are open there. -/
def lower (pc : Nat) (starts : List (Option Nat)) :
    List TypedInstruction → List (Nat × Op) × List Landing
  | [] => ([], [])
  | ⟨offset, i, reshapes⟩ :: rest =>
    let emit (op : List Landing → Op) : List (Nat × Op) × List Landing :=
      let (ops, landings) := lower (pc + 1) starts rest
      ((offset, op landings) :: ops, landings)
    let target (landings : List Landing) (label : Nat) (reshape : Reshape) : BranchTarget :=
      ⟨labelTarget starts landings label, reshape⟩
    match i with
    | .nop => lower pc starts rest
    | .block _ => leaveBlock (lower pc (none :: starts) rest)
    | .loop _ => leaveBlock (lower pc (some pc :: starts) rest)
    | .if_ _ =>
      let (ops, landings) := lower (pc + 1) (none :: starts) rest
      let skipped := (landings.head?.map fun l => l.arm.getD l.close).getD 0
      ((offset, .brUnless skipped) :: ops, landings.tail)
    | .else_ =>
      let (ops, landings) := lower (pc + 1) starts rest
      let close := (landings.head?.map (·.close)).getD 0
      ((offset, .jump close) :: ops, ⟨close, some (pc + 1)⟩ :: landings.tail)
    | .end_ =>
      let (ops, landings) := lower pc starts.tail rest
      (ops, ⟨pc, none⟩ :: landings)
    | .unreachable => emit fun _ => .unreachable
    | .br label => emit fun ls => .br (target ls label (reshapes.headD ⟨0, 0⟩))
    | .brIf label => emit fun ls => .brIf (target ls label (reshapes.headD ⟨0, 0⟩))
    | .brTable labels default => emit fun ls =>
      .brTable (List.zipWith (target ls) labels reshapes)
        (target ls default (reshapes.getLastD ⟨0, 0⟩))
    | .return_ => emit fun _ => .ret
    | .call f => emit fun _ => .call f
    | .callIndirect type table => emit fun _ => .callIndirect type table
    | i =>
      match i.plainOp? with
      | some op => emit fun _ => .plain op
      | none => lower pc starts rest

end TypedInstruction

/-- The executable form of a whole body. Behind its code comes a return, on which branches out of the function
land; it stands for the `end` of the body. -/
def CompiledBody.ofTyped (locals : List ValueType) (code : List TypedInstruction) (peak : Nat) :
    CompiledBody :=
  let close := (code.getLast?.map (·.offset)).getD 0
  let ops := (TypedInstruction.lower 0 [none] code).1 ++ [(close, Op.ret)]
  { locals
    ops := (ops.map (·.2)).toArray
    offsets := (ops.map (·.1)).toArray
    maxHeight := peak }

/-- Check a body of a function with this index and bring it into executable form. What is found to be wrong
in the code is reported with the index and with the offset of the instruction. -/
def FunctionBody.compile (c : Context) (func : Nat) (body : FunctionBody) :
    Except Error CompiledBody :=
  match c.func func with
  | .error fault => .error (.ofFault (.validation fault))
  | .ok type =>
    match Typing.run c (type.params ++ body.locals) body.offset (.start type.results) body.code with
    | .error (fault, offset) =>
      .error (.failure ⟨.validation fault, { offset := some offset, func := some func }⟩)
    | .ok (typed, peak) => .ok (.ofTyped body.locals typed peak)

end WasmEngine
