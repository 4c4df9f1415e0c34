import WasmEngine.Proofs.Binary.Bodies
import WasmEngine.Proofs.Structured.Forward
import WasmEngine.Proofs.Structured.Matching
import WasmEngine.Proofs.Validation.Proposals

/-!
# Where the instructions of ops stand

Ops and instructions are not one to one: blocks leave no ops behind, and the return behind the code of a body stands for
its `end`. So an op is found in the code as it was read by counting the ops of the instructions before it
(`TypedBody.Of.stands`). What is there is the instruction that the op was made of (`Op.Of`), and the offset that is kept
with the op is the one at which the instruction stands in the bytes of the module, whatever bytes the module was read
from (`Module.instruction_at`).
-/

namespace WasmEngine

/-! ### Ops and instructions -/

/-- **The op is made of an instruction**, wherever its branches go. A return is a `return`, or the `end` of a body. -/
def Op.Of (i : Instruction) : Op → Prop
  | .unreachable => i = .unreachable
  | .br _ => ∃ label, i = .br label
  | .brIf _ => ∃ label, i = .brIf label
  | .brUnless _ => ∃ type, i = .if_ type
  | .jump _ => i = .else_
  | .brTable .. => ∃ labels default, i = .brTable labels default
  | .ret => i = .return_ ∨ i = .end_
  | .call x => i = .call x
  | .callIndirect type table => i = .callIndirect type table
  | .plain op => i.plainOp? = some op

theorem TypedInstruction.lower_of {pc : Nat} {starts : List (Option Nat)} {x : TypedInstruction}
    {rest : List TypedInstruction} (hwidth : x.instruction.width = 1) {offset : Nat} {op : Op} {ops : List (Nat × Op)}
    (h : (lower pc starts (x :: rest)).1 = (offset, op) :: ops) : op.Of x.instruction := by
  obtain ⟨offset', i, reshapes⟩ := x
  cases i with
  | nop | block | loop | end_ => nomatch hwidth
  | br label | brIf label => cases h; exact ⟨label, rfl⟩
  | if_ type => cases h; exact ⟨type, rfl⟩
  | brTable labels default => cases h; exact ⟨labels, default, rfl⟩
  | return_ => cases h; exact .inl rfl
  | _ => cases h; rfl

/-! ### Bodies -/

/-- Code that was checked ends with an `end`. -/
theorem Typing.Checks.ends {c : Context} {locals : List ValueType} {t : Typing} {code : List TypedInstruction}
    {peak : Nat} (h : t.Checks c locals code peak) : ∃ before offset, code = before ++ [⟨offset, .end_, []⟩] := by
  induction h with
  | last => exact ⟨[], _, rfl⟩
  | @next _ _ x _ _ _ _ ih =>
    obtain ⟨before, offset, rfl⟩ := ih
    exact ⟨x :: before, offset, rfl⟩

namespace TypedBody

variable {b : TypedBody}

/-- The number of ops of a body. -/
theorem length_ops (b : TypedBody) : b.ops.length = (b.code.map (·.instruction.width)).sum :=
  length_lower 0 [none] b.code

/-- The op that comes next at a spot is told by the instructions before. -/
theorem Visits.pc_eq {p : Spot} (hv : b.Visits p) {before : List TypedInstruction} (hcode : b.code = before ++ p.code) :
    p.pc = (before.map (·.instruction.width)).sum := by
  have hsum := hv.sum_width
  rw [b.length_ops, hcode, List.map_append, List.sum_append] at hsum
  omega

theorem sum_width_erase (code : List TypedInstruction) :
    ((code.map (·.erase)).map (·.2.width)).sum = (code.map (·.instruction.width)).sum := by
  rw [List.map_map]
  rfl

variable {m : Module} {features : Features} {func pc : Nat} {body : CompiledBody} {op : Op}

/-- **What an op stands for**, at the offset that is kept for it: the `end` behind which the body returns, or an
instruction at a spot. -/
theorem Of.op_at (h : b.Of m features func body) (hop : body.ops[pc]? = some op) :
    (∃ before, b.code = before ++ [⟨body.offsetOf pc, .end_, []⟩] ∧ op = .ret ∧ pc = b.ops.length) ∨
      ∃ p before x rest ops, b.Visits p ∧ p.pc = pc ∧ p.code = x :: rest ∧ b.code = before ++ x :: rest ∧
        x.instruction.width = 1 ∧ x.offset = body.offsetOf pc ∧
        (TypedInstruction.lower p.pc p.starts (x :: rest)).1 = (x.offset, op) :: ops := by
  rcases h.op_cases hop with ⟨rfl, rfl⟩ | ⟨p, x, rest, offset, ops, hv, rfl, hp, hwidth, hlower⟩
  · obtain ⟨before, offset, hends⟩ := b.checks.ends
    have hclose : b.close = offset := by rw [TypedBody.close, hends, List.getLast?_concat]; rfl
    exact .inl ⟨before, by rw [h.close, hclose]; exact hends, rfl, rfl⟩
  · obtain ⟨before, hbefore⟩ := hv.suffix
    obtain ⟨op', ops', hlower'⟩ := TypedInstruction.lower_op p.pc p.starts x rest hwidth
    have hoffset : body.offsetOf p.pc = x.offset := h.op (hv.op (hp ▸ hlower'))
    rw [hp, hlower'] at hlower
    cases hlower
    exact .inr ⟨p, before, x, rest, ops, hv, rfl, hp, hp ▸ hbefore.symm, hwidth, hoffset.symm, hlower'⟩

/-- **An op is found in the code as it was read** behind the instructions whose ops come before it. There its
instruction stands, with the offset that is kept for the op. -/
theorem Of.stands (h : b.Of m features func body) (hop : body.ops[pc]? = some op) :
    ∃ source before i after, m.source? func = some source ∧ source.code = before ++ (body.offsetOf pc, i) :: after ∧
      pc = (before.map (·.2.width)).sum ∧ (i.width = 1 ∨ after = []) ∧ op.Of i := by
  obtain ⟨_, source, -, hsource, -, -, hcode, -⟩ := h.source
  rcases h.op_at hop with ⟨before, hends, rfl, rfl⟩ |
    ⟨p, before, x, rest, ops, hv, rfl, hp, hbefore, hwidth, hoffset, hlower⟩
  · refine ⟨source, before.map (·.erase), .end_, [], hsource, ?_, ?_, .inr rfl, .inr rfl⟩
    · rw [← hcode, hends, List.map_append]
      rfl
    · rw [sum_width_erase, b.length_ops, hends, List.map_append, List.sum_append]
      rfl
  · refine ⟨source, before.map (·.erase), x.instruction, rest.map (·.erase), hsource, ?_, ?_, .inl hwidth,
      TypedInstruction.lower_of hwidth hlower⟩
    · rw [← hcode, hbefore, ← hoffset, List.map_append]
      rfl
    · rw [sum_width_erase]
      exact hv.pc_eq (hp ▸ hbefore)

end TypedBody

/-! ### Bytes -/

/-- The body of a function was read with the sections of the module. -/
theorem Module.body_of_source {bytes : ByteArray} {features : Features} {limits : DecodeLimits} {m : Module}
    (h : ofBytes bytes features limits = .ok m) {func : Nat} {source : FunctionBody}
    (hsource : m.source? func = some source) :
    ∃ S, RawModule.Format features limits bytes S ∧ source ∈ (RawModule.ofSections S).bodies := by
  obtain ⟨raw, hraw, hvalid⟩ := ofBytes_eq_ok.mp h
  obtain ⟨-, code, -, rfl⟩ := RawModule.validate_eq_ok.mp hvalid
  obtain ⟨S, hS, rfl⟩ := RawModule.ofBytes_eq_ok_iff.mp hraw
  refine ⟨S, hS, ?_⟩
  unfold RawModule.source? at hsource
  dsimp only at hsource
  split at hsource
  · nomatch hsource
  · exact List.mem_of_getElem? hsource

/-- **The instructions of a function stand at their offsets** in the bytes of the module. -/
theorem Module.instruction_at {bytes : ByteArray} {features : Features} {limits : DecodeLimits} {m : Module}
    (h : ofBytes bytes features limits = .ok m) {func : Nat} {source : FunctionBody}
    (hsource : m.source? func = some source) {x : Nat × Instruction} (hx : x ∈ source.code) :
    ∃ c c', c.data = bytes ∧ c.pos = x.1 ∧ Decoder.instruction features c = .ok x.2 c' := by
  obtain ⟨S, hS, hmem⟩ := body_of_source h hsource
  exact hS.body_instruction hmem hx

end WasmEngine
