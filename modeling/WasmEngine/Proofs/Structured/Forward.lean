import WasmEngine.Proofs.Structured.Spots
import WasmEngine.Proofs.Validation.Bodies

/-!
# What goes on without a poll goes forward

Of the ops that go on somewhere, only branches look at the interrupt flag, and only if they do not go forward. The
others take no look at all: the next op, and the two that a conditional is made of, which skip its first arm
(`brUnless`) and its second (`jump`). Where those go is only known once the code behind them was brought into
executable form, and for them it has to be shown that it lies ahead: blocks end behind what is in them
(`TypedBody.Visits.le_close`), and so do second arms start (`TypedBody.Visits.le_arm`).

So `CompiledBody.Passes` climbs (`TypedBody.Of.forward`): a body that was checked has no way around in a circle but
through a poll.
-/

namespace WasmEngine

/-! ### Going on without a poll -/

/-- **Where the op at `pc` goes on without a look at the interrupt flag.** -/
inductive Op.Passes (pc : Nat) : Op → Nat → Prop
  | plain (op : PlainOp) : Passes pc (.plain op) (pc + 1)
  | br {t : BranchTarget} : pc < t.pc → Passes pc (.br t) t.pc
  | brIf {t : BranchTarget} : pc < t.pc → Passes pc (.brIf t) t.pc
  | brIfNot (t : BranchTarget) : Passes pc (.brIf t) (pc + 1)
  | brTable {targets : List BranchTarget} {default t : BranchTarget} : t ∈ default :: targets → pc < t.pc →
    Passes pc (.brTable targets default) t.pc
  | brUnless (target : Nat) : Passes pc (.brUnless target) target
  | brUnlessNot (target : Nat) : Passes pc (.brUnless target) (pc + 1)
  | jump (target : Nat) : Passes pc (.jump target) target

namespace CompiledBody

variable {body : CompiledBody}

/-- Execution of a body goes on at another op without a look at the interrupt flag. -/
def Passes (body : CompiledBody) (pc pc' : Nat) : Prop := ∃ op, body.ops[pc]? = some op ∧ op.Passes pc pc'

/-- **What goes on without a poll goes forward.** -/
def Forward (body : CompiledBody) : Prop := ∀ pc pc', body.Passes pc pc' → pc < pc'

end CompiledBody

/-! ### Conditionals -/

namespace TypedBody

variable {b : TypedBody} {p : Spot}

/-- Second arms start behind the first. -/
theorem Visits.le_arm (hv : b.Visits p) :
    ∀ landing ∈ (TypedInstruction.lower p.pc p.starts p.code).2, ∀ arm ∈ landing.arm, p.pc ≤ arm := by
  obtain ⟨t, code, pc, starts, heads⟩ := p
  have hchecks := hv.checks
  dsimp only at hchecks ⊢
  generalize b.peak = peak at hchecks
  induction hchecks generalizing pc starts heads with
  | last =>
    intro landing hl arm ha
    cases List.mem_singleton.mp hl
    nomatch ha
  | @next t t' x rest peak hstep hrest ih =>
    have ih := ih _ _ _ (hv.next hstep)
    have hshape := Typing.step_shape hstep
    obtain ⟨offset, i, reshapes⟩ := x
    dsimp only at ih hshape
    have hle {landing : Landing} (h : ∀ arm ∈ landing.arm, pc + i.width ≤ arm) : ∀ arm ∈ landing.arm, pc ≤ arm :=
      fun arm ha => Nat.le_trans (Nat.le_add_right _ _) (h arm ha)
    cases hshape with
    | stays hi =>
      rw [TypedInstruction.lower_flat _ _ _ _ hi]
      rw [Instruction.startsAfter_flat hi] at ih
      exact fun landing hl => hle (ih landing hl)
    | opens hkind =>
      rw [TypedInstruction.lower_opens _ _ _ _ hkind]
      exact fun landing hl => hle (ih landing (List.mem_of_mem_tail hl))
    | switches =>
      intro landing hl
      rcases List.mem_cons.mp hl with rfl | hl
      · intro arm ha
        cases ha
        exact Nat.le_succ pc
      · exact hle (ih landing (List.mem_of_mem_tail hl))
    | closes =>
      intro landing hl
      rcases List.mem_cons.mp hl with rfl | hl
      · nofun
      · exact hle (ih landing hl)

/-- The block that is open at a spot ends, and its second arm starts, ahead of it. -/
theorem Visits.head_landing (hv : b.Visits p) : ∃ landing landings,
    (TypedInstruction.lower p.pc p.starts p.code).2 = landing :: landings ∧ p.pc ≤ landing.close ∧
      p.pc ≤ landing.arm.getD landing.close := by
  have hlength := hv.landed.length_eq
  have hclose := hv.le_close
  have harm := hv.le_arm
  generalize (TypedInstruction.lower p.pc p.starts p.code).2 = landings at hlength hclose harm
  cases landings with
  | nil => nomatch hlength
  | cons landing landings =>
    have hclose := hclose landing List.mem_cons_self
    refine ⟨landing, landings, rfl, hclose, ?_⟩
    cases ha : landing.arm with
    | none => exact hclose
    | some arm => exact harm landing List.mem_cons_self arm ha

/-- **Every op of the code is that of an instruction** at a spot. -/
theorem Visits.at_op (hv : b.Visits p) {pc : Nat} (hle : p.pc ≤ pc) (hlt : pc < b.ops.length) :
    ∃ q x rest, b.Visits q ∧ q.pc = pc ∧ q.code = x :: rest ∧ x.instruction.width = 1 := by
  obtain ⟨t, code, at_, starts, heads⟩ := p
  have hchecks := hv.checks
  dsimp only at hle hchecks
  generalize b.peak = peak at hchecks
  induction hchecks generalizing at_ starts heads with
  | last =>
    have hsum := hv.sum_width
    change at_ + 0 = b.ops.length at hsum
    omega
  | @next t t' x rest peak hstep hrest ih =>
    by_cases hhere : x.instruction.width = 1 ∧ at_ = pc
    · exact ⟨_, x, rest, hv, hhere.2, rfl, hhere.1⟩
    · have hwidth := width_le_one x.instruction
      exact ih _ _ _ (hv.next hstep) (by omega)

/-- **A conditional skips its arms forward.** -/
theorem Visits.skips {x : TypedInstruction} {rest : List TypedInstruction} (hv : b.Visits p)
    (hcode : p.code = x :: rest) (hwidth : x.instruction.width = 1) {offset target : Nat} {op : Op}
    {ops : List (Nat × Op)} (hop : (TypedInstruction.lower p.pc p.starts p.code).1 = (offset, op) :: ops)
    (hskip : op = .brUnless target ∨ op = .jump target) : p.pc < target := by
  obtain ⟨t, code, pc, starts, heads⟩ := p
  dsimp only at hcode hop ⊢
  subst hcode
  have hchecks := hv.checks
  dsimp only at hchecks
  generalize b.peak = peak at hchecks
  cases hchecks with
  | last => nomatch hwidth
  | @next _ t' _ _ _ hstep =>
    obtain ⟨landing, landings, hlanding, hclose, harm⟩ := (hv.next hstep).head_landing
    obtain ⟨offset', i, reshapes⟩ := x
    dsimp only at hlanding hclose harm
    cases i with
    | if_ type =>
      change (TypedInstruction.lower (pc + 1) (none :: starts) rest).2 = _ at hlanding
      change (offset', Op.brUnless (((TypedInstruction.lower (pc + 1) (none :: starts) rest).2.head?.map
        fun l => l.arm.getD l.close).getD 0)) :: _ = _ at hop
      rw [hlanding] at hop
      cases hop
      rcases hskip with h | h <;> cases h
      exact harm
    | else_ =>
      change (TypedInstruction.lower (pc + 1) starts rest).2 = _ at hlanding
      change (offset', Op.jump (((TypedInstruction.lower (pc + 1) starts rest).2.head?.map (·.close)).getD 0)) :: _ = _
        at hop
      rw [hlanding] at hop
      cases hop
      rcases hskip with h | h <;> cases h
      exact hclose
    | nop | block | loop | end_ => nomatch hwidth
    | _ =>
      cases hop
      rcases hskip with h | h <;> nomatch h

/-! ### Bodies of functions -/

/-- **What an op is**: that of an instruction at a spot, or the return behind the code. -/
theorem Of.op_cases {m : Module} {features : Features} {func : Nat} {body : CompiledBody}
    (h : b.Of m features func body) {pc : Nat} {op : Op} (hop : body.ops[pc]? = some op) :
    op = .ret ∧ pc = b.ops.length ∨ ∃ p x rest offset ops, b.Visits p ∧ p.pc = pc ∧ p.code = x :: rest ∧
      x.instruction.width = 1 ∧ (TypedInstruction.lower p.pc p.starts p.code).1 = (offset, op) :: ops := by
  obtain ⟨-, source, -, -, -, -, -, rfl⟩ := h.source
  unfold CompiledBody.ofTyped at hop
  dsimp only at hop
  rw [List.getElem?_toArray, List.getElem?_map, List.getElem?_append] at hop
  split at hop
  · next hlt =>
    obtain ⟨p, x, rest, hv, rfl, hcode, hwidth⟩ := Visits.start.at_op (b := b) (Nat.zero_le pc) hlt
    obtain ⟨op', ops, hlower⟩ := TypedInstruction.lower_op p.pc p.starts x rest hwidth
    rw [← hcode] at hlower
    have hat : (TypedInstruction.lower 0 [none] b.code).1[p.pc]? = some (x.offset, op') := hv.op hlower
    rw [hat] at hop
    cases hop
    exact .inr ⟨p, x, rest, x.offset, ops, hv, rfl, hcode, hwidth, hlower⟩
  · next hle =>
    refine .inl ?_
    generalize hi : pc - (TypedInstruction.lower 0 [none] b.code).1.length = i at hop
    cases i with
    | zero => exact ⟨(Option.some.inj hop).symm, Nat.le_antisymm (Nat.sub_eq_zero_iff_le.mp hi) (Nat.not_lt.mp hle)⟩
    | succ i => nomatch hop

/-- **Bodies that were checked go forward** but for what polls. -/
theorem Of.forward {m : Module} {features : Features} {func : Nat} {body : CompiledBody}
    (h : b.Of m features func body) : body.Forward := by
  rintro pc pc' ⟨op, hop, hpasses⟩
  have hskips {target : Nat} (hskip : op = .brUnless target ∨ op = .jump target) : pc < target := by
    rcases h.op_cases hop with ⟨rfl, -⟩ | ⟨p, x, rest, offset, ops, hv, rfl, hcode, hwidth, hlower⟩
    · rcases hskip with h | h <;> nomatch h
    · exact hv.skips hcode hwidth hlower hskip
  cases hpasses with
  | plain | brIfNot | brUnlessNot => exact Nat.lt_succ_self pc
  | br hlt | brIf hlt | brTable _ hlt => exact hlt
  | brUnless => exact hskips (.inl rfl)
  | jump => exact hskips (.inr rfl)

end TypedBody

/-- **A function that a module declares** goes forward but for what polls. -/
theorem WasmFunc.Declared.forward {f : WasmFunc} (hf : f.Declared) {body : CompiledBody}
    (hbody : f.module.body? f.index = some body) : body.Forward := by
  obtain ⟨features, b, body', hbody', hof⟩ := hf.body
  cases hbody.symm.trans hbody'
  exact hof.forward

end WasmEngine
