import WasmEngine.Proofs.Machine.Calling
import WasmEngine.Proofs.Structured.Offsets

/-!
# Where active frames are

Every frame that is active is one of a function that a valid module declares (`Machine.Reached.declared`). So if it has
an op, then it is at an instruction of that function, and its line in a stack trace has the offset at which the
instruction stands in the bytes of the module (`Frame.At`).

All frames but the innermost one of an invocation that runs are suspended (`Machine.suspended`): they wait for a function
that they called. Nothing moves a frame that waits, and so it is at a call for as long as it does
(`Machine.Reached.atCall`), be it a WebAssembly function or a host function that it waits for.
-/

namespace WasmEngine

variable {σ : Type}

/-! ### Frames at instructions -/

/-- An instruction that calls a function. -/
def Instruction.calls : Instruction → Bool
  | call _ | callIndirect .. => true
  | _ => false

/-- **Ops that call are made of instructions that call.** -/
theorem Op.Of.calls {op : Op} {i : Instruction} (h : op.Of i) (hop : op.calls = true) : i.calls = true := by
  cases op with
  | call | callIndirect =>
    obtain rfl : i = _ := h
    rfl
  | _ => nomatch hop

/-- The function of a frame is one that a valid module declares, and the frame has its body. -/
def Frame.Declared (f : Frame) : Prop :=
  ∃ w : WasmFunc, w.Declared ∧ w.module = f.module ∧ w.index = f.func ∧ w.module.body? w.index = some f.body

/-- **A frame is at an instruction**, with the offset that its line in a stack trace has. In the code of its function, as
it was read, the instruction comes behind those whose ops come before the op of the frame, and that op is made of it. In
whatever bytes the module was read from, it stands at the offset. -/
structure Frame.At (f : Frame) (offset : Nat) (i : Instruction) : Prop where
  line : f.trace = ⟨f.func, f.module.funcName? f.func, offset⟩
  code : ∃ source before after, f.module.source? f.func = some source ∧ source.code = before ++ (offset, i) :: after ∧
    f.pc = (before.map (·.2.width)).sum ∧ (i.width = 1 ∨ after = [])
  op : ∃ op, f.body.ops[f.pc]? = some op ∧ op.Of i
  bytes : ∀ bytes features limits, Module.ofBytes bytes features limits = .ok f.module →
    ∃ c c', c.data = bytes ∧ c.pos = offset ∧ Decoder.instruction features c = .ok i c'

namespace Frame.Declared

variable {f : Frame}

/-- A frame that has an op is at the instruction of it. -/
theorem at_op (hf : f.Declared) {op : Op} (hop : f.body.ops[f.pc]? = some op) :
    ∃ offset i, f.At offset i ∧ op.Of i := by
  obtain ⟨w, hw, hmodule, hindex, hbody⟩ := hf
  obtain ⟨features, b, body, hbody', hof⟩ := hw.body
  cases hbody.symm.trans hbody'
  obtain ⟨source, before, i, after, hsource, hcode, hpc, hi, hopOf⟩ := hof.stands hop
  rw [hmodule, hindex] at hsource
  refine ⟨f.body.offsetOf f.pc, i, ⟨rfl, ⟨source, before, after, hsource, hcode, hpc, hi⟩, ⟨op, hop, hopOf⟩, ?_⟩, hopOf⟩
  intro bytes features limits hbytes
  exact Module.instruction_at hbytes hsource (hcode ▸ List.mem_append_right _ List.mem_cons_self)

end Frame.Declared

/-! ### Frames that are suspended -/

/-- The frames that wait in an invocation that runs. -/
def Control.suspended : Control σ → List Frame
  | .guest inv => inv.frames.tail
  | _ => []

namespace Machine

/-- **The frames that are suspended**: all that are active, but for the innermost one of an invocation that runs. -/
def suspended (m : Machine σ) : List Frame := m.control.suspended ++ framesOf m.waiting

/-- The frames that are suspended are at calls. -/
def AtCalls (m : Machine σ) : Prop := ∀ f ∈ m.suspended, f.AtCall

section

variable {s : Store σ} {waiting : List (Waiting σ)} {inv : Invocation}

/-- An invocation that runs above others that wait. -/
theorem atCalls_guest (hinv : ∀ f ∈ inv.frames.tail, f.AtCall) (hw : ∀ f ∈ framesOf waiting, f.AtCall) :
    AtCalls ⟨s, .guest inv, waiting⟩ := List.forall_mem_append.mpr ⟨hinv, hw⟩

theorem atCalls_callHost (hinv : ∀ f ∈ inv.frames, f.AtCall) (hw : ∀ f ∈ framesOf waiting, f.AtCall) (f : HostFunc σ) :
    AtCalls (callHost s inv f waiting) := by
  unfold callHost
  dsimp only
  split
  · exact hw
  · have hframes : ∀ g ∈ inv.frames ++ framesOf waiting, g.AtCall := List.forall_mem_append.mpr ⟨hinv, hw⟩
    exact hframes

/-- **The frames of an invocation that calls become suspended**, whatever is called. -/
theorem atCalls_callFrom (hinv : ∀ f ∈ inv.frames, f.AtCall) (hw : ∀ f ∈ framesOf waiting, f.AtCall) (addr : Nat) :
    AtCalls (callFrom s inv addr waiting) := by
  unfold callFrom
  cases Store.pollInterrupt s with
  | error => exact hw
  | ok =>
    dsimp only
    split
    · exact hw
    · split
      · next henter =>
        obtain ⟨_, _, -, -, -, -, hframes, -⟩ := Invocation.enter_eq_ok henter
        refine atCalls_guest ?_ hw
        rw [hframes]
        exact hinv
      · exact hw
    · exact atCalls_callHost hinv hw _

theorem atCalls_invoke (hw : ∀ f ∈ framesOf waiting, f.AtCall) (addr : Nat) (args : List Value) :
    AtCalls (invoke s addr args waiting) := by
  unfold invoke
  split
  · exact hw
  · split <;> exact hw
  · exact atCalls_callFrom (List.forall_mem_nil _) hw addr

theorem atCalls_call (hw : ∀ f ∈ framesOf waiting, f.AtCall) (h : Handle .func) (args : List Value) :
    AtCalls (call s h args waiting) := by
  unfold call
  split
  · exact hw
  · exact atCalls_invoke hw _ args

theorem atCalls_instantiate (hw : ∀ f ∈ framesOf waiting, f.AtCall) (m : Module) (entities : List Extern) :
    AtCalls (instantiate s m entities waiting) := by
  unfold instantiate
  dsimp only
  split
  · exact hw
  · exact hw
  · have hstart : ∀ f ∈ framesOf (.start s.instances.size :: waiting), f.AtCall := hw
    exact atCalls_invoke hstart _ []

theorem atCalls_stepGuest (hinv : ∀ f ∈ inv.frames.tail, f.AtCall) (hw : ∀ f ∈ framesOf waiting, f.AtCall) :
    AtCalls (stepGuest s inv waiting) := by
  obtain ⟨stack, frames, types⟩ := inv
  cases frames with
  | nil => exact hw
  | cons f rest =>
    cases hr : f.exec ⟨s, stack⟩ with
    | error e r =>
      rw [stepGuest_of_error hr]
      exact hw
    | ok flow r =>
      rw [stepGuest_of_ok hr]
      cases flow with
      | next | goto => exact atCalls_guest hinv hw
      | call addr => exact atCalls_callFrom (List.forall_mem_cons.mpr ⟨Frame.atCall_of_exec hr, hinv⟩) hw addr
      | ret =>
        cases rest with
        | nil => exact hw
        | cons g rest => exact atCalls_guest (List.forall_mem_cons.mp hinv).2 hw

theorem atCalls_stepHost (hw : ∀ f ∈ framesOf waiting, f.AtCall) (caller : Option Nat) (type : FuncType)
    (p : HostProgram σ) : AtCalls (stepHost s caller type p waiting) := by
  cases p with
  | readMemory | writeMemory =>
    unfold stepHost
    dsimp only
    split <;> exact hw
  | call h args next =>
    have hnext : ∀ f ∈ framesOf (.host caller type next :: waiting), f.AtCall := hw
    exact atCalls_call hnext h args
  | instantiate m entities next =>
    have hnext : ∀ f ∈ framesOf (.host caller type (fun r => next (r.map fun _ => ⟨s.id, s.instances.size⟩)) :: waiting),
      f.AtCall := hw
    exact atCalls_instantiate hnext m entities
  | _ => exact hw

theorem atCalls_deliver {w : Waiting σ} (hw : ∀ f ∈ framesOf (w :: waiting), f.AtCall)
    (result : Except Error (List Value)) : AtCalls (deliver s result w waiting) := by
  obtain ⟨hframes, hwaiting⟩ := List.forall_mem_append.mp hw
  cases w with
  | host => exact hwaiting
  | start => cases result <;> exact hwaiting
  | guest inv =>
    unfold deliver
    dsimp only
    split
    · exact hwaiting
    · split
      · exact hwaiting
      · obtain ⟨stack, frames, types⟩ := inv
        cases frames with
        | nil => exact atCalls_guest (List.forall_mem_nil _) hwaiting
        | cons f rest => exact atCalls_guest (List.forall_mem_cons.mp hframes).2 hwaiting

end

/-- **Frames that are suspended stay where they are.** -/
theorem AtCalls.step {m : Machine σ} (h : m.AtCalls) : m.step.AtCalls := by
  obtain ⟨s, control, waiting⟩ := m
  obtain ⟨hcontrol, hw⟩ := List.forall_mem_append.mp h
  cases control with
  | guest inv => exact atCalls_stepGuest hcontrol hw
  | host caller type p => exact atCalls_stepHost hw caller type p
  | outcome result =>
    cases waiting with
    | nil => exact h
    | cons w waiting => exact atCalls_deliver hw result

namespace Reached

variable {m : Machine σ} {log : List (Event σ)}

/-- **Active frames are those of functions that valid modules declare.** -/
theorem declared (h : Reached m log) : ∀ f ∈ m.frames, f.Declared :=
  h.frames_induction (P := fun _ f => f.Declared) (fun _ _ _ h => h)
    fun _ f _ _ hf hbody _ => ⟨f, hf, rfl, rfl, hbody⟩

end Reached

end Machine

end WasmEngine
