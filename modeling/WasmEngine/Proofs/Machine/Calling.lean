import WasmEngine.Proofs.Machine.ActiveFrames
import WasmEngine.Proofs.Machine.Calls

/-!
# Calls

Code calls functions, host functions and programs of the embedder do, and instantiations call start functions
(`Machine.Calls`). Whoever calls, the same is looked at before anything of the function runs: first the interrupt flag
(`Machine.Calls.interrupted`), and for a WebAssembly function then the room that there is for its frame
(`Machine.Calls.overflows`). A call that fails one of these leaves the store as it is, but for the flag.

Until then the call has changed nothing either. Of the ops only `call` and `call_indirect` lead to calls, and these
write to the books alone (`Frame.exec_call`).
-/

namespace WasmEngine

variable {σ : Type}

/-! ### Ops that call -/

/-- Nothing but the books is written to, and nothing is pushed. -/
structure Running.Idle (r r' : Running σ) : Prop where
  store : r'.store = r.store.withBooks r'.store.books
  height : r'.stack.height ≤ r.stack.height

instance : IsPreorder (Running σ) Running.Idle where
  refl _ := ⟨rfl, Nat.le_refl _⟩
  trans r r' r'' h h' := ⟨by rw [h'.store, h.store]; rfl, Nat.le_trans h'.height h.height⟩

namespace Exec

open Exec

variable {α : Type}

theorem idle_popNat : Keeps Running.Idle (popNat : Exec σ Nat) := by
  have hpop : Keeps Running.Idle (pop : Exec σ Cell) :=
    .modifyGet fun r => ⟨rfl, by rw [Stack.height, Stack.pop, Array.size_pop]; exact Nat.sub_le _ _⟩
  exact .bind hpop fun _ => .pure _

theorem idle_known {entity : RuntimeEntity} {index : Nat} :
    ∀ o : Option α, Keeps Running.Idle (known entity index o : Exec σ α)
  | some a => .pure a
  | none => .throw _

theorem idle_instanceOf (f : Scope) : Keeps Running.Idle (instanceOf f : Exec σ _) :=
  .getBind fun _ => idle_known _

theorem idle_funcAddr (f : Scope) (x : Nat) : Keeps Running.Idle (funcAddr f x : Exec σ _) :=
  .bind (idle_instanceOf f) fun _ => idle_known _

theorem idle_indirectCallee (f : Scope) (type table : Nat) :
    Keeps Running.Idle (indirectCallee f type table : Exec σ Nat) := by
  refine .bind (.bind (idle_instanceOf f) fun _ => idle_known _) fun addr => .bind idle_popNat fun index =>
    .bind (.getBind fun _ => idle_known _) fun t => ?_
  split
  · exact .throw _
  · split
    · exact .throw _
    · exact .bind (idle_known _) fun _ => .getBind fun _ => .bind (idle_known _) fun _ => .ite (.pure _) (.throw _)

theorem idle_charge : Keeps Running.Idle (onStore Store.charge : Exec σ Unit) := by
  intro ⟨store, stack⟩
  have hcharge : endState (Store.charge store) = store.withBooks (endState (Store.charge store)).books := by
    unfold Store.charge
    dsimp only
    split <;> rfl
  unfold onStore
  dsimp only
  cases hr : Store.charge store <;> rw [hr] at hcharge <;> exact ⟨hcharge, Nat.le_refl _⟩

/-- The computation does not lead to a call. -/
def Staying (act : Exec σ Flow) : Prop := ∀ r addr r', act r ≠ .ok (.call addr) r'

namespace Staying

variable {act act' : Exec σ Flow}

theorem bind {act : Exec σ α} {k : α → Exec σ Flow} (hk : ∀ a, Staying (k a)) : Staying (act >>= k) := by
  intro r addr r' h
  obtain ⟨a, r₁, -, h⟩ := estate_bind_eq_ok.mp h
  exact hk a r₁ addr r' h

theorem pure (flow : Flow) (h : ∀ addr, flow ≠ .call addr) : Staying (Pure.pure flow : Exec σ Flow) :=
  fun _ addr _ hr => h addr (estate_pure_eq_ok.mp hr).1

theorem ite {c : Prop} [Decidable c] (h : Staying act) (h' : Staying act') : Staying (if c then act else act') := by
  split
  · exact h
  · exact h'

end Staying

theorem staying_branch (f : Frame) (t : BranchTarget) : Staying (branch f t : Exec σ Flow) :=
  .bind fun _ => by
    dsimp only
    split
    · exact .bind fun _ => .pure (.goto t.pc) nofun
    · exact .pure (.goto t.pc) nofun

end Exec

open Exec

/-- An op that calls a function. -/
def Op.calls : Op → Bool
  | call _ | callIndirect .. => true
  | _ => false

/-- No other op leads to a call. -/
theorem Op.staying_exec {op : Op} (h : op.calls = false) (f : Frame) : Staying (op.exec f : Exec σ Flow) := by
  cases op with
  | call | callIndirect => nomatch h
  | unreachable => exact fun r addr r' h => nomatch h
  | br t => exact staying_branch f t
  | brIf t => exact .bind fun _ => .ite (staying_branch f t) (.pure .next nofun)
  | brUnless pc => exact .bind fun _ => .ite (.pure (.goto pc) nofun) (.pure .next nofun)
  | jump pc => exact .pure (.goto pc) nofun
  | brTable targets default => exact .bind fun _ => staying_branch f _
  | ret => exact .bind fun _ => .pure .ret nofun
  | plain op => exact .bind fun _ => .pure .next nofun

theorem Op.calls_of_exec {f : Frame} {op : Op} {r r' : Running σ} {addr : Nat}
    (h : op.exec f r = .ok (.call addr) r') : op.calls = true := by
  cases hop : op.calls with
  | true => rfl
  | false => exact absurd h (staying_exec hop f r addr r')

/-- **Only ops that do nothing else lead to calls.** -/
theorem Op.exec_call {f : Frame} {op : Op} {r r' : Running σ} {addr : Nat} (h : op.exec f r = .ok (.call addr) r') :
    r.Idle r' := by
  have hcall {act : Exec σ Nat} (hact : Keeps Running.Idle act)
      (h : (act >>= fun callee => pure (Flow.call callee)) r = .ok (.call addr) r') : r.Idle r' := by
    obtain ⟨callee, r₁, hr, h⟩ := estate_bind_eq_ok.mp h
    obtain ⟨-, rfl⟩ := estate_pure_eq_ok.mp h
    have hidle := hact r
    rwa [hr] at hidle
  have hop := calls_of_exec h
  cases op with
  | call x => exact hcall (idle_funcAddr _ x) h
  | callIndirect type table => exact hcall (idle_indirectCallee _ type table) h
  | _ => nomatch hop

/-- **A frame that calls has changed nothing** but the books. -/
theorem Frame.exec_call {f : Frame} {r r' : Running σ} {addr : Nat} (h : f.exec r = .ok (.call addr) r') :
    r.Idle r' := by
  obtain ⟨_, r₁, hr₁, h⟩ := estate_bind_eq_ok.mp h
  have hinstance := idle_instanceOf f.toScope r
  rw [hr₁] at hinstance
  cases hop : f.body.ops[f.pc]? with
  | none =>
    rw [hop] at h
    nomatch h
  | some op =>
    rw [hop] at h
    obtain ⟨_, r₂, hr₂, h⟩ := estate_bind_eq_ok.mp h
    have hcharge := idle_charge r₁
    rw [hr₂] at hcharge
    exact trans_of Running.Idle hinstance (trans_of Running.Idle hcharge (Op.exec_call h))

/-- The frame is at an op that calls. -/
def Frame.AtCall (f : Frame) : Prop := ∃ op, f.body.ops[f.pc]? = some op ∧ op.calls = true

/-- **A frame that calls is at an op that does.** -/
theorem Frame.atCall_of_exec {f : Frame} {r r' : Running σ} {addr : Nat} (h : f.exec r = .ok (.call addr) r') :
    f.AtCall := by
  obtain ⟨op, hop, hexec⟩ := exec_of_hasOp (hasOp_of_exec h)
  obtain ⟨-, r₁, -, h⟩ := estate_bind_eq_ok.mp (hexec.symm.trans h)
  exact ⟨op, hop, Op.calls_of_exec h⟩

/-! ### Who calls -/

/-- A poll that finds the interrupt flag set traps, and clears it. -/
theorem Store.pollInterrupt_of_set {s : Store σ} (h : s.interrupted = true) :
    pollInterrupt s = .error (.ofCode .interrupted) { s with interrupted := false } := by
  rw [pollInterrupt, if_pos h]

theorem Store.pollInterrupt_of_clear {s : Store σ} (h : s.interrupted = false) : pollInterrupt s = .ok () s := by
  rw [pollInterrupt, if_neg (by rw [h]; exact Bool.false_ne_true)]

/-- There is no room for a frame of a function, or for the cells that it may have on the stack. -/
inductive Invocation.Overflows (s : Store σ) (inv : Invocation) (f : WasmFunc) : Prop
  | depth : s.config.maxCallDepth ≤ s.depth + inv.frames.length → Overflows s inv f
  | room {body : CompiledBody} : f.module.body? f.index = some body → f.type.params.length ≤ inv.stack.height →
    s.config.maxValueStack < inv.stack.height + body.locals.length + body.maxHeight → Overflows s inv f

theorem Invocation.Overflows.enter {s : Store σ} {inv : Invocation} {f : WasmFunc} (h : inv.Overflows s f) :
    inv.enter f s = .error (.ofCode .stackOverflow) s := by
  unfold Invocation.enter
  dsimp only
  split
  · rfl
  next hdepth =>
  cases h with
  | depth hfull => exact absurd hfull hdepth
  | room hbody hparams hfull =>
    rw [hbody]
    dsimp only
    rw [if_neg (Nat.not_lt.mpr hparams), if_pos hfull]

/-- **An invocation that cannot start a frame** lacks room for it, or there is a fault. -/
theorem Invocation.enter_error_cases {s s' : Store σ} {inv : Invocation} {f : WasmFunc} {e : Error}
    (h : inv.enter f s = .error e s') :
    inv.Overflows s f ∧ e = .ofCode .stackOverflow ∨ ∃ fault : RuntimeFault, e = .ofFault (.runtime fault) := by
  unfold enter at h
  dsimp only at h
  split at h
  · next hdepth =>
    cases h
    exact .inl ⟨.depth hdepth, rfl⟩
  split at h
  · cases h
    exact .inr ⟨_, rfl⟩
  next body hbody =>
  split at h
  · cases h
    exact .inr ⟨_, rfl⟩
  next hparams =>
  split at h
  · next hroom =>
    cases h
    exact .inl ⟨.room hbody (Nat.not_lt.mp hparams) hroom, rfl⟩
  · nomatch h

namespace Machine

/-- **The machine is about to call the function at an address**, from an invocation and in a store in which nothing of
the function has run yet. An invocation without frames is one that begins with the call. -/
inductive Calls : Machine σ → Store σ → Invocation → Nat → List (Waiting σ) → Prop
  | code {s s' : Store σ} {stack stack' : Stack} {f : Frame} {frames : List Frame} {types : List ValueType}
    {addr : Nat} {waiting : List (Waiting σ)} : f.exec ⟨s, stack⟩ = .ok (.call addr) ⟨s', stack'⟩ →
    Calls ⟨s, .guest ⟨stack, f :: frames, types⟩, waiting⟩ s' ⟨stack', f :: frames, types⟩ addr waiting
  | request {s : Store σ} {caller : Option Nat} {type : FuncType} {h : Handle .func} {args : List Value}
    {next : Except Error (List Value) → HostProgram σ} {e : FuncEntity σ} {waiting : List (Waiting σ)} :
    checkCall s h args = .ok () → s.funcs[h.index]? = some e →
    Calls ⟨s, .host caller type (.call h args next), waiting⟩ s
      ⟨⟨(args.map Value.toCell).toArray⟩, [], e.type.results⟩ h.index (.host caller type next :: waiting)
  | start {s s' : Store σ} {caller : Option Nat} {type : FuncType} {m : Module} {entities : List Extern}
    {next : Except Error InstanceHandle → HostProgram σ} {addr : Nat} {e : FuncEntity σ}
    {waiting : List (Waiting σ)} :
    Store.instantiate m entities s = .ok (some addr) s' → s'.funcs[addr]? = some e →
    Calls ⟨s, .host caller type (.instantiate m entities next), waiting⟩ s' ⟨⟨#[]⟩, [], e.type.results⟩ addr
      (.start s.instances.size ::
        .host caller type (fun r => next (r.map fun _ => ⟨s.id, s.instances.size⟩)) :: waiting)

section

variable {m : Machine σ} {s : Store σ} {inv : Invocation} {addr : Nat} {waiting : List (Waiting σ)}

/-- The frames of the invocation that calls are the innermost ones that are active. -/
theorem Calls.frames_eq (h : m.Calls s inv addr waiting) : m.frames = inv.frames ++ framesOf waiting := by
  cases h <;> rfl

theorem Calls.step_wasm (h : m.Calls s inv addr waiting) {f : WasmFunc} (hf : s.funcs[addr]? = some (.wasm f)) :
    m.step = callFrom s inv addr waiting := by
  cases h with
  | code hexec => exact stepGuest_of_ok hexec
  | request hcheck he =>
    cases he.symm.trans hf
    change call (φ := Frame) _ _ _ _ = _
    rw [call, hcheck]
    dsimp only
    rw [invoke, hf]
    rfl
  | start hr he =>
    cases he.symm.trans hf
    change instantiate (φ := Frame) _ _ _ _ = _
    rw [instantiate, hr]
    dsimp only
    rw [invoke, hf]
    rfl

/-- A call that polls the interrupt flag while it is set traps, and clears it. -/
theorem callFrom_interrupted (hs : s.interrupted = true) : callFrom s inv addr waiting =
    fail (φ := Frame) { s with interrupted := false } inv (.ofCode .interrupted) waiting := by
  rw [callFrom, Store.pollInterrupt_of_set hs]

/-- **No call is made without a poll**, be it of a WebAssembly function or of a host function: if the interrupt flag is
set, the call traps, and the flag is cleared. -/
theorem Calls.interrupted (h : m.Calls s inv addr waiting) (hs : s.interrupted = true) :
    m.step = fail { s with interrupted := false } inv (.ofCode .interrupted) waiting := by
  have hpoll := Store.pollInterrupt_of_set hs
  have hfrom : callFrom s inv addr waiting = _ := callFrom_interrupted hs
  cases h with
  | code hexec => exact (stepGuest_of_ok hexec).trans hfrom
  | @request _ _ _ _ _ _ e _ hcheck he =>
    change call (φ := Frame) _ _ _ _ = _
    rw [call, hcheck]
    dsimp only
    rw [invoke, he]
    cases e with
    | wasm f => exact hfrom
    | host f =>
      dsimp only
      rw [hpoll]
      rfl
  | @start _ _ _ _ _ _ _ _ e _ hr he =>
    change instantiate (φ := Frame) _ _ _ _ = _
    rw [instantiate, hr]
    dsimp only
    rw [invoke, he]
    cases e with
    | wasm f => exact hfrom
    | host f =>
      dsimp only
      rw [hpoll]
      rfl

/-- **A call for which there is no room traps**, and leaves the store as it is. -/
theorem Calls.overflows (h : m.Calls s inv addr waiting) {f : WasmFunc} (hf : s.funcs[addr]? = some (.wasm f))
    (hs : s.interrupted = false) (hover : inv.Overflows s f) :
    m.step = fail s inv (.ofCode .stackOverflow) waiting := by
  rw [h.step_wasm hf, callFrom, Store.pollInterrupt_of_clear hs]
  dsimp only
  rw [hf]
  dsimp only
  rw [hover.enter]

end

section

variable {m : Machine σ} {s₁ : Store σ} {inv : Invocation} {addr : Nat} {waiting : List (Waiting σ)}

/-- Until a call is made, nothing but the books was written to, unless an instance was made before. -/
theorem Calls.store_eq (h : m.Calls s₁ inv addr waiting) (hevent : m.event? = none) :
    s₁ = m.store.withBooks s₁.books := by
  cases h with
  | code hexec => exact (Frame.exec_call hexec).store
  | request => rfl
  | start => nomatch hevent

/-- The store in which a call is made has the depth at which it goes on behind the call. -/
theorem Leveled.depth_calls (hm : m.Leveled) (h : m.Calls s₁ inv addr waiting) :
    s₁.depth = (framesOf waiting).length := by
  have hd := hm.depth
  cases h with
  | @code s _ stack _ f _ _ _ _ hexec =>
    have hdepth := (f.tally_exec ⟨s, stack⟩).1
    rw [hexec] at hdepth
    exact hdepth.trans hd
  | request => exact hd
  | @start s _ _ _ m entities _ _ _ _ hr =>
    have hsame := Store.uncounted_of_commutes (fun _ => Store.commutes_instantiate m entities) s
    rw [hr] at hsame
    exact hsame.depth.trans hd

/-- **The depth at which a call is made** is the number of active frames. -/
theorem Leveled.calls (hm : m.Leveled) (h : m.Calls s₁ inv addr waiting) :
    s₁.depth + inv.frames.length = m.frames.length := by
  rw [hm.depth_calls h, h.frames_eq, List.length_append, Nat.add_comm]

/-- The store in which a call is made has the configuration that it was made with. -/
theorem Orderly.config_calls (hm : m.Orderly) (h : m.Calls s₁ inv addr waiting) : s₁.config = m.store.config := by
  cases h with
  | @code s _ stack _ f _ _ _ _ hexec =>
    have hquiet := f.keeps_exec ⟨s, stack⟩
    rw [hexec] at hquiet
    exact hquiet.config
  | request => rfl
  | @start s _ _ _ m entities _ _ _ _ hr =>
    have hext := Store.extends_instantiate hm.store hm.control.1 entities
    rw [hr] at hext
    exact hext.config

end

end Machine

/-! ### Calls of host functions -/

/-- The function of a module that an entity is. -/
def FuncEntity.wasm? : FuncEntity σ → Option WasmFunc
  | .wasm f => some f
  | .host _ => none

theorem FuncEntity.bind_wasm?_eq_some {e : Option (FuncEntity σ)} {f : WasmFunc} :
    e.bind wasm? = some f ↔ e = some (.wasm f) := by
  rcases e with _ | _ | _
  · exact ⟨nofun, nofun⟩
  · refine ⟨fun h => ?_, fun h => ?_⟩ <;> cases h <;> rfl
  · exact ⟨nofun, nofun⟩

/-- What a host function is about to call, and with which arguments. -/
def Control.request? : Control σ → Option (Handle .func × List Value)
  | .host _ _ (.call h args _) => some (h, args)
  | _ => none

theorem Machine.calls_of_request {m : Machine σ} {h : Handle .func} {args : List Value}
    (hrequest : m.control.request? = some (h, args)) (hcheck : checkCall m.store h args = .ok ()) :
    ∃ inv waiting, m.Calls m.store inv h.index waiting ∧ inv.frames = [] := by
  obtain ⟨s, control, waiting⟩ := m
  obtain ⟨e, -, he, -⟩ := checkCall_spec hcheck
  cases control with
  | guest | outcome => nomatch hrequest
  | host caller type p =>
    cases p with
    | call => cases hrequest; exact ⟨_, _, .request hcheck he, rfl⟩
    | _ => nomatch hrequest

end WasmEngine
