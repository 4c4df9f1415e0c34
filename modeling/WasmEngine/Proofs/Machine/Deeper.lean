import Mathlib.Order.Monotone.Defs
import WasmEngine.Proofs.Agree
import WasmEngine.Proofs.Machine.Counters

/-!
# One level deeper

The embedder may call a host function, or code may that the embedder calls. What the host function does then goes on
under the same conditions, except for one more frame that waits: the depth of calls is greater by one, and fuel has
been taken that is there otherwise. As long as there is enough depth and fuel (`Machine.Ample`) nothing that goes on
makes a difference of that, and a host function that asks nothing of its caller (`HostProgram.Aloof`) does not either.
So two machines, of which one is a level deeper, take the same steps (`Machine.Deeper.step`), until the host function
ends with the same outcome in both of them (`Machine.Ends.step`).
-/

namespace WasmEngine

variable {σ α β : Type}

/-! ### Stores -/

/-- **Books a level deeper**: one more frame waits, and there may be less fuel. -/
structure Books.Deeper (b b' : Books) : Prop where
  depth : b'.depth = b.depth + 1
  interrupted : b'.interrupted = b.interrupted
  consumeFuel : b'.consumeFuel = b.consumeFuel
  fuel : Option.Rel (· ≥ ·) b.fuel b'.fuel

/-- **Stores that differ in nothing but their books**, which are a level deeper in the second one. -/
def Store.Deeper (s s' : Store σ) : Prop := ∃ b, s.books.Deeper b ∧ s' = s.withBooks b

namespace Store

variable {s s' : Store σ}

/-- **What does not notice the books does the same a level deeper.** -/
theorem Deeper.agree_of_commutes (h : s.Deeper s') {act : StoreM σ α} (hact : ∀ h, Commutes (rebook h) act) :
    Agree Deeper Eq (act s) (act s') := by
  obtain ⟨b, hb, rfl⟩ := h
  have hbooks := books_of_commutes hact s
  have hs : act (s.withBooks b) = inState (rebook fun _ => b) (act s) := hact (fun _ => b) s
  rw [hs]
  cases hr : act s <;> rw [hr] at hbooks
  · exact .ok rfl ⟨b, hbooks ▸ hb, rfl⟩
  · exact .error ⟨b, hbooks ▸ hb, rfl⟩

theorem Deeper.count (h : s.Deeper s') (stats stats' : Stats) :
    Deeper { s with stats } { s' with stats := stats' } := by
  obtain ⟨b, hb, rfl⟩ := h
  exact ⟨{ b with stats := stats' }, { hb with }, rfl⟩

theorem Deeper.countAt (h : s.Deeper s') (stats stats' : Stats) (depth : Nat) :
    Deeper { s with stats, depth } { s' with stats := stats', depth := depth + 1 } := by
  obtain ⟨b, hb, rfl⟩ := h
  exact ⟨{ b with stats := stats', depth := depth + 1 }, { hb with depth := rfl }, rfl⟩

theorem Deeper.depth_eq (h : s.Deeper s') : s'.depth = s.depth + 1 := by
  obtain ⟨b, hb, rfl⟩ := h
  exact hb.depth

theorem Deeper.id_eq (h : s.Deeper s') : s'.id = s.id := by
  obtain ⟨b, -, rfl⟩ := h
  rfl

theorem Deeper.state_eq (h : s.Deeper s') : s'.state = s.state := by
  obtain ⟨b, -, rfl⟩ := h
  rfl

theorem Deeper.instances_eq (h : s.Deeper s') : s'.instances = s.instances := by
  obtain ⟨b, -, rfl⟩ := h
  rfl

theorem Deeper.memories_eq (h : s.Deeper s') : s'.memories = s.memories := by
  obtain ⟨b, -, rfl⟩ := h
  rfl

theorem Deeper.funcs_eq (h : s.Deeper s') : s'.funcs = s.funcs := by
  obtain ⟨b, -, rfl⟩ := h
  rfl

theorem Deeper.maxCallDepth_eq (h : s.Deeper s') : s'.config.maxCallDepth = s.config.maxCallDepth := by
  obtain ⟨b, -, rfl⟩ := h
  rfl

theorem Deeper.maxValueStack_eq (h : s.Deeper s') : s'.config.maxValueStack = s.config.maxValueStack := by
  obtain ⟨b, -, rfl⟩ := h
  rfl

theorem Deeper.setState (h : s.Deeper s') (state : σ) : Deeper { s with state } { s' with state } := by
  obtain ⟨b, hb, rfl⟩ := h
  exact ⟨b, hb, rfl⟩

theorem Deeper.release (h : s.Deeper s') (place : Nat) : Deeper (s.release place) (s'.release place) := by
  obtain ⟨b, hb, rfl⟩ := h
  exact ⟨b, hb, rfl⟩

theorem Deeper.agree_pollInterrupt (h : s.Deeper s') : Agree Deeper Eq (pollInterrupt s) (pollInterrupt s') := by
  obtain ⟨b, hb, rfl⟩ := h
  have hflag : (s.withBooks b).interrupted = s.interrupted := hb.interrupted
  unfold pollInterrupt
  rw [hflag]
  split
  · exact .error ⟨{ b with interrupted := false }, { hb with interrupted := rfl }, rfl⟩
  · exact .ok rfl ⟨b, hb, rfl⟩

/-- Fuel is kept in both stores, or in none. There is no more at the deeper level. -/
theorem Deeper.fuel_cases (h : s.Deeper s') : s.fuel = none ∧ s'.fuel = none ∨
    ∃ n n', s.fuel = some n ∧ s'.fuel = some n' ∧ n' ≤ n := by
  obtain ⟨b, hb, rfl⟩ := h
  have hfuel : Option.Rel (· ≥ ·) s.fuel b.fuel := hb.fuel
  change s.fuel = none ∧ b.fuel = none ∨ ∃ n n', s.fuel = some n ∧ b.fuel = some n' ∧ n' ≤ n
  generalize s.fuel = fuel, b.fuel = fuel' at hfuel
  cases hfuel with
  | none => exact .inl ⟨rfl, rfl⟩
  | some hle => exact .inr ⟨_, _, rfl, rfl, hle⟩

theorem Deeper.setFuel (h : s.Deeper s') {n n' : Nat} (hle : n' ≤ n) :
    Deeper { s with fuel := some n } { s' with fuel := some n' } := by
  obtain ⟨b, hb, rfl⟩ := h
  exact ⟨{ b with fuel := some n' }, { hb with fuel := .some hle }, rfl⟩

theorem changeFuel_of_some {n : Nat} (h : s.fuel = some n) (change : Nat → Nat) :
    changeFuel change s = .ok () { s with fuel := some (change n) } := by
  unfold changeFuel
  rw [estate_get_bind, h]
  rfl

theorem changeFuel_of_none (h : s.fuel = none) (change : Nat → Nat) :
    changeFuel change s = .error (.ofFault (.runtime .fuelDisabled)) s := by
  unfold changeFuel
  rw [estate_get_bind, h]
  rfl

/-- Where there is less fuel, there is less when it has been changed. -/
theorem Deeper.agree_changeFuel (h : s.Deeper s') {change : Nat → Nat} (hchange : Monotone change) :
    Agree Deeper Eq (changeFuel change s) (changeFuel change s') := by
  rcases h.fuel_cases with ⟨hs, hs'⟩ | ⟨n, n', hs, hs', hle⟩
  · rw [changeFuel_of_none hs, changeFuel_of_none hs']
    exact .error h
  · rw [changeFuel_of_some hs, changeFuel_of_some hs']
    exact .ok rfl (h.setFuel (hchange hle))

theorem Deeper.setInterrupted (h : s.Deeper s') (interrupted : Bool) :
    Deeper { s with interrupted } { s' with interrupted } := by
  obtain ⟨b, hb, rfl⟩ := h
  exact ⟨{ b with interrupted }, { hb with interrupted := rfl }, rfl⟩

/-- **Requests are answered the same a level deeper.** -/
theorem Deeper.agree_perform (h : s.Deeper s') (r : StoreRequest) :
    Agree Deeper Eq (perform r s) (perform r s') := by
  cases hbooks : r.onBooks with
  | false => exact h.agree_of_commutes fun _ => commutes_perform r hbooks
  | true =>
    cases r with
    | setFuel => exact h.agree_changeFuel fun _ _ _ => Nat.le_refl _
    | addFuel n => exact h.agree_changeFuel fun _ _ hle => min_le_min_right _ (Nat.add_le_add_right hle n)
    | resetStats => exact .ok rfl (h.count {} {})
    | interrupt | resetInterrupt => exact .ok rfl (h.setInterrupted _)
    | _ => nomatch hbooks

/-- **An op is paid for the same**, if there is fuel for it at the deeper level. -/
theorem Deeper.agree_charge (h : s.Deeper s') (hfuel : s'.fuel ≠ some 0) :
    Agree Deeper Eq (charge s) (charge s') := by
  have hcount := h.count { s.stats with opsExecuted := s.stats.opsExecuted + 1 }
    { s'.stats with opsExecuted := s'.stats.opsExecuted + 1 }
  rcases h.fuel_cases with ⟨hs, hs'⟩ | ⟨n, n', hs, hs', hle⟩
  · rw [charge_of_none hs, charge_of_none hs']
    exact .ok rfl hcount
  · obtain ⟨n', rfl⟩ := Nat.exists_eq_add_one_of_ne_zero fun hzero => hfuel (hzero ▸ hs')
    obtain ⟨n, rfl⟩ := Nat.exists_eq_add_one_of_ne_zero (Nat.ne_zero_of_lt hle)
    rw [charge_of_some hs, charge_of_some hs']
    exact .ok rfl (hcount.setFuel (Nat.le_of_succ_le_succ hle))

end Store

/-! ### Running code -/

/-- The same for running code, with the same stack. -/
def Running.Deeper (r r' : Running σ) : Prop := ∃ b, r.store.books.Deeper b ∧ r' = ⟨r.store.withBooks b, r.stack⟩

namespace Running.Deeper

variable {r r' : Running σ}

open Exec

theorem store (h : r.Deeper r') : r.store.Deeper r'.store := by
  obtain ⟨b, hb, rfl⟩ := h
  exact ⟨b, hb, rfl⟩

theorem agree_of_commutes (h : r.Deeper r') {act : Exec σ α} (hact : ∀ h, Commutes (Running.rebook h) act) :
    Agree Deeper Eq (act r) (act r') := by
  obtain ⟨b, hb, rfl⟩ := h
  have hbooks := books_of_commutes hact r
  have hr' : act ⟨r.store.withBooks b, r.stack⟩ = inState (Running.rebook fun _ => b) (act r) := hact (fun _ => b) r
  rw [hr']
  cases hr : act r <;> rw [hr] at hbooks
  · exact .ok rfl ⟨b, hbooks ▸ hb, rfl⟩
  · exact .error ⟨b, hbooks ▸ hb, rfl⟩

theorem agree_onStore (h : r.Deeper r') {act : StoreM σ α}
    (hact : Agree Store.Deeper Eq (act r.store) (act r'.store)) :
    Agree Deeper Eq (onStore act r) (onStore act r') := by
  obtain ⟨s, stack⟩ := r
  obtain ⟨b, -, rfl⟩ := h
  unfold onStore
  dsimp only at hact ⊢
  generalize act s = x, act (s.withBooks b) = x' at hact
  rcases hact with ⟨heq, b', hb', rfl⟩ | ⟨b', hb', rfl⟩
  · exact .ok heq ⟨b', hb', rfl⟩
  · exact .error ⟨b', hb', rfl⟩

theorem agree_branch (h : r.Deeper r') (f : Frame) (t : BranchTarget) :
    Agree Deeper Eq (branch f t r) (branch f t r') := by
  refine .bind (h.agree_of_commutes fun _ => commutes_changeStack _) fun _ _ r₁ r₁' _ _ h₁ => ?_
  dsimp only
  split
  · exact .bind (h₁.agree_onStore h₁.store.agree_pollInterrupt) fun _ _ _ _ _ _ h₂ => .ok rfl h₂
  · exact .ok rfl h₁

theorem agree_leave (h : r.Deeper r') (f : Scope) : Agree Deeper Eq (leave f r) (leave f r') := by
  obtain ⟨b, hb, rfl⟩ := h
  exact .ok rfl ⟨{ b with stats := b.stats.record 0 r.stack.height }, { hb with }, rfl⟩

/-- **Ops do the same a level deeper.** -/
theorem agree_op (h : r.Deeper r') (f : Frame) (op : Op) : Agree Deeper Eq (op.exec f r) (op.exec f r') := by
  have hpop : Agree Deeper Eq ((popNat : Exec σ Nat) r) (popNat r') := h.agree_of_commutes fun _ => commutes_popNat
  cases op with
  | unreachable => exact .error h
  | br t => exact h.agree_branch f t
  | brIf t =>
    refine hpop.bind fun n _ r₁ r₁' _ heq h₁ => ?_
    subst heq
    by_cases hn : n ≠ 0
    · rw [if_pos hn]
      exact h₁.agree_branch f t
    · rw [if_neg hn]
      exact .ok rfl h₁
  | brUnless pc =>
    refine hpop.bind fun n _ r₁ r₁' _ heq h₁ => ?_
    subst heq
    by_cases hn : n = 0
    · rw [if_pos hn]
      exact .ok rfl h₁
    · rw [if_neg hn]
      exact .ok rfl h₁
  | jump pc => exact .ok rfl h
  | brTable targets default =>
    refine hpop.bind fun n _ r₁ r₁' _ heq h₁ => ?_
    subst heq
    exact h₁.agree_branch f _
  | ret => exact .bind (h.agree_leave _) fun _ _ _ _ _ _ h₁ => .ok rfl h₁
  | call x => exact h.agree_of_commutes fun _ => .bind (commutes_funcAddr _ x) fun _ => .pure _
  | callIndirect type table =>
    exact h.agree_of_commutes fun _ => .bind (commutes_indirectCallee _ type table) fun _ => .pure _
  | plain op => exact h.agree_of_commutes fun _ => .bind (op.commutes_exec _) fun _ => .pure _

theorem hasOp_eq (h : r.Deeper r') (f : Frame) : f.hasOp r'.store = f.hasOp r.store := by
  obtain ⟨b, -, rfl⟩ := h
  rfl

/-- **A frame does the same a level deeper**, if it can pay for its op there. -/
theorem agree_exec (h : r.Deeper r') (f : Frame) (hfuel : f.hasOp r'.store = true → r'.store.fuel ≠ some 0) :
    Agree Deeper Eq (f.exec r) (f.exec r') := by
  cases hop : f.hasOp r.store with
  | false =>
    obtain ⟨fault, he⟩ := Frame.exec_of_not_hasOp hop
    have hr : f.exec r = _ := he id
    have hr' : f.exec r' = .error (.ofFault (.runtime fault)) r' := by
      obtain ⟨b, -, rfl⟩ := h
      exact he fun _ => b
    rw [hr, hr']
    exact .error h
  | true =>
    have hop' := (h.hasOp_eq f).trans hop
    obtain ⟨op, ho, hexec⟩ := Frame.exec_of_hasOp hop
    obtain ⟨op', ho', hexec'⟩ := Frame.exec_of_hasOp hop'
    cases ho.symm.trans ho'
    rw [hexec, hexec']
    exact .bind (h.agree_onStore (h.store.agree_charge (hfuel hop'))) fun _ _ _ _ _ _ h₁ => h₁.agree_op f op

end Running.Deeper

/-- A frame that cannot pay for its op traps. -/
theorem Frame.exec_of_zero {f : Frame} {r : Running σ} (hop : f.hasOp r.store = true) (h : r.store.fuel = some 0) :
    ∃ r', f.exec r = .error (.ofCode .outOfFuel) r' := by
  obtain ⟨op, -, hexec⟩ := exec_of_hasOp hop
  obtain ⟨s, stack⟩ := r
  rw [hexec]
  exact ⟨_, estate_bind_of_error (by rw [Exec.onStore, Store.charge_of_zero h])⟩

/-! ### Want of room and of fuel -/

/-- Traps for want of depth, of stack or of fuel. -/
def TrapCode.isShortage : TrapCode → Bool
  | .stackOverflow | .outOfFuel => true
  | _ => false

/-- What went on has ended for want of depth, of stack or of fuel. -/
def Control.starved : Control σ → Bool
  | .outcome (.error (.trap t _)) => t.code.isShortage
  | _ => false

namespace Machine

/-- Code runs, or a host function asks for something to be called. -/
def attempts : Machine σ → Bool
  | ⟨_, .guest _, _⟩ | ⟨_, .host _ _ (.call ..), _⟩ | ⟨_, .host _ _ (.instantiate ..), _⟩ => true
  | _ => false

/-- **A step fails for want of depth, of stack or of fuel.** Who hands an error on, or makes one up, lacks nothing. -/
def starves (m : Machine σ) : Bool := m.attempts && m.step.control.starved

/-- **There is enough depth, stack and fuel** for all that a call leads to, from its start on. -/
structure Ample (m : Machine σ) : Prop where
  starts : m.control.starved = false
  goesOn (n : Nat) : (m.run n).starves = false

end Machine

/-! ### Host functions -/

/-- **A program that asks nothing of its caller**, neither who it is nor anything about its memory. -/
def HostProgram.Aloof : HostProgram σ → Prop
  | .finish _ => True
  | .update _ next => next.Aloof
  | .inspect next => ∀ state, (next state).Aloof
  | .caller _ | .memorySize _ | .readMemory .. | .writeMemory .. => False
  | .operate _ next => ∀ reply, (next reply).Aloof
  | .define _ _ next => ∀ reply, (next reply).Aloof
  | .call _ _ next => ∀ reply, (next reply).Aloof
  | .instantiate _ _ next => ∀ reply, (next reply).Aloof

/-- A program that asks something of the store that does not run anything. -/
def HostProgram.asksStore : HostProgram σ → Bool
  | .update .. | .inspect _ | .operate .. | .define .. => true
  | _ => false

namespace Machine

/-! ### Machines -/

/-- **Who waits, a level deeper.** At the bottom the host function waits that was called in different ways, and beneath
it, the one who called it. -/
inductive Beneath (base : Waiting σ) (type : FuncType) : List (Waiting σ) → List (Waiting σ) → Prop
  | bottom {caller caller' : Option Nat} {next : Except Error (List Value) → HostProgram σ} :
    (∀ reply, (next reply).Aloof) → Beneath base type [.host caller type next] [.host caller' type next, base]
  | guest {inv : Invocation} {t : FuncType} {depth : Nat} {waiting waiting' : List (Waiting σ)} :
    Beneath base type waiting waiting' →
    Beneath base type (.guest inv t depth :: waiting) (.guest inv t (depth + 1) :: waiting')
  | host {caller : Option Nat} {t : FuncType} {next : Except Error (List Value) → HostProgram σ}
    {waiting waiting' : List (Waiting σ)} : Beneath base type waiting waiting' →
    Beneath base type (.host caller t next :: waiting) (.host caller t next :: waiting')
  | start {place : Nat} {waiting waiting' : List (Waiting σ)} : Beneath base type waiting waiting' →
    Beneath base type (.start place :: waiting) (.start place :: waiting')

/-- **Two machines, the second one a level deeper.** A host function of the given signature runs, or something that it
has called. -/
inductive Deeper (base : Waiting σ) (type : FuncType) : Machine σ → Machine σ → Prop
  | runs {s s' : Store σ} {caller caller' : Option Nat} {p : HostProgram σ} : s.Deeper s' → p.Aloof →
    Deeper base type ⟨s, .host caller type p, []⟩ ⟨s', .host caller' type p, [base]⟩
  | waits {s s' : Store σ} {control : Control σ} {waiting waiting' : List (Waiting σ)} : s.Deeper s' →
    Beneath base type waiting waiting' → Deeper base type ⟨s, control, waiting⟩ ⟨s', control, waiting'⟩

/-- **The host function is about to end** in both machines, with the same outcome. -/
inductive Ends (base : Waiting σ) (type : FuncType) (outcome : Except Error (List Value)) : Machine σ → Machine σ → Prop
  | finish {s s' : Store σ} {caller caller' : Option Nat} : s.Deeper s' →
    Ends base type outcome ⟨s, .host caller type (.finish outcome), []⟩
      ⟨s', .host caller' type (.finish outcome), [base]⟩

section

variable {base : Waiting σ} {type : FuncType} {s s' : Store σ} {waiting waiting' : List (Waiting σ)} (h : s.Deeper s')
  (hw : Beneath base type waiting waiting')

include h

/-- **There is room for another frame at both levels**, if there is at the deeper one. -/
theorem deeper_enter {inv : Invocation} (f : WasmFunc)
    (hroom : s'.depth + inv.frames.length < s'.config.maxCallDepth) :
    Agree Store.Deeper Eq (inv.enter f s) (inv.enter f s') := by
  have hroom' : s.depth + inv.frames.length < s.config.maxCallDepth := by
    rw [h.depth_eq, h.maxCallDepth_eq] at hroom
    omega
  unfold Invocation.enter
  dsimp only
  rw [if_neg (Nat.not_le.mpr hroom), if_neg (Nat.not_le.mpr hroom'), h.maxValueStack_eq]
  split
  · exact .error h
  split
  · exact .error h
  split
  · exact .error h
  · exact .ok rfl (h.count _ _)

include hw

/-- **The same host function is called with the same arguments.** -/
theorem deeper_callHost (inv : Invocation) (f : HostFunc σ) :
    Deeper base type (callHost s inv f waiting) (callHost s' inv f waiting') := by
  unfold callHost
  dsimp only
  split
  · exact .waits h hw
  · have hdepth : s'.depth + inv.frames.length = s.depth + inv.frames.length + 1 := by
      rw [h.depth_eq]
      omega
    rw [hdepth, h.depth_eq]
    exact .waits (h.countAt _ _ _) (.guest hw)

/-- **The same function is called**, unless there is no room for it at the deeper level. -/
theorem deeper_callFrom (inv : Invocation) (addr : Nat)
    (hroom : (callFrom s' inv addr waiting').control.starved = false) :
    Deeper base type (callFrom s inv addr waiting) (callFrom s' inv addr waiting') := by
  have hpoll := h.agree_pollInterrupt
  unfold callFrom at hroom ⊢
  generalize Store.pollInterrupt s = x, Store.pollInterrupt s' = x' at hpoll hroom ⊢
  cases hpoll with
  | error h₁ => exact .waits h₁ hw
  | @ok _ _ s₁ s₁' _ h₁ =>
    dsimp only at hroom ⊢
    rw [h₁.funcs_eq] at hroom ⊢
    split
    · exact .waits h₁ hw
    · next f hf =>
      rw [hf] at hroom
      have hdepth : s₁'.depth + inv.frames.length < s₁'.config.maxCallDepth := by
        refine Nat.lt_of_not_le fun hfull => ?_
        dsimp only at hroom
        rw [(Invocation.Overflows.depth hfull).enter] at hroom
        nomatch hroom
      have henter := deeper_enter h₁ f hdepth
      generalize inv.enter f s₁ = x, inv.enter f s₁' = x' at henter
      rcases henter with ⟨rfl, h₂⟩ | h₂ <;> exact .waits h₂ hw
    · exact deeper_callHost h₁ hw inv _

theorem deeper_invoke (addr : Nat) (args : List Value)
    (hroom : (invoke s' addr args waiting').control.starved = false) :
    Deeper base type (invoke s addr args waiting) (invoke s' addr args waiting') := by
  unfold invoke at hroom ⊢
  rw [h.funcs_eq] at hroom ⊢
  split
  · exact .waits h hw
  · have hpoll := h.agree_pollInterrupt
    generalize Store.pollInterrupt s = x, Store.pollInterrupt s' = x' at hpoll
    rcases hpoll with ⟨-, h₁⟩ | h₁
    · exact .waits (h₁.count _ _) hw
    · exact .waits h₁ hw
  · next f hf =>
    rw [hf] at hroom
    exact deeper_callFrom h hw _ addr hroom

omit hw in
theorem checkCall_deeper (func : Handle .func) (args : List Value) :
    checkCall s' func args = checkCall s func args := by
  obtain ⟨b, -, rfl⟩ := h
  rfl

theorem deeper_call (func : Handle .func) (args : List Value)
    (hroom : (call s' func args waiting').control.starved = false) :
    Deeper base type (call s func args waiting) (call s' func args waiting') := by
  unfold call at hroom ⊢
  rw [checkCall_deeper h] at hroom ⊢
  split
  · exact .waits h hw
  · next hcheck =>
    rw [hcheck] at hroom
    exact deeper_invoke h hw _ args hroom

theorem deeper_instantiate (m : Module) (entities : List Extern)
    (hroom : (instantiate s' m entities waiting').control.starved = false) :
    Deeper base type (instantiate s m entities waiting) (instantiate s' m entities waiting') := by
  have hagree := h.agree_of_commutes fun _ => Store.commutes_instantiate m entities
  unfold instantiate at hroom ⊢
  dsimp only at hroom ⊢
  rw [h.instances_eq] at hroom ⊢
  generalize Store.instantiate m entities s = x, Store.instantiate m entities s' = x' at hagree hroom
  cases hagree with
  | error h₁ => exact .waits h₁ hw
  | @ok start _ _ _ heq h₁ =>
    subst heq
    cases start with
    | none => exact .waits h₁ hw
    | some addr => exact deeper_invoke h₁ (.start hw) addr [] hroom

/-! ### Steps -/

/-- **Running code takes the same step**, unless it lacks something at the deeper level. -/
theorem deeper_stepGuest (inv : Invocation) (hroom : (stepGuest s' inv waiting').control.starved = false) :
    Deeper base type (stepGuest s inv waiting) (stepGuest s' inv waiting') := by
  obtain ⟨stack, frames, types⟩ := inv
  cases frames with
  | nil => exact .waits h hw
  | cons f rest =>
    have hrunning : Running.Deeper ⟨s, stack⟩ ⟨s', stack⟩ := by
      obtain ⟨b, hb, rfl⟩ := h
      exact ⟨b, hb, rfl⟩
    have hfuel : f.hasOp s' = true → s'.fuel ≠ some 0 := by
      intro hop hzero
      obtain ⟨r', hexec⟩ := Frame.exec_of_zero (r := ⟨s', stack⟩) hop hzero
      rw [stepGuest_of_error hexec] at hroom
      nomatch hroom
    have hagree := hrunning.agree_exec f hfuel
    cases hr' : f.exec ⟨s', stack⟩ with
    | error e r' =>
      rw [hr'] at hagree
      generalize hr : f.exec ⟨s, stack⟩ = x at hagree
      obtain _ | @⟨_, r, _, b, hb, rfl⟩ := hagree
      rw [stepGuest_of_error hr, stepGuest_of_error hr']
      exact .waits ⟨b, hb, rfl⟩ hw
    | ok flow r' =>
      rw [hr'] at hagree
      generalize hr : f.exec ⟨s, stack⟩ = x at hagree
      obtain @⟨flow, _, r, _, rfl, b, hb, rfl⟩ | _ := hagree
      have hstore : r.store.Deeper (r.store.withBooks b) := ⟨b, hb, rfl⟩
      rw [stepGuest_of_ok hr'] at hroom ⊢
      rw [stepGuest_of_ok hr]
      cases flow with
      | next | goto => exact .waits hstore hw
      | call addr => exact deeper_callFrom hstore hw _ addr hroom
      | ret => cases rest <;> exact .waits hstore hw

omit h hw in
/-- What is answered in the same way is the same behind it. -/
theorem deeper_settle {act : StoreM σ α} (hagree : Agree Store.Deeper Eq (act s) (act s')) :
    (settle (act s')).1 = (settle (act s)).1 ∧ Store.Deeper (settle (act s)).2 (settle (act s')).2 := by
  generalize act s = x, act s' = x' at hagree
  rcases hagree with ⟨rfl, h⟩ | h <;> exact ⟨rfl, h⟩

omit hw in
theorem callerMemory_deeper (caller : Option Nat) : callerMemory? s' caller = callerMemory? s caller := by
  unfold callerMemory?
  rw [h.instances_eq]

omit hw in
/-- **What a host function asks of the store is answered the same**, whoever has called it. -/
theorem deeper_answer {p : HostProgram σ} (hp : p.asksStore = true) : ∃ q s₁ s₁', Store.Deeper s₁ s₁' ∧
    (p.Aloof → q.Aloof) ∧
    (∀ caller type waiting, stepHost (φ := Frame) s caller type p waiting = ⟨s₁, .host caller type q, waiting⟩) ∧
    ∀ caller type waiting, stepHost (φ := Frame) s' caller type p waiting = ⟨s₁', .host caller type q, waiting⟩ := by
  cases p with
  | update change next =>
    refine ⟨next, _, { s' with state := change s.state }, h.setState (change s.state), id, fun _ _ _ => rfl, ?_⟩
    rw [← h.state_eq]
    exact fun _ _ _ => rfl
  | inspect next =>
    refine ⟨next s.state, s, s', h, fun hp => hp _, fun _ _ _ => rfl, ?_⟩
    rw [← h.state_eq]
    exact fun _ _ _ => rfl
  | operate r next =>
    obtain ⟨hreply, hs⟩ := deeper_settle (h.agree_perform r)
    refine ⟨next (settle (Store.perform r s)).1, _, _, hs, fun hp => hp _, fun _ _ _ => rfl, ?_⟩
    rw [← hreply]
    exact fun _ _ _ => rfl
  | define type body next =>
    obtain ⟨hreply, hs⟩ := deeper_settle (h.agree_of_commutes fun _ => Store.commutes_newFunc ⟨type, body⟩)
    refine ⟨next (settle (Store.newFunc ⟨type, body⟩ s)).1, _, _, hs, fun hp => hp _, fun _ _ _ => rfl, ?_⟩
    rw [← hreply]
    exact fun _ _ _ => rfl
  | _ => nomatch hp

/-- **A host function that something else has called takes the same step.** -/
theorem deeper_stepHost {caller : Option Nat} {t : FuncType} (p : HostProgram σ)
    (hroom : (⟨s', .host caller t p, waiting'⟩ : Machine σ).starves = false) :
    Deeper base type (stepHost s caller t p waiting) (stepHost s' caller t p waiting') := by
  cases hasks : p.asksStore with
  | true =>
    obtain ⟨q, s₁, s₁', hs, -, hstep, hstep'⟩ := deeper_answer h hasks
    rw [hstep, hstep']
    exact .waits hs hw
  | false =>
    cases p with
    | update | inspect | operate | define => nomatch hasks
    | finish => exact .waits h hw
    | caller next =>
      unfold stepHost
      dsimp only
      rw [h.id_eq]
      exact .waits h hw
    | memorySize next =>
      unfold stepHost
      dsimp only
      rw [callerMemory_deeper h, h.memories_eq]
      exact .waits h hw
    | readMemory start length next =>
      unfold stepHost
      dsimp only
      rw [callerMemory_deeper h, h.id_eq]
      split
      · exact .waits h hw
      · next addr _ =>
        obtain ⟨hreply, hs⟩ := deeper_settle
          (h.agree_of_commutes fun _ => Store.commutes_readMemory ⟨s.id, addr⟩ start length)
        rw [hreply]
        exact .waits hs hw
    | writeMemory start bytes next =>
      unfold stepHost
      dsimp only
      rw [callerMemory_deeper h, h.id_eq]
      split
      · exact .waits h hw
      · next addr _ =>
        obtain ⟨hreply, hs⟩ := deeper_settle
          (h.agree_of_commutes fun _ => Store.commutes_writeMemory ⟨s.id, addr⟩ start bytes)
        rw [hreply]
        exact .waits hs hw
    | call func args next => exact deeper_call h (.host hw) func args hroom
    | instantiate m entities next =>
      have hroom : (stepHost s' caller t (.instantiate m entities next) waiting').control.starved = false := hroom
      unfold stepHost at hroom ⊢
      dsimp only at hroom ⊢
      rw [h.id_eq, h.instances_eq] at hroom ⊢
      exact deeper_instantiate h (.host hw) m entities hroom

omit hw in
/-- **The host function that was called in different ways takes the same step**, as it asks nothing of its caller, until
it ends. -/
theorem deeper_stepAloof {caller caller' : Option Nat} {p : HostProgram σ} (hp : p.Aloof)
    (hroom : (⟨s', .host caller' type p, [base]⟩ : Machine σ).starves = false)
    (hgoesOn : ∀ outcome, p ≠ .finish outcome) :
    Deeper base type (stepHost s caller type p []) (stepHost s' caller' type p [base]) := by
  cases hasks : p.asksStore with
  | true =>
    obtain ⟨q, s₁, s₁', hs, hq, hstep, hstep'⟩ := deeper_answer h hasks
    rw [hstep, hstep']
    exact .runs hs (hq hp)
  | false =>
    cases p with
    | update | inspect | operate | define => nomatch hasks
    | caller | memorySize | readMemory | writeMemory => exact hp.elim
    | finish outcome => exact absurd rfl (hgoesOn outcome)
    | call func args next => exact deeper_call h (.bottom hp) func args hroom
    | instantiate m entities next =>
      have hroom : (stepHost s' caller' type (.instantiate m entities next) [base]).control.starved = false := hroom
      unfold stepHost at hroom ⊢
      dsimp only at hroom ⊢
      rw [h.id_eq, h.instances_eq] at hroom ⊢
      exact deeper_instantiate h (.bottom fun _ => hp _) m entities hroom

/-- **An outcome is delivered to the same one.** -/
theorem deeper_deliver (result : Except Error (List Value)) :
    Deeper base type (⟨s, .outcome result, waiting⟩ : Machine σ).step
      (⟨s', .outcome result, waiting'⟩ : Machine σ).step := by
  cases hw with
  | bottom hnext => exact .runs h (hnext result)
  | host hw => exact .waits h hw
  | start hw =>
    cases result with
    | ok => exact .waits h hw
    | error => exact .waits (h.release _) hw
  | @guest inv t depth _ _ hw =>
    have hs : Store.Deeper { s with depth } { s' with depth := depth + 1 } := h.countAt s.stats s'.stats depth
    have hpush (values : List Value) :
        pushResults { s' with depth := depth + 1 } values t.results inv.stack =
          pushResults { s with depth } values t.results inv.stack := by
      refine pushResults_congr (fun _ _ _ => ?_) _ _
      obtain ⟨b, -, rfl⟩ := h
      rfl
    unfold Machine.step deliver
    dsimp only
    cases result with
    | error e => exact .waits hs hw
    | ok values =>
      dsimp only
      rw [hpush]
      split <;> exact .waits hs hw

end

variable {base : Waiting σ} {type : FuncType} {m m' : Machine σ}

/-- **Neither machine halts** before the host function has ended. -/
theorem Deeper.outcome_eq_none (h : Deeper base type m m') : m.outcome? = none ∧ m'.outcome? = none := by
  cases h with
  | runs => exact ⟨rfl, rfl⟩
  | @waits _ _ control _ _ _ hw => cases control <;> cases hw <;> exact ⟨rfl, rfl⟩

/-- **A step is the same a level deeper**, unless something is lacked there, or the host function ends. -/
theorem Deeper.step (h : Deeper base type m m') (hroom : m'.starves = false) :
    Deeper base type m.step m'.step ∨ ∃ outcome, Ends base type outcome m m' := by
  cases h with
  | @runs s s' caller caller' p hs hp =>
    by_cases hends : ∃ outcome, p = .finish outcome
    · obtain ⟨outcome, rfl⟩ := hends
      exact .inr ⟨outcome, .finish hs⟩
    · exact .inl (deeper_stepAloof hs hp hroom fun outcome he => hends ⟨outcome, he⟩)
  | @waits s s' control waiting waiting' hs hw =>
    refine .inl ?_
    cases control with
    | guest inv => exact deeper_stepGuest hs hw inv hroom
    | host caller type p => exact deeper_stepHost hs hw p hroom
    | outcome result => exact deeper_deliver hs hw result

/-- **A run is the same a level deeper**, up to the end of the host function. -/
theorem Deeper.run (h : Deeper base type m m') (hroom : ∀ k, (m'.run k).starves = false) (n : Nat) :
    Deeper base type (m.run n) (m'.run n) ∨ ∃ k < n, ∃ outcome, Ends base type outcome (m.run k) (m'.run k) := by
  induction n with
  | zero => exact .inl h
  | succ n ih =>
    rw [run_succ, run_succ]
    rcases ih with hn | ⟨k, hk, hends⟩
    · rcases hn.step (hroom n) with hstep | hends
      · exact .inl hstep
      · exact .inr ⟨n, Nat.lt_succ_self n, hends⟩
    · exact .inr ⟨k, Nat.lt_succ_of_lt hk, hends⟩

theorem Ends.host {outcome : Except Error (List Value)} (h : Ends base type outcome m m') :
    ∃ s caller, m = ⟨s, .host caller type (.finish outcome), []⟩ := by
  cases h with
  | finish => exact ⟨_, _, rfl⟩

/-- **The host function ends the same**, with what it gives back. -/
theorem Ends.step {outcome : Except Error (List Value)} (h : Ends base type outcome m m') : ∃ s s', Store.Deeper s s' ∧
    m.step = ⟨s, .outcome (type.hostOutcome outcome), []⟩ ∧
    m'.step = ⟨s', .outcome (type.hostOutcome outcome), [base]⟩ := by
  cases h with
  | finish hs => exact ⟨_, _, hs, rfl, rfl⟩

end Machine

end WasmEngine
