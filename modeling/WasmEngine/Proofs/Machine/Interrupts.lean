import Mathlib.Algebra.Order.BigOperators.Group.List
import Mathlib.Algebra.Order.Group.Nat
import Mathlib.Logic.Relation
import WasmEngine.Proofs.Machine.Calling
import WasmEngine.Proofs.Machine.WellTyped
import WasmEngine.Proofs.Structured.Forward

/-!
# Interrupts

Code that is asked to stop does not look at once: calls do, and branches that do not go forward, and nothing else. While
the flag is set, an op that goes on within the body has not looked (`Op.heeds_exec`), so it has gone forward, and there
is only so much of a body ahead. Calls are not made any more, and frames that have returned do not come back. What is
ahead of all frames of an invocation (`Invocation.room`) gets less with every op, and when nothing is left the
invocation has come to its end (`Machine.Reached.interrupt_bounded`).

A host function that runs when the flag is set is left alone, and what is said here holds from when it has returned, if
the flag is still set then.
-/

namespace WasmEngine

variable {σ : Type}

/-! ### Ops -/

/-- The op of a body that execution goes on at. -/
def Flow.target? (pc : Nat) : Flow → Option Nat
  | .next => some (pc + 1)
  | .goto pc' => some pc'
  | .call _ | .ret => none

/-- The interrupt flag is as it was. -/
def Running.SameFlag (r r' : Running σ) : Prop := r'.store.interrupted = r.store.interrupted

namespace Exec

variable {α : Type} {act act' : Exec σ Flow} {goes : Flow → Prop}

/-- **What comes of running code while the flag is set**: it goes on in a certain way, or fails. The flag is cleared
only by a poll, and that ends with an interrupt. -/
def Heeds (act : Exec σ Flow) (goes : Flow → Prop) : Prop := ∀ r, r.store.interrupted = true →
  Yields act r (fun flow r' => goes flow ∧ r'.store.interrupted = true) fun e r' =>
    (e = .ofCode .interrupted ∧ r'.store.interrupted = false) ∨ r'.store.interrupted = true

namespace Heeds

theorem bind {act : Exec σ α} {k : α → Exec σ Flow} (h : Keeps Running.SameFlag act) (hk : ∀ a, Heeds (k a) goes) :
    Heeds (act >>= k) goes := by
  intro r hr
  have hact : Yields act r (fun _ r' => r'.store.interrupted = true) fun _ r' => r'.store.interrupted = true :=
    .of_end ((h r).trans hr)
  exact (hact.imp (fun _ _ => id) fun _ _ => .inr).bind fun a r' => hk a r'

theorem pure {flow : Flow} (h : goes flow) : Heeds (Pure.pure flow : Exec σ Flow) goes :=
  fun _ hr => .of_ok rfl ⟨h, hr⟩

theorem ite {c : Prop} [Decidable c] (h : Heeds act goes) (h' : Heeds act' goes) :
    Heeds (if c then act else act') goes := by
  split
  · exact h
  · exact h'

end Heeds

theorem sameFlag_of_commutes {act : Exec σ α} (hact : ∀ h, Commutes (Running.rebook h) act) :
    Keeps Running.SameFlag act :=
  fun r => congrArg Books.interrupted (books_of_commutes hact r)

/-- **A branch that goes back ends with an interrupt.** -/
theorem heeds_branch (f : Frame) (t : BranchTarget) (h : f.pc < t.pc → goes (.goto t.pc)) :
    Heeds (branch f t : Exec σ Flow) goes := by
  refine .bind (sameFlag_of_commutes fun _ => commutes_changeStack _) fun _ => ?_
  dsimp only
  split
  · intro r hr
    have hpoll : (onStore Store.pollInterrupt : Exec σ Unit) r =
        .error (.ofCode .interrupted) ⟨{ r.store with interrupted := false }, r.stack⟩ := by
      rw [onStore, Store.pollInterrupt, if_pos hr]
    exact .of_error (estate_bind_of_error hpoll) (.inl ⟨rfl, rfl⟩)
  · next hlt => exact .pure (h (Nat.lt_of_not_le hlt))

end Exec

open Exec

/-- **While the flag is set, ops that go on have not looked at it.** -/
theorem Op.heeds_exec (f : Frame) (op : Op) :
    Heeds (op.exec f : Exec σ Flow) fun flow => ∀ pc ∈ flow.target? f.pc, op.Passes f.pc pc := by
  have hpop : Keeps Running.SameFlag (popNat : Exec σ Nat) := sameFlag_of_commutes fun _ => commutes_popNat
  have hgoto {op : Op} {target : Nat} (h : op.Passes f.pc target) :
      ∀ pc ∈ (Flow.goto target).target? f.pc, op.Passes f.pc pc := fun pc hpc => Option.some.inj hpc ▸ h
  have hnext {op : Op} (h : op.Passes f.pc (f.pc + 1)) :
      ∀ pc ∈ Flow.next.target? f.pc, op.Passes f.pc pc := fun pc hpc => Option.some.inj hpc ▸ h
  cases op with
  | unreachable => exact fun r hr => .of_error rfl (.inr hr)
  | br t => exact heeds_branch f t fun hlt => hgoto (.br hlt)
  | brIf t =>
    exact .bind hpop fun _ => .ite (heeds_branch f t fun hlt => hgoto (.brIf hlt)) (.pure (hnext (.brIfNot t)))
  | brUnless pc => exact .bind hpop fun _ => .ite (.pure (hgoto (.brUnless pc))) (.pure (hnext (.brUnlessNot pc)))
  | jump pc => exact .pure (hgoto (.jump pc))
  | brTable targets default =>
    refine .bind hpop fun index => heeds_branch f _ fun hlt => hgoto (.brTable ?_ hlt)
    cases ht : targets[index]? with
    | none => exact List.mem_cons_self
    | some t => exact List.mem_cons_of_mem _ (List.mem_of_getElem? ht)
  | ret =>
    have hleave : Keeps Running.SameFlag (leave f.toScope : Exec σ Unit) := .modify fun _ => rfl
    exact .bind hleave fun _ => .pure nofun
  | call x => exact .bind (sameFlag_of_commutes fun _ => commutes_funcAddr _ x) fun _ => .pure nofun
  | callIndirect type table =>
    exact .bind (sameFlag_of_commutes fun _ => commutes_indirectCallee _ type table) fun _ => .pure nofun
  | plain op => exact .bind (sameFlag_of_commutes fun _ => op.commutes_exec _) fun _ => .pure (hnext (.plain op))

theorem Exec.sameFlag_charge : Keeps Running.SameFlag (onStore Store.charge : Exec σ Unit) := by
  intro ⟨store, stack⟩
  unfold onStore Store.charge
  dsimp only
  cases store.fuel with
  | none => rfl
  | some n => cases n <;> rfl

/-- **While the flag is set, a frame that goes on has not looked at it.** -/
theorem Frame.heeds_exec (f : Frame) :
    Heeds (f.exec : Exec σ Flow) fun flow => ∀ pc ∈ flow.target? f.pc, f.body.Passes f.pc pc := by
  intro r hr
  cases hop : f.hasOp r.store with
  | false =>
    obtain ⟨fault, he⟩ := exec_of_not_hasOp hop
    exact .of_error (he id) (.inr hr)
  | true =>
    obtain ⟨op, hop, hexec⟩ := exec_of_hasOp hop
    have hheeds := Heeds.bind sameFlag_charge (fun _ => op.heeds_exec f) r hr
    unfold Yields at hheeds ⊢
    rw [hexec]
    exact Yields.mono hheeds fun flow r' h => ⟨fun pc hpc => ⟨op, hop, h.1 pc hpc⟩, h.2⟩

/-- **Execution of a body gets from an op to another although the flag is set**, without a poll on the way. -/
def CompiledBody.Unpolled (σ : Type) (body : CompiledBody) (pc pc' : Nat) : Prop :=
  ∃ (f : Frame) (r r' : Running σ) (flow : Flow), f.body = body ∧ f.pc = pc ∧ r.store.interrupted = true ∧
    f.exec r = .ok flow r' ∧ flow.target? pc = some pc'

theorem CompiledBody.Unpolled.passes {body : CompiledBody} {pc pc' : Nat} (h : body.Unpolled σ pc pc') :
    body.Passes pc pc' := by
  obtain ⟨f, r, r', flow, rfl, rfl, hr, hexec, htarget⟩ := h
  exact ((f.heeds_exec r hr).ok_of hexec).1 pc' htarget

/-- **The ops that are ahead** of the frames of an invocation. -/
def Invocation.room (inv : Invocation) : Nat := (inv.frames.map fun f => f.body.ops.size - f.pc).sum

theorem Invocation.room_le (inv : Invocation) : inv.room ≤ (inv.frames.map fun f => f.body.ops.size).sum :=
  List.sum_le_sum fun _ _ => Nat.sub_le _ _

namespace Machine

/-- An invocation has ended while the flag was set: by an interrupt, or with the flag still set. -/
def Stopped (s : Store σ) (result : Except Error (List Value)) : Prop :=
  (∃ e, result = .error e ∧ e.trap?.map (·.code) = some .interrupted ∧ s.interrupted = false) ∨ s.interrupted = true

/-- **What a step of an invocation leads to while the flag is set**: there is less ahead, or it has ended. -/
inductive Heeding (room : Nat) (waiting : List (Waiting σ)) : Machine σ → Prop
  | goesOn {s : Store σ} {inv : Invocation} : s.interrupted = true → inv.room < room →
    Heeding room waiting ⟨s, .guest inv, waiting⟩
  | stops {s : Store σ} {result : Except Error (List Value)} : Stopped s result →
    Heeding room waiting ⟨s, .outcome result, waiting⟩

section

variable {s : Store σ} {inv : Invocation} {waiting : List (Waiting σ)}

theorem executes_le_room : (executes ⟨s, .guest inv, waiting⟩).toNat ≤ inv.room := by
  obtain ⟨stack, frames, types⟩ := inv
  cases frames with
  | nil => exact Nat.zero_le _
  | cons f frames =>
    change (f.hasOp s).toNat ≤ _
    cases hop : f.hasOp s with
    | false => exact Nat.zero_le _
    | true =>
      have hlt := Frame.lt_of_hasOp hop
      change 1 ≤ ((f.body.ops.size - f.pc) :: frames.map fun f => f.body.ops.size - f.pc).sum
      rw [List.sum_cons]
      omega

/-- **A step of an invocation takes an op from what is ahead**, if all its frames go forward but for what polls. -/
theorem heeding_stepGuest (hs : s.interrupted = true) (hforward : ∀ f ∈ inv.frames, f.body.Forward) :
    Heeding inv.room waiting (stepGuest s inv waiting) := by
  obtain ⟨stack, frames, types⟩ := inv
  cases frames with
  | nil => exact .stops (.inr hs)
  | cons f frames =>
    have hroom (f : Frame) (frames : List Frame) (stack : Stack) :
        (Invocation.mk stack (f :: frames) types).room =
          f.body.ops.size - f.pc + (Invocation.mk stack frames types).room := List.sum_cons
    have hheeds := f.heeds_exec ⟨s, stack⟩ hs
    cases hr : f.exec ⟨s, stack⟩ with
    | error e r =>
      rw [stepGuest_of_error hr]
      refine .stops ?_
      rcases hheeds.error_of hr with ⟨rfl, hflag⟩ | hflag
      · exact .inl ⟨_, rfl, rfl, hflag⟩
      · exact .inr hflag
    | ok flow r =>
      obtain ⟨hgoes, hflag⟩ := hheeds.ok_of hr
      have hlt := Frame.lt_of_hasOp (Frame.hasOp_of_exec hr)
      have hahead {pc : Nat} (hpc : flow.target? f.pc = some pc) :
          (Invocation.mk r.stack (f.goto pc :: frames) types).room <
            (Invocation.mk stack (f :: frames) types).room := by
        have hpc := hforward f List.mem_cons_self _ _ (hgoes pc hpc)
        rw [hroom, hroom]
        change f.body.ops.size - pc + (Invocation.mk stack frames types).room < _
        omega
      rw [stepGuest_of_ok hr]
      cases flow with
      | next => exact .goesOn hflag (hahead rfl)
      | goto pc => exact .goesOn hflag (hahead rfl)
      | call addr =>
        change Heeding _ _ (callFrom r.store ⟨r.stack, f :: frames, types⟩ addr waiting)
        rw [callFrom_interrupted hflag]
        exact .stops (.inl ⟨_, rfl, rfl, rfl⟩)
      | ret =>
        cases frames with
        | nil => exact .stops (.inr hflag)
        | cons g frames =>
          refine .goesOn hflag ?_
          change (Invocation.mk r.stack (g.goto (g.pc + 1) :: frames) types).room < _
          rw [hroom, hroom, hroom]
          change g.body.ops.size - (g.pc + 1) + (Invocation.mk stack frames types).room < _
          omega

end

variable {m : Machine σ} {log : List (Event σ)}

/-- The flag is still set when a call is made. -/
theorem Calls.flag {s : Store σ} {inv : Invocation} {addr : Nat} {waiting : List (Waiting σ)}
    (h : m.Calls s inv addr waiting) (hflag : m.store.interrupted = true) : s.interrupted = true := by
  cases h with
  | @code s _ stack _ f _ _ _ _ hexec => exact ((f.heeds_exec ⟨s, stack⟩ hflag).ok_of hexec).2
  | request => exact hflag
  | @start s _ _ _ m entities _ _ _ _ hr _ =>
    have hbooks := Store.books_of_commutes (fun _ => Store.commutes_instantiate m entities) s
    rw [hr] at hbooks
    exact (congrArg Books.interrupted hbooks).trans hflag

namespace Reached

/-- **All frames go forward** but for what polls. -/
theorem forward (h : Reached m log) : ∀ f ∈ m.frames, f.body.Forward :=
  h.frames_induction (P := fun _ f => f.body.Forward) (fun _ _ _ hf => hf)
    fun _ _ _ _ hdeclared hbody _ => hdeclared.forward hbody

/-- The run of an invocation while the flag is set, by induction on what is ahead. -/
theorem stops (h : Reached m log) (hflag : m.store.interrupted = true) {inv : Invocation}
    (hcontrol : m.control = .guest inv) : ∃ n result, (m.run n).control = .outcome result ∧
      (m.run n).waiting = m.waiting ∧
      (∀ k < n, ∃ inv', (m.run k).control = .guest inv' ∧ (m.run k).waiting = m.waiting) ∧
      (m.run n).store.stats.opsExecuted ≤ m.store.stats.opsExecuted + inv.room ∧
      Stopped (m.run n).store result := by
  induction hroom : inv.room using Nat.strong_induction_on generalizing m inv with
  | _ room ih =>
    subst hroom
    obtain ⟨s, control, waiting⟩ := m
    cases hcontrol
    have hnext (n : Nat) : Machine.run (n + 1) ⟨s, .guest inv, waiting⟩ = (stepGuest s inv waiting).run n := rfl
    have hops : (stepGuest s inv waiting).store.stats.opsExecuted =
        s.stats.opsExecuted + (executes ⟨s, .guest inv, waiting⟩).toNat := h.advances.ops
    have hahead : (executes ⟨s, .guest inv, waiting⟩).toNat ≤ inv.room := executes_le_room
    have hreached : Reached (stepGuest s inv waiting) log := h.step
    have hstep : Heeding inv.room waiting (stepGuest s inv waiting) :=
      heeding_stepGuest hflag fun f hf => h.forward f (List.mem_append_left _ hf)
    generalize stepGuest s inv waiting = m' at hnext hops hreached hstep
    cases hstep with
    | @stops s' result hstopped =>
      have hone : Machine.run 1 ⟨s, .guest inv, waiting⟩ = ⟨s', .outcome result, waiting⟩ := hnext 0
      rw [← hone] at hops
      refine ⟨1, result, by rw [hone], by rw [hone], fun k hk => ?_, ?_, by rw [hone]; exact hstopped⟩
      · obtain rfl := Nat.lt_one_iff.mp hk
        exact ⟨inv, rfl, rfl⟩
      · dsimp only
        omega
    | @goesOn s' inv' hflag' hless =>
      obtain ⟨n, result, hend, hwaiting, hguest, hcount, hstopped⟩ := ih inv'.room hless hreached hflag' rfl rfl
      have hone := Bool.toNat_le (executes ⟨s, .guest inv, waiting⟩)
      rw [← hnext] at hend hwaiting hcount hstopped
      refine ⟨n + 1, result, hend, hwaiting, fun k hk => ?_, ?_, hstopped⟩
      · cases k with
        | zero => exact ⟨inv, rfl, rfl⟩
        | succ k =>
          rw [hnext]
          exact hguest k (Nat.lt_of_succ_lt_succ hk)
      · dsimp only at hops hcount ⊢
        omega

end Reached

end Machine

/-! ### A loop that is interrupted, and one that is not -/

/-- The same, but the circle looks at a global, and there is a table of 10000001 elements. -/
def Module.wandering : Module :=
  (Module.ofBytes ⟨#[0, 97, 115, 109, 1, 0, 0, 0, 1, 4, 1, 96, 0, 0, 2, 7, 1, 1, 104, 1, 102, 0, 0, 3, 2, 1, 0, 4, 7, 1,
    112, 0, 129, 173, 226, 4, 6, 6, 1, 127, 0, 65, 0, 11, 10, 14, 1, 12, 0, 16, 0, 3, 64, 35, 0, 26, 12, 0, 11, 11]⟩
    .all {}).toOption.get (by decide +kernel)

/-- A module that imports a function, and has nothing. -/
def Module.bare : Module :=
  (Module.ofBytes ⟨#[0, 97, 115, 109, 1, 0, 0, 0, 1, 4, 1, 96, 0, 0, 2, 7, 1, 1, 104, 1, 102, 0, 0]⟩ .all
    {}).toOption.get (by decide +kernel)

/-- What an invocation, or a host function, has ended with. -/
def Control.result? : Control σ → Option (Except Error (List Value))
  | .outcome result => some result
  | _ => none

/-- Make a function that asks the code to stop, instantiate modules with it, and call the function that comes next. -/
def HostProgram.stopping (modules : List Module) : HostProgram Unit :=
  .define ⟨[], []⟩ (fun _ => .operate .interrupt fun _ => .return_ []) fun _ =>
    modules.foldr (fun m next => .instantiate m [.func ⟨0, 0⟩] fun _ => next)
      (.call ⟨0, 1⟩ [] fun _ => .return_ [])

namespace Machine

/-- The machine that is about to do so. -/
def stopping (modules : List Module) : Machine Unit :=
  ⟨.new 0 {} (), .host none ⟨[], []⟩ (.stopping modules), []⟩

/-- **A stranded function ends with what is no trap**, where the global that it was checked with is missing. The flag is
still set. -/
theorem not_trapped_wandering : ((stopping [.wandering, .bare]).run 10).store.interrupted = true ∧
    ((stopping [.wandering, .bare]).run 10).executes = true ∧
    ((stopping [.wandering, .bare]).run 11).control.result? =
      some (.error (.ofFault (.runtime (.unknown .global 0)))) ∧
    ((stopping [.wandering, .bare]).run 11).store.interrupted = true := by
  decide +kernel

end Machine

end WasmEngine
