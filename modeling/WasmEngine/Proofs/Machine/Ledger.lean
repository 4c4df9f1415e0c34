import WasmEngine.Proofs.Machine.Metering
import WasmEngine.Proofs.Machine.Programs

/-!
# Ops that are counted and ops that are paid for

A store with metering keeps two accounts of the ops that run: it counts them, and it takes a unit of fuel for each. Both
are done at the same place, before the op (`Store.charge`), and nothing else writes to either account (`Ledger`), as
long as host functions abstain from it (`HostProgram.Abstains`). They may do everything else, also call functions.

The accounts do not agree, however. An op is counted before it is looked at whether there is fuel, so the op that finds
none is counted too, though it is not paid for and does not run (`Machine.refuses`). So the counter grows by what is
spent and by the number of these ops (`Machine.call_accounted`).
-/

namespace WasmEngine

variable {σ : Type}

/-! ### Host functions that abstain -/

/-- A request that is about the fuel, or sets the counters to zero. -/
def StoreRequest.onLedger : StoreRequest → Bool
  | setFuel _ | addFuel _ | resetStats => true
  | _ => false

/-- **A program that touches neither fuel nor counters**, whatever it is replied. -/
def HostProgram.Abstains : HostProgram σ → Prop
  | .finish _ => True
  | .update _ next => next.Abstains
  | .inspect next => ∀ state, (next state).Abstains
  | .caller next => ∀ h, (next h).Abstains
  | .memorySize next => ∀ size, (next size).Abstains
  | .readMemory _ _ next => ∀ reply, (next reply).Abstains
  | .writeMemory _ _ next => ∀ reply, (next reply).Abstains
  | .operate r next => r.onLedger = false ∧ ∀ reply, (next reply).Abstains
  | .define _ body next => (∀ args, (body args).Abstains) ∧ ∀ reply, (next reply).Abstains
  | .call _ _ next => ∀ reply, (next reply).Abstains
  | .instantiate _ _ next => ∀ reply, (next reply).Abstains

theorem HostProgram.inherited_abstains : Inherited (σ := σ) Abstains where
  update h := h
  inspect h := h
  caller h := h
  memorySize h := h
  readMemory h := h
  writeMemory h := h
  operate h := h.2
  body h := h.1
  define h := h.2
  call h := h
  instantiate h := h

/-! ### Accounts -/

/-- The fuel that is left, and the number of ops that were counted. -/
structure Ledger where
  fuel : Option Nat
  ops : Nat

/-- An op is counted if one runs, and paid for as far as there is fuel. -/
def Ledger.spend (l : Ledger) (runs : Bool) : Ledger := ⟨l.fuel.map (· - runs.toNat), l.ops + runs.toNat⟩

@[simp] theorem Ledger.spend_false (l : Ledger) : l.spend false = l := by
  obtain ⟨_ | fuel, ops⟩ := l <;> rfl

namespace Store

variable {s s' : Store σ}

/-- The accounts of a store. -/
def ledger (s : Store σ) : Ledger := ⟨s.fuel, s.stats.opsExecuted⟩

theorem ledger_of_books (h : s'.books = s.books) : s'.ledger = s.ledger := by
  have hfuel : s'.fuel = s.fuel := congrArg Books.fuel h
  have hops : s'.stats.opsExecuted = s.stats.opsExecuted := congrArg (·.stats.opsExecuted) h
  rw [ledger, hfuel, hops, ledger]

theorem Notes.ledger (h : s.Notes s') : s'.ledger = s.ledger := by
  have hfuel : s'.fuel = s.fuel := by rw [h.store]
  rw [Store.ledger, hfuel, h.ops, Store.ledger]

/-- **Requests that are not about the accounts leave them as they are.** -/
theorem ledger_perform {r : StoreRequest} (hr : r.onLedger = false) (s : Store σ) :
    (endState (perform r s)).ledger = s.ledger := by
  cases hbooks : r.onBooks with
  | false => exact ledger_of_books (books_of_commutes (fun _ => commutes_perform r hbooks) s)
  | true =>
    cases r with
    | setFuel | addFuel | resetStats => nomatch hr
    | interrupt | resetInterrupt => rfl
    | _ => nomatch hbooks

theorem ledger_instantiate (m : Module) (entities : List Extern) (s : Store σ) :
    (endState (instantiate m entities s)).ledger = s.ledger :=
  ledger_of_books (books_of_commutes (fun _ => commutes_instantiate m entities) s)

/-- Without fuel, an op is counted and not paid for. -/
theorem charge_of_empty (h : s.fuel = some 0) : charge s = .error (.ofCode .outOfFuel) s.counted := by
  obtain ⟨⟩ := s
  cases h
  rfl

theorem ledger_charge (s : Store σ) : (endState (charge s)).ledger = s.ledger.spend true := by
  unfold charge
  dsimp only
  split <;> next h => exact congrArg (Ledger.mk · _) (by simp [endState, ledger, h])

end Store

/-- **What ops do is not about the accounts**, apart from the charge. -/
theorem Op.ledger_exec (f : Frame) (op : Op) (r : Running σ) :
    (endState (op.exec f r)).store.ledger = r.store.ledger := by
  -- the op commutes with a change of the fuel to what it is
  let same : Running σ → Running σ := Running.refuel r.store.config.consumeFuel r.store.fuel
  have hcommutes := (show Commutes same (op.exec f : Exec σ Flow) from op.commutes_exec f).endState_eq r
  have hsame : same r = r := rfl
  rw [hsame] at hcommutes
  have hfuel : (endState (op.exec f r)).store.fuel = r.store.fuel := by
    rw [hcommutes]
    rfl
  have hops : (endState (op.exec f r)).store.stats.opsExecuted = r.store.stats.opsExecuted :=
    congrArg Tally.ops (op.steady_exec f r).tally
  rw [Store.ledger, hfuel, hops, Store.ledger]

/-- **A frame pays for its op**, as far as there is fuel. -/
theorem Frame.ledger_exec (f : Frame) (r : Running σ) :
    (endState (f.exec r)).store.ledger = r.store.ledger.spend (f.hasOp r.store) := by
  cases hop : f.hasOp r.store with
  | false =>
    obtain ⟨fault, he⟩ := exec_of_not_hasOp hop
    have he : f.exec r = .error _ r := he id
    rw [he, Ledger.spend_false]
    rfl
  | true =>
    obtain ⟨op, -, hexec⟩ := exec_of_hasOp hop
    obtain ⟨s, stack⟩ := r
    have hcharge := s.ledger_charge
    rw [hexec]
    cases hr : Store.charge s with
    | error e s' =>
      rw [hr] at hcharge
      have hfail : (Exec.onStore Store.charge : Exec σ Unit) ⟨s, stack⟩ = .error e ⟨s', stack⟩ := by
        rw [Exec.onStore, hr]
      rw [estate_bind_of_error hfail]
      exact hcharge
    | ok _ s' =>
      rw [hr] at hcharge
      have hpaid : (Exec.onStore Store.charge : Exec σ Unit) ⟨s, stack⟩ = .ok () ⟨s', stack⟩ := by
        rw [Exec.onStore, hr]
      rw [estate_bind_of_ok hpaid]
      exact (op.ledger_exec f ⟨s', stack⟩).trans hcharge

namespace Machine

variable {m : Machine σ}

theorem executes_of_host {s : Store σ} {caller : Option Nat} {type : FuncType} {p : HostProgram σ}
    {waiting : List (Waiting σ)} : executes ⟨s, .host caller type p, waiting⟩ = false := rfl

/-- What a program that abstains asks for is not about the accounts. -/
theorem onLedger_of_request? {s : Store σ} {caller : Option Nat} {p : HostProgram σ} (hp : p.Abstains)
    {r : StoreRequest} (h : request? s caller p = some r) : r.onLedger = false := by
  cases p with
  | operate => cases h; exact hp.1
  | readMemory | writeMemory =>
    obtain ⟨addr, -, rfl⟩ := Option.map_eq_some_iff.mp h
    rfl
  | _ => nomatch h

theorem ledger_effect (h : m.control.Obeys HostProgram.Abstains) :
    m.effect.ledger = m.store.ledger.spend m.executes := by
  obtain ⟨s, control, waiting⟩ := m
  cases control with
  | guest inv =>
    obtain ⟨stack, frames, types⟩ := inv
    cases frames with
    | nil => exact s.ledger.spend_false.symm
    | cons f rest => exact f.ledger_exec ⟨s, stack⟩
  | host caller type p =>
    rw [executes_of_host, Ledger.spend_false]
    unfold effect
    dsimp only
    split
    · next r hr => exact Store.ledger_perform (onLedger_of_request? h hr) s
    · split
      · rfl
      · rfl
      · exact Store.ledger_instantiate _ _ s
      · rfl
  | outcome result =>
    refine Eq.trans ?_ s.ledger.spend_false.symm
    rcases result with _ | _
    · rcases waiting with _ | ⟨_ | _ | _, _⟩ <;> rfl
    · rcases waiting with _ | ⟨_, _⟩ <;> rfl

/-- **A step counts an op if it runs one**, and pays for it as far as there is fuel. -/
theorem Obeys.ledger_step (h : m.Obeys HostProgram.Abstains) :
    m.step.store.ledger = m.store.ledger.spend m.executes :=
  m.notes_step.ledger.trans (ledger_effect h.control)

/-! ### Ops that are refused -/

/-- **The machine is about to run an op, and there is no fuel for it.** -/
def refuses (m : Machine σ) : Bool := m.executes && m.store.fuel == some 0

theorem refuses_toNat {left : Nat} (h : m.store.fuel = some left) :
    m.refuses.toNat = if left = 0 then m.executes.toNat else 0 := by
  rw [refuses, h]
  cases left with
  | zero => cases m.executes <;> rfl
  | succ left => cases m.executes <;> rfl

/-- The number of ops that are refused in the next steps. -/
def refusedIn (m : Machine σ) : (steps : Nat) → Nat
  | 0 => 0
  | steps + 1 => m.refusedIn steps + (m.run steps).refuses.toNat

/-- **An op that is refused does not run**, but it is counted, and nothing else is done. -/
theorem step_of_refuses (h : m.refuses = true) : ∃ inv, m.control = .guest inv ∧
    m.step = fail m.store.counted inv (.ofCode .outOfFuel) m.waiting := by
  obtain ⟨hexecutes, hfuel⟩ := Bool.and_eq_true_iff.mp h
  obtain ⟨inv, hcontrol⟩ := guest_of_executes hexecutes
  refine ⟨inv, hcontrol, ?_⟩
  obtain ⟨s, control, waiting⟩ := m
  cases hcontrol
  obtain ⟨stack, frames, types⟩ := inv
  cases frames with
  | nil => nomatch hexecutes
  | cons f rest =>
    have hempty : s.fuel = some 0 := eq_of_beq hfuel
    obtain ⟨op, -, hexec⟩ := Frame.exec_of_hasOp (r := ⟨s, stack⟩) hexecutes
    have hcharge : (Exec.onStore Store.charge : Exec σ Unit) ⟨s, stack⟩ =
        .error (.ofCode .outOfFuel) ⟨s.counted, stack⟩ := by
      rw [Exec.onStore, Store.charge_of_empty hempty]
    rw [estate_bind_of_error hcharge] at hexec
    exact stepGuest_of_error hexec

/-- **The counter and the fuel together** grow by the ops that are refused. -/
theorem Obeys.run_ledger (h : m.Obeys HostProgram.Abstains) {fuel : Nat} (hfuel : m.store.fuel = some fuel) (n : Nat) :
    ∃ left, (m.run n).store.fuel = some left ∧ (0 < m.refusedIn n → left = 0) ∧
      (m.run n).store.stats.opsExecuted = m.store.stats.opsExecuted + m.opsIn n ∧
      m.opsIn n + left = fuel + m.refusedIn n := by
  induction n with
  | zero => exact ⟨fuel, hfuel, nofun, rfl, Nat.zero_add fuel⟩
  | succ n ih =>
    obtain ⟨left, hleft, hempty, hops, hsum⟩ := ih
    have hstep := (h.run HostProgram.inherited_abstains n).ledger_step
    have hfuel' : (m.run n).step.store.fuel = some (left - (m.run n).executes.toNat) :=
      (congrArg Ledger.fuel hstep).trans (congrArg (Option.map _) hleft)
    have hops' : (m.run n).step.store.stats.opsExecuted = (m.run n).store.stats.opsExecuted +
        (m.run n).executes.toNat := congrArg Ledger.ops hstep
    rw [run_succ, refusedIn, opsIn]
    refine ⟨_, hfuel', ?_, by rw [hops', hops, Nat.add_assoc], ?_⟩
    -- what was refused before had no fuel either
    · have hrefused := refuses_toNat hleft
      intro hpos
      split at hrefused <;> omega
    · have hrefused := refuses_toNat hleft
      have hle : (m.run n).executes.toNat ≤ 1 := Bool.toNat_le _
      split at hrefused <;> omega

/-! ### Calls -/

/-- **The counter of ops and the fuel are accounted for.** Whatever a call has come to, with host functions that touch
neither, the counter has grown by the fuel that is spent and by the number of ops that were refused for want of fuel:
these are counted, and do not run. As long as there is fuel, there are none of them, and the two agree. -/
theorem call_accounted {s : Store σ} (hs : s.Obeys HostProgram.Abstains) {fuel : Nat} (hfuel : s.fuel = some fuel)
    (h : Handle .func) (args : List Value) (n : Nat) {m : Machine σ} (hm : m = call s h args []) :
    (∃ left ≤ fuel, (m.run n).store.fuel = some left ∧
      (m.run n).store.stats.opsExecuted = s.stats.opsExecuted + (fuel - left) + m.refusedIn n ∧
      m.opsIn n = (fuel - left) + m.refusedIn n ∧ (0 < left → m.refusedIn n = 0)) ∧
    ∀ k, (m.run k).refuses = true → ∃ inv, (m.run k).control = .guest inv ∧
      m.run (k + 1) = fail (m.run k).store.counted inv (.ofCode .outOfFuel) (m.run k).waiting := by
  have hobeys : m.Obeys HostProgram.Abstains := hm ▸ obeys_call hs h args
  have hledger : m.store.ledger = s.ledger := hm ▸ (notes_call s h args).ledger
  have hstart : m.store.fuel = some fuel := (congrArg Ledger.fuel hledger).trans hfuel
  have hcounter : m.store.stats.opsExecuted = s.stats.opsExecuted := congrArg Ledger.ops hledger
  refine ⟨?_, fun k hk => ?_⟩
  · obtain ⟨left, hleft, hempty, hops, hsum⟩ := hobeys.run_ledger hstart n
    have hle : left ≤ fuel := by omega
    exact ⟨left, hle, hleft, by rw [hops, hcounter]; omega, by omega, by omega⟩
  · obtain ⟨inv, hcontrol, hstep⟩ := step_of_refuses hk
    exact ⟨inv, hcontrol, (run_succ k m).trans hstep⟩

/-- A store with a module that calls a host function, which calls back, and with two units of fuel. -/
def recalling : Store Unit := ((relaying 4 fun _ => .recall).run 2).store.meter 2

/-- Two calls are paid for. The third one is refused, and so are the returns of the other two functions, since the host
function goes on in spite of the trap. So five ops are counted. -/
theorem call_accounted_recalling :
    ((call recalling ⟨0, 1⟩ [] [] : Machine Unit).run 13).outcome?.isSome = true ∧
    ((call recalling ⟨0, 1⟩ [] [] : Machine Unit).run 13).store.fuel = some 0 ∧
    ((call recalling ⟨0, 1⟩ [] [] : Machine Unit).run 13).store.stats.opsExecuted = 5 := by
  have hrelaying : (relaying 4 fun _ => .recall).Obeys HostProgram.Abstains :=
    ⟨fun _ hf => absurd hf (Array.not_mem_empty _), ⟨fun _ _ => trivial, fun _ _ _ => trivial⟩, List.forall_mem_nil _⟩
  have hs : recalling.Obeys HostProgram.Abstains := (hrelaying.run HostProgram.inherited_abstains 2).hosts
  obtain ⟨⟨left, -, hleft, hops, -⟩, -⟩ := call_accounted hs rfl ⟨0, 1⟩ [] 13 rfl
  have hempty : ((call recalling ⟨0, 1⟩ [] [] : Machine Unit).run 13).store.fuel = some 0 := by decide +kernel
  have hrefused : (call recalling ⟨0, 1⟩ [] [] : Machine Unit).refusedIn 13 = 3 := by decide +kernel
  have hbefore : recalling.stats.opsExecuted = 0 := by decide +kernel
  cases hleft.symm.trans hempty
  exact ⟨by decide +kernel, hempty, by rw [hops, hbefore, hrefused]⟩

end Machine

end WasmEngine
