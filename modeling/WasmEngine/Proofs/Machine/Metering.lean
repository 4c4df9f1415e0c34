import WasmEngine.Proofs.Machine.Counters

/-!
# Metering

A store may keep fuel, and then every op that runs takes a unit of it. Nothing else takes any or looks at it: ops, calls
and host functions commute with a change of the fuel (`Machine.step_refuel`), and only when an op runs there is one unit
less behind the step than behind the one without metering. So a call with metering goes the way that it goes without, as
far as the fuel lasts (`Machine.Frugal.run_meter`), and it lasts for exactly as many ops as there are units
(`Machine.call_metered`).

Host functions may change the fuel themselves, and their calls take from it too. Here they do neither
(`HostProgram.Frugal`).
-/

namespace WasmEngine

variable {σ : Type}

/-! ### Changing the fuel -/

/-- With other fuel, or with none. -/
def Books.refuel (consume : Bool) (fuel : Option Nat) (b : Books) : Books := { b with consumeFuel := consume, fuel }

/-- The fuel of a store is changed, and nothing else. -/
def Store.refuel (consume : Bool) (fuel : Option Nat) (s : Store σ) : Store σ := s.rebook (.refuel consume fuel)

/-- **A store with metering**, and an amount of fuel. -/
def Store.meter (fuel : Nat) (s : Store σ) : Store σ := s.refuel true (some fuel)

/-- A store in which one more op is counted. -/
def Store.counted (s : Store σ) : Store σ := { s with stats.opsExecuted := s.stats.opsExecuted + 1 }

/-- The fuel is changed under running code. -/
def Running.refuel (consume : Bool) (fuel : Option Nat) (r : Running σ) : Running σ := r.rebook (.refuel consume fuel)

variable {consume : Bool} {fuel fuel' : Option Nat}

namespace Store

@[simp] theorem refuel_funcs (s : Store σ) : (s.refuel consume fuel).funcs = s.funcs := rfl

@[simp] theorem fuel_refuel (s : Store σ) : (s.refuel consume fuel).fuel = fuel := rfl

theorem refuel_self {s : Store σ} (h : s.fuel = none) : s.refuel s.config.consumeFuel none = s := by
  obtain ⟨⟩ := s
  cases h
  rfl

theorem commutes_pollInterrupt : Commutes (refuel consume fuel) (pollInterrupt : StoreM σ Unit) := by
  intro s
  have hflag : (s.refuel consume fuel).interrupted = s.interrupted := rfl
  unfold pollInterrupt
  rw [hflag]
  split <;> rfl

/-- **What a machine pays** for the op that it is about to run, if it is. -/
def Pays (s : Store σ) (consume : Bool) (fuel fuel' : Option Nat) : (runs : Bool) → Prop
  | true => charge (s.refuel consume fuel) = inState (refuel consume fuel') (charge s)
  | false => fuel = fuel'

/-- **An op costs one unit** more than without metering. -/
theorem pays_meter {s : Store σ} (h : s.fuel = none) (n : Nat) :
    ∀ runs : Bool, s.Pays true (some (n + runs.toNat)) (some n) runs
  | true => by
    unfold Pays charge
    dsimp only [Bool.toNat_true, fuel_refuel]
    rw [h]
    rfl
  | false => rfl

/-- Nothing is paid without metering. -/
theorem pays_none {s : Store σ} (h : s.fuel = none) : ∀ runs : Bool, s.Pays consume none none runs
  | true => by
    unfold Pays charge
    dsimp only [fuel_refuel]
    rw [h]
    rfl
  | false => rfl

end Store

/-! ### Ops -/

open Exec

theorem Exec.commutes_branch (f : Frame) (t : BranchTarget) :
    Commutes (Running.refuel consume fuel) (branch f t : Exec σ Flow) :=
  .bind (commutes_changeStack _) fun _ => by
    dsimp only
    split
    · exact .bind (commutes_onStore Store.commutes_pollInterrupt) fun _ => .pure _
    · exact .pure _

/-- **No op notices the fuel.** -/
theorem Op.commutes_exec (f : Frame) (op : Op) :
    Commutes (Running.refuel consume fuel) (op.exec f : Exec σ Flow) := by
  cases op with
  | unreachable => exact .throw _
  | br t => exact commutes_branch f t
  | brIf t => exact .bind commutes_popNat fun _ => .ite (commutes_branch f t) (.pure _)
  | brUnless pc => exact .bind commutes_popNat fun _ => .ite (.pure _) (.pure _)
  | jump pc => exact .pure _
  | brTable targets default => exact .bind commutes_popNat fun _ => commutes_branch f _
  | ret => exact .bind (.modify fun _ => rfl) fun _ => .pure _
  | call x => exact .bind (commutes_funcAddr _ x) fun _ => .pure _
  | callIndirect type table => exact .bind (commutes_indirectCallee _ type table) fun _ => .pure _
  | plain op => exact .bind (op.commutes_exec _) fun _ => .pure _

theorem Exec.onStore_refuel {act : StoreM σ Unit} {r : Running σ}
    (h : act (r.store.refuel consume fuel) = inState (Store.refuel consume fuel') (act r.store)) :
    onStore act (r.refuel consume fuel) = inState (Running.refuel consume fuel') (onStore act r) := by
  obtain ⟨store, stack⟩ := r
  change onStore act ⟨store.refuel consume fuel, stack⟩ = _
  unfold onStore
  dsimp only at h ⊢
  rw [h]
  cases act store <;> rfl

/-- **A frame notices the fuel when it pays for its op**, and otherwise not. -/
theorem Frame.exec_refuel {f : Frame} {r : Running σ} (h : r.store.Pays consume fuel fuel' (f.hasOp r.store)) :
    f.exec (r.refuel consume fuel) = inState (Running.refuel consume fuel') (f.exec r) := by
  cases hop : f.hasOp r.store with
  | false =>
    rw [hop] at h
    cases h
    obtain ⟨fault, he⟩ := exec_of_not_hasOp hop
    have hr : f.exec r = .error _ r := he id
    rw [hr]
    exact he (.refuel consume fuel)
  | true =>
    rw [hop] at h
    have hop' : f.hasOp (r.refuel consume fuel).store = true := hop
    obtain ⟨op, hop, hexec⟩ := exec_of_hasOp hop
    obtain ⟨op', hop', hexec'⟩ := exec_of_hasOp hop'
    cases hop.symm.trans hop'
    have hcharge := onStore_refuel h
    rw [hexec, hexec']
    cases hr : onStore Store.charge r with
    | error e r' =>
      rw [hr] at hcharge
      rw [estate_bind_of_error hcharge, estate_bind_of_error hr]
      rfl
    | ok _ r' =>
      rw [hr] at hcharge
      rw [estate_bind_of_ok hcharge, estate_bind_of_ok hr]
      exact op.commutes_exec f r'

/-- A frame whose op cannot be paid for traps, and nothing is done but that the op is counted. -/
theorem Frame.exec_empty {f : Frame} {r : Running σ} (h : f.hasOp r.store = true) :
    f.exec (r.refuel true (some 0)) = .error (.ofCode .outOfFuel) ⟨r.store.counted.meter 0, r.stack⟩ := by
  have hop : f.hasOp (r.refuel true (some 0)).store = true := h
  obtain ⟨op, -, hexec⟩ := exec_of_hasOp hop
  have hcharge : (onStore Store.charge : Exec σ Unit) (r.refuel true (some 0)) =
      .error (.ofCode .outOfFuel) ⟨r.store.counted.meter 0, r.stack⟩ := rfl
  rw [hexec, estate_bind_of_error hcharge]

/-! ### Host functions -/

/-- A request that is about the fuel. -/
def StoreRequest.onFuel : StoreRequest → Bool
  | setFuel _ | addFuel _ => true
  | _ => false

/-- **A program that does nothing to the fuel, and runs no code**, whatever it is replied. -/
def HostProgram.Frugal : HostProgram σ → Prop
  | .finish _ => True
  | .update _ next => next.Frugal
  | .inspect next => ∀ state, (next state).Frugal
  | .caller next => ∀ h, (next h).Frugal
  | .memorySize next => ∀ size, (next size).Frugal
  | .readMemory _ _ next => ∀ reply, (next reply).Frugal
  | .writeMemory _ _ next => ∀ reply, (next reply).Frugal
  | .operate r next => r.onFuel = false ∧ ∀ reply, (next reply).Frugal
  | .define _ body next => (∀ args, (body args).Frugal) ∧ ∀ reply, (next reply).Frugal
  | .call .. => False
  | .instantiate .. => False

/-- A host function is frugal for all arguments. -/
def HostFunc.Frugal (f : HostFunc σ) : Prop := ∀ args, (f.body args).Frugal

/-- All host functions of a store are frugal. -/
def Store.Frugal (s : Store σ) : Prop := ∀ f, .host f ∈ s.funcs → f.Frugal

theorem Store.Frugal.of_quiet {s s' : Store σ} (hs : s.Frugal) (h : s.Quiet s') : s'.Frugal :=
  fun f hf => hs f (h.funcs_eq ▸ hf)

/-- **Requests that are not about the fuel do not notice it.** -/
theorem Store.commutes_perform_refuel (r : StoreRequest) (hr : r.onFuel = false) :
    Commutes (refuel consume fuel) (perform r : StoreM σ r.Result) := by
  cases hbooks : r.onBooks with
  | false => exact commutes_perform r hbooks
  | true =>
    cases r with
    | setFuel | addFuel => nomatch hr
    | resetStats | interrupt | resetInterrupt => exact .modify fun _ => rfl
    | _ => nomatch hbooks

namespace Machine

/-! ### Calls and steps -/

/-- The fuel of the store is changed. -/
def refuel (consume : Bool) (fuel : Option Nat) (m : Machine σ) : Machine σ :=
  { m with store := m.store.refuel consume fuel }

/-- **A machine with metering.** -/
def meter (fuel : Nat) (m : Machine σ) : Machine σ := m.refuel true (some fuel)

/-- At most code that called a host function waits. -/
def Alone : List (Waiting σ) → Prop
  | [] | [.guest ..] => True
  | _ => False

/-- What goes on does nothing to the fuel, and only code is waited for. -/
inductive Modest : Control σ → List (Waiting σ) → Prop
  | guest (inv : Invocation) : Modest (.guest inv) []
  | host {caller : Option Nat} {type : FuncType} {p : HostProgram σ} {waiting : List (Waiting σ)} : p.Frugal →
    Alone waiting → Modest (.host caller type p) waiting
  | outcome {result : Except Error (List Value)} {waiting : List (Waiting σ)} : Alone waiting →
    Modest (.outcome result) waiting

/-- Nothing that goes on, or may come to, is about the fuel. -/
structure Sober (m : Machine σ) : Prop where
  hosts : m.store.Frugal
  goes : Modest m.control m.waiting

/-- **A machine without metering, whose host functions are frugal.** -/
structure Frugal (m : Machine σ) : Prop extends Sober m where
  fuel : m.store.fuel = none

section

variable {s : Store σ} {waiting : List (Waiting σ)}

theorem commutes_enter (inv : Invocation) (f : WasmFunc) :
    Commutes (Store.refuel consume fuel) (inv.enter f : StoreM σ Invocation) := by
  intro s
  have hdepth : (s.refuel consume fuel).config.maxCallDepth ≤ (s.refuel consume fuel).depth + inv.frames.length ↔
      s.config.maxCallDepth ≤ s.depth + inv.frames.length := Iff.rfl
  have hroom (cells : Nat) : (s.refuel consume fuel).config.maxValueStack < cells ↔ s.config.maxValueStack < cells :=
    Iff.rfl
  unfold Invocation.enter
  dsimp only
  by_cases hfull : s.config.maxCallDepth ≤ s.depth + inv.frames.length
  · rw [if_pos (hdepth.mpr hfull), if_pos hfull]
    rfl
  rw [if_neg (hfull ∘ hdepth.mp), if_neg hfull]
  cases f.module.body? f.index with
  | none => rfl
  | some body =>
    dsimp only
    split
    · rfl
    · by_cases hfull : s.config.maxValueStack < inv.stack.height + body.locals.length + body.maxHeight
      · rw [if_pos ((hroom _).mpr hfull), if_pos hfull]
        rfl
      · rw [if_neg (hfull ∘ (hroom _).mp), if_neg hfull]
        rfl

theorem callHost_refuel (inv : Invocation) (f : HostFunc σ) :
    callHost (s.refuel consume fuel) inv f waiting = (callHost s inv f waiting).refuel consume fuel := by
  unfold callHost
  dsimp only
  split <;> rfl

theorem callFrom_refuel (inv : Invocation) (addr : Nat) :
    callFrom (s.refuel consume fuel) inv addr waiting = (callFrom s inv addr waiting).refuel consume fuel := by
  unfold callFrom
  rw [Store.commutes_pollInterrupt s]
  cases Store.pollInterrupt s with
  | error e s₁ => rfl
  | ok _ s₁ =>
    dsimp only [inState, Store.refuel_funcs]
    cases s₁.funcs[addr]? with
    | none => rfl
    | some e =>
      cases e with
      | wasm f =>
        dsimp only
        rw [commutes_enter inv f s₁]
        cases inv.enter f s₁ <;> rfl
      | host f => exact callHost_refuel inv f

theorem call_refuel (h : Handle .func) (args : List Value) :
    call (s.refuel consume fuel) h args waiting = (call s h args waiting).refuel consume fuel := by
  have hcheck : checkCall (s.refuel consume fuel) h args = checkCall s h args := rfl
  unfold call
  rw [hcheck]
  split
  · rfl
  · unfold invoke
    dsimp only [Store.refuel_funcs]
    split
    · rfl
    · rw [Store.commutes_pollInterrupt s]
      cases Store.pollInterrupt s <;> rfl
    · exact callFrom_refuel _ _

theorem deliver_refuel (result : Except Error (List Value)) (w : Waiting σ) :
    deliver (s.refuel consume fuel) result w waiting = (deliver s result w waiting).refuel consume fuel := by
  cases w with
  | host => rfl
  | start place => cases result <;> rfl
  | guest inv type depth =>
    have hpush (values : List Value) : pushResults { s.refuel consume fuel with depth } values type.results inv.stack =
        pushResults { s with depth } values type.results inv.stack :=
      pushResults_congr (t := { s.refuel consume fuel with depth }) (s := { s with depth }) (fun _ _ _ => rfl) _ _
    unfold deliver
    dsimp only
    cases result with
    | error e => rfl
    | ok values =>
      dsimp only
      rw [hpush]
      split <;> rfl

theorem stepGuest_refuel {inv : Invocation}
    (h : s.Pays consume fuel fuel' (executes ⟨s, .guest inv, waiting⟩)) :
    stepGuest (s.refuel consume fuel) inv waiting = (stepGuest s inv waiting).refuel consume fuel' := by
  obtain ⟨stack, frames, types⟩ := inv
  cases frames with
  | nil =>
    cases h
    rfl
  | cons f rest =>
    have hexec : f.exec ⟨s.refuel consume fuel, stack⟩ = _ := Frame.exec_refuel (r := ⟨s, stack⟩) h
    cases hr : f.exec ⟨s, stack⟩ with
    | error e r =>
      rw [hr] at hexec
      rw [stepGuest_of_error hr, stepGuest_of_error hexec]
      rfl
    | ok flow r =>
      rw [hr] at hexec
      rw [stepGuest_of_ok hr, stepGuest_of_ok hexec]
      cases flow with
      | next | goto => rfl
      | call addr => exact callFrom_refuel _ _
      | ret => cases rest <;> rfl

theorem settle_refuel {α : Type} {act : StoreM σ α} (h : Commutes (Store.refuel consume fuel) act) :
    settle (act (s.refuel consume fuel)) = ((settle (act s)).1, (settle (act s)).2.refuel consume fuel) := by
  rw [h s]
  cases act s <;> rfl

theorem stepHost_refuel {caller : Option Nat} {type : FuncType} {p : HostProgram σ} (hp : p.Frugal) :
    stepHost (s.refuel consume fuel) caller type p waiting =
      (stepHost s caller type p waiting).refuel consume fuel := by
  cases p with
  | finish | update | inspect | caller | memorySize => rfl
  | readMemory start length next =>
    have hcaller : callerMemory? (s.refuel consume fuel) caller = callerMemory? s caller := rfl
    unfold stepHost
    dsimp only
    rw [hcaller]
    split
    · rfl
    · rw [settle_refuel (Store.commutes_readMemory _ _ _)]
      rfl
  | writeMemory start bytes next =>
    have hcaller : callerMemory? (s.refuel consume fuel) caller = callerMemory? s caller := rfl
    unfold stepHost
    dsimp only
    rw [hcaller]
    split
    · rfl
    · rw [settle_refuel (Store.commutes_writeMemory _ _ _)]
      rfl
  | operate r next =>
    unfold stepHost
    dsimp only
    rw [settle_refuel (Store.commutes_perform_refuel r hp.1)]
    rfl
  | define funcType body next =>
    unfold stepHost
    dsimp only
    rw [settle_refuel (Store.commutes_newFunc _)]
    rfl
  | call | instantiate => exact hp.elim

/-! ### Frugal machines -/

theorem sober_callFrom (hs : s.Frugal) (inv : Invocation) (addr : Nat) : Sober (callFrom s inv addr []) := by
  have hpoll := Store.keeps_pollInterrupt s
  unfold callFrom
  cases hp : Store.pollInterrupt s with
  | error e s₁ =>
    rw [hp] at hpoll
    exact ⟨hs.of_quiet hpoll, .outcome trivial⟩
  | ok _ s₁ =>
    rw [hp] at hpoll
    have hs₁ : s₁.Frugal := hs.of_quiet hpoll
    dsimp only
    split
    · exact ⟨hs₁, .outcome trivial⟩
    · next f hf =>
      have henter := keeps_enter inv f s₁
      cases he : inv.enter f s₁ with
      | error e s₂ =>
        rw [he] at henter
        exact ⟨hs₁.of_quiet henter, .outcome trivial⟩
      | ok inv' s₂ =>
        rw [he] at henter
        exact ⟨hs₁.of_quiet henter, .guest inv'⟩
    · next f hf =>
      unfold callHost
      dsimp only
      split
      · exact ⟨hs₁, .outcome trivial⟩
      · exact ⟨hs₁, .host (hs₁ f (Array.mem_of_getElem? hf) _) trivial⟩

theorem sober_call (hs : s.Frugal) (h : Handle .func) (args : List Value) : Sober (call s h args []) := by
  unfold call
  split
  · exact ⟨hs, .outcome trivial⟩
  · unfold invoke
    split
    · exact ⟨hs, .outcome trivial⟩
    · next f hf =>
      have hpoll := Store.keeps_pollInterrupt s
      cases hp : Store.pollInterrupt s with
      | error e s₁ =>
        rw [hp] at hpoll
        exact ⟨hs.of_quiet hpoll, .outcome trivial⟩
      | ok _ s₁ =>
        rw [hp] at hpoll
        have hs₁ : s₁.Frugal := hs.of_quiet hpoll
        exact ⟨hs₁, .host (hs f (Array.mem_of_getElem? hf) _) trivial⟩
    · exact sober_callFrom hs _ _

theorem sober_stepGuest (hs : s.Frugal) (inv : Invocation) : Sober (stepGuest s inv []) := by
  obtain ⟨stack, frames, types⟩ := inv
  cases frames with
  | nil => exact ⟨hs, .outcome trivial⟩
  | cons f rest =>
    have hexec := f.keeps_exec ⟨s, stack⟩
    cases hr : f.exec ⟨s, stack⟩ with
    | error e r =>
      rw [hr] at hexec
      rw [stepGuest_of_error hr]
      exact ⟨hs.of_quiet hexec, .outcome trivial⟩
    | ok flow r =>
      rw [hr] at hexec
      rw [stepGuest_of_ok hr]
      have hs' : r.store.Frugal := hs.of_quiet hexec
      cases flow with
      | next | goto => exact ⟨hs', .guest _⟩
      | call addr => exact sober_callFrom hs' _ _
      | ret =>
        cases rest with
        | nil => exact ⟨hs', .outcome trivial⟩
        | cons => exact ⟨hs', .guest _⟩

theorem sober_settle {α : Type} {act : StoreM σ α} (hact : Keeps Store.Quiet act)
    {next : Except Error α → HostProgram σ} (hs : s.Frugal) (hp : ∀ reply, (next reply).Frugal)
    (hw : Alone waiting) (caller : Option Nat) (type : FuncType) :
    Sober ⟨(settle (act s)).2, .host caller type (next (settle (act s)).1), waiting⟩ := by
  have hquiet := hact s
  cases hr : act s <;> rw [hr] at hquiet <;> exact ⟨hs.of_quiet hquiet, .host (hp _) hw⟩

theorem sober_stepHost {caller : Option Nat} {type : FuncType} {p : HostProgram σ} (hs : s.Frugal) (hp : p.Frugal)
    (hw : Alone waiting) : Sober (stepHost s caller type p waiting) := by
  cases p with
  | finish => exact ⟨hs, .outcome hw⟩
  | update => exact ⟨hs, .host hp hw⟩
  | inspect | caller | memorySize => exact ⟨hs, .host (hp _) hw⟩
  | readMemory start length next =>
    unfold stepHost
    dsimp only
    split
    · exact ⟨hs, .host (hp _) hw⟩
    · exact sober_settle (Store.keeps_readMemory _ _ _) hs hp hw caller type
  | writeMemory start bytes next =>
    unfold stepHost
    dsimp only
    split
    · exact ⟨hs, .host (hp _) hw⟩
    · exact sober_settle (Store.keeps_writeMemory _ _ _) hs hp hw caller type
  | operate r next => exact sober_settle (Store.keeps_perform r) hs hp.2 hw caller type
  | define funcType body next =>
    refine ⟨fun f hf => ?_, .host (hp.2 _) hw⟩
    rcases Array.mem_push.mp hf with hf | hf
    · exact hs f hf
    · cases hf
      exact hp.1
  | call | instantiate => exact hp.elim

theorem sober_deliver (hs : s.Frugal) (result : Except Error (List Value)) (inv : Invocation) (type : FuncType)
    (depth : Nat) : Sober (deliver s result (.guest inv type depth) []) := by
  unfold deliver
  dsimp only
  split
  · exact ⟨hs, .outcome trivial⟩
  · split
    · exact ⟨hs, .outcome trivial⟩
    · exact ⟨hs, .guest _⟩

end

variable {m : Machine σ}

theorem Sober.step (hm : m.Sober) : m.step.Sober := by
  obtain ⟨s, control, waiting⟩ := m
  obtain ⟨hs, hgoes⟩ := hm
  cases hgoes with
  | guest inv => exact sober_stepGuest hs inv
  | host hp hw => exact sober_stepHost hs hp hw
  | outcome hw =>
    match waiting, hw with
    | [], _ => exact ⟨hs, .outcome trivial⟩
    | [.guest inv type depth], _ => exact sober_deliver hs _ inv type depth

theorem Sober.waiting_of_guest (hm : m.Sober) {inv : Invocation} (h : m.control = .guest inv) : m.waiting = [] := by
  obtain ⟨s, control, waiting⟩ := m
  cases h
  cases hm.goes
  rfl

/-- **A step notices the fuel when an op is paid for**, and otherwise not. -/
theorem step_refuel (hm : m.Sober) (h : m.store.Pays consume fuel fuel' m.executes) :
    (m.refuel consume fuel).step = m.step.refuel consume fuel' := by
  obtain ⟨s, control, waiting⟩ := m
  obtain ⟨-, hgoes⟩ := hm
  cases hgoes with
  | guest inv => exact stepGuest_refuel h
  | host hp _ =>
    cases h
    exact stepHost_refuel hp
  | outcome =>
    cases h
    cases waiting with
    | nil => rfl
    | cons w waiting => exact deliver_refuel _ w

theorem frugal_call {s : Store σ} (hs : s.Frugal) (hfuel : s.fuel = none) (h : Handle .func) (args : List Value) :
    (call s h args [] : Machine σ).Frugal where
  toSober := sober_call hs h args
  fuel := by
    have hcall : (call (s.refuel s.config.consumeFuel none) h args [] : Machine σ) = _ := call_refuel h args
    rw [Store.refuel_self hfuel] at hcall
    rw [hcall]
    rfl

namespace Frugal

/-- A machine without metering stays one. -/
theorem step (hm : m.Frugal) : m.step.Frugal where
  toSober := hm.toSober.step
  fuel := by
    have hsame : m.refuel m.store.config.consumeFuel none = m :=
      congrArg (Machine.mk · m.control m.waiting) (Store.refuel_self hm.fuel)
    have hstep : (m.refuel m.store.config.consumeFuel none).step = m.step.refuel m.store.config.consumeFuel none :=
      step_refuel hm.toSober (Store.pays_none hm.fuel m.executes)
    rw [hsame] at hstep
    rw [hstep]
    rfl

/-- **A step takes a unit of fuel if it runs an op.** -/
theorem step_meter (hm : m.Frugal) (n : Nat) : (m.meter (n + m.executes.toNat)).step = m.step.meter n :=
  step_refuel hm.toSober (Store.pays_meter hm.fuel n m.executes)

theorem run (hm : m.Frugal) (n : Nat) : (m.run n).Frugal := by
  induction n with
  | zero => exact hm
  | succ n ih =>
    rw [run_succ]
    exact ih.step

/-- **A run with metering** goes the way that it goes without, as far as the fuel lasts. -/
theorem run_meter (hm : m.Frugal) {n units : Nat} (h : m.opsIn n ≤ units) :
    (m.meter units).run n = (m.run n).meter (units - m.opsIn n) := by
  induction n with
  | zero => rfl
  | succ n ih =>
    rw [opsIn] at h
    have hunits : units - m.opsIn n = units - m.opsIn (n + 1) + (m.run n).executes.toNat := by
      rw [opsIn]
      omega
    rw [run_succ, run_succ, ih (Nat.le_of_add_right_le h), hunits]
    exact (hm.run n).step_meter _

end Frugal

/-- An op that cannot be paid for does not run. -/
theorem step_empty {inv : Invocation} (hcontrol : m.control = .guest inv) (h : m.executes = true) :
    (m.meter 0).step = fail (m.store.counted.meter 0) inv (.ofCode .outOfFuel) m.waiting := by
  obtain ⟨s, control, waiting⟩ := m
  cases hcontrol
  obtain ⟨stack, frames, types⟩ := inv
  cases frames with
  | nil => nomatch h
  | cons f rest =>
    have hexec : f.exec ⟨s.meter 0, stack⟩ = _ := Frame.exec_empty (r := ⟨s, stack⟩) h
    exact stepGuest_of_error hexec

/-! ### Between two ops -/

/-- A machine that has come to its end, or is about to run an op. -/
def Settled (m : Machine σ) : Prop := m.outcome?.isSome = true ∨ m.executes = true

/-- A machine gets to where it has come to its end or runs an op, and on the way runs none. -/
def Settles (m : Machine σ) : Prop := ∃ n, m.opsIn n = 0 ∧ (m.run n).Settled

theorem Settles.now (h : m.Settled) : m.Settles := ⟨0, rfl, h⟩

theorem Settles.later (h : m.executes = false) (hstep : m.step.Settles) : m.Settles := by
  obtain ⟨n, hops, hsettled⟩ := hstep
  refine ⟨1 + n, ?_, ?_⟩
  · rw [opsIn_add, opsIn, opsIn, run_succ]
    exact (congrArg (0 + Bool.toNat · + _) h).trans ((Nat.zero_add _).trans hops)
  · rwa [run_add, run_succ]

section

variable {s : Store σ}

theorem settles_guest (inv : Invocation) : Settles ⟨s, .guest inv, []⟩ := by
  obtain ⟨stack, frames, types⟩ := inv
  cases frames with
  | nil => exact .later rfl (.now (.inl rfl))
  | cons f rest =>
    cases hop : f.hasOp s with
    | true => exact .now (.inr hop)
    | false =>
      refine .later hop (.now (.inl ?_))
      obtain ⟨fault, he⟩ := Frame.exec_of_not_hasOp (r := ⟨s, stack⟩) hop
      have he : f.exec ⟨s, stack⟩ = .error _ ⟨s, stack⟩ := he id
      change (stepGuest s ⟨stack, f :: rest, types⟩ []).outcome?.isSome = true
      rw [stepGuest_of_error he]
      rfl

theorem settles_outcome {waiting : List (Waiting σ)} (hw : Alone waiting) (result : Except Error (List Value)) :
    Settles ⟨s, .outcome result, waiting⟩ := by
  match waiting, hw with
  | [], _ => exact .now (.inl rfl)
  | [.guest inv type depth], _ =>
    refine .later rfl ?_
    change Settles (deliver s result (.guest inv type depth) [])
    unfold deliver
    dsimp only
    split
    · exact .now (.inl rfl)
    · split
      · exact .now (.inl rfl)
      · exact settles_guest _

/-- A host function comes to its end. -/
theorem settles_host {waiting : List (Waiting σ)} (hw : Alone waiting) {caller : Option Nat} {type : FuncType}
    {p : HostProgram σ} (hp : p.Frugal) : Settles ⟨s, .host caller type p, waiting⟩ := by
  induction p generalizing s with
  | finish result => exact .later rfl (settles_outcome hw _)
  | update change next ih => exact .later rfl (ih hp)
  | inspect next ih => exact .later rfl (ih _ (hp _))
  | caller next ih => exact .later rfl (ih _ (hp _))
  | memorySize next ih => exact .later rfl (ih _ (hp _))
  | readMemory start length next ih =>
    refine .later rfl ?_
    unfold Machine.step stepHost
    dsimp only
    split
    · exact ih _ (hp _)
    · exact ih _ (hp _)
  | writeMemory start bytes next ih =>
    refine .later rfl ?_
    unfold Machine.step stepHost
    dsimp only
    split
    · exact ih _ (hp _)
    · exact ih _ (hp _)
  | operate r next ih => exact .later rfl (ih _ (hp.2 _))
  | define funcType body next _ ih => exact .later rfl (ih _ (hp.2 _))
  | call | instantiate => exact hp.elim

end

theorem Sober.settles (hm : m.Sober) : m.Settles := by
  obtain ⟨s, control, waiting⟩ := m
  obtain ⟨-, hgoes⟩ := hm
  cases hgoes with
  | guest inv => exact settles_guest inv
  | host hp hw => exact settles_host hw hp
  | outcome hw => exact settles_outcome hw _

/-- A machine that has come to its end runs no ops. -/
theorem opsIn_of_halted (h : m.outcome?.isSome = true) (n : Nat) : m.opsIn n = 0 := by
  have hidle : m.executes = false := by
    obtain ⟨s, control, waiting⟩ := m
    cases control with
    | guest => nomatch h
    | host | outcome => rfl
  induction n with
  | zero => rfl
  | succ n ih => rw [opsIn, ih, run_of_halted h, hidle]; rfl

/-- **The next op comes**, unless the machine comes to its end before. -/
theorem Frugal.next (hm : m.Frugal) {units : Nat}
    (hends : ∀ k, (m.run k).outcome?.isSome = true → units < m.opsIn k) {k : Nat} (hk : m.opsIn k ≤ units) :
    ∃ k', m.opsIn k' = m.opsIn k ∧ (m.run k').executes = true := by
  obtain ⟨j, hops, hsettled⟩ := (hm.run k).settles
  have hsum : m.opsIn (k + j) = m.opsIn k := by rw [opsIn_add, hops, Nat.add_zero]
  rw [← run_add] at hsettled
  rcases hsettled with hend | hexecutes
  · exact absurd (hends _ hend) (by omega)
  · exact ⟨k + j, hsum, hexecutes⟩

/-- **So many ops are run, and another one comes**, if the machine does not come to its end before. -/
theorem Frugal.reaches (hm : m.Frugal) {units : Nat}
    (hends : ∀ k, (m.run k).outcome?.isSome = true → units < m.opsIn k) {n : Nat} (hn : n ≤ units) :
    ∃ k, m.opsIn k = n ∧ (m.run k).executes = true := by
  induction n with
  | zero => exact hm.next hends (k := 0) hn
  | succ n ih =>
    obtain ⟨k, hk, hexecutes⟩ := ih (Nat.le_of_succ_le hn)
    have hstep : m.opsIn (k + 1) = n + 1 := by
      rw [opsIn, hk, hexecutes]
      rfl
    obtain ⟨k', hk', hexecutes'⟩ := hm.next hends (k := k + 1) (hstep ▸ hn)
    exact ⟨k', hk'.trans hstep, hexecutes'⟩

/-- Wherever a machine has come to its end, it has run the same number of ops. -/
theorem lt_opsIn_of_ends {units : Nat} (h : (∃ k, (m.run k).outcome?.isSome = true ∧ units < m.opsIn k) ∨
    ∀ k, (m.run k).outcome? = none) {k : Nat} (hk : (m.run k).outcome?.isSome = true) : units < m.opsIn k := by
  rcases h with ⟨j, hj, hops⟩ | hnever
  · have hsum := m.opsIn_add
    rcases Nat.le_total j k with hle | hle
    · obtain ⟨d, rfl⟩ := Nat.exists_eq_add_of_le hle
      exact Nat.lt_of_lt_of_le hops (hsum j d ▸ Nat.le_add_right _ _)
    · obtain ⟨d, rfl⟩ := Nat.exists_eq_add_of_le hle
      rwa [hsum, opsIn_of_halted hk, Nat.add_zero] at hops
  · rw [hnever k] at hk
    nomatch hk

/-! ### Calls with metering -/

/-- **Fuel is transparent, and exact.** If a call without metering comes to its end after a number of ops, then with at
least as many units of fuel it comes to the same end with metering, and the others are left. With fewer units, or if
the call without metering never comes to its end, it traps at the op that finds no fuel, with nothing done but what the
ops before have done. -/
theorem call_metered {s : Store σ} (hs : s.Frugal) (hfuel : s.fuel = none) (h : Handle .func) (args : List Value)
    (units : Nat) {m m' : Machine σ} (hm : m = call s h args []) (hm' : m' = call (s.meter units) h args []) :
    (∀ k result, (m.run k).outcome? = some result → m.opsIn k ≤ units →
      (m'.run k).outcome? = some result ∧ (m'.run k).store = (m.run k).store.meter (units - m.opsIn k)) ∧
    ((∃ k, (m.run k).outcome?.isSome = true ∧ units < m.opsIn k) ∨ (∀ k, (m.run k).outcome? = none) →
      ∃ k e, m.opsIn k = units ∧ (m.run k).executes = true ∧
        (m'.run (k + 1)).outcome? = some (.error e) ∧ e.trap?.map (·.code) = some .outOfFuel ∧
        (m'.run (k + 1)).store = (m.run k).store.counted.meter 0) := by
  have hmeter : m' = m.meter units := by
    rw [hm, hm']
    exact call_refuel h args
  subst hmeter
  have hfrugal : m.Frugal := hm ▸ frugal_call hs hfuel h args
  refine ⟨fun k result hend hops => ?_, fun hends => ?_⟩
  · rw [hfrugal.run_meter hops]
    exact ⟨hend, rfl⟩
  · obtain ⟨k, hops, hexecutes⟩ := hfrugal.reaches (fun _ => lt_opsIn_of_ends hends) (Nat.le_refl units)
    have hrun := hfrugal.run_meter (Nat.le_of_eq hops)
    rw [hops, Nat.sub_self] at hrun
    obtain ⟨inv, hcontrol⟩ := guest_of_executes hexecutes
    refine ⟨k, (Error.ofCode .outOfFuel).addFrames inv.trace, hops, hexecutes, ?_⟩
    rw [run_succ, hrun, step_empty hcontrol hexecutes, (hfrugal.run k).waiting_of_guest hcontrol]
    exact ⟨rfl, rfl, rfl⟩

/-- The successor takes four ops. Five units are enough, and three are not. -/
theorem call_metered_counting :
    ((call (counting.store.meter 5) ⟨0, 0⟩ [.i32 41] [] : Machine Unit).run 4).outcome? = some (.ok [.i32 42]) ∧
    ((call (counting.store.meter 5) ⟨0, 0⟩ [.i32 41] [] : Machine Unit).run 4).store.fuel = some 1 ∧
    ∃ k e, ((call (counting.store.meter 3) ⟨0, 0⟩ [.i32 41] [] : Machine Unit).run k).outcome? = some (.error e) ∧
      e.trap?.map (·.code) = some .outOfFuel ∧
      ((call (counting.store.meter 3) ⟨0, 0⟩ [.i32 41] [] : Machine Unit).run k).store.fuel = some 0 := by
  have hwasm : ∀ i < counting.store.funcs.size, (counting.store.funcs[i]?.bind FuncEntity.wasm?).isSome = true := by
    decide +kernel
  have hs : counting.store.Frugal := fun f hf => by
    obtain ⟨i, hi, hf⟩ := Array.mem_iff_getElem.mp hf
    have hnone := hwasm i hi
    rw [Array.getElem?_eq_getElem hi, hf] at hnone
    nomatch hnone
  have hfuel : counting.store.fuel = none := by decide +kernel
  have hend : ((call counting.store ⟨0, 0⟩ [.i32 41] [] : Machine Unit).run 4).outcome? = some (.ok [.i32 42]) := by
    decide +kernel
  have hops : (call counting.store ⟨0, 0⟩ [.i32 41] [] : Machine Unit).opsIn 4 = 4 := by decide +kernel
  obtain ⟨hsame, hstore⟩ := (call_metered hs hfuel ⟨0, 0⟩ [.i32 41] 5 rfl rfl).1 4 _ hend (by rw [hops]; decide)
  have hmore : ∃ k, ((call counting.store ⟨0, 0⟩ [.i32 41] [] : Machine Unit).run k).outcome?.isSome = true ∧
      3 < (call counting.store ⟨0, 0⟩ [.i32 41] [] : Machine Unit).opsIn k :=
    ⟨4, by rw [hend]; rfl, by rw [hops]; decide⟩
  obtain ⟨k, e, -, -, htrap, hcode, hstore'⟩ := (call_metered hs hfuel ⟨0, 0⟩ [.i32 41] 3 rfl rfl).2 (.inl hmore)
  exact ⟨hsame, by rw [hstore, hops]; rfl, k + 1, e, htrap, hcode, by rw [hstore']; rfl⟩

end Machine

end WasmEngine
