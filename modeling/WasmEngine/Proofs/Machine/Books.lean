import WasmEngine.Machine.Step
import WasmEngine.Proofs.Store.Books

/-!
# Running code and the books

Plain ops do not notice the books of the store: they neither read them nor write to them. What is left is little.
Every op is counted and paid for (`Store.charge`), branches poll the interrupt flag, and a return notes the height
of the stack. So what an op does to the books is known from the few ops that decide where execution goes on
(`Op.steady_exec`), and the depth of calls is no matter of ops at all. Running a frame adds one to the counter of ops if
the frame has an op, and nothing if it has none (`Frame.tally_exec`).
-/

namespace WasmEngine

/-- Change the books of the store. -/
def Running.rebook {σ : Type} (h : Books → Books) (r : Running σ) : Running σ := ⟨r.store.rebook h, r.stack⟩

namespace Exec

variable {σ α : Type} {h : Books → Books}

/-- **What commutes with all changes of the books leaves them as they are.** -/
theorem books_of_commutes {act : Exec σ α} (hact : ∀ h, Commutes (Running.rebook h) act) (r : Running σ) :
    (endState (act r)).store.books = r.store.books := by
  have hend := (hact fun _ => r.store.books).endState_eq r
  have hr : r.rebook (fun _ => r.store.books) = r := rfl
  rw [hr] at hend
  rw [hend]
  rfl

/-! ### Parts of ops -/

theorem commutes_changeStack (change : Stack → Stack) :
    Commutes (Running.rebook h) (changeStack change : Exec σ Unit) := .modify fun _ => rfl

theorem commutes_changeStore {change : Store σ → Store σ} (hc : ∀ s, change (s.rebook h) = (change s).rebook h) :
    Commutes (Running.rebook h) (changeStore change) :=
  .modify fun r => congrArg (Running.mk · r.stack) (hc r.store)

theorem commutes_onStore {g : Store σ → Store σ} {act : StoreM σ α} (hact : Commutes g act) :
    Commutes (fun r : Running σ => ⟨g r.store, r.stack⟩) (onStore act) := by
  intro ⟨store, stack⟩
  have hs := hact store
  unfold onStore
  dsimp only
  rw [hs]
  cases act store <;> rfl

theorem commutes_pop : Commutes (Running.rebook h) (pop : Exec σ Cell) := .modifyGet fun _ => rfl

theorem commutes_popNat : Commutes (Running.rebook h) (popNat : Exec σ Nat) := .bind commutes_pop fun _ => .pure _

theorem commutes_push (c : Cell) : Commutes (Running.rebook h) (push c : Exec σ Unit) := .modify fun _ => rfl

theorem commutes_orTrap : ∀ r : Except TrapCode α, Commutes (Running.rebook h) (orTrap r : Exec σ α)
  | .ok a => .pure a
  | .error _ => .throw _

theorem commutes_known {entity : RuntimeEntity} {index : Nat} :
    ∀ o : Option α, Commutes (Running.rebook h) (known entity index o : Exec σ α)
  | some a => .pure a
  | none => .throw _

theorem commutes_instanceOf (f : Scope) : Commutes (Running.rebook h) (instanceOf f : Exec σ _) :=
  .getBind (fun _ => rfl) fun _ => commutes_known _

theorem commutes_funcAddr (f : Scope) (x : Nat) : Commutes (Running.rebook h) (funcAddr f x : Exec σ _) :=
  .bind (commutes_instanceOf f) fun _ => commutes_known _

theorem commutes_tableAddr (f : Scope) (x : Nat) : Commutes (Running.rebook h) (tableAddr f x : Exec σ _) :=
  .bind (commutes_instanceOf f) fun _ => commutes_known _

theorem commutes_globalAddr (f : Scope) (x : Nat) : Commutes (Running.rebook h) (globalAddr f x : Exec σ _) :=
  .bind (commutes_instanceOf f) fun _ => commutes_known _

theorem commutes_memoryAddr (f : Scope) : Commutes (Running.rebook h) (memoryAddr f : Exec σ _) :=
  .bind (commutes_instanceOf f) fun _ => commutes_known _

theorem commutes_tableAt (addr : Nat) : Commutes (Running.rebook h) (tableAt addr : Exec σ _) :=
  .getBind (fun _ => rfl) fun _ => commutes_known _

theorem commutes_memoryOf (f : Scope) : Commutes (Running.rebook h) (memoryOf f : Exec σ _) :=
  .bind (commutes_memoryAddr f) fun _ => .getBind (fun _ => rfl) fun _ => .map (commutes_known _)

theorem commutes_onTable (addr : Nat) (act : EStateM TrapCode Table α) :
    Commutes (Running.rebook h) (onTable addr act : Exec σ α) :=
  commutes_onStore (Store.commutes_onTable _)

theorem commutes_onMemory (f : Scope) (act : EStateM TrapCode Memory α) :
    Commutes (Running.rebook h) (onMemory f act : Exec σ α) :=
  .bind (commutes_memoryAddr f) fun _ => commutes_onStore (Store.commutes_onMemory _)

end Exec

section

variable {σ : Type} {h : Books → Books}

open Exec

/-- **Plain ops do not notice the books.** -/
theorem PlainOp.commutes_exec (f : Scope) (op : PlainOp) :
    Commutes (Running.rebook h) (op.exec f : Exec σ Unit) := by
  cases op with
  | drop => exact .bind commutes_pop fun _ => .pure _
  | select =>
    exact .bind commutes_popNat fun _ => .bind commutes_pop fun _ => .bind commutes_pop fun _ => commutes_push _
  | localGet x => exact .getBind (fun _ => rfl) fun _ => commutes_push _
  | localSet x => exact .bind commutes_pop fun c => commutes_changeStack (·.set (f.base + x) c)
  | localTee x => exact commutes_changeStack fun s => s.set (f.base + x) s.top
  | globalGet x =>
    exact .bind (commutes_globalAddr f x) fun _ => .getBind (fun _ => rfl) fun _ => .bind (commutes_known _) fun _ =>
      commutes_push _
  | globalSet x =>
    exact .bind (commutes_globalAddr f x) fun _ => .bind commutes_pop fun _ => .getBind (fun _ => rfl) fun _ =>
      .bind (commutes_known _) fun _ => commutes_changeStore fun _ => rfl
  | tableGet x =>
    exact .bind (commutes_tableAddr f x) fun _ => .bind commutes_popNat fun _ => .bind (commutes_tableAt _) fun _ =>
      .bind (commutes_orTrap _) fun _ => commutes_push _
  | tableSet x =>
    exact .bind (commutes_tableAddr f x) fun _ => .bind commutes_pop fun _ => .bind commutes_popNat fun _ =>
      commutes_onTable _ _
  | tableSize x =>
    exact .bind (commutes_tableAddr f x) fun _ => .bind (commutes_tableAt _) fun _ => commutes_push _
  | tableGrow x =>
    exact .bind (commutes_tableAddr f x) fun _ => .bind commutes_popNat fun _ => .bind commutes_pop fun _ =>
      .bind (commutes_onTable _ _) fun _ => commutes_push _
  | tableFill x =>
    exact .bind (commutes_tableAddr f x) fun _ => .bind commutes_popNat fun _ => .bind commutes_pop fun _ =>
      .bind commutes_popNat fun _ => commutes_onTable _ _
  | tableCopy target source =>
    exact .bind (commutes_tableAddr f _) fun _ => .bind (commutes_tableAddr f _) fun _ =>
      .bind commutes_popNat fun _ => .bind commutes_popNat fun _ => .bind commutes_popNat fun _ =>
      .ite (commutes_onTable _ _) <| .bind (commutes_tableAt _) fun _ => .bind (commutes_orTrap _) fun _ =>
        commutes_onTable _ _
  | tableInit element table =>
    exact .bind (commutes_tableAddr f _) fun _ => .bind (commutes_instanceOf f) fun _ =>
      .bind (commutes_known _) fun _ => .bind commutes_popNat fun _ => .bind commutes_popNat fun _ =>
      .bind commutes_popNat fun _ => commutes_onTable _ _
  | elemDrop x => exact commutes_changeStore fun _ => rfl
  | load op offset =>
    exact .bind commutes_popNat fun _ => .bind (commutes_memoryOf f) fun _ => .bind (commutes_orTrap _) fun _ =>
      commutes_push _
  | store op offset =>
    exact .bind commutes_pop fun _ => .bind commutes_popNat fun _ => commutes_onMemory f _
  | memorySize => exact .bind (commutes_memoryOf f) fun _ => commutes_push _
  | memoryGrow =>
    exact .bind commutes_popNat fun _ => .bind (commutes_onMemory f _) fun _ => commutes_push _
  | memoryInit x =>
    exact .bind (commutes_instanceOf f) fun _ => .bind (commutes_known _) fun _ => .bind commutes_popNat fun _ =>
      .bind commutes_popNat fun _ => .bind commutes_popNat fun _ => commutes_onMemory f _
  | dataDrop x => exact commutes_changeStore fun _ => rfl
  | memoryCopy =>
    exact .bind commutes_popNat fun _ => .bind commutes_popNat fun _ => .bind commutes_popNat fun _ =>
      commutes_onMemory f _
  | memoryFill =>
    exact .bind commutes_popNat fun _ => .bind commutes_popNat fun _ => .bind commutes_popNat fun _ =>
      commutes_onMemory f _
  | const c => exact commutes_push c
  | refIsNull => exact .bind commutes_pop fun _ => commutes_push _
  | refFunc x => exact .bind (commutes_funcAddr f x) fun _ => commutes_push _
  | numeric op =>
    exact .ite (.bind commutes_pop fun _ => .bind (commutes_orTrap _) fun _ => commutes_push _) <|
      .bind commutes_pop fun _ => .bind commutes_pop fun _ => .bind (commutes_orTrap _) fun _ => commutes_push _

/-- Finding the callee of an indirect call does not notice the books. -/
theorem Exec.commutes_indirectCallee (f : Scope) (type table : Nat) :
    Commutes (Running.rebook h) (indirectCallee f type table : Exec σ Nat) := by
  refine .bind (commutes_tableAddr f table) fun addr => .bind commutes_popNat fun index =>
    .bind (commutes_tableAt addr) fun t => ?_
  split
  · exact .throw _
  · split
    · exact .throw _
    · exact .bind (commutes_known _) fun _ => .getBind (fun _ => rfl) fun _ => .bind (commutes_known _) fun _ =>
        .ite (.pure _) (.throw _)

end

/-! ### The depth of calls, and counters -/

/-- What is counted of ops, and of active frames. -/
structure Tally where
  ops : Nat := 0
  peak : Nat := 0

/-- The counters of ops and of active frames. -/
def Stats.tally (s : Stats) : Tally := ⟨s.opsExecuted, s.peakCallDepth⟩

/-- **Nothing has been counted**: the depth of calls is as it was, and so are the counters. -/
structure Store.Uncounted {σ : Type} (s s' : Store σ) : Prop where
  depth : s'.depth = s.depth
  stats : s'.stats = s.stats

/-- The same for running code. -/
def Running.Uncounted {σ : Type} (r r' : Running σ) : Prop := r.store.Uncounted r'.store

/-- **The depth of calls is as it was**, and so are the counters of ops and of active frames. -/
structure Store.Steady {σ : Type} (s s' : Store σ) : Prop where
  depth : s'.depth = s.depth
  tally : s'.stats.tally = s.stats.tally

/-- The same for running code. -/
def Running.Steady {σ : Type} (r r' : Running σ) : Prop := r.store.Steady r'.store

/-- A frame has an op to run: there is its instance, and its body has not come to its end. -/
def Frame.hasOp {σ : Type} (f : Frame) (s : Store σ) : Bool :=
  s.instances[f.instance_]?.isSome && f.body.ops[f.pc]?.isSome

section

variable {σ α : Type}

instance : IsPreorder (Store σ) Store.Uncounted where
  refl _ := ⟨rfl, rfl⟩
  trans _ _ _ h h' := ⟨h'.depth.trans h.depth, h'.stats.trans h.stats⟩

instance : IsPreorder (Running σ) Running.Uncounted where
  refl r := refl_of Store.Uncounted r.store
  trans _ _ _ h h' := trans_of Store.Uncounted h h'

namespace Store

theorem Uncounted.tally {s s' : Store σ} (h : s.Uncounted s') : s'.stats.tally = s.stats.tally :=
  congrArg Stats.tally h.stats

theorem Uncounted.of_books {s s' : Store σ} (h : s'.books = s.books) : s.Uncounted s' :=
  ⟨congrArg Books.depth h, congrArg Books.stats h⟩

theorem uncounted_of_commutes {act : StoreM σ α} (hact : ∀ h, Commutes (rebook h) act) : Keeps Uncounted act :=
  fun s => .of_books (books_of_commutes hact s)

theorem uncounted_pollInterrupt : Keeps Uncounted (pollInterrupt : StoreM σ Unit) := by
  intro s
  unfold pollInterrupt
  split <;> exact ⟨rfl, rfl⟩

theorem uncounted_changeFuel (change : Nat → Nat) : Keeps Uncounted (changeFuel change : StoreM σ Unit) := by
  refine .getBind fun s => ?_
  split
  · exact .modify fun _ => ⟨rfl, rfl⟩
  · exact .throw _

/-- **Requests do not touch the depth of calls**, nor the counters, unless they set all of these to zero. -/
theorem uncounted_perform (r : StoreRequest) (hr : r ≠ .resetStats) :
    Keeps Uncounted (perform r : StoreM σ r.Result) := by
  cases hbooks : r.onBooks with
  | false => exact uncounted_of_commutes fun _ => commutes_perform r hbooks
  | true =>
    cases r with
    | resetStats => exact absurd rfl hr
    | setFuel | addFuel => exact uncounted_changeFuel _
    | interrupt | resetInterrupt => exact .modify fun _ => ⟨rfl, rfl⟩
    | _ => nomatch hbooks

section

variable {s s' : Store σ}

theorem charge_of_none (h : s.fuel = none) :
    charge s = .ok () { s with stats.opsExecuted := s.stats.opsExecuted + 1 } := by
  unfold charge
  dsimp only
  rw [h]

theorem charge_of_some {n : Nat} (h : s.fuel = some (n + 1)) :
    charge s = .ok () { s with stats.opsExecuted := s.stats.opsExecuted + 1, fuel := some n } := by
  unfold charge
  dsimp only
  rw [h]

theorem charge_of_zero (h : s.fuel = some 0) :
    charge s = .error (.ofCode .outOfFuel) { s with stats.opsExecuted := s.stats.opsExecuted + 1 } := by
  unfold charge
  dsimp only
  rw [h]

/-- **An op is paid for**, unless all fuel is spent. -/
theorem charge_eq_error {e : Error} (h : charge s = .error e s') : s.fuel = some 0 := by
  match hs : s.fuel with
  | none => nomatch (charge_of_none hs).symm.trans h
  | some 0 => rfl
  | some (n + 1) => nomatch (charge_of_some hs).symm.trans h

end

/-- An op is counted when it is paid for, whether there is fuel or not. -/
theorem tally_charge (s : Store σ) : (endState (charge s)).depth = s.depth ∧
    (endState (charge s)).stats.tally = { s.stats.tally with ops := s.stats.opsExecuted + 1 } := by
  unfold charge
  dsimp only
  split <;> exact ⟨rfl, rfl⟩

end Store

open Exec

theorem Exec.uncounted_of_commutes {act : Exec σ α} (hact : ∀ h, Commutes (Running.rebook h) act) :
    Keeps Running.Uncounted act :=
  fun r => .of_books (books_of_commutes hact r)

theorem Exec.uncounted_pollInterrupt : Keeps Running.Uncounted (onStore Store.pollInterrupt : Exec σ Unit) := by
  intro ⟨s, stack⟩
  have hs := Store.uncounted_pollInterrupt s
  rw [onStore]
  cases hr : Store.pollInterrupt s <;> rw [hr] at hs <;> exact hs

theorem Exec.uncounted_branch (f : Frame) (t : BranchTarget) : Keeps Running.Uncounted (branch f t : Exec σ Flow) :=
  .bind (uncounted_of_commutes fun _ => commutes_changeStack _) fun _ => by
    dsimp only
    split
    · exact .bind uncounted_pollInterrupt fun _ => .pure _
    · exact .bind (.pure _) fun _ => .pure _

/-- **No op counts anything but a return**, apart from the op itself. -/
theorem Op.uncounted_exec (f : Frame) {op : Op} (hop : op ≠ .ret) :
    Keeps Running.Uncounted (op.exec f : Exec σ Flow) := by
  have hpop : Keeps Running.Uncounted (popNat : Exec σ Nat) := uncounted_of_commutes fun _ => commutes_popNat
  cases op with
  | ret => exact absurd rfl hop
  | unreachable => exact .throw _
  | br t => exact uncounted_branch f t
  | brIf t => exact .bind hpop fun _ => .ite (uncounted_branch f t) (.pure _)
  | brUnless pc => exact .bind hpop fun _ => .ite (.pure _) (.pure _)
  | jump pc => exact .pure _
  | brTable targets default => exact .bind hpop fun _ => uncounted_branch f _
  | call x => exact .bind (uncounted_of_commutes fun _ => commutes_funcAddr _ x) fun _ => .pure _
  | callIndirect type table =>
    exact .bind (uncounted_of_commutes fun _ => commutes_indirectCallee _ type table) fun _ => .pure _
  | plain op => exact .bind (uncounted_of_commutes fun _ => op.commutes_exec _) fun _ => .pure _

/-- **What ops do is no matter of the depth of calls**, nor of the counters of ops and of active frames: a return only
notes the height of the stack. -/
theorem Op.steady_exec (f : Frame) (op : Op) : Keeps Running.Steady (op.exec f : Exec σ Flow) := by
  by_cases hop : op = .ret
  · subst hop
    intro r
    exact ⟨rfl, congrArg (Tally.mk r.store.stats.opsExecuted) (Nat.max_zero _)⟩
  · exact fun r => ⟨(op.uncounted_exec f hop r).depth, (op.uncounted_exec f hop r).tally⟩

namespace Frame

variable {f : Frame} {r : Running σ}

/-- **A frame that has an op pays for it and runs it.** -/
theorem exec_of_hasOp (h : f.hasOp r.store = true) : ∃ op, f.body.ops[f.pc]? = some op ∧
    f.exec r = (onStore Store.charge >>= fun _ => op.exec f) r := by
  obtain ⟨hinstance, hop⟩ := Bool.and_eq_true_iff.mp h
  obtain ⟨i, hi⟩ := Option.isSome_iff_exists.mp hinstance
  obtain ⟨op, hop⟩ := Option.isSome_iff_exists.mp hop
  have hknown : (instanceOf f.toScope : Exec σ _) r = .ok i r := by
    change known .instance_ f.instance_ r.store.instances[f.instance_]? r = _
    rw [hi]
    rfl
  refine ⟨op, hop, ?_⟩
  rw [exec, estate_bind_of_ok hknown, hop]

theorem lt_of_hasOp {s : Store σ} (h : f.hasOp s = true) : f.pc < f.body.ops.size := by
  obtain ⟨op, hop⟩ := Option.isSome_iff_exists.mp (Bool.and_eq_true_iff.mp h).2
  exact (Array.getElem?_eq_some_iff.mp hop).1

/-- A frame that has none fails by a fault, and does nothing, whatever is in the books. -/
theorem exec_of_not_hasOp (h : f.hasOp r.store = false) : ∃ fault : RuntimeFault, ∀ change,
    f.exec (r.rebook change) = .error (.ofFault (.runtime fault)) (r.rebook change) := by
  cases hi : r.store.instances[f.instance_]? with
  | none =>
    refine ⟨.unknown .instance_ f.instance_, fun change => estate_bind_of_error ?_⟩
    change known .instance_ f.instance_ r.store.instances[f.instance_]? (r.rebook change) = _
    rw [hi]
    rfl
  | some i =>
    cases hop : f.body.ops[f.pc]? with
    | none =>
      refine ⟨.pastEnd, fun change => ?_⟩
      have hknown : (instanceOf f.toScope : Exec σ _) (r.rebook change) = .ok i (r.rebook change) := by
        change known .instance_ f.instance_ r.store.instances[f.instance_]? (r.rebook change) = _
        rw [hi]
        rfl
      rw [exec, estate_bind_of_ok hknown, hop]
      rfl
    | some op =>
      rw [hasOp, hi, hop] at h
      nomatch h

theorem hasOp_of_exec {flow : Flow} {r' : Running σ} (h : f.exec r = .ok flow r') : f.hasOp r.store = true := by
  cases hop : f.hasOp r.store with
  | true => rfl
  | false =>
    obtain ⟨fault, he⟩ := exec_of_not_hasOp hop
    cases (he id).symm.trans h

/-- A frame that traps has an op. -/
theorem hasOp_of_trap {t : Trap} {place : Place} {r' : Running σ} (h : f.exec r = .error (.trap t place) r') :
    f.hasOp r.store = true := by
  cases hop : f.hasOp r.store with
  | true => rfl
  | false =>
    obtain ⟨fault, he⟩ := exec_of_not_hasOp hop
    cases (he id).symm.trans h

/-- **Running a frame counts its op**, and leaves the depth of calls as it is. -/
theorem tally_exec (f : Frame) (r : Running σ) : (endState (f.exec r)).store.depth = r.store.depth ∧
    (endState (f.exec r)).store.stats.tally =
      { r.store.stats.tally with ops := r.store.stats.opsExecuted + (f.hasOp r.store).toNat } := by
  cases h : f.hasOp r.store with
  | false =>
    obtain ⟨fault, he⟩ := exec_of_not_hasOp h
    have he : f.exec r = .error _ r := he id
    rw [he]
    exact ⟨rfl, rfl⟩
  | true =>
    obtain ⟨op, -, hexec⟩ := exec_of_hasOp h
    obtain ⟨store, stack⟩ := r
    have hcharge := Store.tally_charge store
    rw [hexec]
    cases hr : Store.charge store with
    | error e s' =>
      rw [hr] at hcharge
      rw [estate_bind_of_error (show onStore Store.charge ⟨store, stack⟩ = .error e ⟨s', stack⟩ by rw [onStore, hr])]
      exact hcharge
    | ok a s' =>
      rw [hr] at hcharge
      rw [estate_bind_of_ok (show onStore Store.charge ⟨store, stack⟩ = .ok a ⟨s', stack⟩ by rw [onStore, hr])]
      have hsteady := op.steady_exec f ⟨s', stack⟩
      exact ⟨hsteady.depth.trans hcharge.1, hsteady.tally.trans hcharge.2⟩

end Frame

end

end WasmEngine
