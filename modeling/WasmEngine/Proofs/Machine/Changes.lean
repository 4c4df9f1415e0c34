import WasmEngine.Proofs.Memory.Growth
import WasmEngine.Proofs.Store.Requests
import WasmEngine.Proofs.Table.Growth

/-!
# What ops change

An op that works on the stack and the store reads what it needs, checks what has to be checked, and then changes one
thing in the store, if any: a memory, a table, the cell of a global or a segment (`Store.Changes`). Nothing that could
fail comes behind the change. So the op is `Exec.Atomic`: it has changed this one thing, or it has failed and changed
nothing. All other ops change nothing but what the store keeps count of (`Running.Charged`).

Whatever is to be known of the store behind an op follows from these cases, and does not need another look at the ops
(`Frame.keeps_of_changes`).
-/

namespace WasmEngine

variable {σ α β : Type}

/-! ### Failing without a trace -/

/-- **A computation that fails has changed nothing.** -/
def Reverts {ε σ α : Type} (act : EStateM ε σ α) : Prop := ∀ s e s', act s = .error e s' → s' = s

theorem Memory.reverts_changeIf (condition : Memory → Bool) (change : Memory → Memory) :
    Reverts (changeIf condition change) := by
  intro m e m' h
  rw [changeIf] at h
  split at h <;> cases h
  rfl

theorem Memory.reverts_grow? (delta : Nat) : Reverts (grow? delta) := by
  intro m e m' h
  rw [grow?, grow_eq] at h
  split at h <;> nomatch h

theorem Table.reverts_changeIf (condition : Table → Bool) (change : Table → Table) :
    Reverts (changeIf condition change) := by
  intro t e t' h
  rw [changeIf] at h
  split at h <;> cases h
  rfl

theorem Table.reverts_grow (delta : Nat) (c : Cell) : Reverts (grow delta c) := by
  intro t e t' h
  unfold grow at h
  dsimp only at h
  split at h <;> nomatch h

/-! ### One change -/

/-- **What a single op may do to a store.** -/
inductive Store.Changes (s : Store σ) : Store σ → Prop
  | nothing : Changes s s
  | memory {addr : Nat} {e : MemoryEntry} (op : Memory.Operation) : s.memories[addr]? = some e →
    Changes s (s.setMemory addr (op.after e.memory))
  | table {addr : Nat} {t : Table} (op : Table.Operation) : s.tables[addr]? = some t →
    Changes s (s.setTableAt addr (op.after t))
  | global (addr : Nat) (c : Cell) : Changes s (s.setGlobalCell addr c)
  | element (place x : Nat) : Changes s (s.dropElement place x)
  | data (place x : Nat) : Changes s (s.dropData place x)

/-- Nothing has been done but to the stack. -/
def Running.SameStore (r r' : Running σ) : Prop := r'.store = r.store

instance : IsPreorder (Running σ) Running.SameStore where
  refl _ := rfl
  trans _ _ _ h h' := h'.trans h

/-- Nothing but the fuel, the interrupt flag and the counters of the store is different, apart from the stack. -/
def Running.Charged (r r' : Running σ) : Prop :=
  r'.store = { r.store with
    fuel := r'.store.fuel, interrupted := r'.store.interrupted, stats := r'.store.stats }

instance : IsPreorder (Running σ) Running.Charged where
  refl _ := rfl
  trans r r' r'' h h' := by
    change r''.store = _
    rw [h', h]

theorem Running.SameStore.charged {r r' : Running σ} (h : r.SameStore r') : r.Charged r' := by
  change r'.store = _
  rw [h]

namespace Exec

/-! ### What only looks at the store -/

theorem still_pop : Keeps Running.SameStore (pop : Exec σ Cell) := .modifyGet fun _ => rfl

theorem still_popNat : Keeps Running.SameStore (popNat : Exec σ Nat) := .bind still_pop fun _ => .pure _

theorem still_push (c : Cell) : Keeps Running.SameStore (push c : Exec σ Unit) := .modify fun _ => rfl

theorem still_changeStack (change : Stack → Stack) : Keeps Running.SameStore (changeStack change : Exec σ Unit) :=
  .modify fun _ => rfl

theorem still_orTrap : ∀ x : Except TrapCode α, Keeps Running.SameStore (orTrap x : Exec σ α)
  | .ok a => .pure a
  | .error _ => .throw _

theorem still_known {entity : RuntimeEntity} {index : Nat} :
    ∀ o : Option α, Keeps Running.SameStore (known entity index o : Exec σ α)
  | some a => .pure a
  | none => .throw _

theorem still_instanceOf (f : Scope) : Keeps Running.SameStore (instanceOf f : Exec σ _) :=
  .getBind fun _ => still_known _

theorem still_funcAddr (f : Scope) (x : Nat) : Keeps Running.SameStore (funcAddr f x : Exec σ _) :=
  .bind (still_instanceOf f) fun _ => still_known _

theorem still_tableAddr (f : Scope) (x : Nat) : Keeps Running.SameStore (tableAddr f x : Exec σ _) :=
  .bind (still_instanceOf f) fun _ => still_known _

theorem still_globalAddr (f : Scope) (x : Nat) : Keeps Running.SameStore (globalAddr f x : Exec σ _) :=
  .bind (still_instanceOf f) fun _ => still_known _

theorem still_memoryAddr (f : Scope) : Keeps Running.SameStore (memoryAddr f : Exec σ _) :=
  .bind (still_instanceOf f) fun _ => still_known _

theorem still_tableAt (addr : Nat) : Keeps Running.SameStore (tableAt addr : Exec σ _) :=
  .getBind fun _ => still_known _

theorem still_memoryOf (f : Scope) : Keeps Running.SameStore (memoryOf f : Exec σ _) :=
  .bind (still_memoryAddr f) fun _ => .getBind fun _ => .bind (still_known _) fun _ => .pure _

theorem still_indirectCallee (f : Scope) (type table : Nat) :
    Keeps Running.SameStore (indirectCallee f type table : Exec σ Nat) := by
  refine .bind (still_tableAddr f table) fun addr => .bind still_popNat fun index => .bind (still_tableAt addr) fun t => ?_
  split
  · exact .throw _
  · split
    · exact .throw _
    · exact .bind (still_known _) fun _ => .getBind fun _ => .bind (still_known _) fun _ => .ite (.pure _) (.throw _)

/-! ### Atomic computations -/

/-- **A computation is atomic**: either it succeeds and has changed one thing, or it fails and has changed nothing. -/
def Atomic (act : Exec σ α) : Prop :=
  ∀ r, Yields act r (fun _ r' => r.store.Changes r'.store) fun _ r' => r'.store = r.store

namespace Atomic

variable {act : Exec σ α} {k : α → Exec σ β}

theorem of_still (h : Keeps Running.SameStore act) : Atomic act := by
  intro r
  have hr := h r
  cases hact : act r with
  | ok a r' =>
    rw [hact] at hr
    exact .of_ok hact (hr.symm ▸ .nothing)
  | error e r' =>
    rw [hact] at hr
    exact .of_error hact hr

/-- The change comes behind everything else. -/
theorem behind (h : Keeps Running.SameStore act) (hk : ∀ a, Atomic (k a)) : Atomic (act >>= k) := by
  intro r
  have hr := h r
  cases hact : act r with
  | ok a r' =>
    rw [hact] at hr
    have hsame : r'.store = r.store := hr
    -- what comes behind starts in the same store, so its change is the only one
    refine .bind_of_ok hact ?_
    have hyields := hk a r'
    rwa [hsame] at hyields
  | error e r' =>
    rw [hact] at hr
    exact .of_error (estate_bind_of_error hact) hr

theorem getBind {k : Running σ → Exec σ α} (hk : ∀ r, Atomic (k r)) : Atomic (MonadState.get >>= k) :=
  behind .get hk

theorem ite {c : Prop} [Decidable c] {act' : Exec σ α} (h : Atomic act) (h' : Atomic act') :
    Atomic (if c then act else act') := by
  split
  · exact h
  · exact h'

/-- Pushing a result cannot fail. -/
theorem push (h : Atomic act) (c : α → Cell) : Atomic (act >>= fun a => push (c a)) := by
  intro r
  refine .bind (h r) fun a r' hr' => ?_
  exact .of_ok rfl hr'

end Atomic

theorem atomic_changeStore {change : Store σ → Store σ} (h : ∀ s : Store σ, s.Changes (change s)) :
    Atomic (changeStore change) := fun r => .of_ok rfl (h r.store)

/-! ### Single entities -/

section

variable {s : Store σ} {addr : Nat}

theorem onStore_onMemory {e : MemoryEntry} (he : s.memories[addr]? = some e) (act : EStateM TrapCode Memory α)
    (stack : Stack) : onStore (Store.onMemory addr (missing .memory 0) .ofCode act) ⟨s, stack⟩ =
      match act e.memory with
      | .ok a m => .ok a ⟨s.setMemory addr m, stack⟩
      | .error code m => .error (.ofCode code) ⟨s.setMemory addr m, stack⟩ := by
  rw [onStore, Store.onMemory_some he]
  cases act e.memory <;> rfl

theorem onTable_eq {t : Table} (ht : s.tables[addr]? = some t) (act : EStateM TrapCode Table α) (stack : Stack) :
    onTable addr act ⟨s, stack⟩ = match act t with
      | .ok a t => .ok a ⟨s.setTableAt addr t, stack⟩
      | .error code t => .error (.ofCode code) ⟨s.setTableAt addr t, stack⟩ := by
  rw [onTable, onStore, Store.onTable_some ht]
  cases act t <;> rfl

end

/-- An operation on a memory is atomic if it is one for the memory. -/
theorem atomic_onMemory {f : Scope} {act : EStateM TrapCode Memory α} (op : Memory.Operation)
    (hop : ∀ m, op.after m = endState (act m)) (hact : Reverts act) : Atomic (onMemory f act : Exec σ α) := by
  refine .behind (still_memoryAddr f) fun addr ⟨s, stack⟩ => ?_
  cases he : s.memories[addr]? with
  | none => exact .of_error (by rw [onStore, Store.onMemory_none he]) rfl
  | some e =>
    have hafter := hop e.memory
    have hon := onStore_onMemory he act stack
    cases hm : act e.memory with
    | ok a m =>
      rw [hm] at hafter hon
      have hchanges := Store.Changes.memory op he
      rw [hafter] at hchanges
      exact .of_ok hon hchanges
    | error code m =>
      -- the memory that is put back is the one that was taken out
      rw [hm] at hon
      obtain rfl := hact _ _ _ hm
      exact .of_error hon (Store.setMemory_same he)

/-- And so is an operation on a table. -/
theorem atomic_onTable {addr : Nat} {act : EStateM TrapCode Table α} (op : Table.Operation)
    (hop : ∀ t, op.after t = endState (act t)) (hact : Reverts act) : Atomic (onTable addr act : Exec σ α) := by
  intro ⟨s, stack⟩
  cases ht : s.tables[addr]? with
  | none => exact .of_error (by rw [onTable, onStore, Store.onTable_none ht]) rfl
  | some t =>
    have hafter := hop t
    have hon := onTable_eq ht act stack
    cases hm : act t with
    | ok a t' =>
      rw [hm] at hafter hon
      have hchanges := Store.Changes.table op ht
      rw [hafter] at hchanges
      exact .of_ok hon hchanges
    | error code t' =>
      rw [hm] at hon
      obtain rfl := hact _ _ _ hm
      exact .of_error hon (Store.setTableAt_same ht)

end Exec

/-! ### Plain ops -/

open Exec

theorem Memory.after_grow (delta : Nat) (m : Memory) :
    (Operation.grow delta).after m = endState (grow? delta m) := by
  rw [Operation.after, grow?, grow_eq]
  split <;> rfl

/-- **Plain ops change one thing, or fail and change nothing.** -/
theorem PlainOp.atomic_exec (f : Scope) (op : PlainOp) : Atomic (op.exec f : Exec σ Unit) := by
  cases op with
  | drop => exact .of_still (.bind still_pop fun _ => .pure _)
  | select =>
    exact .of_still (.bind still_popNat fun _ => .bind still_pop fun _ => .bind still_pop fun _ => still_push _)
  | localGet x => exact .of_still (.getBind fun _ => still_push _)
  | localSet x => exact .of_still (.bind still_pop fun c => still_changeStack (·.set (f.base + x) c))
  | localTee x => exact .of_still (still_changeStack fun s => s.set (f.base + x) s.top)
  | globalGet x =>
    exact .of_still (.bind (still_globalAddr f x) fun _ => .getBind fun _ => .bind (still_known _) fun _ => still_push _)
  | globalSet x =>
    exact .behind (still_globalAddr f x) fun addr => .behind still_pop fun c => .getBind fun _ =>
      .behind (still_known _) fun _ => atomic_changeStore fun _ => .global addr c
  | tableGet x =>
    exact .of_still (.bind (still_tableAddr f x) fun _ => .bind still_popNat fun _ => .bind (still_tableAt _) fun _ =>
      .bind (still_orTrap _) fun _ => still_push _)
  | tableSet x =>
    exact .behind (still_tableAddr f x) fun _ => .behind still_pop fun _ => .behind still_popNat fun _ =>
      atomic_onTable (.set _ _) (fun _ => rfl) (Table.reverts_changeIf _ _)
  | tableSize x =>
    exact .of_still (.bind (still_tableAddr f x) fun _ => .bind (still_tableAt _) fun _ => still_push _)
  | tableGrow x =>
    exact .behind (still_tableAddr f x) fun _ => .behind still_popNat fun _ => .behind still_pop fun _ =>
      .push (atomic_onTable (.grow _ _) (fun _ => rfl) (Table.reverts_grow _ _)) _
  | tableFill x =>
    exact .behind (still_tableAddr f x) fun _ => .behind still_popNat fun _ => .behind still_pop fun _ =>
      .behind still_popNat fun _ => atomic_onTable (.fill _ _ _) (fun _ => rfl) (Table.reverts_changeIf _ _)
  | tableCopy target source =>
    -- a table that is copied to itself, and one that is copied to another
    exact .behind (still_tableAddr f _) fun _ => .behind (still_tableAddr f _) fun _ =>
      .behind still_popNat fun _ => .behind still_popNat fun _ => .behind still_popNat fun _ =>
      .ite (atomic_onTable (.copyWithin _ _ _) (fun _ => rfl) (Table.reverts_changeIf _ _)) <|
        .behind (still_tableAt _) fun _ => .behind (still_orTrap _) fun _ =>
          atomic_onTable (.init _ _ _ _) (fun _ => rfl) (Table.reverts_changeIf _ _)
  | tableInit element table =>
    exact .behind (still_tableAddr f _) fun _ => .behind (still_instanceOf f) fun _ =>
      .behind (still_known _) fun _ => .behind still_popNat fun _ => .behind still_popNat fun _ =>
      .behind still_popNat fun _ => atomic_onTable (.init _ _ _ _) (fun _ => rfl) (Table.reverts_changeIf _ _)
  | elemDrop x => exact atomic_changeStore fun _ => .element f.instance_ x
  | load op offset =>
    exact .of_still (.bind still_popNat fun _ => .bind (still_memoryOf f) fun _ => .bind (still_orTrap _) fun _ =>
      still_push _)
  | store op offset =>
    exact .behind still_pop fun _ => .behind still_popNat fun _ =>
      atomic_onMemory (.store _ _ _) (fun _ => rfl) (Memory.reverts_changeIf _ _)
  | memorySize => exact .of_still (.bind (still_memoryOf f) fun _ => still_push _)
  | memoryGrow =>
    exact .behind still_popNat fun delta =>
      .push (atomic_onMemory (.grow delta) (Memory.after_grow delta) (Memory.reverts_grow? delta)) _
  | memoryInit x =>
    exact .behind (still_instanceOf f) fun _ => .behind (still_known _) fun _ => .behind still_popNat fun _ =>
      .behind still_popNat fun _ => .behind still_popNat fun _ =>
      atomic_onMemory (.init _ _ _ _) (fun _ => rfl) (Memory.reverts_changeIf _ _)
  | dataDrop x => exact atomic_changeStore fun _ => .data f.instance_ x
  | memoryCopy =>
    exact .behind still_popNat fun _ => .behind still_popNat fun _ => .behind still_popNat fun _ =>
      atomic_onMemory (.copy _ _ _) (fun _ => rfl) (Memory.reverts_changeIf _ _)
  | memoryFill =>
    exact .behind still_popNat fun _ => .behind still_popNat fun _ => .behind still_popNat fun _ =>
      atomic_onMemory (.fill _ _ _) (fun _ => rfl) (Memory.reverts_changeIf _ _)
  | const c => exact .of_still (still_push c)
  | refIsNull => exact .of_still (.bind still_pop fun _ => still_push _)
  | refFunc x => exact .of_still (.bind (still_funcAddr f x) fun _ => still_push _)
  | numeric op =>
    exact .of_still <| .ite (.bind still_pop fun _ => .bind (still_orTrap _) fun _ => still_push _) <|
      .bind still_pop fun _ => .bind still_pop fun _ => .bind (still_orTrap _) fun _ => still_push _

/-! ### All ops -/

namespace Exec

theorem charged_of_still {act : Exec σ α} (h : Keeps Running.SameStore act) : Keeps Running.Charged act :=
  fun r => Running.SameStore.charged (h r)

theorem charged_onStore {act : StoreM σ α} (h : ∀ s : Store σ, endState (act s) = { s with
      fuel := (endState (act s)).fuel
      interrupted := (endState (act s)).interrupted
      stats := (endState (act s)).stats }) : Keeps Running.Charged (onStore act) := by
  intro ⟨s, stack⟩
  have hs := h s
  rw [onStore]
  cases hr : act s <;> rw [hr] at hs <;> exact hs

theorem charged_pollInterrupt : Keeps Running.Charged (onStore Store.pollInterrupt : Exec σ Unit) :=
  charged_onStore fun s => by
    unfold Store.pollInterrupt
    split <;> rfl

theorem charged_charge : Keeps Running.Charged (onStore Store.charge : Exec σ Unit) :=
  charged_onStore fun s => by
    unfold Store.charge
    dsimp only
    split <;> rfl

theorem charged_branch (f : Frame) (t : BranchTarget) : Keeps Running.Charged (branch f t : Exec σ Flow) := by
  refine .bind (charged_of_still (still_changeStack _)) fun _ => ?_
  dsimp only
  split
  · exact .bind charged_pollInterrupt fun _ => .pure _
  · exact .bind (.pure _) fun _ => .pure _

end Exec

/-- Ops that are not plain change nothing but what is counted, whether they fail or not. -/
theorem Op.charged_exec {f : Frame} {op : Op} (h : ∀ p, op ≠ .plain p) :
    Keeps Running.Charged (op.exec f : Exec σ Flow) := by
  have hpop : Keeps Running.Charged (popNat : Exec σ Nat) := charged_of_still still_popNat
  cases op with
  | plain p => exact absurd rfl (h p)
  | unreachable => exact .throw _
  | br t => exact charged_branch f t
  | brIf t => exact .bind hpop fun _ => .ite (charged_branch f t) (.pure _)
  | brUnless pc => exact .bind hpop fun _ => .ite (.pure _) (.pure _)
  | jump pc => exact .pure _
  | brTable targets default => exact .bind hpop fun _ => charged_branch f _
  | ret => exact .bind (.modify fun _ => rfl) fun _ => .pure _
  | call x => exact .bind (charged_of_still (still_funcAddr _ x)) fun _ => .pure _
  | callIndirect type table => exact .bind (charged_of_still (still_indirectCallee _ type table)) fun _ => .pure _

section

variable {R : Running σ → Running σ → Prop} (hchanges : ∀ r r', r.store.Changes r'.store → R r r')

include hchanges

theorem PlainOp.keeps_of_changes (f : Scope) (op : PlainOp) : Keeps R (op.exec f : Exec σ Unit) := by
  refine fun r => Yields.end_of ((op.atomic_exec f r).imp (fun _ r' => hchanges r r') fun _ r' h => hchanges r r' ?_)
  rw [h]
  exact .nothing

variable [IsPreorder (Running σ) R] (hcharged : ∀ r r', r.Charged r' → R r r')

include hcharged

theorem Op.keeps_of_changes (f : Frame) (op : Op) : Keeps R (op.exec f : Exec σ Flow) := by
  by_cases hop : ∃ p, op = .plain p
  · obtain ⟨p, rfl⟩ := hop
    exact .bind (p.keeps_of_changes hchanges _) fun _ => .pure _
  · exact fun r => hcharged r _ (charged_exec (fun p hp => hop ⟨p, hp⟩) r)

/-- **What every change keeps, and all counting, is kept by running code.** -/
theorem Frame.keeps_of_changes (f : Frame) : Keeps R (f.exec : Exec σ Flow) := by
  refine .bind (fun r => hcharged r _ (charged_of_still (still_instanceOf _) r)) fun _ => ?_
  split
  · exact .throw _
  · exact .bind (fun r => hcharged r _ (charged_charge r)) fun _ => Op.keeps_of_changes hchanges hcharged f _

end

end WasmEngine
