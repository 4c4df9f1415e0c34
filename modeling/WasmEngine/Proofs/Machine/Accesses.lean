import WasmEngine.Proofs.Machine.Changes
import WasmEngine.Proofs.Machine.Rules

/-!
# Ops on memories and tables

What the ops do that load, store and grow, on the memory or the table that the instance of their function has. Each of
them is an equation, for all operands: what is on the stack is taken as a word of 32 bits, to which an offset is added
as a number, so an address is never brought back into range.
-/

namespace WasmEngine

variable {σ α : Type} {f : Scope} {s : Store σ} {stack : Stack} {addr : Nat}

/-! ### Lookups -/

namespace Scope

/-- The address of the first memory of a function's instance. -/
def memoryAddr? (f : Scope) (s : Store σ) : Option Nat := do (← s.instances[f.instance_]?).memories[0]?

/-- The address of a table of a function's instance. -/
def tableAddr? (f : Scope) (s : Store σ) (x : Nat) : Option Nat := do (← s.instances[f.instance_]?).tables[x]?

end Scope

namespace Exec

theorem popNat_eq (s : Store σ) (stack : Stack) :
    (popNat : Exec σ Nat) ⟨s, stack⟩ = .ok (stack.top.setWidth 32).toNat ⟨s, stack.pop⟩ := rfl

theorem memoryAddr_eq (h : f.memoryAddr? s = some addr) :
    (memoryAddr f : Exec σ Nat) ⟨s, stack⟩ = .ok addr ⟨s, stack⟩ := by
  obtain ⟨i, hi, haddr⟩ := Option.bind_eq_some_iff.mp h
  have hinstance : (instanceOf f : Exec σ _) ⟨s, stack⟩ = .ok i ⟨s, stack⟩ := known_of hi _
  rw [memoryAddr, estate_bind_of_ok hinstance]
  exact known_of haddr _

theorem tableAddr_eq {x : Nat} (h : f.tableAddr? s x = some addr) :
    (tableAddr f x : Exec σ Nat) ⟨s, stack⟩ = .ok addr ⟨s, stack⟩ := by
  obtain ⟨i, hi, haddr⟩ := Option.bind_eq_some_iff.mp h
  have hinstance : (instanceOf f : Exec σ _) ⟨s, stack⟩ = .ok i ⟨s, stack⟩ := known_of hi _
  rw [tableAddr, estate_bind_of_ok hinstance]
  exact known_of haddr _

theorem memoryOf_eq {e : MemoryEntry} (h : f.memoryAddr? s = some addr) (he : s.memories[addr]? = some e) :
    (memoryOf f : Exec σ Memory) ⟨s, stack⟩ = .ok e.memory ⟨s, stack⟩ := by
  rw [memoryOf, estate_bind_of_ok (memoryAddr_eq h)]
  exact estate_bind_of_ok (known_of he _)

theorem onMemory_eq {e : MemoryEntry} (h : f.memoryAddr? s = some addr) (he : s.memories[addr]? = some e)
    (act : EStateM TrapCode Memory α) (stack : Stack) : onMemory f act ⟨s, stack⟩ = match act e.memory with
      | .ok a m => .ok a ⟨s.setMemory addr m, stack⟩
      | .error code m => .error (.ofCode code) ⟨s.setMemory addr m, stack⟩ := by
  rw [onMemory, estate_bind_of_ok (memoryAddr_eq h)]
  exact onStore_onMemory he act stack

end Exec

open Exec

namespace PlainOp

/-! ### Growing -/

/-- **A memory grows, or the op gives all ones** and changes nothing. -/
theorem exec_memoryGrow {e : MemoryEntry} (h : f.memoryAddr? s = some addr) (he : s.memories[addr]? = some e)
    (stack : Stack) :
    (memoryGrow.exec f : Exec σ Unit) ⟨s, stack⟩ =
      let delta := (stack.top.setWidth 32).toNat
      if e.memory.pages + delta ≤ e.memory.cap then
        pushNat e.memory.pages ⟨s.setMemory addr (e.memory.grown delta), stack.pop⟩
      else pushNat 0xFFFFFFFF ⟨s, stack.pop⟩ := by
  rw [exec, estate_bind_of_ok (popNat_eq s stack)]
  extract_lets delta
  have hon := onMemory_eq h he (Memory.grow? delta) stack.pop
  rw [Memory.grow?, Memory.grow_eq] at hon
  split
  · next hroom =>
    rw [if_pos hroom] at hon
    exact estate_bind_of_ok hon
  · next hroom =>
    rw [if_neg hroom] at hon
    dsimp only at hon
    rw [Store.setMemory_same he] at hon
    exact estate_bind_of_ok hon

/-- **A table grows, or the op gives all ones** and changes nothing. -/
theorem exec_tableGrow {x : Nat} {t : Table} (h : f.tableAddr? s x = some addr) (ht : s.tables[addr]? = some t)
    (stack : Stack) :
    ((tableGrow x).exec f : Exec σ Unit) ⟨s, stack⟩ =
      let delta := (stack.top.setWidth 32).toNat
      if t.size + delta ≤ t.bound then
        pushNat t.size ⟨s.setTableAt addr { t with cells := t.cells ++ Array.replicate delta stack.pop.top },
          stack.pop.pop⟩
      else pushNat 0xFFFFFFFF ⟨s, stack.pop.pop⟩ := by
  rw [exec, estate_bind_of_ok (tableAddr_eq h), estate_bind_of_ok (popNat_eq s stack)]
  extract_lets delta
  have hpop : (pop : Exec σ Cell) ⟨s, stack.pop⟩ = .ok stack.pop.top ⟨s, stack.pop.pop⟩ := rfl
  rw [estate_bind_of_ok hpop]
  have hon := onTable_eq ht (Table.grow delta stack.pop.top) stack.pop.pop
  unfold Table.grow at hon
  dsimp only at hon
  split
  · next hroom =>
    rw [if_pos hroom] at hon
    exact estate_bind_of_ok hon
  · next hroom =>
    rw [if_neg hroom] at hon
    dsimp only at hon
    rw [Store.setTableAt_same ht] at hon
    exact estate_bind_of_ok hon

/-! ### Loading and storing -/

theorem exec_load {e : MemoryEntry} (h : f.memoryAddr? s = some addr) (he : s.memories[addr]? = some e) (op : LoadOp)
    (offset : Nat) (stack : Stack) : ((load op offset).exec f : Exec σ Unit) ⟨s, stack⟩ =
      match e.memory.load ((stack.top.setWidth 32).toNat + offset) op.width with
      | .ok c => .ok () ⟨s, stack.pop.push (op.extend c)⟩
      | .error code => .error (.ofCode code) ⟨s, stack.pop⟩ := by
  refine (estate_bind_of_ok (popNat_eq s stack)).trans ((estate_bind_of_ok (memoryOf_eq h he)).trans ?_)
  cases e.memory.load ((stack.top.setWidth 32).toNat + offset) op.width <;> rfl

theorem exec_store {e : MemoryEntry} (h : f.memoryAddr? s = some addr) (he : s.memories[addr]? = some e)
    (op : StoreOp) (offset : Nat) (stack : Stack) : ((store op offset).exec f : Exec σ Unit) ⟨s, stack⟩ =
      match Memory.store ((stack.pop.top.setWidth 32).toNat + offset) op.width stack.top e.memory with
      | .ok _ m => .ok () ⟨s.setMemory addr m, stack.pop.pop⟩
      | .error code m => .error (.ofCode code) ⟨s.setMemory addr m, stack.pop.pop⟩ := by
  have hpop : (pop : Exec σ Cell) ⟨s, stack⟩ = .ok stack.top ⟨s, stack.pop⟩ := rfl
  rw [exec, estate_bind_of_ok hpop, estate_bind_of_ok (popNat_eq s stack.pop), onMemory_eq h he]
  cases Memory.store ((stack.pop.top.setWidth 32).toNat + offset) op.width stack.top e.memory <;> rfl

end PlainOp

/-! ### What loads and stores reach -/

/-- **Loads and stores of a function reach the bytes of its memory** from the sum of base and offset on, if all of them
are there, and trap otherwise. A load at the place of a store of as many bytes gives the extension of what was stored. -/
structure Scope.Reaches (f : Scope) (s : Store σ) (addr : Nat) (m : Memory) : Prop where
  load : ∀ (op : LoadOp) (offset : Nat) (stack : Stack),
    let start := (stack.top.setWidth 32).toNat + offset
    (start + op.width ≤ m.bytes.size → ∃ c, m.load start op.width = .ok c ∧
      (PlainOp.load op offset).exec f ⟨s, stack⟩ = .ok () ⟨s, stack.pop.push (op.extend c)⟩) ∧
    (m.bytes.size < start + op.width →
      (PlainOp.load op offset).exec f ⟨s, stack⟩ = .error (.ofCode .memoryOutOfBounds) ⟨s, stack.pop⟩)
  store : ∀ (op : StoreOp) (offset : Nat) (stack : Stack),
    let start := (stack.pop.top.setWidth 32).toNat + offset
    (start + op.width ≤ m.bytes.size → ∃ m', Memory.store start op.width stack.top m = .ok () m' ∧
      (PlainOp.store op offset).exec f ⟨s, stack⟩ = .ok () ⟨s.setMemory addr m', stack.pop.pop⟩) ∧
    (m.bytes.size < start + op.width →
      (PlainOp.store op offset).exec f ⟨s, stack⟩ = .error (.ofCode .memoryOutOfBounds) ⟨s, stack.pop.pop⟩)
  load_of_store : ∀ (store : StoreOp) (load : LoadOp) (offset offset' : Nat) (stack stack' : Stack) (r : Running σ),
    load.width = store.width →
    (stack'.top.setWidth 32).toNat + offset' = (stack.pop.top.setWidth 32).toNat + offset →
    (PlainOp.store store offset).exec f ⟨s, stack⟩ = .ok () r →
    (PlainOp.load load offset').exec f ⟨r.store, stack'⟩ =
      .ok () ⟨r.store, stack'.pop.push (load.extension stack.top)⟩

theorem LoadOp.width_le (op : LoadOp) : op.width ≤ 8 := by
  cases op with
  | int w | float w => cases w <;> decide
  | int8 | int16 | int32 => exact of_decide_eq_true rfl

theorem Store.memories_setMemory {e : MemoryEntry} (he : s.memories[addr]? = some e) (m : Memory) :
    (s.setMemory addr m).memories[addr]? = some { e with memory := m } := by
  rw [setMemory, Array.getElem?_modify, if_pos rfl, he]
  rfl

theorem Scope.reaches {e : MemoryEntry} (h : f.memoryAddr? s = some addr) (he : s.memories[addr]? = some e) :
    f.Reaches s addr e.memory where
  load op offset stack := by
    extract_lets start
    have hexec := PlainOp.exec_load h he op offset stack
    have hgives := e.memory.gives_load start op.width_le
    refine ⟨fun hfits => ?_, fun hout => ?_⟩
    · obtain ⟨c, hc, -⟩ := hgives.done hfits
      rw [hc] at hexec
      exact ⟨c, hc, hexec⟩
    · rwa [hgives.refused (Nat.not_le.mpr hout)] at hexec
  store op offset stack := by
    extract_lets start
    have hexec := PlainOp.exec_store h he op offset stack
    have hperforms := e.memory.performs_store start op.width stack.top
    refine ⟨fun hfits => ?_, fun hout => ?_⟩
    · obtain ⟨m', hm', -⟩ := hperforms.done hfits
      rw [hm'] at hexec
      exact ⟨m', hm', hexec⟩
    · rw [hperforms.refused (Nat.not_le.mpr hout)] at hexec
      dsimp only at hexec
      rwa [Store.setMemory_same he] at hexec
  load_of_store store load offset offset' stack stack' r hwidth hstart hr := by
    rw [PlainOp.exec_store h he] at hr
    cases hm : Memory.store ((stack.pop.top.setWidth 32).toNat + offset) store.width stack.top e.memory with
    | error code m =>
      rw [hm] at hr
      nomatch hr
    | ok _ m =>
      rw [hm] at hr
      cases hr
      -- the memory that is loaded from is the one that was stored to
      have haddr : f.memoryAddr? (s.setMemory addr m) = some addr := h
      rw [PlainOp.exec_load haddr (Store.memories_setMemory he m), hstart, hwidth, Memory.load_of_store hm, ← hwidth]
      dsimp only
      rw [load.extend_low]

/-- **Memories are arrays of bytes that are checked for their bounds**, and loads and stores reach the bytes at the sum
of base and offset. -/
theorem Memory.bounds_checked : (∀ m : Memory, m.Lawful) ∧
    ∀ (σ : Type) (f : Scope) (s : Store σ) (addr : Nat) (e : MemoryEntry), f.memoryAddr? s = some addr →
      s.memories[addr]? = some e → f.Reaches s addr e.memory :=
  ⟨Memory.lawful, fun _ _ _ _ _ h he => Scope.reaches h he⟩

/-- A store with an instance that has a memory of four bytes and a table of one element. Neither can grow much. -/
def Store.scanty : Store Unit :=
  { Store.new 0 {} () with
    memories := #[⟨⟨none, 1, ⟨#[0, 0, 0, 0]⟩, 0⟩, none⟩]
    tables := #[⟨.funcref, some 2, #[0]⟩]
    instances := #[⟨⟨{}, #[]⟩, #[], #[0], #[0], #[], #[], #[], []⟩] }

/-- A function of the instance. -/
def Scope.scanty : Scope := ⟨⟨{}, #[]⟩, 0, 0, 0, 0⟩

/-- Two bytes are stored at 2 + 0 and loaded with their sign from 0 + 2. At 2 + 1 they do not fit. -/
theorem Memory.bounds_checked_scanty :
    (∃ r, (PlainOp.store (.int16 .w32) 0).exec Scope.scanty ⟨Store.scanty, ⟨#[2, 0xDEADBEEF]⟩⟩ = .ok () r ∧
      (PlainOp.load (.int16 .w32 .signed) 2).exec Scope.scanty ⟨r.store, ⟨#[0]⟩⟩ =
        .ok () ⟨r.store, ⟨#[0xFFFFBEEF]⟩⟩) ∧
    (PlainOp.store (.int16 .w32) 1).exec Scope.scanty ⟨Store.scanty, ⟨#[2, 0xDEADBEEF]⟩⟩ =
      .error (.ofCode .memoryOutOfBounds) ⟨Store.scanty, ⟨#[]⟩⟩ := by
  have hreaches := bounds_checked.2 Unit Scope.scanty Store.scanty 0 _ rfl rfl
  obtain ⟨m, -, hstore⟩ := (hreaches.store (.int16 .w32) 0 ⟨#[2, 0xDEADBEEF]⟩).1 (by decide)
  refine ⟨⟨_, hstore, ?_⟩, (hreaches.store (.int16 .w32) 1 ⟨#[2, 0xDEADBEEF]⟩).2 (by decide)⟩
  exact hreaches.load_of_store (.int16 .w32) (.int16 .w32 .signed) 0 2 _ ⟨#[0]⟩ _ rfl (by decide) hstore

end WasmEngine
