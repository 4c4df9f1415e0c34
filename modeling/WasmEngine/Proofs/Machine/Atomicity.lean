import WasmEngine.Proofs.Machine.Accesses
import WasmEngine.Proofs.Machine.Calling

/-!
# Ops that fail

A trap leaves no trace in what code works on: memories, tables, globals and segments are as they were before the op, and
so is everything else of the store but its books, which have been charged for the op (`Frame.exec_atomic`). This holds
wherever an op traps, so neither the order of its checks nor what its operands refer to makes a difference.

A memory or a table that has no room to grow is no reason to trap. The op gives all ones, and changes nothing either.
-/

namespace WasmEngine

variable {σ α β : Type}

/-! ### Failing without a trace -/

/-- Nothing but the books of the store is different, apart from the stack. -/
def Running.SameEntities (r r' : Running σ) : Prop := r'.store = r.store.withBooks r'.store.books

instance : IsPreorder (Running σ) Running.SameEntities where
  refl _ := rfl
  trans r r' r'' h h' := by
    change r''.store = r.store.withBooks r''.store.books
    rw [h', h]
    rfl

theorem Running.Charged.entities {r r' : Running σ} (h : r.Charged r') : r.SameEntities r' := by
  change r'.store = r.store.withBooks r'.store.books
  rw [h]
  rfl

namespace Exec

/-- **A computation leaves no trace if it fails**, except in the books. -/
def Traceless (act : Exec σ α) : Prop := ∀ r e r', act r = .error e r' → r.SameEntities r'

namespace Traceless

variable {act : Exec σ α} {k : α → Exec σ β}

theorem of_charged (h : Keeps Running.Charged act) : Traceless act := by
  intro r e r' hact
  have hr := h r
  rw [hact] at hr
  exact Running.Charged.entities hr

theorem of_atomic (h : Atomic act) : Traceless act :=
  fun r _ _ hact => (Running.SameStore.charged ((h r).error_of hact)).entities

theorem behind (h : Keeps Running.Charged act) (hk : ∀ a, Traceless (k a)) : Traceless (act >>= k) := by
  intro r e r' hact
  have hr := h r
  cases hfirst : act r with
  | ok a r₁ =>
    rw [hfirst] at hr
    rw [estate_bind_of_ok hfirst] at hact
    exact trans_of Running.SameEntities (Running.Charged.entities hr) (hk a r₁ e r' hact)
  | error e₁ r₁ =>
    rw [hfirst] at hr
    rw [estate_bind_of_error hfirst] at hact
    cases hact
    exact Running.Charged.entities hr

/-- Going on with the next op cannot fail. -/
theorem pure (h : Traceless act) (b : β) : Traceless (act >>= fun _ => Pure.pure b) := by
  intro r e r' hact
  cases hfirst : act r with
  | ok a r₁ =>
    rw [estate_bind_of_ok hfirst] at hact
    nomatch hact
  | error e₁ r₁ =>
    rw [estate_bind_of_error hfirst] at hact
    cases hact
    exact h r e r' hfirst

end Traceless

end Exec

open Exec

theorem Op.traceless_exec (f : Frame) (op : Op) : Traceless (op.exec f : Exec σ Flow) := by
  by_cases hop : ∃ p, op = .plain p
  · obtain ⟨p, rfl⟩ := hop
    exact .pure (.of_atomic (p.atomic_exec _)) _
  · exact .of_charged (charged_exec fun p hp => hop ⟨p, hp⟩)

theorem Frame.traceless_exec (f : Frame) : Traceless (f.exec : Exec σ Flow) := by
  refine .behind (charged_of_still (still_instanceOf _)) fun _ => ?_
  split
  · exact .of_charged (.throw _)
  · exact .behind charged_charge fun _ => Op.traceless_exec f _

/-! ### Atomic ops -/

theorem Store.charge_of_ok {s s' : Store σ} (h : Store.charge s = .ok () s') : s' = s.withBooks s'.books := by
  have hsame : Running.Charged ⟨s, {}⟩ _ := charged_charge ⟨s, {}⟩
  rw [onStore_of_ok h] at hsame
  exact hsame.entities

namespace Frame

variable {f : Frame} {s s' : Store σ} {stack : Stack}

/-- A frame runs the op that it is at in the store that has been charged for it. -/
theorem exec_of_charge {op : Op} {i : ModuleInstance} (hi : s.instances[f.instance_]? = some i)
    (hop : f.body.ops[f.pc]? = some op) (hcharge : Store.charge s = .ok () s') :
    f.exec ⟨s, stack⟩ = op.exec f ⟨s', stack⟩ := by
  have hknown : (instanceOf f.toScope : Exec σ _) ⟨s, stack⟩ = .ok i ⟨s, stack⟩ := known_of hi _
  rw [exec, estate_bind_of_ok hknown, hop]
  exact estate_bind_of_ok (onStore_of_ok hcharge)

theorem exec_memoryGrow_of_full {addr : Nat} {e : MemoryEntry} (hop : f.body.ops[f.pc]? = some (.plain .memoryGrow))
    (haddr : f.memoryAddr? s = some addr) (he : s.memories[addr]? = some e) (hcharge : Store.charge s = .ok () s')
    (hfull : e.memory.cap < e.memory.pages + (stack.top.setWidth 32).toNat) :
    f.exec ⟨s, stack⟩ = .ok .next ⟨s.withBooks s'.books, stack.pop.push 0xFFFFFFFF⟩ := by
  obtain ⟨i, hi, -⟩ := Option.bind_eq_some_iff.mp haddr
  -- after the charge, the memory is where it was
  have hbooks := Store.charge_of_ok hcharge
  have haddr' : f.memoryAddr? s' = some addr := by rw [hbooks]; exact haddr
  have he' : s'.memories[addr]? = some e := by rw [hbooks]; exact he
  have hexec := PlainOp.exec_memoryGrow haddr' he' stack
  dsimp only at hexec
  rw [if_neg (Nat.not_le.mpr hfull)] at hexec
  rw [exec_of_charge hi hop hcharge, ← hbooks]
  exact estate_bind_of_ok hexec

theorem exec_tableGrow_of_full {x addr : Nat} {t : Table} (hop : f.body.ops[f.pc]? = some (.plain (.tableGrow x)))
    (haddr : f.tableAddr? s x = some addr) (ht : s.tables[addr]? = some t) (hcharge : Store.charge s = .ok () s')
    (hfull : t.bound < t.size + (stack.top.setWidth 32).toNat) :
    f.exec ⟨s, stack⟩ = .ok .next ⟨s.withBooks s'.books, stack.pop.pop.push 0xFFFFFFFF⟩ := by
  obtain ⟨i, hi, -⟩ := Option.bind_eq_some_iff.mp haddr
  have hbooks := Store.charge_of_ok hcharge
  have haddr' : f.tableAddr? s' x = some addr := by rw [hbooks]; exact haddr
  have ht' : s'.tables[addr]? = some t := by rw [hbooks]; exact ht
  have hexec := PlainOp.exec_tableGrow haddr' ht' stack
  dsimp only at hexec
  rw [if_neg (Nat.not_le.mpr hfull)] at hexec
  rw [exec_of_charge hi hop hcharge, ← hbooks]
  exact estate_bind_of_ok hexec

/-- **Ops are atomic.** Whatever an op fails with, all memories, tables, globals and segments are as they were before,
and a memory or a table that cannot grow gives all ones and stays as it is. In both cases the store has other books,
and that is all. -/
theorem exec_atomic (f : Frame) (s : Store σ) (stack : Stack) :
    (∀ e r, f.exec ⟨s, stack⟩ = .error e r → r.store = s.withBooks r.store.books) ∧
    (∀ addr entry s' fault m, f.body.ops[f.pc]? = some (.plain .memoryGrow) → f.memoryAddr? s = some addr →
      s.memories[addr]? = some entry → Store.charge s = .ok () s' →
      Memory.grow (stack.top.setWidth 32).toNat entry.memory = .error fault m →
      f.exec ⟨s, stack⟩ = .ok .next ⟨s.withBooks s'.books, stack.pop.push 0xFFFFFFFF⟩) ∧
    ∀ x addr t s' t', f.body.ops[f.pc]? = some (.plain (.tableGrow x)) → f.tableAddr? s x = some addr →
      s.tables[addr]? = some t → Store.charge s = .ok () s' →
      Table.grow (stack.top.setWidth 32).toNat stack.pop.top t = .ok none t' →
      f.exec ⟨s, stack⟩ = .ok .next ⟨s.withBooks s'.books, stack.pop.pop.push 0xFFFFFFFF⟩ := by
  refine ⟨fun e r h => f.traceless_exec _ e r h, ?_, ?_⟩
  · intro addr entry s' fault m hop haddr hentry hcharge hgrow
    refine exec_memoryGrow_of_full hop haddr hentry hcharge ?_
    by_contra hroom
    rw [Memory.grow_eq, if_pos (Nat.not_lt.mp hroom)] at hgrow
    nomatch hgrow
  · intro x addr t s' t' hop haddr ht hcharge hgrow
    refine exec_tableGrow_of_full hop haddr ht hcharge ?_
    by_contra hroom
    unfold Table.grow at hgrow
    dsimp only at hgrow
    rw [if_pos (Nat.not_lt.mp hroom)] at hgrow
    nomatch hgrow

/-- A function of a single op. -/
def scanty (op : PlainOp) : Frame := { Scope.scanty with body := ⟨[], #[.plain op], #[0], 0⟩, pc := 0 }

/-- Two bytes from the last one on cannot be filled, and neither two pages nor two elements be added. -/
theorem exec_atomic_scanty :
    (∃ e r, (scanty .memoryFill).exec ⟨Store.scanty, ⟨#[3, 7, 2]⟩⟩ = .error e r ∧
      r.store = Store.scanty.withBooks r.store.books) ∧
    (∃ b, (scanty .memoryGrow).exec ⟨Store.scanty, ⟨#[2]⟩⟩ =
      .ok .next ⟨Store.scanty.withBooks b, ⟨#[0xFFFFFFFF]⟩⟩) ∧
    ∃ b, (scanty (.tableGrow 0)).exec ⟨Store.scanty, ⟨#[0, 2]⟩⟩ =
      .ok .next ⟨Store.scanty.withBooks b, ⟨#[0xFFFFFFFF]⟩⟩ := by
  refine ⟨⟨_, _, rfl, (exec_atomic (scanty .memoryFill) Store.scanty ⟨#[3, 7, 2]⟩).1 _ _ rfl⟩, ?_, ?_⟩
  · exact ⟨_, (exec_atomic (scanty .memoryGrow) Store.scanty ⟨#[2]⟩).2.1 0 _ _ _ _ rfl rfl rfl rfl rfl⟩
  · exact ⟨_, (exec_atomic (scanty (.tableGrow 0)) Store.scanty ⟨#[0, 2]⟩).2.2 0 0 _ _ _ rfl rfl rfl rfl rfl⟩

end Frame

end WasmEngine
