import WasmEngine.Proofs.Machine.Changes

/-!
# Ops are quiet

Running code writes to tables, globals, memories and segments, and counts what it does, but it makes nothing
that can run: every op leaves a store that is `Store.Quiet` behind. This needs no typing and holds of every
frame.
-/

namespace WasmEngine

theorem Memory.grows_after (op : Operation) (m : Memory) : m.Grows (op.after m) := by
  cases op with
  | grow delta => exact keeps_grow delta m
  | read | load => exact refl_of Grows m
  | write start piece => exact keeps_write start piece m
  | store start width c => exact keeps_store start width c m
  | fill start byte length => exact keeps_fill start byte length m
  | copy target source length => exact keeps_copy target source length m
  | init target segment source length => exact keeps_init target segment source length m
  | poke start byte => exact m.grows_poke start byte

theorem Memory.keeps_grow? (delta : Nat) : Keeps Grows (grow? delta) :=
  fun m => after_grow delta m ▸ m.grows_after (.grow delta)

theorem Table.grows_after (op : Operation) (t : Table) : t.Grows (op.after t) := by
  cases op with
  | get | slice => exact refl_of Grows t
  | set index c => exact keeps_set index c t
  | grow delta c => exact keeps_grow delta c t
  | fill start c length => exact keeps_fill start c length t
  | copyWithin target source length => exact keeps_copyWithin target source length t
  | init target items source length => exact keeps_init target items source length t

section

variable {σ : Type}

theorem Store.keeps_charge : Keeps Quiet (charge : StoreM σ Unit) := by
  intro s
  unfold charge
  dsimp only
  split <;> exact .of_entities rfl rfl rfl rfl rfl rfl rfl rfl

theorem Store.Changes.quiet {s s' : Store σ} (h : s.Changes s') : s.Quiet s' := by
  cases h with
  | nothing => exact refl_of Quiet s
  | memory op he => exact quiet_setMemory he (Memory.grows_after op _)
  | table op ht => exact quiet_setTableAt ht (Table.grows_after op _)
  | global addr c => exact quiet_setGlobalCell addr c s
  | element place x => exact quiet_dropElement place x s
  | data place x => exact quiet_dropData place x s

/-- The stores of two states of running code are quiet. -/
def Running.Quiet (r r' : Running σ) : Prop := r.store.Quiet r'.store

instance : IsPreorder (Running σ) Running.Quiet where
  refl r := refl_of Store.Quiet r.store
  trans _ _ _ h h' := trans_of Store.Quiet h h'

theorem Running.Charged.quiet {r r' : Running σ} (h : r.Charged r') : r.Quiet r' := by
  unfold Quiet
  rw [h]
  exact .of_entities rfl rfl rfl rfl rfl rfl rfl rfl

theorem PlainOp.keeps_exec (f : Scope) (op : PlainOp) : Keeps Running.Quiet (op.exec f : Exec σ Unit) :=
  op.keeps_of_changes (fun _ _ => Store.Changes.quiet) f

/-- **Ops are quiet.** -/
theorem Frame.keeps_exec (f : Frame) : Keeps Running.Quiet (f.exec : Exec σ Flow) :=
  f.keeps_of_changes (fun _ _ => Store.Changes.quiet) fun _ _ => Running.Charged.quiet

end

end WasmEngine
