import WasmEngine.Proofs.Store.Requests
import WasmEngine.Store.Instantiate

/-!
# Writing all of a segment

An active segment is a `Write`: entries that take the place of as many others in a table or a memory. Either all
of it fits and is performed, or it traps and nothing has changed (`Write.run_eq`). No write changes a size, so
it is known beforehand which of several writes fit.
-/

namespace WasmEngine

/-! ### Arrays with a part replaced -/

/-- An array with others in place of its entries from a position on. -/
def overlay {α : Type} (xs : Array α) (start : Nat) (piece : Array α) : Array α :=
  xs.mapIdx fun k x => if start ≤ k then piece[k - start]?.getD x else x

section

variable {α : Type} (xs : Array α) (start : Nat)

@[simp] theorem size_overlay (piece : Array α) : (overlay xs start piece).size = xs.size :=
  Array.size_mapIdx

theorem getElem?_overlay (piece : Array α) (k : Nat) : (overlay xs start piece)[k]? =
    xs[k]?.map fun x => if start ≤ k then piece[k - start]?.getD x else x :=
  Array.getElem?_mapIdx

@[simp] theorem overlay_empty : overlay xs start #[] = xs := by
  refine Array.ext_getElem? fun k => ?_
  simp [getElem?_overlay]

/-- Only what a change does to the entry matters. -/
theorem modify_congr {xs : Array α} {k : Nat} {f g : α → α} (h : ∀ x, xs[k]? = some x → f x = g x) :
    xs.modify k f = xs.modify k g := by
  refine Array.ext_getElem? fun j => ?_
  rw [Array.getElem?_modify, Array.getElem?_modify]
  split
  · next hkj => exact Option.map_congr fun x hx => h x (hkj ▸ hx)
  · rfl

theorem modify_eq_self {xs : Array α} {k : Nat} {f : α → α} (h : ∀ x, xs[k]? = some x → f x = x) :
    xs.modify k f = xs := by
  refine (modify_congr h).trans (Array.ext_getElem? fun j => ?_)
  rw [Array.getElem?_modify]
  split <;> simp

end

namespace Table

theorem setAll_eq_overlay (piece : List Cell) (start : Nat) (cells : Array Cell) :
    setAll start piece cells = overlay cells start piece.toArray := by
  induction piece generalizing start cells with
  | nil => simp [setAll]
  | cons c rest ih =>
    rw [setAll, ih]
    refine Array.ext_getElem? fun k => ?_
    simp only [getElem?_overlay, Array.getElem?_setIfInBounds, List.getElem?_toArray]
    rcases Nat.lt_trichotomy k start with hk | rfl | hk
    · simp [Nat.ne_of_gt hk, Nat.not_le.mpr hk, Nat.not_le.mpr (Nat.lt_succ_of_lt hk)]
    · by_cases h : k < cells.size
      · simp [h, Nat.not_succ_le_self]
      · simp [h]
    · obtain ⟨j, rfl⟩ := Nat.exists_eq_add_of_lt hk
      have hj : start + j + 1 - start = j + 1 := by omega
      have hne : start ≠ start + j + 1 := by omega
      have hle : start ≤ start + j + 1 := by omega
      simp [hj, hne, hle, Nat.add_sub_add_right]

/-- All of a segment is written, or nothing. -/
theorem init_all (start : Nat) (items : Array Cell) (t : Table) :
    init start items 0 items.size t =
      if start + items.size ≤ t.cells.size then .ok () { t with cells := overlay t.cells start items }
      else .error .tableOutOfBounds t := by
  by_cases h : start + items.size ≤ t.cells.size <;>
    simp [init, changeIf, contains, size, put, setAll_eq_overlay, h]

end Table

namespace Memory

/-- Bytes that lie within a memory take the place of as many others. -/
theorem put_eq_overlay {m : Memory} {start : Nat} {piece : ByteArray}
    (h : start + piece.size ≤ m.bytes.size) :
    m.put start piece = { m with bytes := ⟨overlay m.bytes.data start piece.data⟩ } := by
  have hdata : piece.data.size = piece.size := rfl
  have hlt : start + piece.size ≤ m.bytes.data.size := h
  rw [put, ByteArray.copySlice, hdata, Nat.zero_add, Nat.sub_zero, Nat.min_self]
  congr 2
  refine Array.ext_getElem? fun k => ?_
  have hmin : min start m.bytes.data.size = start := Nat.min_eq_left (by omega)
  simp only [getElem?_overlay, Array.getElem?_append, Array.getElem?_extract, Array.size_append,
    Array.size_extract, hdata, hmin, Nat.sub_zero, Nat.zero_add, Nat.min_self]
  -- `k` lies before what is put, in it, or behind it
  rcases Nat.lt_or_ge k start with hk | hk
  · simp [hk, Nat.not_le.mpr hk, Nat.lt_add_right _ hk]
  rcases Nat.lt_or_ge k (start + piece.size) with hend | hend
  · have hin : k - start < piece.size := by omega
    have hm : k < m.bytes.data.size := by omega
    simp [hk, hend, hin, Nat.not_lt.mpr hk, Array.getElem?_eq_getElem hm]
  · have hout : piece.data[k - start]? = none := Array.getElem?_eq_none (by omega)
    have hback : start + piece.size + (k - (start + piece.size)) = k := by omega
    simp [hk, hout, hback, Nat.not_lt.mpr hend, Nat.sub_add_cancel hend]

theorem init_all (start : Nat) (bytes : ByteArray) (m : Memory) :
    init start bytes 0 bytes.size m =
      if start + bytes.size ≤ m.bytes.size then
        .ok () { m with bytes := ⟨overlay m.bytes.data start bytes.data⟩ }
      else .error .memoryOutOfBounds m := by
  simp only [init, changeIf, contains, Nat.zero_add, Nat.le_refl, ByteArray.extract_zero_size, decide_true,
    Bool.true_and, decide_eq_true_eq]
  split
  · next h => rw [put_eq_overlay h]
  · rfl

end Memory

namespace Store

variable {σ : Type} {s : Store σ} {addr : Nat}

theorem setTableAt_change {t : Table} (h : s.tables[addr]? = some t) (change : Table → Table) :
    s.setTableAt addr (change t) = { s with tables := s.tables.modify addr change } := by
  rw [setTableAt, modify_congr fun u hu => ?_]
  rw [Option.some.inj (h.symm.trans hu)]

theorem setTableAt_same {t : Table} (h : s.tables[addr]? = some t) : s.setTableAt addr t = s := by
  rw [setTableAt, modify_eq_self fun u hu => Option.some.inj (h.symm.trans hu)]

theorem setMemory_change {e : MemoryEntry} (h : s.memories[addr]? = some e) (change : Memory → Memory) :
    s.setMemory addr (change e.memory) =
      { s with memories := s.memories.modify addr fun e => { e with memory := change e.memory } } := by
  rw [setMemory, modify_congr fun u hu => ?_]
  rw [Option.some.inj (h.symm.trans hu)]

theorem setMemory_same {e : MemoryEntry} (h : s.memories[addr]? = some e) :
    s.setMemory addr e.memory = s := by
  rw [setMemory, modify_eq_self fun u hu => ?_]
  rw [Option.some.inj (h.symm.trans hu)]

end Store

/-! ### Writes -/

/-- What an active segment writes: entries of a table or of a memory, from a position on. -/
inductive Write where
  | table (addr start : Nat) (items : Array Cell)
  | memory (addr start : Nat) (bytes : ByteArray)

namespace Write

variable {σ : Type} {s : Store σ} {w : Write}

/-- The position behind what is written. -/
def stop : Write → Nat
  | table _ start items => start + items.size
  | memory _ start bytes => start + bytes.size

/-- The size of the table or memory that is written to. -/
def room? (s : Store σ) : Write → Option Nat
  | table addr _ _ => s.tables[addr]?.map (·.cells.size)
  | memory addr _ _ => s.memories[addr]?.map (·.memory.bytes.size)

/-- **A write fits** if it does not go beyond the end. -/
def Fits (s : Store σ) (w : Write) : Prop := ∃ n ∈ w.room? s, w.stop ≤ n

/-- The trap of a write that does not fit. -/
def trap : Write → TrapCode
  | table .. => .tableOutOfBounds
  | memory .. => .memoryOutOfBounds

/-- The store with the entries in their place. -/
def perform : Write → Store σ → Store σ
  | table addr start items, s =>
    { s with tables := s.tables.modify addr fun t => { t with cells := overlay t.cells start items } }
  | memory addr start bytes, s =>
    { s with memories := s.memories.modify addr fun e =>
        { e with memory.bytes := ⟨overlay e.memory.bytes.data start bytes.data⟩ } }

/-- The writing as the engine does it. -/
def run : Write → StoreM σ Unit
  | table addr start items =>
    Store.onTable addr Store.outsideError .ofCode (Table.init start items 0 items.size)
  | memory addr start bytes =>
    Store.onMemory addr Store.outsideError .ofCode (Memory.init start bytes 0 bytes.size)

@[simp] theorem globals_perform : (w.perform s).globals = s.globals := by
  cases w <;> rfl

@[simp] theorem instances_perform : (w.perform s).instances = s.instances := by
  cases w <;> rfl

theorem modifyInstance_perform (place : Nat) (change : ModuleInstance → ModuleInstance) :
    w.perform (s.modifyInstance place change) = (w.perform s).modifyInstance place change := by
  cases w <;> rfl

/-- No write changes a size. -/
@[simp] theorem room?_perform (w' : Write) : w'.room? (w.perform s) = w'.room? s := by
  cases w <;> cases w' <;> simp only [room?, perform]
  case table.table addr _ _ addr' _ _ =>
    rw [Array.getElem?_modify]
    split <;> cases s.tables[addr']? <;> simp
  case memory.memory addr _ _ addr' _ _ =>
    rw [Array.getElem?_modify]
    split
    · cases s.memories[addr']? with
      | none => rfl
      | some e => exact congrArg some (size_overlay ..)
    · rfl

/-- **All or nothing**: a write is performed, or it traps and nothing has changed. -/
theorem run_eq {n : Nat} (h : w.room? s = some n) :
    w.run s = if w.stop ≤ n then .ok () (w.perform s) else .error (.ofCode w.trap) s := by
  cases w with
  | table addr start items =>
    obtain ⟨t, ht, rfl⟩ := Option.map_eq_some_iff.mp h
    rw [run, Store.onTable_some ht, Table.init_all]
    by_cases hfits : start + items.size ≤ t.cells.size
    · rw [if_pos hfits, stop, if_pos hfits]
      exact congrArg _ (Store.setTableAt_change ht fun t => { t with cells := overlay t.cells start items })
    · rw [if_neg hfits, stop, if_neg hfits]
      exact congrArg _ (Store.setTableAt_same ht)
  | memory addr start bytes =>
    obtain ⟨e, he, rfl⟩ := Option.map_eq_some_iff.mp h
    rw [run, Store.onMemory_some he, Memory.init_all]
    by_cases hfits : start + bytes.size ≤ e.memory.bytes.size
    · rw [if_pos hfits, stop, if_pos hfits]
      exact congrArg _ (Store.setMemory_change he fun m =>
        { m with bytes := ⟨overlay m.bytes.data start bytes.data⟩ })
    · rw [if_neg hfits, stop, if_neg hfits]
      exact congrArg _ (Store.setMemory_same he)

end Write

end WasmEngine
