import WasmEngine.Proofs.Keeps
import WasmEngine.Proofs.Store.Growth
import WasmEngine.Store.Request

/-!
# Requests are quiet

What the embedder and host functions can ask of a store without running code (`Store.perform`) makes entities,
writes and grows them. It makes no functions but by `Store.newFunc`, no instances, and gives no memory to
anyone: every request is `Store.Quiet`.

A computation on one memory or one table is brought back to the entity by `Store.onMemory_some` and
`Store.onTable_some`.
-/

namespace WasmEngine

/-! ### Single memories and tables -/

namespace Memory

/-- Bytes that are put into a memory may make it longer, but never shorter. -/
theorem size_le_put (m : Memory) (start : Nat) (piece : ByteArray) :
    m.bytes.size ≤ (m.put start piece).bytes.size := by
  have hdata (b : ByteArray) : b.data.size = b.size := rfl
  rw [put, ByteArray.copySlice_eq_append]
  simp only [ByteArray.size_append, ByteArray.size_extract, hdata]
  omega

theorem grows_put (m : Memory) (start : Nat) (piece : ByteArray) : m.Grows (m.put start piece) :=
  ⟨rfl, rfl, m.size_le_put start piece⟩

theorem keeps_changeIf {condition : Memory → Bool} {change : Memory → Memory}
    (h : ∀ m : Memory, m.Grows (change m)) : Keeps Grows (changeIf condition change) := by
  intro m
  unfold changeIf
  split
  · exact h m
  · exact refl_of _ m

theorem keeps_write (start : Nat) (piece : ByteArray) : Keeps Grows (write start piece) :=
  keeps_changeIf fun m => m.grows_put _ _

theorem keeps_store (start width : Nat) (c : Cell) : Keeps Grows (store start width c) :=
  keeps_changeIf fun m => m.grows_put _ _

theorem keeps_fill (start : Nat) (byte : UInt8) (length : Nat) :
    Keeps Grows (fill start byte length) :=
  keeps_changeIf fun m => m.grows_put _ _

theorem keeps_copy (target source length : Nat) : Keeps Grows (copy target source length) :=
  keeps_changeIf fun m => m.grows_put _ _

theorem keeps_init (target : Nat) (segment : ByteArray) (source length : Nat) :
    Keeps Grows (init target segment source length) :=
  keeps_changeIf fun m => m.grows_put _ _

theorem size_pushZeros : ∀ (n : Nat) (b : ByteArray), (pushZeros n b).size = b.size + n
  | 0, _ => rfl
  | n + 1, b => by
    rw [pushZeros, size_pushZeros n, ByteArray.size_push]
    omega

theorem keeps_grow (delta : Nat) : Keeps Grows (grow delta) := by
  intro m
  unfold grow
  dsimp only
  split
  · refine ⟨rfl, rfl, ?_⟩
    simp only [endState_ok, size_pushZeros]
    omega
  · exact refl_of _ m

theorem grows_poke (m : Memory) (start : Nat) (byte : UInt8) : m.Grows (m.poke start byte) := by
  unfold poke
  split
  · exact m.grows_put _ _
  · exact refl_of _ m

end Memory

namespace Table

@[simp] theorem size_setAll (start : Nat) (piece : List Cell) (cells : Array Cell) :
    (setAll start piece cells).size = cells.size := by
  induction piece generalizing start cells with
  | nil => rfl
  | cons c rest ih => rw [setAll, ih, Array.size_setIfInBounds]

theorem grows_put (t : Table) (start : Nat) (piece : Array Cell) : t.Grows (t.put start piece) :=
  ⟨rfl, rfl, Nat.le_of_eq (size_setAll start piece.toList t.cells).symm⟩

theorem keeps_changeIf {condition : Table → Bool} {change : Table → Table}
    (h : ∀ t : Table, t.Grows (change t)) : Keeps Grows (changeIf condition change) := by
  intro t
  unfold changeIf
  split
  · exact h t
  · exact refl_of _ t

theorem keeps_set (index : Nat) (c : Cell) : Keeps Grows (set index c) :=
  keeps_changeIf fun _ => ⟨rfl, rfl, Nat.le_of_eq Array.size_setIfInBounds.symm⟩

theorem keeps_fill (start : Nat) (c : Cell) (length : Nat) : Keeps Grows (fill start c length) :=
  keeps_changeIf fun t => t.grows_put _ _

theorem keeps_copyWithin (target source length : Nat) :
    Keeps Grows (copyWithin target source length) :=
  keeps_changeIf fun t => t.grows_put _ _

theorem keeps_init (target : Nat) (items : Array Cell) (source length : Nat) :
    Keeps Grows (init target items source length) :=
  keeps_changeIf fun t => t.grows_put _ _

theorem keeps_grow (delta : Nat) (c : Cell) : Keeps Grows (grow delta c) := by
  intro t
  unfold grow
  dsimp only
  split
  · refine ⟨rfl, rfl, ?_⟩
    simp only [endState_ok, size, Array.size_append]
    omega
  · exact refl_of _ t

end Table

namespace Store

variable {σ : Type} {s : Store σ}

/-! ### Computations on one entity of a store -/

/-- Replace the memory at an address. Its owner stays. -/
def setMemory (addr : Nat) (m : Memory) (s : Store σ) : Store σ :=
  { s with memories := s.memories.modify addr ({ · with memory := m }) }

/-- Replace the table at an address. -/
def setTableAt (addr : Nat) (t : Table) (s : Store σ) : Store σ :=
  { s with tables := s.tables.modify addr fun _ => t }

/-- **A computation on a memory** changes this memory and nothing else. -/
theorem onMemory_some {α ε : Type} {addr : Nat} {missing : Error} {toError : ε → Error}
    {act : EStateM ε Memory α} {e : MemoryEntry} (h : s.memories[addr]? = some e) :
    onMemory addr missing toError act s = match act e.memory with
      | .ok a m => .ok a (s.setMemory addr m)
      | .error x m => .error (toError x) (s.setMemory addr m) := by
  obtain ⟨hi, rfl⟩ := Array.getElem?_eq_some_iff.mp h
  have hset (m : Memory) (v : MemoryEntry) :
      (s.memories.set addr v hi).setIfInBounds addr ⟨m, s.memories[addr].owner⟩ =
        s.memories.modify addr ({ · with memory := m }) := by
    apply Array.ext_getElem?
    intro j
    simp only [Array.getElem?_setIfInBounds, Array.getElem?_set, Array.size_set,
      Array.getElem?_modify]
    by_cases hj : addr = j
    · subst hj
      simp [hi]
    · simp [hj]
  unfold onMemory
  simp only [hi, ↓reduceDIte, Array.swapAt_def, hset]
  rfl

theorem onMemory_none {α ε : Type} {addr : Nat} {missing : Error} {toError : ε → Error}
    {act : EStateM ε Memory α} (h : s.memories[addr]? = none) :
    onMemory addr missing toError act s = .error missing s := by
  have hi : ¬addr < s.memories.size := Nat.not_lt.mpr (Array.getElem?_eq_none_iff.mp h)
  unfold onMemory
  simp only [hi, ↓reduceDIte]

/-- **A computation on a table** changes this table and nothing else. -/
theorem onTable_some {α ε : Type} {addr : Nat} {missing : Error} {toError : ε → Error}
    {act : EStateM ε Table α} {t : Table} (h : s.tables[addr]? = some t) :
    onTable addr missing toError act s = match act t with
      | .ok a t => .ok a (s.setTableAt addr t)
      | .error x t => .error (toError x) (s.setTableAt addr t) := by
  obtain ⟨hi, rfl⟩ := Array.getElem?_eq_some_iff.mp h
  have hset (t v : Table) :
      (s.tables.set addr v hi).setIfInBounds addr t = s.tables.modify addr fun _ => t := by
    apply Array.ext_getElem?
    intro j
    simp only [Array.getElem?_setIfInBounds, Array.getElem?_set, Array.size_set,
      Array.getElem?_modify]
    by_cases hj : addr = j
    · subst hj
      simp [hi]
    · simp [hj]
  unfold onTable
  simp only [hi, ↓reduceDIte, Array.swapAt_def, hset]
  rfl

theorem onTable_none {α ε : Type} {addr : Nat} {missing : Error} {toError : ε → Error}
    {act : EStateM ε Table α} (h : s.tables[addr]? = none) :
    onTable addr missing toError act s = .error missing s := by
  have hi : ¬addr < s.tables.size := Nat.not_lt.mpr (Array.getElem?_eq_none_iff.mp h)
  unfold onTable
  simp only [hi, ↓reduceDIte]

theorem quiet_setMemory {addr : Nat} {e : MemoryEntry} {m : Memory}
    (h : s.memories[addr]? = some e) (hm : e.memory.Grows m) : Quiet s (s.setMemory addr m) := by
  refine quiet_memories ?_ fun a => ?_
  · intro j x hx
    rw [Array.getElem?_modify, hx]
    split
    · next hj =>
      obtain rfl : e = x := Option.some.inj (h.symm.trans (hj ▸ hx))
      exact ⟨_, rfl, hm⟩
    · exact ⟨x, rfl, refl_of _ _⟩
  · rw [ownerOf, Array.getElem?_modify]
    split
    · cases s.memories[a]? <;> rfl
    · rfl

theorem quiet_setTableAt {addr : Nat} {t t' : Table}
    (h : s.tables[addr]? = some t) (ht : t.Grows t') : Quiet s (s.setTableAt addr t') := by
  refine quiet_tables ?_
  intro j x hx
  rw [Array.getElem?_modify, hx]
  split
  · next hj =>
    obtain rfl : t = x := Option.some.inj (h.symm.trans (hj ▸ hx))
    exact ⟨_, rfl, ht⟩
  · exact ⟨x, rfl, refl_of _ _⟩

theorem keeps_onMemory {α ε : Type} {addr : Nat} {missing : Error} {toError : ε → Error}
    {act : EStateM ε Memory α} (h : Keeps Memory.Grows act) :
    Keeps Quiet (onMemory addr missing toError act : StoreM σ α) := by
  intro s
  cases he : s.memories[addr]? with
  | none =>
    rw [onMemory_none he]
    exact refl_of _ s
  | some e =>
    have hm := h e.memory
    rw [onMemory_some he]
    cases hr : act e.memory <;> rw [hr] at hm <;> exact quiet_setMemory he hm

theorem keeps_onTable {α ε : Type} {addr : Nat} {missing : Error} {toError : ε → Error}
    {act : EStateM ε Table α} (h : Keeps Table.Grows act) :
    Keeps Quiet (onTable addr missing toError act : StoreM σ α) := by
  intro s
  cases he : s.tables[addr]? with
  | none =>
    rw [onTable_none he]
    exact refl_of _ s
  | some t =>
    have ht := h t
    rw [onTable_some he]
    cases hr : act t <;> rw [hr] at ht <;> exact quiet_setTableAt he ht

theorem quiet_setGlobalCell (addr : Nat) (c : Cell) (s : Store σ) :
    Quiet s (s.setGlobalCell addr c) :=
  quiet_globals (.modify (R := fun g g' : Global => g'.type = g.type) (fun _ => rfl) fun _ => rfl)

/-! ### Requests -/

theorem keeps_lift {α : Type} : ∀ r : Except Error α, Keeps Quiet (lift r : StoreM σ α)
  | .ok a => .pure a
  | .error e => .throw e

/-- A memory that nobody owns is made. -/
theorem keeps_addMemory (m : Memory) : Keeps Quiet (addMemory m none : StoreM σ Nat) :=
  .modifyGet fun _ => quiet_memories
    (.push (fun e : MemoryEntry => refl_of Memory.Grows e.memory) ⟨m, none⟩) fun a => by
      rw [ownerOf, Array.getElem?_push]
      split
      · next h => rw [h, Array.getElem?_eq_none_iff.mpr (Nat.le_refl _)]; rfl
      · rfl

theorem keeps_addTable (t : Table) : Keeps Quiet (addTable t : StoreM σ Nat) :=
  .modifyGet fun _ => quiet_tables (.push (refl_of _) t)

theorem keeps_addGlobal (g : Global) : Keeps Quiet (addGlobal g : StoreM σ Nat) :=
  .modifyGet fun _ => quiet_globals
    (.push (R := fun g g' : Global => g'.type = g.type) (fun _ => rfl) g)

theorem keeps_newMemory (limits : Limits) : Keeps Quiet (newMemory limits : StoreM σ _) := by
  refine .getBind fun s => ?_
  split
  · exact .throw _
  · exact .bind (keeps_addMemory _) fun _ => .pure _

theorem keeps_newTable (type : TableType) (init : Value) :
    Keeps Quiet (newTable type init : StoreM σ _) := by
  refine .getBind fun s => .bind (keeps_lift _) fun c => ?_
  split
  · exact .throw _
  · exact .bind (keeps_addTable _) fun _ => .pure _

theorem keeps_newGlobal (type : GlobalType) (init : Value) :
    Keeps Quiet (newGlobal type init : StoreM σ _) :=
  .getBind fun _ => .bind (keeps_lift _) fun _ => .bind (keeps_addGlobal _) fun _ => .pure _

theorem keeps_newExternref (object : String) : Keeps Quiet (newExternref object : StoreM σ _) :=
  .modifyGet fun s => { refl_of Quiet s with
    externs := by rw [Array.size_push]; exact Nat.le_succ _ }

theorem keeps_readMemory (h : Handle .memory) (start length : Nat) :
    Keeps Quiet (readMemory h start length : StoreM σ _) := by
  refine .getBind fun s => .bind (keeps_lift _) fun m => ?_
  split
  · exact .pure _
  · exact .throw _

theorem keeps_writeMemory (h : Handle .memory) (start : Nat) (bytes : ByteArray) :
    Keeps Quiet (writeMemory h start bytes : StoreM σ _) :=
  .getBind fun _ => .bind (keeps_lift _) fun _ => keeps_onMemory (Memory.keeps_write _ _)

theorem keeps_pokeMemory (h : Handle .memory) (start : Nat) (byte : UInt8) :
    Keeps Quiet (pokeMemory h start byte : StoreM σ _) :=
  .getBind fun _ => .bind (keeps_lift _) fun _ => keeps_onMemory fun m => m.grows_poke _ _

theorem keeps_growMemory (h : Handle .memory) (delta : Nat) :
    Keeps Quiet (growMemory h delta : StoreM σ _) :=
  .getBind fun _ => .bind (keeps_lift _) fun _ => keeps_onMemory (Memory.keeps_grow _)

theorem keeps_cellForTable (h : Handle .table) (v : Value) :
    Keeps Quiet (cellForTable h v : StoreM σ _) :=
  .getBind fun _ => .bind (keeps_lift _) fun _ => keeps_lift _

theorem keeps_growTable (h : Handle .table) (delta : Nat) (init : Value) :
    Keeps Quiet (growTable h delta init : StoreM σ _) := by
  refine .bind (keeps_cellForTable h init) fun c =>
    .bind (keeps_onTable (Table.keeps_grow _ _)) fun n => ?_
  split
  · exact .pure _
  · exact .throw _

theorem keeps_setGlobal (h : Handle .global) (v : Value) :
    Keeps Quiet (setGlobal h v : StoreM σ _) := by
  refine .getBind fun s => .bind (keeps_lift _) fun g => .ite ?_ (.throw _)
  exact .bind (keeps_lift _) fun c => .modify (quiet_setGlobalCell _ c)

theorem keeps_changeFuel (change : Nat → Nat) : Keeps Quiet (changeFuel change : StoreM σ _) := by
  refine .getBind fun s => ?_
  split
  · exact .modify fun s => .of_entities rfl rfl rfl rfl rfl rfl rfl rfl
  · exact .throw _

/-- **Requests are quiet.** -/
theorem keeps_perform : ∀ r : StoreRequest, Keeps Quiet (perform r : StoreM σ r.Result)
  | .newMemory limits => keeps_newMemory limits
  | .newTable type init => keeps_newTable type init
  | .newGlobal type init => keeps_newGlobal type init
  | .newExternref object => keeps_newExternref object
  | .readMemory h start length => keeps_readMemory h start length
  | .writeMemory h start bytes => keeps_writeMemory h start bytes
  | .pokeMemory h start byte => keeps_pokeMemory h start byte
  | .growMemory h delta => keeps_growMemory h delta
  | .getTable .. => .getBind fun _ => .bind (keeps_lift _) fun _ => .pure _
  | .setTable h _ v => .bind (keeps_cellForTable h v) fun _ => keeps_onTable (Table.keeps_set _ _)
  | .growTable h delta init => keeps_growTable h delta init
  | .getGlobal _ => .getBind fun _ => .bind (keeps_lift _) fun _ => .pure _
  | .setGlobal h v => keeps_setGlobal h v
  | .setFuel _ | .addFuel _ => keeps_changeFuel _
  | .resetStats | .interrupt | .resetInterrupt =>
    .modify fun _ => .of_entities rfl rfl rfl rfl rfl rfl rfl rfl
  | .externType _ => .getBind fun _ => keeps_lift _
  | .exported .. => .getBind fun _ => .pure _
  | .moduleName _ => .getBind fun _ => .pure _
  | .funcOfValue _ => .getBind fun _ => .pure _

theorem keeps_pollInterrupt : Keeps Quiet (pollInterrupt : StoreM σ Unit) := by
  intro s
  unfold pollInterrupt
  split
  · exact .of_entities rfl rfl rfl rfl rfl rfl rfl rfl
  · exact refl_of _ s

end Store

end WasmEngine
