import WasmEngine.Proofs.Memory.Bytes

/-!
# How a memory grows

Whatever is done with a memory (`Memory.Operation`), it has a whole number of pages, at least as many as it had before,
and at most as many as its type and the cap it was made with allow (`Memory.Bounded`). Only growing changes the size,
and it does so by all of what is asked for or not at all (`Memory.GrowsWithin`).
-/

namespace WasmEngine

namespace Memory

variable {m m' : Memory} {l : Limits} {pageCap : Nat}

/-- The greatest size that a memory of a type may have under a cap, in pages. -/
def bound (l : Limits) (pageCap : Nat) : Nat :=
  match l.max with
  | some max => min max pageCap
  | none => pageCap

/-! ### Operations -/

/-- What can be done with a memory. -/
inductive Operation where
  | grow (delta : Nat)
  | read (start length : Nat)
  | write (start : Nat) (piece : ByteArray)
  | load (start width : Nat)
  | store (start width : Nat) (c : Cell)
  | fill (start : Nat) (byte : UInt8) (length : Nat)
  | copy (target source length : Nat)
  | init (target : Nat) (segment : ByteArray) (source length : Nat)
  | poke (start : Nat) (byte : UInt8)

/-- The memory behind an operation, whether it succeeds or not. -/
def Operation.after : Operation → Memory → Memory
  | grow delta, m => endState (Memory.grow delta m)
  | read .., m => m
  | write start piece, m => endState (Memory.write start piece m)
  | load .., m => m
  | store start width c, m => endState (Memory.store start width c m)
  | fill start byte length, m => endState (Memory.fill start byte length m)
  | copy target source length, m => endState (Memory.copy target source length m)
  | init target segment source length, m => endState (Memory.init target segment source length m)
  | poke start byte, m => m.poke start byte

/-- The memory behind a number of operations, one after the other. -/
def run (ops : List Operation) (m : Memory) : Memory := ops.foldl (fun m op => op.after m) m

/-- A memory of a type as it is made, of zeros. -/
def blank (l : Limits) (pageCap : Nat) : Memory where
  max := l.max
  cap := bound l pageCap
  bytes := pushZeros (l.min * pageSize) ByteArray.empty
  peak := l.min

theorem allocate_eq (l : Limits) (pageCap : Nat) : allocate l pageCap =
    if bound l pageCap < l.min then .error (.memorySize l.min (bound l pageCap)) else .ok (blank l pageCap) := rfl

/-- The memory with more pages of zeros. -/
def grown (m : Memory) (delta : Nat) : Memory :=
  { m with
    bytes := pushZeros (delta * pageSize) m.bytes
    peak := Nat.max m.peak (m.pages + delta) }

/-- **Growing is all or nothing.** -/
theorem grow_eq (delta : Nat) (m : Memory) : grow delta m =
    if m.pages + delta ≤ m.cap then .ok m.pages (m.grown delta)
    else .error (.memoryGrowth delta m.pages m.cap) m := rfl

/-! ### What changes -/

/-- Nothing but bytes has changed. -/
structure SameSize (m m' : Memory) : Prop where
  size : m'.bytes.size = m.bytes.size
  max : m'.max = m.max
  cap : m'.cap = m.cap
  peak : m'.peak = m.peak

theorem SameSize.refl (m : Memory) : m.SameSize m := ⟨rfl, rfl, rfl, rfl⟩

theorem Rewritten.sameSize {start length : Nat} {piece : Nat → Option UInt8}
    (h : m.Rewritten m' start length piece) : m.SameSize m' := ⟨h.size, h.max, h.cap, h.peak⟩

theorem Performs.sameSize {act : Change Unit} {fits : Prop} {start length : Nat} {piece : Nat → Option UInt8}
    (h : Performs act m fits start length piece) : m.SameSize (endState (act m)) := by
  by_cases hfits : fits
  · obtain ⟨m', hact, hrewritten⟩ := h.done hfits
    rw [hact]
    exact hrewritten.sameSize
  · rw [h.refused hfits]
    exact .refl m

theorem sameSize_poke (m : Memory) (start : Nat) (byte : UInt8) : m.SameSize (m.poke start byte) := by
  rw [poke]
  split
  · next h => exact (rewritten_put (contains_iff.mp h)).sameSize
  · exact .refl m

/-- **Only growing changes more than bytes**, and only if there is room. -/
theorem Operation.after_cases (op : Operation) (m : Memory) :
    m.SameSize (op.after m) ∨ ∃ delta, m.pages + delta ≤ m.cap ∧ op.after m = m.grown delta := by
  cases op with
  | grow delta =>
    rw [after, grow_eq]
    split
    · next hroom => exact .inr ⟨delta, hroom, rfl⟩
    · exact .inl (.refl m)
  | read | load => exact .inl (.refl m)
  | write start piece => exact .inl (m.performs_write start piece).sameSize
  | store start width c => exact .inl (m.performs_store start width c).sameSize
  | fill start byte length => exact .inl (m.performs_fill start byte length).sameSize
  | copy target source length => exact .inl (m.performs_copy target source length).sameSize
  | init target segment source length => exact .inl (m.performs_init target segment source length).sameSize
  | poke start byte => exact .inl (m.sameSize_poke start byte)

theorem size_grown (m : Memory) (delta : Nat) :
    (m.grown delta).bytes.size = m.bytes.size + delta * pageSize := size_pushZeros ..

theorem pages_grown (m : Memory) (delta : Nat) : (m.grown delta).pages = m.pages + delta := by
  rw [pages, size_grown, Nat.add_mul_div_right _ _ (by decide), pages]

theorem cap_grown (m : Memory) (delta : Nat) : (m.grown delta).cap = m.cap := by
  -- the bytes do not matter here; if they were compared, the zeros would be counted one by one
  unfold grown
  generalize pushZeros (delta * pageSize) m.bytes = bytes
  rfl

theorem SameSize.pages (h : m.SameSize m') : m'.pages = m.pages := by rw [Memory.pages, h.size, Memory.pages]

/-- **The size never decreases.** -/
theorem pages_le_after (op : Operation) (m : Memory) : m.pages ≤ (op.after m).pages := by
  rcases op.after_cases m with h | ⟨delta, -, h⟩
  · exact Nat.le_of_eq h.pages.symm
  · rw [h, pages_grown]
    exact Nat.le_add_right ..

/-! ### Bounds -/

/-- **A memory has whole pages, as many as its type and the cap allow**, and its peak is its size. -/
structure Bounded (l : Limits) (pageCap : Nat) (m : Memory) : Prop where
  size : m.bytes.size = m.pages * pageSize
  min_le : l.min ≤ m.pages
  le_bound : m.pages ≤ bound l pageCap
  peak : m.peak = m.pages
  cap : m.cap = bound l pageCap

theorem Bounded.after (h : m.Bounded l pageCap) (op : Operation) : (op.after m).Bounded l pageCap := by
  rcases op.after_cases m with hsame | ⟨delta, hroom, hgrown⟩
  -- the same number of pages
  · have hpages := hsame.pages
    exact {
      size := by rw [hsame.size, hpages, h.size]
      min_le := hpages ▸ h.min_le
      le_bound := hpages ▸ h.le_bound
      peak := by rw [hsame.peak, hpages, h.peak]
      cap := hsame.cap.trans h.cap }
  -- more pages, for which there was room under the cap
  · have hpages := pages_grown m delta
    rw [hgrown]
    exact {
      size := by rw [size_grown, hpages, h.size, Nat.add_mul]
      min_le := by have := h.min_le; omega
      le_bound := by rw [hpages, ← h.cap]; exact hroom
      peak := by
        change Nat.max m.peak (m.pages + delta) = _
        rw [h.peak, hpages]
        exact Nat.max_eq_right (Nat.le_add_right ..)
      cap := (cap_grown m delta).trans h.cap }

theorem pages_blank (l : Limits) (pageCap : Nat) : (blank l pageCap).pages = l.min := by
  have hpage : 0 < pageSize := by decide
  rw [pages, blank, size_pushZeros, ByteArray.size_empty, Nat.zero_add, Nat.mul_div_cancel _ hpage]

theorem bounded_allocate (h : allocate l pageCap = .ok m) : m.Bounded l pageCap := by
  rw [allocate_eq] at h
  split at h
  · nomatch h
  next hmin =>
  cases h
  have hpages := pages_blank l pageCap
  exact {
    size := by rw [hpages, blank, size_pushZeros, ByteArray.size_empty, Nat.zero_add]
    min_le := Nat.le_of_eq hpages.symm
    le_bound := by rw [hpages]; exact Nat.le_of_not_lt hmin
    peak := hpages.symm
    cap := rfl }

/-- **What operations leave behind is bounded**, however many there are. -/
theorem Bounded.run (h : m.Bounded l pageCap) (ops : List Operation) : (m.run ops).Bounded l pageCap := by
  induction ops generalizing m with
  | nil => exact h
  | cons op ops ih => exact ih (h.after op)

theorem run_append (ops more : List Operation) (m : Memory) : m.run (ops ++ more) = (m.run ops).run more :=
  List.foldl_append ..

theorem pages_le_run (ops : List Operation) (m : Memory) : m.pages ≤ (m.run ops).pages := by
  induction ops generalizing m with
  | nil => exact Nat.le_refl _
  | cons op ops ih => exact Nat.le_trans (pages_le_after op m) (ih (op.after m))

/-! ### What is new -/

theorem pushZeros_eq (n : Nat) (bytes : ByteArray) : pushZeros n bytes = equalBytes 0 n bytes := by
  induction n generalizing bytes with
  | zero => rfl
  | succ n ih => exact ih (bytes.push 0)

theorem data_grown (m : Memory) (delta : Nat) :
    (m.grown delta).bytes.data = m.bytes.data ++ Array.replicate (delta * pageSize) 0 := by
  rw [grown, pushZeros_eq, data_equalBytes]

/-- **A memory has got more pages**: the bytes it had are where they were, and the new ones are zero. -/
structure Extended (m m' : Memory) (delta : Nat) : Prop where
  pages : m'.pages = m.pages + delta
  size : m'.bytes.size = m.bytes.size + delta * pageSize
  kept : ∀ i < m.bytes.size, m'.byte? i = m.byte? i
  zeros : ∀ i, m.bytes.size ≤ i → i < m'.bytes.size → m'.byte? i = some 0

theorem extended_grown (m : Memory) (delta : Nat) : m.Extended (m.grown delta) delta where
  pages := pages_grown m delta
  size := size_grown m delta
  kept i hi := by
    rw [byte?_eq_data, data_grown, Array.getElem?_append_left hi, byte?_eq_data]
  zeros i hi hi' := by
    have hsize : m.bytes.data.size = m.bytes.size := rfl
    rw [size_grown] at hi'
    have hnew : i - m.bytes.data.size < delta * pageSize := by omega
    rw [byte?_eq_data, data_grown, Array.getElem?_append_right hi, Array.getElem?_replicate,
      if_pos hnew]

/-- **Growing succeeds exactly within a bound.** It gives the size before, and otherwise changes nothing. -/
structure GrowsWithin (bound : Nat) (m : Memory) : Prop where
  done : ∀ delta, m.pages + delta ≤ bound → ∃ m', grow delta m = .ok m.pages m' ∧ m.Extended m' delta
  refused : ∀ delta, bound < m.pages + delta → ∃ fault, grow delta m = .error fault m

theorem Bounded.growsWithin (h : m.Bounded l pageCap) : m.GrowsWithin (bound l pageCap) where
  done delta hroom := by
    refine ⟨m.grown delta, ?_, m.extended_grown delta⟩
    rw [grow_eq, if_pos (h.cap.symm ▸ hroom)]
  refused delta hroom := by
    refine ⟨.memoryGrowth delta m.pages m.cap, ?_⟩
    rw [grow_eq, if_neg (h.cap.symm ▸ Nat.not_le.mpr hroom)]

theorem bound_le (l : Limits) (pageCap : Nat) : bound l pageCap ≤ pageCap := by
  unfold bound
  split
  · exact Nat.min_le_right ..
  · exact Nat.le_refl _

/-! ### Where memories come from -/

/-- **A memory that was made under a cap**, and has gone through operations since. -/
def MadeUnder (pageCap : Nat) (m : Memory) : Prop :=
  ∃ l m₀ ops, allocate l pageCap = .ok m₀ ∧ m = m₀.run ops

theorem madeUnder_allocate (h : allocate l pageCap = .ok m) : m.MadeUnder pageCap := ⟨l, m, [], h, rfl⟩

theorem MadeUnder.after (h : m.MadeUnder pageCap) (op : Operation) : (op.after m).MadeUnder pageCap := by
  obtain ⟨l, m₀, ops, hm₀, rfl⟩ := h
  exact ⟨l, m₀, ops ++ [op], hm₀, (run_append ops [op] m₀).symm⟩

theorem MadeUnder.bounded (h : m.MadeUnder pageCap) : ∃ l, m.Bounded l pageCap := by
  obtain ⟨l, m₀, ops, hm₀, rfl⟩ := h
  exact ⟨l, (bounded_allocate hm₀).run ops⟩

end Memory

end WasmEngine
