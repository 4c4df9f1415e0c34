import WasmEngine.Proofs.Table.Cells

/-!
# How a table grows

Whatever is done with a table (`Table.Operation`), it has at least as many elements as it had before and never more
than any table may have. Only growing changes the size, and it does so by all of what is asked for or not at all
(`Table.GrowsWithin`).

A declared maximum bounds what a table may grow to, but nothing compares it with the declared minimum when the table
is made. So the size stays under the declared maximum exactly if the declared minimum does (`Table.Bounded.le_max_iff`).
-/

namespace WasmEngine

/-- **The minimum is not beyond the maximum.** -/
def Limits.Ordered (l : Limits) : Prop := ∀ max ∈ l.max, l.min ≤ max

namespace Table

variable {t t' : Table} {declared : TableType} {c : Cell}

/-! ### Operations -/

/-- What can be done with a table. -/
inductive Operation where
  | get (index : Nat)
  | slice (start length : Nat)
  | set (index : Nat) (c : Cell)
  | grow (delta : Nat) (c : Cell)
  | fill (start : Nat) (c : Cell) (length : Nat)
  | copyWithin (target source length : Nat)
  | init (target : Nat) (items : Array Cell) (source length : Nat)

/-- The table behind an operation, whether it succeeds or not. -/
def Operation.after : Operation → Table → Table
  | get .., t => t
  | slice .., t => t
  | set index c, t => endState (Table.set index c t)
  | grow delta c, t => endState (Table.grow delta c t)
  | fill start c length, t => endState (Table.fill start c length t)
  | copyWithin target source length, t => endState (Table.copyWithin target source length t)
  | init target items source length, t => endState (Table.init target items source length t)

/-- The table behind a number of operations, one after the other. -/
def run (ops : List Operation) (t : Table) : Table := ops.foldl (fun t op => op.after t) t

theorem run_append (ops more : List Operation) (t : Table) : t.run (ops ++ more) = (t.run ops).run more :=
  List.foldl_append ..

/-- The table with more elements. -/
def grown (t : Table) (delta : Nat) (c : Cell) : Table := { t with cells := t.cells ++ Array.replicate delta c }

/-- **Growing is all or nothing.** -/
theorem grow_eq (delta : Nat) (c : Cell) (t : Table) :
    grow delta c t = if t.size + delta ≤ t.bound then .ok (some t.size) (t.grown delta c) else .ok none t := rfl

theorem size_grown (t : Table) (delta : Nat) (c : Cell) : (t.grown delta c).size = t.size + delta := by
  rw [size, grown, Array.size_append, Array.size_replicate, size]

/-! ### What changes -/

theorem Performs.type {act : Change Unit} {fits : Prop} {start length : Nat} {piece : Nat → Option Cell}
    (h : Performs act t fits start length piece) : (endState (act t)).type = t.type := by
  by_cases hfits : fits
  · obtain ⟨t', hact, hrewritten⟩ := h.done hfits
    rw [hact]
    exact hrewritten.type
  · rw [h.refused hfits]
    rfl

/-- **Only growing changes more than cells**, and only if there is room. -/
theorem Operation.after_cases (op : Operation) (t : Table) :
    (op.after t).type = t.type ∨ ∃ delta c, t.size + delta ≤ t.bound ∧ op.after t = t.grown delta c := by
  cases op with
  | get | slice => exact .inl rfl
  | grow delta c =>
    rw [after, grow_eq]
    split
    · next hroom => exact .inr ⟨delta, c, hroom, rfl⟩
    · exact .inl rfl
  | set index c => exact .inl (t.performs_set index c).type
  | fill start c length => exact .inl (t.performs_fill start c length).type
  | copyWithin target source length => exact .inl (t.performs_copyWithin target source length).type
  | init target items source length => exact .inl (t.performs_init target items source length).type

theorem size_eq_of_type (h : t'.type = t.type) : t'.size = t.size := congrArg (·.limits.min) h

theorem max_eq_of_type (h : t'.type = t.type) : t'.max = t.max := congrArg (·.limits.max) h

theorem element_eq_of_type (h : t'.type = t.type) : t'.element = t.element := congrArg TableType.element h

/-- **The size never decreases.** -/
theorem size_le_after (op : Operation) (t : Table) : t.size ≤ (op.after t).size := by
  rcases op.after_cases t with h | ⟨delta, c, -, h⟩
  · exact Nat.le_of_eq (size_eq_of_type h).symm
  · rw [h, size_grown]
    exact Nat.le_add_right ..

theorem size_le_run (ops : List Operation) (t : Table) : t.size ≤ (t.run ops).size := by
  induction ops generalizing t with
  | nil => exact Nat.le_refl _
  | cons op ops ih => exact Nat.le_trans (size_le_after op t) (ih (op.after t))

/-! ### Bounds -/

/-- What a table that is declared with a type may grow to. -/
def room (declared : TableType) : Nat :=
  match declared.limits.max with
  | some max => min max maxTableElements
  | none => maxTableElements

theorem room_le (declared : TableType) : room declared ≤ maxTableElements := by
  unfold room
  split
  · exact Nat.min_le_right ..
  · exact Nat.le_refl _

theorem room_le_max {max : Nat} (h : declared.limits.max = some max) : room declared ≤ max := by
  rw [room, h]
  exact Nat.min_le_left ..

/-- **A table is of the type it was declared with**, but for its size, which lies between the declared minimum and the
greater of this and what the table may grow to. -/
structure Bounded (declared : TableType) (t : Table) : Prop where
  element : t.element = declared.element
  max : t.max = declared.limits.max
  min_le : declared.limits.min ≤ t.size
  le_cap : t.size ≤ maxTableElements
  le_room : t.size ≤ Nat.max declared.limits.min (room declared)

theorem Bounded.bound (h : t.Bounded declared) : t.bound = room declared := by
  obtain ⟨element, max, cells⟩ := t
  obtain rfl : max = declared.limits.max := h.max
  rfl

theorem Bounded.after (h : t.Bounded declared) (op : Operation) : (op.after t).Bounded declared := by
  rcases op.after_cases t with htype | ⟨delta, c, hroom, hgrown⟩
  -- the same number of elements
  · have hsize := size_eq_of_type htype
    exact {
      element := (element_eq_of_type htype).trans h.element
      max := (max_eq_of_type htype).trans h.max
      min_le := hsize ▸ h.min_le
      le_cap := hsize ▸ h.le_cap
      le_room := hsize ▸ h.le_room }
  -- more elements, for which there was room
  · have hsize := size_grown t delta c
    rw [h.bound] at hroom
    rw [hgrown]
    exact {
      element := h.element
      max := h.max
      min_le := by have := h.min_le; omega
      le_cap := hsize ▸ Nat.le_trans hroom (room_le declared)
      le_room := hsize ▸ Nat.le_trans hroom (Nat.le_max_right ..) }

/-- A table as it is made: of as many equal elements as the declared minimum says. -/
def blank (declared : TableType) (c : Cell) : Table :=
  ⟨declared.element, declared.limits.max, Array.replicate declared.limits.min c⟩

theorem size_blank (declared : TableType) (c : Cell) : (blank declared c).size = declared.limits.min := Array.size_replicate

theorem allocate_eq_ok_iff :
    allocate declared c = .ok t ↔ declared.limits.min ≤ maxTableElements ∧ t = blank declared c := by
  rw [allocate, ← blank]
  split
  · next h => exact ⟨nofun, fun ⟨hle, _⟩ => absurd h (Nat.not_lt.mpr hle)⟩
  · next h => exact ⟨fun ht => ⟨Nat.le_of_not_lt h, (Except.ok.inj ht).symm⟩, fun ⟨_, ht⟩ => ht ▸ rfl⟩

theorem bounded_allocate (h : allocate declared c = .ok t) : t.Bounded declared := by
  obtain ⟨hmin, rfl⟩ := allocate_eq_ok_iff.mp h
  have hsize := size_blank declared c
  exact {
    element := rfl
    max := rfl
    min_le := Nat.le_of_eq hsize.symm
    le_cap := hsize ▸ hmin
    le_room := hsize ▸ Nat.le_max_left .. }

/-- **What operations leave behind is bounded**, however many there are. -/
theorem Bounded.run (h : t.Bounded declared) (ops : List Operation) : (t.run ops).Bounded declared := by
  induction ops generalizing t with
  | nil => exact h
  | cons op ops ih => exact ih (h.after op)

/-- **The declared maximum holds exactly if the declared minimum keeps to it.** Growing stops there, but what a table
is made with is not compared with it. -/
theorem Bounded.le_max_iff (h : t.Bounded declared) {max : Nat} (hmax : declared.limits.max = some max) :
    t.size ≤ max ↔ declared.limits.min ≤ max := by
  refine ⟨Nat.le_trans h.min_le, fun hmin => Nat.le_trans h.le_room ?_⟩
  exact Nat.max_le.mpr ⟨hmin, room_le_max hmax⟩

/-- So the type that is reported of a table is ordered exactly if the declared one was. -/
theorem Bounded.ordered_iff (h : t.Bounded declared) : t.type.limits.Ordered ↔ declared.limits.Ordered := by
  have hmax : t.type.limits.max = declared.limits.max := h.max
  unfold Limits.Ordered
  rw [hmax]
  exact forall₂_congr fun max hmem => h.le_max_iff hmem

/-! ### What is new -/

/-- **A table has got more elements**: the ones it had are where they were, and the new ones are equal to a given one. -/
structure Extended (t t' : Table) (delta : Nat) (c : Cell) : Prop where
  size : t'.size = t.size + delta
  kept : ∀ i < t.size, t'.cells[i]? = t.cells[i]?
  new : ∀ i, t.size ≤ i → i < t.size + delta → t'.cells[i]? = some c
  element : t'.element = t.element
  max : t'.max = t.max

theorem extended_grown (t : Table) (delta : Nat) (c : Cell) : t.Extended (t.grown delta c) delta c where
  size := size_grown t delta c
  kept i hi := Array.getElem?_append_left hi
  new i hi hi' := by
    have hsize : t.cells.size = t.size := rfl
    rw [grown, Array.getElem?_append_right (hsize ▸ hi), Array.getElem?_replicate, if_pos (by omega)]
  element := rfl
  max := rfl

/-- **Growing succeeds exactly within a bound.** It gives the size before, and otherwise nothing and changes nothing. -/
structure GrowsWithin (bound : Nat) (t : Table) : Prop where
  done : ∀ delta c, t.size + delta ≤ bound → ∃ t', grow delta c t = .ok (some t.size) t' ∧ t.Extended t' delta c
  refused : ∀ delta c, bound < t.size + delta → grow delta c t = .ok none t

theorem Bounded.growsWithin (h : t.Bounded declared) : t.GrowsWithin (room declared) where
  done delta c hroom := by
    refine ⟨t.grown delta c, ?_, t.extended_grown delta c⟩
    rw [grow_eq, if_pos (h.bound.symm ▸ hroom)]
  refused delta c hroom := by rw [grow_eq, if_neg (h.bound.symm ▸ Nat.not_le.mpr hroom)]

/-! ### Where tables come from -/

/-- **A table that was made with a declared type**, and has gone through operations since. -/
def MadeAs (declared : TableType) (t : Table) : Prop := ∃ c t₀ ops, allocate declared c = .ok t₀ ∧ t = t₀.run ops

theorem madeAs_allocate (h : allocate declared c = .ok t) : t.MadeAs declared := ⟨c, t, [], h, rfl⟩

theorem MadeAs.after (h : t.MadeAs declared) (op : Operation) : (op.after t).MadeAs declared := by
  obtain ⟨c, t₀, ops, ht₀, rfl⟩ := h
  exact ⟨c, t₀, ops ++ [op], ht₀, (run_append ops [op] t₀).symm⟩

theorem MadeAs.bounded (h : t.MadeAs declared) : t.Bounded declared := by
  obtain ⟨c, t₀, ops, ht₀, rfl⟩ := h
  exact (bounded_allocate ht₀).run ops

end Table

end WasmEngine
