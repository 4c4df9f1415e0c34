import WasmEngine.Proofs.Store.Writes

/-!
# What is written to a table

Everything that writes to a table puts cells at a position if a condition holds, and otherwise traps. So all of it
`Performs`: it succeeds exactly if what it addresses is there, where positions are numbers and nothing wraps around,
and then exactly the addressed cells have changed (`Table.Rewritten`). A copy within a table is no exception. It puts
the cells that were there before it.
-/

namespace WasmEngine

namespace Table

variable {t t' : Table} {start length : Nat} {piece : Nat → Option Cell}

/-- **Exactly the addressed cells have changed**: those from a position on are the ones of a piece, all the others are
as they were, and so are the size and the rest of the table. -/
structure Rewritten (t t' : Table) (start length : Nat) (piece : Nat → Option Cell) : Prop where
  inside : ∀ k < length, t'.cells[start + k]? = piece k
  outside : ∀ i, i < start ∨ start + length ≤ i → t'.cells[i]? = t.cells[i]?
  type : t'.type = t.type

theorem put_eq_overlay (t : Table) (start : Nat) (items : Array Cell) :
    t.put start items = { t with cells := overlay t.cells start items } := by
  rw [put, setAll_eq_overlay, Array.toArray_toList]

theorem rewritten_put {items : Array Cell} (h : start + items.size ≤ t.size) :
    t.Rewritten (t.put start items) start items.size fun k => items[k]? := by
  rw [put_eq_overlay]
  refine ⟨fun k hk => ?_, fun i hi => ?_, congrArg (fun n => (⟨t.element, n, t.max⟩ : TableType)) (size_overlay ..)⟩
  -- a cell of the piece lies over a cell of the table, so it is there
  · have ht : start + k < t.cells.size := by rw [size] at h; omega
    rw [getElem?_overlay, Array.getElem?_eq_getElem ht, Option.map_some, if_pos (Nat.le_add_right ..),
      Nat.add_sub_cancel_left, Array.getElem?_eq_getElem hk]
    rfl
  · rw [getElem?_overlay]
    rcases hi with hi | hi
    · simp [Nat.not_le.mpr hi]
    · have hnone : items[i - start]? = none := Array.getElem?_eq_none (by omega)
      simp [hnone]

theorem Rewritten.congr {piece' : Nat → Option Cell} (h : t.Rewritten t' start length piece)
    (hpiece : ∀ k < length, piece k = piece' k) : t.Rewritten t' start length piece' :=
  { h with inside := fun k hk => (h.inside k hk).trans (hpiece k hk) }

/-- **A change is made if it fits**, to exactly the cells it addresses, and otherwise it is out of bounds and nothing
is changed. -/
structure Performs (act : Change Unit) (t : Table) (fits : Prop) (start length : Nat)
    (piece : Nat → Option Cell) : Prop where
  done : fits → ∃ t', act t = .ok () t' ∧ t.Rewritten t' start length piece
  refused : ¬fits → act t = .error .tableOutOfBounds t

/-- All changes put cells if a condition holds. What remains to be said is which cells these are. -/
theorem performs_put {condition : Table → Bool} (source : Table → Array Cell) {fits : Prop}
    (hfits : condition t = true ↔ fits) (hsize : fits → (source t).size = length)
    (hend : fits → start + length ≤ t.size) (hpiece : fits → ∀ k < length, (source t)[k]? = piece k) :
    Performs (changeIf condition fun t => t.put start (source t)) t fits start length piece where
  done h := by
    have hput : t.Rewritten (t.put start (source t)) start (source t).size fun k => (source t)[k]? :=
      rewritten_put (hsize h ▸ hend h)
    rw [hsize h] at hput
    refine ⟨t.put start (source t), ?_, hput.congr (hpiece h)⟩
    rw [changeIf, if_pos (hfits.mpr h)]
  refused h := by rw [changeIf, if_neg fun hc => h (hfits.mp hc)]

theorem contains_iff : t.contains start length = true ↔ start + length ≤ t.size := decide_eq_true_iff

theorem size_extract {items : Array Cell} (h : start + length ≤ items.size) :
    (items.extract start (start + length)).size = length := by
  rw [Array.size_extract]
  omega

theorem getElem?_extract {items : Array Cell} (h : start + length ≤ items.size) {k : Nat} (hk : k < length) :
    (items.extract start (start + length))[k]? = items[start + k]? := by
  rw [Array.getElem?_extract, if_pos (by omega)]

theorem performs_set (t : Table) (index : Nat) (c : Cell) :
    Performs (set index c) t (index + 1 ≤ t.size) index 1 fun _ => some c := by
  refine performs_put (fun _ => #[c]) contains_iff (fun _ => rfl) id fun _ k hk => ?_
  obtain rfl : k = 0 := by omega
  rfl

theorem performs_fill (t : Table) (start : Nat) (c : Cell) (length : Nat) :
    Performs (fill start c length) t (start + length ≤ t.size) start length fun _ => some c :=
  performs_put (fun _ => Array.replicate length c) contains_iff (fun _ => Array.size_replicate) id
    fun _ k hk => by rw [Array.getElem?_replicate, if_pos hk]

/-- A copy puts the cells that the source has before it, also where the two overlap. -/
theorem performs_copyWithin (t : Table) (target source length : Nat) :
    Performs (copyWithin target source length) t (source + length ≤ t.size ∧ target + length ≤ t.size) target length
      fun k => t.cells[source + k]? :=
  performs_put (fun t => t.cells.extract source (source + length))
    (by rw [Bool.and_eq_true, contains_iff, contains_iff]) (fun h => size_extract h.1) (fun h => h.2)
    fun h _ hk => getElem?_extract h.1 hk

theorem performs_init (t : Table) (target : Nat) (items : Array Cell) (source length : Nat) :
    Performs (init target items source length) t (source + length ≤ items.size ∧ target + length ≤ t.size) target length
      fun k => items[source + k]? :=
  performs_put (fun _ => items.extract source (source + length))
    (by rw [Bool.and_eq_true, decide_eq_true_iff, contains_iff]) (fun h => size_extract h.1) (fun h => h.2)
    fun h _ hk => getElem?_extract h.1 hk

end Table

end WasmEngine
