import WasmEngine.Proofs.Instruction.Canonical
import WasmEngine.Proofs.Store.Domain

/-!
# Cells of numbers

A cell has 64 bits, and a number of 32 bits that is put into one leaves the upper half zero. Whatever computes
numbers keeps to that: all results of numeric instructions are cells of their types (`NumericOp.fits_eval`), and so is
what loads make of the bytes of a memory (`LoadOp.fits_extend`).
-/

namespace WasmEngine

variable {σ : Type} {s : Store σ} {D : Domain}

namespace Store

theorem canonical_of_fits {t : ValueType} {c : Cell} (h : s.Fits t c) : c.Canonical t := by
  cases t with
  | i32 | f32 => exact h
  | i64 | f64 | ref => exact Cell.canonical_of_wide rfl c

theorem fits_of_canonical {t : ValueType} {c : Cell} (ht : t.isRef = false) (h : c.Canonical t) : s.Fits t c := by
  cases t with
  | i32 | f32 => exact h
  | i64 | f64 => trivial
  | ref => nomatch ht

end Store

/-! Numbers refer to nothing. -/

theorem Domain.admits_int (w : IntWidth) (c : Cell) : D.Admits w.type c := by
  cases w <;> trivial

theorem Domain.admits_float (w : FloatWidth) (c : Cell) : D.Admits w.type c := by
  cases w <;> trivial

/-! ### Numeric instructions -/

namespace NumericOp

/-- **What a numeric instruction computes is of the type of its result.** -/
theorem fits_eval (op : NumericOp) {a b c : Cell} {type : ValueType} (htype : op.params.head? = some type)
    (ha : s.Fits type a) (h : op.eval a b = .ok c) : s.Fits op.result c :=
  Store.fits_of_canonical op.isRef_result (canonical_eval htype (Store.canonical_of_fits ha) h)

theorem admits_result (op : NumericOp) (c : Cell) : D.Admits op.result c := by
  cases op with
  | intTest | intCompare | floatCompare | wrap | extend | extend32 | demote | promote => trivial
  | intUnary w | intBinary w | extend8 w | extend16 w => exact Domain.admits_int w c
  | truncate w | truncateSat w => exact Domain.admits_int w c
  | floatUnary w | floatBinary w | convert w => exact Domain.admits_float w c
  | reinterpretFloat w | reinterpretInt w => cases w <;> trivial

theorem fitsIn_eval (op : NumericOp) {a b c : Cell} {type : ValueType} (htype : op.params.head? = some type)
    (ha : s.FitsIn D type a) (h : op.eval a b = .ok c) : s.FitsIn D op.result c :=
  ⟨op.fits_eval htype ha.fits h, op.admits_result c⟩

end NumericOp

/-! ### Loads -/

theorem littleEndian_lt (bs : List UInt8) : littleEndian bs < 256 ^ bs.length := by
  induction bs with
  | nil => decide
  | cons b bs ih =>
    have hb := b.toNat_lt
    simp only [littleEndian, List.foldr_cons, List.length_cons, Nat.pow_succ] at *
    omega

theorem length_toList (bytes : ByteArray) : bytes.toList.length = bytes.size := by
  have hloop (i : Nat) (r : List UInt8) : (ByteArray.toList.loop bytes i r).length = bytes.size - i + r.length := by
    fun_induction ByteArray.toList.loop bytes i r with
    | case1 i r hlt ih =>
      rw [ih, List.length_cons]
      omega
    | case2 i r hge =>
      rw [List.length_reverse]
      omega
  exact hloop 0 []

theorem Memory.load_lt {m : Memory} {start width : Nat} {c : Cell} (h : m.load start width = .ok c) :
    c.toNat < 256 ^ width := by
  unfold Memory.load at h
  split at h
  · cases h
    have hlt := littleEndian_lt (m.slice start width).toList
    refine Nat.lt_of_le_of_lt (Nat.mod_le _ _) (Nat.lt_of_lt_of_le hlt ?_)
    refine Nat.pow_le_pow_right (by decide) ?_
    rw [length_toList, Memory.slice, ByteArray.size_extract]
    omega
  · nomatch h

/-- **What a load puts on the stack is of its type.** -/
theorem LoadOp.fits_extend (op : LoadOp) {m : Memory} {start : Nat} {c : Cell}
    (h : m.load start op.width = .ok c) : s.Fits op.type (op.extend c) := by
  have hlt : c.toNat < 2 ^ (8 * op.width) := by
    rw [Nat.pow_mul]
    exact Memory.load_lt h
  exact Store.fits_of_canonical op.isRef_type (op.canonical_extend hlt)

theorem LoadOp.fitsIn_extend (op : LoadOp) {m : Memory} {start : Nat} {c : Cell}
    (h : m.load start op.width = .ok c) : s.FitsIn D op.type (op.extend c) := by
  refine ⟨op.fits_extend h, ?_⟩
  cases op with
  | int w | int8 w | int16 w => exact Domain.admits_int w _
  | float w => exact Domain.admits_float w _
  | int32 => trivial

end WasmEngine
