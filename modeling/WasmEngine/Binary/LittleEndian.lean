/-!
# Little-endian words

The number that bytes stand for when the lowest comes first, and the bytes of a number.
-/

namespace WasmEngine

/-- The number that bytes stand for, the lowest first. -/
def littleEndian (bs : List UInt8) : Nat :=
  bs.foldr (fun b n => b.toNat + 256 * n) 0

/-- The low bytes of a number, the lowest first. -/
def toLittleEndian : (width : Nat) → Nat → List UInt8
  | 0, _ => []
  | width + 1, n => UInt8.ofNat n :: toLittleEndian width (n / 256)

@[simp]
theorem length_toLittleEndian (width n : Nat) : (toLittleEndian width n).length = width := by
  induction width generalizing n with
  | zero => rfl
  | succ width ih => simp [toLittleEndian, ih]

end WasmEngine
