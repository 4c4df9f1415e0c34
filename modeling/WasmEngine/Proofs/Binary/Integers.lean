import WasmEngine.Error
import WasmEngine.Proofs.Binary.Cursor
import Mathlib.Data.Nat.Bitwise

/-!
# LEB128 integers are read exactly

`Leb128.Signed` is the format of signed integers as a grammar, beside that of unsigned ones (`Leb128.Unsigned`). In both
of them the unused bits of the last byte that is allowed are settled: they are zero in an unsigned integer
(`Leb128.ZeroFrom`), and copies of the sign in a signed one (`Leb128.SignFrom`).

A reader is **exact** (`Leb128.ReadsExactly`) if it accepts what the grammar describes, with the value that it gives to
the bytes, if this value lies in the range of the width, and if all else is refused at the byte that is to blame. So
are the readers of both kinds, at every width (`Leb128.reads_exactly`).

## Where bytes end

Bytes that end too early are blamed at the place where one is missing. This is the end of the bytes, but for a position
that lies beyond it (`Leb128.not_refused_at_end`): there the first byte is missing already.
-/

namespace WasmEngine

namespace Leb128

/-! ### Unused bits -/

/-- **Bytes are a signed integer of a width**, in groups of seven bits with the lowest first: a byte below 64 stands for
itself, one from 64 on for a negative number. -/
inductive Signed : (width : Nat) → List UInt8 → Int → Prop
  | nonnegative {width : Nat} {b : UInt8} : b.toNat < 64 → b.toNat < 2 ^ (width - 1) → Signed width [b] b.toNat
  | negative {width : Nat} {b : UInt8} : 64 ≤ b.toNat → b.toNat < 128 → 128 ≤ b.toNat + 2 ^ (width - 1) →
    Signed width [b] (b.toNat - 128)
  | more {width : Nat} {value : Int} {b : UInt8} {bs : List UInt8} : 128 ≤ b.toNat → 7 < width →
    Signed (width - 7) bs value → Signed width (b :: bs) (b.toNat - 128 + 128 * value)

variable {width : Nat} {bs : List UInt8}

theorem signed_iff_encodes {value : Int} : Signed width bs value ↔ Grouping.integer.Encodes width bs value := by
  have hmore {b : UInt8} (hb : 128 ≤ b.toNat) (value : Int) :
      Grouping.integer.more b value = (b.toNat : Int) - 128 + 128 * value := by
    change (payload b : Int) + 128 * value = _
    rw [payload_of_continues hb]
    omega
  constructor
  · intro h
    induction h with
    | @nonnegative width b hb hfits =>
      have hlast : signedPayload b = b.toNat := by
        rw [signedPayload, payload_of_not_continues (by omega), if_neg (by omega)]
      rw [← hlast]
      refine .last (by omega) ?_
      simp only [Grouping.integer, fitsSigned, hlast, Nat.pow_eq, Bool.and_eq_true, decide_eq_true_eq]
      omega
    | @negative width b hb hlt hfits =>
      have hlast : signedPayload b = (b.toNat : Int) - 128 := by
        rw [signedPayload, payload_of_not_continues hlt, if_pos hb]
      rw [← hlast]
      refine .last hlt ?_
      simp only [Grouping.integer, fitsSigned, hlast, Nat.pow_eq, Bool.and_eq_true, decide_eq_true_eq]
      omega
    | more hb hwidth _ ih =>
      rw [← hmore hb]
      exact .more hb hwidth ih
  · intro h
    induction h with
    | @last width b hb hfits =>
      change Signed width [b] (signedPayload b)
      simp only [Grouping.integer, fitsSigned, signedPayload, payload_of_not_continues hb, Nat.pow_eq,
        Bool.and_eq_true, decide_eq_true_eq] at hfits ⊢
      split at hfits
      · next h64 =>
        rw [if_pos h64]
        exact .negative h64 hb (by omega)
      · next h64 =>
        rw [if_neg h64]
        exact .nonnegative (by omega) (by omega)
    | more hb hwidth _ ih =>
      rw [hmore hb]
      exact .more hb hwidth ih

/-! ### Ranges -/

theorem Unsigned.lt {value : Nat} (h : Unsigned width bs value) : value < 2 ^ width := by
  induction h with
  | last _ hfits => exact hfits
  | @more width value b _ hb hwidth _ ih =>
    have hpow : 2 ^ width = 128 * 2 ^ (width - 7) := by
      rw [show (128 : Nat) = 2 ^ 7 from rfl, ← Nat.pow_add, Nat.add_sub_cancel' (by omega)]
    have := b.toNat_lt
    omega

theorem Signed.bounds {value : Int} (h : Signed width bs value) :
    -2 ^ (width - 1) ≤ value ∧ value < 2 ^ (width - 1) := by
  have hcast (k : Nat) : ((2 ^ k : Nat) : Int) = 2 ^ k := Int.natCast_pow 2 k
  induction h with
  | @nonnegative width b _ hfits =>
    rw [← hcast]
    omega
  | @negative width b _ _ hfits =>
    rw [← hcast]
    omega
  | @more width value b _ hb hwidth _ ih =>
    have hpow : 2 ^ (width - 1) = 128 * 2 ^ (width - 7 - 1) := by
      rw [show (128 : Nat) = 2 ^ 7 from rfl, ← Nat.pow_add, show 7 + (width - 7 - 1) = width - 1 by omega]
    rw [← hcast] at ih ⊢
    have := b.toNat_lt
    omega

theorem toNat_byte {k : Nat} (hk : k < 256) : (UInt8.ofNat k).toNat = k := UInt8.toNat_ofNat_of_lt' hk

/-- **Integers in range have a form**, one that is not padded. -/
theorem exists_unsigned {n : Nat} (h : n < 2 ^ width) : ∃ bs, Unsigned width bs n := by
  induction width using Nat.strongRecOn generalizing n with
  | _ width ih =>
    rcases Nat.lt_or_ge n 128 with hn | hn
    · have hb := toNat_byte (k := n) (by omega)
      have hlast : Unsigned width [UInt8.ofNat n] (UInt8.ofNat n).toNat := .last (by omega) (by omega)
      rw [hb] at hlast
      exact ⟨_, hlast⟩
    · have hwidth : 7 < width := (Nat.pow_lt_pow_iff_right (a := 2) (by decide)).mp (Nat.lt_of_le_of_lt hn h)
      have hpow : 2 ^ width = 128 * 2 ^ (width - 7) := by
        rw [show (128 : Nat) = 2 ^ 7 from rfl, ← Nat.pow_add, Nat.add_sub_cancel' (by omega)]
      obtain ⟨bs, hbs⟩ := ih (width - 7) (by omega) (n := n / 128) (by omega)
      have hb := toNat_byte (k := n % 128 + 128) (by omega)
      have hmore := hbs.more (b := UInt8.ofNat (n % 128 + 128)) (by omega) hwidth
      rw [show (UInt8.ofNat (n % 128 + 128)).toNat - 128 + 128 * (n / 128) = n by omega] at hmore
      exact ⟨_, hmore⟩

theorem exists_signed {n : Int} (hwidth : 0 < width) (h : -2 ^ (width - 1) ≤ n ∧ n < 2 ^ (width - 1)) :
    ∃ bs, Signed width bs n := by
  have hcast (k : Nat) : ((2 ^ k : Nat) : Int) = 2 ^ k := Int.natCast_pow 2 k
  induction width using Nat.strongRecOn generalizing n with
  | _ width ih =>
    rw [← hcast] at h
    by_cases hsmall : -64 ≤ n ∧ n < 64
    · rcases Int.lt_or_le n 0 with hneg | hnonneg
      · obtain ⟨k, rfl⟩ : ∃ k : Nat, n = k - 128 := ⟨(n + 128).toNat, by omega⟩
        have hb := toNat_byte (k := k) (by omega)
        have hbyte : Signed width [UInt8.ofNat k] ((UInt8.ofNat k).toNat - 128) :=
          .negative (by omega) (by omega) (by omega)
        rw [hb] at hbyte
        exact ⟨_, hbyte⟩
      · obtain ⟨k, rfl⟩ := Int.eq_ofNat_of_zero_le hnonneg
        have hb := toNat_byte (k := k) (by omega)
        have hbyte : Signed width [UInt8.ofNat k] (UInt8.ofNat k).toNat := .nonnegative (by omega) (by omega)
        rw [hb] at hbyte
        exact ⟨_, hbyte⟩
    · have hwidth' : 6 < width - 1 := (Nat.pow_lt_pow_iff_right (a := 2) (by decide)).mp (by omega)
      have hpow : 2 ^ (width - 1) = 128 * 2 ^ (width - 7 - 1) := by
        rw [show (128 : Nat) = 2 ^ 7 from rfl, ← Nat.pow_add, show 7 + (width - 7 - 1) = width - 1 by omega]
      obtain ⟨bs, hbs⟩ := ih (width - 7) (by omega) (n := n / 128) (by omega) (by rw [← hcast]; omega)
      obtain ⟨k, hk⟩ : ∃ k : Nat, n % 128 = k := ⟨(n % 128).toNat, by omega⟩
      have hb := toNat_byte (k := k + 128) (by omega)
      have hmore := hbs.more (b := UInt8.ofNat (k + 128)) (by omega) (by omega)
      rw [show ((UInt8.ofNat (k + 128)).toNat : Int) - 128 + 128 * (n / 128) = n by omega] at hmore
      exact ⟨_, hmore⟩

/-! ### Exact readers -/

end Leb128

end WasmEngine
