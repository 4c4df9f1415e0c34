import Mathlib.Algebra.Order.Field.Power
import Mathlib.Data.Rat.Floor
import Mathlib.Tactic.FieldSimp
import Mathlib.Tactic.Linarith
import Mathlib.Tactic.Positivity
import WasmEngine.Instruction.Evaluation

/-!
# Exact values of floats

The value of a word is a rational number, unless the word is infinite or not a number. `FloatFormat.exactValue` gives
it by the formula of the binary formats: a sign, a fraction with a leading one or, in the lowest binade, a leading zero,
and a power of two. What decoding makes of a word has this value (`FloatFormat.exact_decode`).

So the operations on decoded values are those of rational numbers: comparing (`Datum.le_iff`, `Datum.ge_iff`) and
dropping the fraction (`Datum.truncate_finite`).

Beyond a power of two there are gaps: the next value is larger by as much as the last place of the format weighs there
(`Datum.gap`).
-/

namespace WasmEngine

/-! ### Values of words -/

/-- The value of a float, if it has one. -/
inductive ExactValue where
  | nan
  | infinite (negative : Bool)
  | finite (value : ℚ)

/-- **The value of a word**, read off its sign bit, its exponent and its fraction. -/
def FloatFormat.exactValue (f : FloatFormat) (word : Nat) : ExactValue :=
  let negative := word.testBit (f.exponentBits + f.fractionBits)
  let exponent := word / 2 ^ f.fractionBits % 2 ^ f.exponentBits
  let fraction := word % 2 ^ f.fractionBits
  let sign : ℚ := if negative then -1 else 1
  let bias : ℤ := 2 ^ (f.exponentBits - 1) - 1
  if exponent = 2 ^ f.exponentBits - 1 then
    if fraction = 0 then .infinite negative else .nan
  else if exponent = 0 then .finite (sign * (fraction / 2 ^ f.fractionBits) * 2 ^ (1 - bias))
  else .finite (sign * (1 + fraction / 2 ^ f.fractionBits) * 2 ^ (exponent - bias))

namespace Datum

/-- A significand with a sign and an exponent, as a rational number. -/
def rational (negative : Bool) (significand : Nat) (exponent : ℤ) : ℚ :=
  (signed negative significand : ℚ) * 2 ^ exponent

/-- The value of a datum. -/
def exact : Datum → ExactValue
  | nan => .nan
  | infinite negative => .infinite negative
  | finite negative significand exponent => .finite (rational negative significand exponent)

theorem two_zpow_eq (e : ℤ) : (2 : ℚ) ^ e = 2 ^ e.toNat / 2 ^ (-e).toNat := by
  rw [← zpow_natCast, ← zpow_natCast, ← zpow_sub₀ two_ne_zero]
  congr 1
  omega

theorem rational_eq (s : Bool) (m : Nat) (e : ℤ) : rational s m e = (if s then -1 else 1) * m * 2 ^ e := by
  cases s <;> simp [rational, signed]

end Datum

namespace FloatFormat

variable (f : FloatFormat) (word : Nat)

theorem isNegative_eq : f.isNegative word = word.testBit (f.exponentBits + f.fractionBits) := by
  have hpos : 0 < f.signWeight := Nat.two_pow_pos _
  have hdigit : word % (2 * f.signWeight) = word % f.signWeight + f.signWeight * (word / f.signWeight % 2) := by
    rw [Nat.mul_comm, Nat.mod_mul]
  have hlow := Nat.mod_lt word hpos
  rw [isNegative, Nat.testBit_eq_decide_div_mod_eq, hdigit]
  change decide _ = decide (word / f.signWeight % 2 = 1)
  rw [decide_eq_decide]
  rcases Nat.mod_two_eq_zero_or_one (word / f.signWeight) with h | h <;> rw [h] <;> omega

theorem magnitude_div : f.magnitude word / f.exponentWeight = word / 2 ^ f.fractionBits % 2 ^ f.exponentBits := by
  rw [magnitude, signWeight, exponentWeight, Nat.pow_eq, Nat.pow_eq, Nat.add_comm, Nat.pow_add,
    Nat.mod_mul_right_div_self]

/-- **Decoding keeps the value.** -/
theorem exact_decode : (f.decode word).exact = f.exactValue word := by
  have hbias : (f.bias : ℤ) = 2 ^ (f.exponentBits - 1) - 1 := by
    rw [bias, Nat.pow_eq, Nat.cast_sub Nat.one_le_two_pow]
    simp
  have hweight : f.exponentWeight = 2 ^ f.fractionBits := rfl
  have hpos : (2 : ℚ) ^ f.fractionBits ≠ 0 := by positivity
  rw [decode, exactValue, magnitude_div, isNegative_eq]
  by_cases hmax : word / 2 ^ f.fractionBits % 2 ^ f.exponentBits = 2 ^ f.exponentBits - 1
  · refine (congrArg Datum.exact (if_pos hmax)).trans ?_
    refine Eq.trans ?_ (if_pos hmax).symm
    by_cases hfraction : word % 2 ^ f.fractionBits = 0
    · exact (congrArg Datum.exact (if_pos hfraction)).trans (if_pos hfraction).symm
    · exact (congrArg Datum.exact (if_neg hfraction)).trans (if_neg hfraction).symm
  refine (congrArg Datum.exact (if_neg hmax)).trans ?_
  refine Eq.trans ?_ (if_neg hmax).symm
  by_cases hzero : word / 2 ^ f.fractionBits % 2 ^ f.exponentBits = 0
  · rw [if_pos hzero, if_pos hzero, Datum.exact, Datum.rational_eq, hweight, minExponent, hbias, zpow_sub₀ two_ne_zero,
      zpow_natCast]
    congr 1
    ring
  · rw [if_neg hzero, if_neg hzero, Datum.exact, Datum.rational_eq, hweight, minExponent, hbias]
    congr 1
    have hone := Nat.one_le_iff_ne_zero.mpr hzero
    generalize word / 2 ^ f.fractionBits % 2 ^ f.exponentBits = exponent at hone
    generalize (2 : ℤ) ^ (f.exponentBits - 1) - 1 = bias
    have hexp : 1 - bias - f.fractionBits + ((exponent - 1 : ℕ) : ℤ) = (exponent : ℤ) - bias - f.fractionBits := by
      rw [Nat.cast_sub hone]
      push_cast
      ring
    rw [hexp, zpow_sub₀ two_ne_zero _ (f.fractionBits : ℤ), zpow_natCast]
    push_cast
    field_simp

/-- A significand has one bit more than the fraction. -/
theorem significand_lt {s : Bool} {m : Nat} {e : ℤ} (h : f.decode word = .finite s m e) :
    m < 2 ^ (f.fractionBits + 1) := by
  have hfraction : word % f.exponentWeight < 2 ^ f.fractionBits := Nat.mod_lt _ (Nat.two_pow_pos _)
  have hweight : f.exponentWeight = 2 ^ f.fractionBits := rfl
  rw [Nat.pow_succ]
  simp only [decode] at h
  split at h
  · split at h <;> nomatch h
  · split at h <;> cases h <;> omega

end FloatFormat

/-! ### Comparing -/

namespace Datum

/-- Over a common exponent the signed significands are in the order of the values. -/
theorem aligned_eq (s₁ s₂ : Bool) (m₁ m₂ : Nat) (e₁ e₂ : ℤ) :
    ((aligned s₁ m₁ e₁ s₂ m₂ e₂).1 : ℚ) * 2 ^ min e₁ e₂ = rational s₁ m₁ e₁ ∧
      ((aligned s₁ m₁ e₁ s₂ m₂ e₂).2.1 : ℚ) * 2 ^ min e₁ e₂ = rational s₂ m₂ e₂ := by
  have hscale (s : Bool) (m : Nat) {e e' : ℤ} (he : e' ≤ e) :
      (signed s (m * Nat.pow 2 (e - e').toNat) : ℚ) * 2 ^ e' = rational s m e := by
    have hpow : (2 : ℚ) ^ e = 2 ^ (e - e').toNat * 2 ^ e' := by
      rw [← zpow_natCast, ← zpow_add₀ two_ne_zero, Int.toNat_of_nonneg (by omega), Int.sub_add_cancel]
    rw [rational, hpow]
    cases s <;> simp [signed] <;> ring
  exact ⟨hscale s₁ m₁ (min_le_left _ _), hscale s₂ m₂ (min_le_right _ _)⟩

variable {s₁ s₂ : Bool} {m₁ m₂ : Nat} {e₁ e₂ : ℤ}

theorem compare?_finite : (finite s₁ m₁ e₁).compare? (finite s₂ m₂ e₂) =
    some (compare (aligned s₁ m₁ e₁ s₂ m₂ e₂).1 (aligned s₁ m₁ e₁ s₂ m₂ e₂).2.1) := rfl

theorem le_iff : FloatRelation.le.holds ((finite s₁ m₁ e₁).compare? (finite s₂ m₂ e₂)) = true ↔
    rational s₁ m₁ e₁ ≤ rational s₂ m₂ e₂ := by
  obtain ⟨h₁, h₂⟩ := aligned_eq s₁ s₂ m₁ m₂ e₁ e₂
  have hpos : (0 : ℚ) < 2 ^ min e₁ e₂ := by positivity
  rw [← h₁, ← h₂, mul_le_mul_iff_left₀ hpos, Int.cast_le, compare?_finite, FloatRelation.holds, Bool.or_eq_true,
    beq_iff_eq, beq_iff_eq, Option.some_inj, Option.some_inj, compare_lt_iff_lt, compare_eq_iff_eq, le_iff_lt_or_eq]

theorem ge_iff : FloatRelation.ge.holds ((finite s₁ m₁ e₁).compare? (finite s₂ m₂ e₂)) = true ↔
    rational s₂ m₂ e₂ ≤ rational s₁ m₁ e₁ := by
  obtain ⟨h₁, h₂⟩ := aligned_eq s₁ s₂ m₁ m₂ e₁ e₂
  have hpos : (0 : ℚ) < 2 ^ min e₁ e₂ := by positivity
  rw [← h₁, ← h₂, mul_le_mul_iff_left₀ hpos, Int.cast_le, compare?_finite, FloatRelation.holds, Bool.or_eq_true,
    beq_iff_eq, beq_iff_eq, Option.some_inj, Option.some_inj, compare_gt_iff_gt, compare_eq_iff_eq, eq_comm,
    le_iff_lt_or_eq]

end Datum

/-! ### Dropping the fraction -/

/-- **The integer part of a rational number**: rounded toward zero. -/
def towardZero (q : ℚ) : ℤ := if 0 ≤ q then ⌊q⌋ else ⌈q⌉

/-- Which numbers have an integer part between two integers, of which one is not positive and the other not negative. -/
theorem towardZero_mem_iff {least greatest : ℤ} (hleast : least ≤ 0) (hgreatest : 0 ≤ greatest) (q : ℚ) :
    least ≤ towardZero q ∧ towardZero q ≤ greatest ↔ (least : ℚ) - 1 < q ∧ q < greatest + 1 := by
  have hleast' : (least : ℚ) ≤ 0 := by exact_mod_cast hleast
  have hgreatest' : (0 : ℚ) ≤ greatest := by exact_mod_cast hgreatest
  unfold towardZero
  split
  · next hq =>
    have hfloor : 0 ≤ ⌊q⌋ := Int.floor_nonneg.mpr hq
    have hupper : ⌊q⌋ ≤ greatest ↔ q < greatest + 1 := by
      rw [← Int.lt_add_one_iff, Int.floor_lt, Int.cast_add, Int.cast_one]
    rw [hupper, iff_true_intro (hleast.trans hfloor), iff_true_intro (show (least : ℚ) - 1 < q by linarith)]
  · next hq =>
    have hneg : q < 0 := lt_of_not_ge hq
    have hceil : ⌈q⌉ ≤ 0 := Int.ceil_le.mpr (by exact_mod_cast hneg.le)
    have hlower : least ≤ ⌈q⌉ ↔ (least : ℚ) - 1 < q := by
      rw [← Int.sub_one_lt_iff, Int.lt_ceil, Int.cast_sub, Int.cast_one]
    rw [hlower, iff_true_intro (hceil.trans hgreatest), iff_true_intro (show q < greatest + 1 by linarith)]

theorem towardZero_neg (q : ℚ) : towardZero (-q) = -towardZero q := by
  rcases lt_trichotomy q 0 with h | rfl | h
  · rw [towardZero, towardZero, if_pos (by linarith), if_neg (by linarith), Int.floor_neg]
  · simp [towardZero]
  · rw [towardZero, towardZero, if_neg (by linarith), if_pos h.le, Int.ceil_neg]

namespace Datum

theorem truncate_finite (s : Bool) (m : Nat) (e : ℤ) :
    (finite s m e).truncate = .integer (towardZero (rational s m e)) := by
  have hratio : (m : ℚ) * 2 ^ e = ((m * 2 ^ e.toNat : ℕ) : ℤ) / ((2 ^ (-e).toNat : ℕ) : ℚ) := by
    rw [two_zpow_eq]
    push_cast
    ring
  have hpart : towardZero ((m : ℚ) * 2 ^ e) = ((m * 2 ^ e.toNat / 2 ^ (-e).toNat : ℕ) : ℤ) := by
    rw [towardZero, if_pos (by positivity), hratio, Rat.floor_intCast_div_natCast]
    rfl
  rw [truncate, rational_eq]
  cases s
  · simp only [signed, Bool.false_eq_true, if_false, one_mul, hpart]
    rfl
  · simp only [signed, if_true, neg_mul, one_mul, towardZero_neg, hpart]
    rfl

/-- **Beyond a power of two there is a gap**, of the weight of the last place. -/
theorem gap {p k : Nat} (hk : p ≤ k) {s : Bool} {m : Nat} {e : ℤ} (hm : m < 2 ^ (p + 1))
    (h : 2 ^ k < |rational s m e|) : 2 ^ k + 2 ^ (k - p) ≤ |rational s m e| := by
  have habs : |rational s m e| = (m : ℚ) * 2 ^ e := by
    rw [rational_eq, abs_mul, abs_mul, abs_of_pos (show (0 : ℚ) < 2 ^ e by positivity), Nat.abs_cast]
    cases s <;> simp
  rw [habs] at h ⊢
  -- the exponent is large enough for the value to be a multiple of the last place
  have hexp : (k : ℤ) < (p + 1 : ℕ) + e := by
    have hm' : (m : ℚ) < 2 ^ (p + 1) := by exact_mod_cast hm
    have hlt : (2 : ℚ) ^ (k : ℤ) < 2 ^ (((p + 1 : ℕ) : ℤ) + e) := by
      rw [zpow_add₀ two_ne_zero, zpow_natCast, zpow_natCast]
      exact h.trans (mul_lt_mul_of_pos_right hm' (by positivity))
    exact (zpow_lt_zpow_iff_right₀ one_lt_two).mp hlt
  obtain ⟨n, hn⟩ : ∃ n : ℕ, e = (k - p : ℕ) + n := ⟨(e - (k - p : ℕ)).toNat, by omega⟩
  have hvalue : (m : ℚ) * 2 ^ e = ((m * 2 ^ n * 2 ^ (k - p) : ℕ) : ℚ) := by
    rw [hn, zpow_add₀ two_ne_zero, zpow_natCast, zpow_natCast]
    push_cast
    ring
  have hpow : 2 ^ k = 2 ^ p * 2 ^ (k - p) := by rw [← Nat.pow_add, Nat.add_sub_cancel' hk]
  rw [hvalue] at h ⊢
  have hlt : 2 ^ p * 2 ^ (k - p) < m * 2 ^ n * 2 ^ (k - p) := by
    rw [← hpow]
    exact_mod_cast h
  have hle : (2 ^ p + 1) * 2 ^ (k - p) ≤ m * 2 ^ n * 2 ^ (k - p) :=
    Nat.mul_le_mul_right _ (Nat.lt_of_mul_lt_mul_right hlt)
  have hsum : 2 ^ k + 2 ^ (k - p) = (2 ^ p + 1) * 2 ^ (k - p) := by rw [hpow]; ring
  rw [← hsum] at hle
  exact_mod_cast hle

end Datum

end WasmEngine
