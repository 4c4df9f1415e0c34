import Mathlib.Order.Bounds.Defs
import WasmEngine.Proofs.Float.Exact
import WasmEngine.Proofs.Instruction.Division

/-!
# Conversions of floats to integers are exact

Each conversion rounds the value of a float toward zero. It comes in two variants, which agree where the result is a
number of the target type (`Converted`). Where it is not, one of them traps and the other one gives the nearest number
of the type.

The trapping variant does not look at the rounded value: it compares the float with two bounds, which have to be floats
themselves. The upper one is the least number beyond the type. The lower one cannot always be the greatest number below
the type, since that may have no float. It is then the greatest float below the type, and no float lies between the two
(`FloatWidth.truncate_finite`).
-/

namespace WasmEngine

/-! ### The numbers of a type -/

/-- The numbers that the integers of a type stand for. -/
def integers (w : IntWidth) (s : Signedness) : Set ℤ := Set.range (Cell.number w s)

namespace Signedness

variable {w : Nat} (s : Signedness)

theorem number_bounds (x : BitVec w) : s.least w ≤ s.number x ∧ s.number x ≤ s.greatest w := by
  cases s with
  | signed =>
    simp only [least, greatest, number, Nat.pow_eq, Nat.cast_pow, Nat.cast_ofNat]
    exact ⟨BitVec.le_toInt x, BitVec.toInt_le⟩
  | unsigned =>
    have hlt : x.toNat < 2 ^ w := x.isLt
    simp only [least, greatest, number, Nat.pow_eq]
    omega

theorem number_ofInt (hw : 0 < w) {n : ℤ} (hleast : s.least w ≤ n) (hgreatest : n ≤ s.greatest w) :
    s.number (BitVec.ofInt w n) = n := by
  cases s with
  | signed =>
    simp only [least, greatest, Nat.pow_eq, Nat.cast_pow, Nat.cast_ofNat] at hleast hgreatest
    exact BitVec.toInt_ofInt_eq_self hw hleast (by omega)
  | unsigned =>
    simp only [least, greatest, Nat.pow_eq] at hleast hgreatest
    rw [number, BitVec.toNat_ofInt, Int.emod_eq_of_lt hleast (by omega), Int.toNat_of_nonneg hleast]

theorem least_nonpos : s.least w ≤ 0 := by
  cases s with
  | signed => exact neg_nonpos.mpr (Int.natCast_nonneg _)
  | unsigned => exact le_rfl

theorem greatest_nonneg : 0 ≤ s.greatest w := by
  have hpos (n : Nat) : 0 < Nat.pow 2 n := Nat.two_pow_pos n
  cases s with
  | signed => exact Int.le_sub_one_of_lt (Int.natCast_pos.mpr (hpos (w - 1)))
  | unsigned => exact Int.le_sub_one_of_lt (Int.natCast_pos.mpr (hpos w))

theorem least_le_greatest : s.least w ≤ s.greatest w := s.least_nonpos.trans s.greatest_nonneg

end Signedness

section

variable {w : IntWidth} {s : Signedness}

/-- **The numbers of a type** are those from the least to the greatest one. -/
theorem mem_integers {n : ℤ} : n ∈ integers w s ↔ s.least w.bits ≤ n ∧ n ≤ s.greatest w.bits := by
  refine ⟨?_, fun ⟨hleast, hgreatest⟩ => ⟨.ofInt (BitVec.ofInt w.bits n), ?_⟩⟩
  · rintro ⟨c, rfl⟩
    rw [Cell.number_eq]
    exact s.number_bounds _
  · rw [Cell.number_ofInt, s.number_ofInt w.bits_pos hleast hgreatest]

theorem isLeast_integers : IsLeast (integers w s) (s.least w.bits) :=
  ⟨mem_integers.mpr ⟨le_rfl, s.least_le_greatest⟩, fun _ h => (mem_integers.mp h).1⟩

theorem isGreatest_integers : IsGreatest (integers w s) (s.greatest w.bits) :=
  ⟨mem_integers.mpr ⟨s.least_le_greatest, le_rfl⟩, fun _ h => (mem_integers.mp h).2⟩

theorem Cell.number_ofInt_ofInt {n : ℤ} (h : n ∈ integers w s) : (ofInt (BitVec.ofInt w.bits n)).number w s = n := by
  obtain ⟨hleast, hgreatest⟩ := mem_integers.mp h
  rw [number_ofInt, s.number_ofInt w.bits_pos hleast hgreatest]

end

/-! ### The bounds -/

/-- Whether a datum is an integer. -/
def Datum.isInteger (n : ℤ) : Datum → Bool
  | finite negative significand exponent =>
    signed negative significand * 2 ^ exponent.toNat == n * 2 ^ (-exponent).toNat
  | _ => false

theorem Datum.exists_of_isInteger {n : ℤ} {x : Datum} (h : x.isInteger n = true) :
    ∃ s m e, x = finite s m e ∧ rational s m e = n := by
  cases x with
  | finite s m e =>
    refine ⟨s, m, e, rfl, ?_⟩
    have hscaled : (signed s m : ℚ) * 2 ^ e.toNat = n * 2 ^ (-e).toNat := by exact_mod_cast eq_of_beq h
    rw [rational, two_zpow_eq, mul_div_assoc', hscaled]
    exact mul_div_cancel_right₀ _ (by positivity)
  | nan => exact absurd h Bool.false_ne_true
  | infinite => exact absurd h Bool.false_ne_true

section

variable (target : IntWidth) (source : FloatWidth) (s : Signedness)

/-- The bounds are floats. -/
theorem truncationBounds_isInteger :
    (source.format.decode (source.format.ofInt (truncationBounds target source s).1)).isInteger
        (truncationBounds target source s).1 = true ∧
      (source.format.decode (source.format.ofInt (truncationBounds target source s).2)).isInteger
        (truncationBounds target source s).2 = true := by
  cases target <;> cases source <;> cases s <;> decide

theorem truncationBounds_upper : (truncationBounds target source s).2 = s.greatest target.bits + 1 := by
  cases target <;> cases source <;> cases s <;> rfl

theorem truncationBounds_lower_unsigned :
    (truncationBounds target source .unsigned).1 = Signedness.unsigned.least target.bits - 1 := by
  cases target <;> cases source <;> rfl

/-- Below a signed type the next float is as far away as the last place of the format weighs there. -/
theorem truncationBounds_lower_signed :
    (truncationBounds target source .signed).1 =
      -(2 ^ (target.bits - 1) + 2 ^ (target.bits - 1 - source.format.fractionBits)) := by
  cases target <;> cases source <;> decide

/-- **No float lies between the lower bound and the type.** -/
theorem le_truncationBounds_iff {negative : Bool} {m : Nat} {e : ℤ} (hm : m < 2 ^ (source.format.fractionBits + 1)) :
    Datum.rational negative m e ≤ (truncationBounds target source s).1 ↔
      Datum.rational negative m e ≤ s.least target.bits - 1 := by
  cases s with
  | unsigned => rw [truncationBounds_lower_unsigned, Int.cast_sub, Int.cast_one]
  | signed =>
    rw [truncationBounds_lower_signed, Signedness.least, Nat.pow_eq]
    generalize target.bits - 1 = k
    generalize source.format.fractionBits = p at hm
    push_cast
    constructor
    · intro h
      have hone : (1 : ℚ) ≤ 2 ^ (k - p) := one_le_pow₀ one_le_two
      linarith
    · intro h
      rcases Nat.le_total p k with hk | hk
      · have hpos : (0 : ℚ) < 2 ^ k := by positivity
        have habs := abs_of_neg (show Datum.rational negative m e < 0 by linarith)
        have hgap := Datum.gap hk hm (show 2 ^ k < |Datum.rational negative m e| by rw [habs]; linarith)
        rw [habs] at hgap
        linarith
      · rw [Nat.sub_eq_zero_of_le hk]
        linarith

end

/-! ### The results -/

/-- **The results of converting a value** to an integer type, of the variant that traps and of the one that saturates.
They agree if the value, rounded toward zero, is a number of the type. Otherwise the trapping variant fails and the
saturating one gives the end of the type that is nearer. What is not a number is no valid operand of the former and zero
for the latter. The cells of results are zero above the width. -/
structure Converted (w : IntWidth) (s : Signedness) (value : ExactValue) (trapping saturating : Except TrapCode Cell) :
    Prop where
  nan : value = .nan → trapping = .error .invalidConversion ∧ saturating = .ok 0
  infinite : ∀ negative, value = .infinite negative → trapping = .error .integerOverflow ∧ ∃ c, saturating = .ok c ∧
    if negative then IsLeast (integers w s) (c.number w s) else IsGreatest (integers w s) (c.number w s)
  exact : ∀ q, value = .finite q → towardZero q ∈ integers w s →
    ∃ c, trapping = .ok c ∧ saturating = .ok c ∧ c.number w s = towardZero q
  overflow : ∀ q, value = .finite q → towardZero q ∉ integers w s →
    trapping = .error .integerOverflow ∧ ∃ c, saturating = .ok c ∧
      (towardZero q < c.number w s ∧ IsLeast (integers w s) (c.number w s) ∨
        c.number w s < towardZero q ∧ IsGreatest (integers w s) (c.number w s))
  high : ∀ c, trapping = .ok c ∨ saturating = .ok c → c.toNat < 2 ^ w.bits

namespace Converted

variable {w : IntWidth} {s : Signedness} {q : ℚ} {c : Cell}

theorem of_nan : Converted w s .nan (.error .invalidConversion) (.ok 0) where
  nan _ := ⟨rfl, rfl⟩
  infinite := nofun
  exact := nofun
  overflow := nofun
  high c h := by
    obtain rfl : 0 = c := by simpa using h
    exact Nat.two_pow_pos _

theorem of_infinite {negative : Bool} (hhigh : c.toNat < 2 ^ w.bits)
    (hc : if negative then IsLeast (integers w s) (c.number w s) else IsGreatest (integers w s) (c.number w s)) :
    Converted w s (.infinite negative) (.error .integerOverflow) (.ok c) where
  nan := nofun
  infinite := by
    rintro _ ⟨⟩
    exact ⟨rfl, c, rfl, hc⟩
  exact := nofun
  overflow := nofun
  high := by
    rintro _ (⟨⟨⟩⟩ | ⟨⟨⟩⟩)
    exact hhigh

theorem of_exact (hhigh : c.toNat < 2 ^ w.bits) (hmem : towardZero q ∈ integers w s)
    (hc : c.number w s = towardZero q) : Converted w s (.finite q) (.ok c) (.ok c) where
  nan := nofun
  infinite := nofun
  exact := by
    rintro _ ⟨⟩ _
    exact ⟨c, rfl, rfl, hc⟩
  overflow := by
    rintro _ ⟨⟩ h
    exact absurd hmem h
  high := by rintro _ (⟨⟨⟩⟩ | ⟨⟨⟩⟩) <;> exact hhigh

theorem of_overflow (hhigh : c.toNat < 2 ^ w.bits) (hmem : towardZero q ∉ integers w s)
    (hc : towardZero q < c.number w s ∧ IsLeast (integers w s) (c.number w s) ∨
      c.number w s < towardZero q ∧ IsGreatest (integers w s) (c.number w s)) :
    Converted w s (.finite q) (.error .integerOverflow) (.ok c) where
  nan := nofun
  infinite := nofun
  exact := by
    rintro _ ⟨⟩ h
    exact absurd h hmem
  overflow := by
    rintro _ ⟨⟩ _
    exact ⟨rfl, c, rfl, hc⟩
  high := by
    rintro _ (⟨⟨⟩⟩ | ⟨⟨⟩⟩)
    exact hhigh

end Converted

section

variable (target : IntWidth) {source : FloatWidth} (s : Signedness) {word : Nat}

/-- A finite value is converted if, rounded toward zero, it is a number of the type. -/
theorem FloatWidth.truncate_finite {negative : Bool} {m : Nat} {e : ℤ}
    (h : source.format.decode word = .finite negative m e) :
    towardZero (Datum.rational negative m e) ∈ integers target s ∧
        source.truncate target s word = .ok (source.saturate target s word) ∨
      towardZero (Datum.rational negative m e) ∉ integers target s ∧
        source.truncate target s word = .error .integerOverflow := by
  obtain ⟨hlower, hupper⟩ := truncationBounds_isInteger target source s
  obtain ⟨s₁, m₁, e₁, hl, hlv⟩ := Datum.exists_of_isInteger hlower
  obtain ⟨s₂, m₂, e₂, hu, huv⟩ := Datum.exists_of_isInteger hupper
  have hm := source.format.significand_lt word h
  generalize hq : Datum.rational negative m e = q
  have hbeyond : (FloatRelation.le.holds ((Datum.finite negative m e).compare? (.finite s₁ m₁ e₁)) ||
      FloatRelation.ge.holds ((Datum.finite negative m e).compare? (.finite s₂ m₂ e₂))) = true ↔
        towardZero q ∉ integers target s := by
    rw [Bool.or_eq_true, Datum.le_iff, Datum.ge_iff, hlv, huv, le_truncationBounds_iff target source s hm,
      truncationBounds_upper, mem_integers, towardZero_mem_iff s.least_nonpos s.greatest_nonneg, hq, not_and_or,
      not_lt, not_lt, Int.cast_add, Int.cast_one]
  rw [truncate, saturate, hl, hu, h, Datum.truncateBetween, if_neg nofun]
  by_cases hmem : towardZero q ∈ integers target s
  · exact .inl ⟨hmem, if_neg fun hb => hbeyond.mp hb hmem⟩
  · exact .inr ⟨hmem, if_pos (hbeyond.mpr hmem)⟩

theorem FloatWidth.saturate_finite {negative : Bool} {m : Nat} {e : ℤ}
    (h : source.format.decode word = .finite negative m e) :
    (Cell.ofInt (source.saturate target s word)).number target s =
      max (s.least target.bits) (min (towardZero (Datum.rational negative m e)) (s.greatest target.bits)) := by
  rw [saturate, h, Datum.truncate_finite, Truncation.clamp, Cell.number_ofInt_ofInt]
  exact mem_integers.mpr ⟨le_max_left _ _, max_le s.least_le_greatest (min_le_right _ _)⟩

theorem FloatWidth.convert_nan (h : source.format.decode word = .nan) :
    source.truncate target s word = .error .invalidConversion ∧ Cell.ofInt (source.saturate target s word) = 0 := by
  rw [truncate, saturate, h, Datum.truncateBetween, if_pos rfl]
  exact ⟨rfl, BitVec.setWidth_zero _ _⟩

theorem FloatWidth.convert_infinite {negative : Bool} (h : source.format.decode word = .infinite negative) :
    source.truncate target s word = .error .integerOverflow ∧
      (Cell.ofInt (source.saturate target s word)).number target s =
        if negative then s.least target.bits else s.greatest target.bits := by
  obtain ⟨hlower, hupper⟩ := truncationBounds_isInteger target source s
  obtain ⟨s₁, m₁, e₁, hl, -⟩ := Datum.exists_of_isInteger hlower
  obtain ⟨s₂, m₂, e₂, hu, -⟩ := Datum.exists_of_isInteger hupper
  constructor
  · rw [truncate, hl, hu, h, Datum.truncateBetween, if_neg nofun]
    cases negative <;> rfl
  · rw [saturate, h]
    cases negative with
    | true => exact Cell.number_ofInt_ofInt isLeast_integers.1
    | false => exact Cell.number_ofInt_ofInt isGreatest_integers.1

/-- Whatever the word stands for, the variants give what they should. -/
theorem FloatWidth.converted (source : FloatWidth) (word : Nat) : Converted target s (source.format.exactValue word)
    ((source.truncate target s word).map .ofInt) (.ok (.ofInt (source.saturate target s word))) := by
  have hhigh := Cell.ofInt_lt target (source.saturate target s word)
  rw [← source.format.exact_decode]
  cases h : source.format.decode word with
  | nan =>
    obtain ⟨htruncate, hsaturate⟩ := convert_nan target s h
    rw [htruncate, hsaturate]
    exact .of_nan
  | infinite negative =>
    obtain ⟨htruncate, hsaturate⟩ := convert_infinite target s h
    rw [htruncate]
    refine .of_infinite hhigh ?_
    rw [hsaturate]
    cases negative with
    | true => exact isLeast_integers
    | false => exact isGreatest_integers
  | finite negative m e =>
    have hsaturate := saturate_finite target s h
    obtain ⟨hmem, htruncate⟩ | ⟨hmem, htruncate⟩ := truncate_finite target s h
    · obtain ⟨hleast, hgreatest⟩ := mem_integers.mp hmem
      rw [min_eq_left hgreatest, max_eq_right hleast] at hsaturate
      rw [htruncate]
      exact .of_exact hhigh hmem hsaturate
    · rw [htruncate]
      refine .of_overflow hhigh hmem ?_
      rw [mem_integers, not_and_or, not_le, not_le] at hmem
      rw [hsaturate]
      rcases hmem with hbelow | habove
      · rw [max_eq_left ((min_le_left _ _).trans hbelow.le)]
        exact .inl ⟨hbelow, isLeast_integers⟩
      · rw [min_eq_right habove.le, max_eq_right s.least_le_greatest]
        exact .inr ⟨habove, isGreatest_integers⟩

end

/-- **Conversions of floats to integers are exact** for all bit patterns, for both formats of floats and all four types
of integers. -/
theorem NumericOp.truncation_exact (target : IntWidth) (source : FloatWidth) (s : Signedness) (a b : Cell) :
    Converted target s (source.format.exactValue (a.toFloat source)) ((truncate target source s).eval a b)
      ((truncateSat target source s).eval a b) := by
  have h := FloatWidth.converted target s source (a.toFloat source)
  rw [eval, eval]
  cases htruncate : source.truncate target s (a.toFloat source) <;> rwa [htruncate] at h

-- the least signed number of 32 bits, and the next float below it
example : (NumericOp.truncate .w32 .w32 .signed).eval 0xCF000000 0 = .ok 0x80000000 := by decide

example : (NumericOp.truncate .w32 .w32 .signed).eval 0xCF000001 0 = .error .integerOverflow := by decide

end WasmEngine
