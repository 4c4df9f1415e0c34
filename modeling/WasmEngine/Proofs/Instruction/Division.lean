import Mathlib.Algebra.Order.Ring.Int
import WasmEngine.Instruction.Evaluation
import WasmEngine.Proofs.Checks

/-!
# Division of integers is exact

Four instructions divide at each width: they give the quotient or the remainder of two words that are read as signed or
as unsigned numbers. All of them round the quotient toward zero, so on numbers they are `Int.tdiv` and `Int.tmod`
(`divide_cases`, `remainder_cases`), whatever the words are read as.

What is said of the instructions (`NumericOp.division_exact`) does not mention these two functions. It is the law of
Euclid, with a remainder that is smaller than the divisor and has the sign of the dividend (`Euclidean`), and it is
known for which operands there is no result, and why (`Divided`).
-/

namespace WasmEngine

/-! ### Words as numbers -/

namespace Signedness

variable {w : Nat} {s : Signedness} {x y : BitVec w}

/-- The number that a word stands for. -/
def number (s : Signedness) (x : BitVec w) : Int :=
  match s with
  | signed => x.toInt
  | unsigned => x.toNat

theorem number_eq_zero : s.number x = 0 ↔ x = 0 := by
  cases s with
  | signed => rw [number, ← BitVec.toInt_inj]; simp
  | unsigned => rw [number, ← BitVec.toNat_inj]; simp

/-- The least signed number and `-1`, whose quotient is too large by one. -/
theorem beyond_iff (hw : 0 < w) :
    x = BitVec.intMin w ∧ y = -1 ↔ signed.number x = -2 ^ (w - 1) ∧ signed.number y = -1 := by
  have hminus : (-1 : BitVec w).toInt = -1 := by
    change (-1#w).toInt = -1
    rw [BitVec.neg_one_eq_allOnes, BitVec.toInt_allOnes, if_pos hw]
  rw [← BitVec.toInt_inj, ← BitVec.toInt_inj, BitVec.toInt_intMin_of_pos hw, hminus]
  rfl

end Signedness

/-! ### The law of Euclid -/

/-- **Quotient and remainder** of a dividend and a divisor, rounded toward zero. -/
structure Euclidean (dividend divisor quotient remainder : Int) : Prop where
  law : quotient * divisor + remainder = dividend
  small : |remainder| < |divisor|
  sign : remainder ≠ 0 → remainder.sign = dividend.sign

theorem Euclidean.of_ne_zero {n d : Int} (hd : d ≠ 0) : Euclidean n d (n.tdiv d) (n.tmod d) where
  law := Int.tdiv_mul_add_tmod n d
  small := by
    have hlt : n.natAbs % d.natAbs < d.natAbs := Nat.mod_lt _ (Int.natAbs_pos.mpr hd)
    rw [Int.abs_eq_natAbs, Int.abs_eq_natAbs, Int.natAbs_tmod]
    exact_mod_cast hlt
  sign h := by
    rw [Int.sign_tmod, if_neg]
    rwa [Int.dvd_iff_tmod_eq_zero]

/-! ### Division of words -/

section

variable {w : Nat} (s : Signedness) (x y : BitVec w)

/-- **What dividing two words comes to.** -/
theorem divide_cases :
    y = 0 ∧ divide s x y = .error .integerDivideByZero ∨
    y ≠ 0 ∧ (s = .signed ∧ x = BitVec.intMin w ∧ y = -1) ∧ divide s x y = .error .integerOverflow ∨
    y ≠ 0 ∧ ¬(s = .signed ∧ x = BitVec.intMin w ∧ y = -1) ∧
      ∃ q, divide s x y = .ok q ∧ s.number q = (s.number x).tdiv (s.number y) := by
  by_cases hy : y = 0
  · exact .inl ⟨hy, if_pos hy⟩
  refine .inr ?_
  cases s with
  | signed =>
    by_cases hbeyond : x = BitVec.intMin w ∧ y = -1
    · exact .inl ⟨hy, ⟨rfl, hbeyond⟩, by rw [divide, if_neg hy]; exact if_pos hbeyond⟩
    · refine .inr ⟨hy, fun h => hbeyond h.2, x.sdiv y, by rw [divide, if_neg hy]; exact if_neg hbeyond, ?_⟩
      exact BitVec.toInt_sdiv_of_ne_or_ne x y (not_and_or.mp hbeyond)
  | unsigned =>
    refine .inr ⟨hy, nofun, x / y, if_neg hy, ?_⟩
    rw [Signedness.number, BitVec.toNat_udiv]
    exact Int.ofNat_tdiv _ _

/-- **What the remainder of two words comes to.** -/
theorem remainder_cases :
    y = 0 ∧ remainder s x y = .error .integerDivideByZero ∨
    y ≠ 0 ∧ ∃ r, remainder s x y = .ok r ∧ s.number r = (s.number x).tmod (s.number y) := by
  by_cases hy : y = 0
  · exact .inl ⟨hy, if_pos hy⟩
  refine .inr ⟨hy, ?_⟩
  cases s with
  | signed => exact ⟨x.srem y, if_neg hy, BitVec.toInt_srem x y⟩
  | unsigned =>
    refine ⟨x % y, if_neg hy, ?_⟩
    rw [Signedness.number, BitVec.toNat_umod]
    exact Int.ofNat_tmod _ _

end

/-! ### Cells -/

theorem IntWidth.bits_pos (w : IntWidth) : 0 < w.bits := by cases w <;> decide

namespace Cell

variable (w : IntWidth) (s : Signedness)

theorem number_eq (c : Cell) : c.number w s = s.number (c.toInt w) := by
  cases s <;> rfl

@[simp] theorem toInt_ofInt (x : BitVec w.bits) : (ofInt x).toInt w = x := by
  have hbits : w.bits ≤ 64 := by cases w <;> decide
  rw [toInt, ofInt, BitVec.setWidth_setWidth_of_le _ hbits, BitVec.setWidth_eq]

@[simp] theorem number_ofInt (x : BitVec w.bits) : (ofInt x).number w s = s.number x := by
  rw [number_eq, toInt_ofInt]

theorem ofInt_lt (x : BitVec w.bits) : (ofInt x).toNat < 2 ^ w.bits := by
  rw [ofInt, BitVec.toNat_setWidth]
  exact Nat.lt_of_le_of_lt (Nat.mod_le _ _) x.isLt

end Cell

/-! ### The instructions -/

/-- **The results of a division** of two numbers at a width. The divisor zero has none. The quotient is also out of
range for one pair of signed numbers, of which the remainder is zero. All other results satisfy the law of Euclid, and
cells of results are zero above the width. -/
structure Divided (w : IntWidth) (s : Signedness) (dividend divisor : Int)
    (quotient remainder : Except TrapCode Cell) : Prop where
  quotient_zero : quotient = .error .integerDivideByZero ↔ divisor = 0
  remainder_zero : remainder = .error .integerDivideByZero ↔ divisor = 0
  overflow : quotient = .error .integerOverflow ↔ s = .signed ∧ dividend = -2 ^ (w.bits - 1) ∧ divisor = -1
  quotient_defined : (∃ q, quotient = .ok q) ↔
    divisor ≠ 0 ∧ ¬(s = .signed ∧ dividend = -2 ^ (w.bits - 1) ∧ divisor = -1)
  remainder_defined : (∃ r, remainder = .ok r) ↔ divisor ≠ 0
  beyond : s = .signed → dividend = -2 ^ (w.bits - 1) → divisor = -1 → remainder = .ok 0
  euclidean : ∀ q r, quotient = .ok q → remainder = .ok r →
    Euclidean dividend divisor (q.number w s) (r.number w s)
  unsigned : s = .unsigned → ∀ r, remainder = .ok r → 0 ≤ r.number w s
  high : ∀ c, quotient = .ok c ∨ remainder = .ok c → c.toNat < 2 ^ w.bits

namespace Divided

variable {w : IntWidth} {s : Signedness} {n d : Int}

theorem of_zero : Divided w s n 0 (.error .integerDivideByZero) (.error .integerDivideByZero) where
  quotient_zero := by simp
  remainder_zero := by simp
  overflow := by simp
  quotient_defined := by simp
  remainder_defined := by simp
  beyond _ _ h := by simp at h
  euclidean := nofun
  unsigned _ := nofun
  high _ h := by simp at h

theorem of_beyond : Divided w .signed (-2 ^ (w.bits - 1)) (-1) (.error .integerOverflow) (.ok 0) where
  quotient_zero := by simp
  remainder_zero := by simp
  overflow := by simp
  quotient_defined := by simp
  remainder_defined := by simp
  beyond _ _ _ := rfl
  euclidean := nofun
  unsigned := nofun
  high c h := by
    obtain rfl : 0 = c := by simpa using h
    exact Nat.two_pow_pos _

/-- Where both are defined, they are those of the numbers. -/
theorem of_words (hd : d ≠ 0) (hbeyond : ¬(s = .signed ∧ n = -2 ^ (w.bits - 1) ∧ d = -1)) {q r : BitVec w.bits}
    (hq : s.number q = n.tdiv d) (hr : s.number r = n.tmod d) :
    Divided w s n d (.ok (.ofInt q)) (.ok (.ofInt r)) where
  quotient_zero := by simp [hd]
  remainder_zero := by simp [hd]
  overflow := by simpa using hbeyond
  quotient_defined := by simpa [hd] using hbeyond
  remainder_defined := by simp [hd]
  beyond hs hn hd := absurd ⟨hs, hn, hd⟩ hbeyond
  euclidean := by
    rintro _ _ ⟨⟩ ⟨⟩
    rw [Cell.number_ofInt, Cell.number_ofInt, hq, hr]
    exact .of_ne_zero hd
  unsigned := by
    rintro rfl _ ⟨⟩
    rw [Cell.number_ofInt]
    exact Int.natCast_nonneg _
  high := by
    rintro _ (⟨⟨⟩⟩ | ⟨⟨⟩⟩) <;> exact Cell.ofInt_lt w _

end Divided

/-- **Division is exact** at both widths, signed and unsigned, for all operands. The bits of the operands above the
width do not count. -/
theorem NumericOp.division_exact (w : IntWidth) (s : Signedness) (a b : Cell) :
    Divided w s (a.number w s) (b.number w s) ((intBinary w (.div s)).eval a b) ((intBinary w (.rem s)).eval a b) ∧
      ∀ a' b' : Cell, a'.toInt w = a.toInt w → b'.toInt w = b.toInt w →
        (intBinary w (.div s)).eval a' b' = (intBinary w (.div s)).eval a b ∧
          (intBinary w (.rem s)).eval a' b' = (intBinary w (.rem s)).eval a b := by
  have hquotient (a b : Cell) : (intBinary w (.div s)).eval a b =
      divide s (a.toInt w) (b.toInt w) >>= fun q => pure (Cell.ofInt q) := rfl
  have hremainder (a b : Cell) : (intBinary w (.rem s)).eval a b =
      remainder s (a.toInt w) (b.toInt w) >>= fun r => pure (Cell.ofInt r) := rfl
  refine ⟨?_, fun a' b' ha hb => ?_⟩
  · rw [Cell.number_eq, Cell.number_eq, hquotient, hremainder]
    generalize a.toInt w = x, b.toInt w = y
    have hzero := Signedness.number_eq_zero (s := s) (x := y)
    have hbeyond := Signedness.beyond_iff (x := x) (y := y) w.bits_pos
    rcases remainder_cases s x y with ⟨hy, hr⟩ | ⟨hy, r, hr, hmod⟩
    · rcases divide_cases s x y with ⟨-, hq⟩ | ⟨hne, -⟩ | ⟨hne, -⟩
      · rw [hzero.mpr hy, hq, hr]
        exact .of_zero
      · exact absurd hy hne
      · exact absurd hy hne
    · rcases divide_cases s x y with ⟨hy', -⟩ | ⟨-, ⟨rfl, hboth⟩, hq⟩ | ⟨-, hnot, q, hq, hdiv⟩
      · exact absurd hy' hy
      · -- the remainder is zero, since every number is divisible by `-1`
        obtain ⟨hx, hy⟩ := hbeyond.mp hboth
        have hr0 : r = 0 := by
          rw [← Signedness.number_eq_zero (s := .signed), hmod, hy, Int.tmod_neg, Int.tmod_one]
        rw [hx, hy, hq, hr, hr0]
        cases w <;> exact .of_beyond
      · rw [hq, hr]
        refine .of_words (hzero.not.mpr hy) ?_ hdiv hmod
        rintro ⟨rfl, hn⟩
        exact hnot ⟨rfl, hbeyond.mpr hn⟩
  · rw [hquotient, hquotient, hremainder, hremainder, ha, hb]
    exact ⟨rfl, rfl⟩

/-- The least number of 32 bits divided by `-1`, with bits above them in both cells. -/
example : (NumericOp.intBinary .w32 (.div .signed)).eval 0x180000000 0x7FFFFFFFF = .error .integerOverflow ∧
    (NumericOp.intBinary .w32 (.rem .signed)).eval 0x180000000 0x7FFFFFFFF = .ok 0 := by decide

end WasmEngine
