import WasmEngine.Proofs.Float.Exact

/-!
# Canonical words

Many words of a format stand for nothing that is a number. Operations that compute a value only ever give one of them
(`FloatFormat.Canonical`). The reason is the same for all of them: what they give is either that word itself, or a
rounded magnitude, which is at most infinity (`FloatFormat.decode_sign_add`), or the word of an operand that is a
number.

The other operations do not compute a value. They replace the sign bit of a word, which may be anything, and leave all
other bits as they are (`FloatFormat.testBit_sign_add`).
-/

namespace WasmEngine

theorem Datum.compare?_eq_none {x y : Datum} : x.compare? y = none ↔ x = nan ∨ y = nan := by
  cases x <;> cases y <;> simp [compare?]

namespace FloatFormat

variable (f : FloatFormat)

/-! ### Fields of a word -/

theorem infinity_lt : f.infinity < f.signWeight := by
  have hpos : 0 < 2 ^ f.exponentBits := Nat.two_pow_pos _
  rw [infinity, exponentMask, exponentWeight, signWeight, Nat.pow_eq, Nat.pow_eq, Nat.pow_eq, Nat.pow_add]
  exact Nat.mul_lt_mul_of_pos_right (by omega) (Nat.two_pow_pos _)

theorem sign_add_mod (s : Bool) (m : Nat) {k : Nat} (hk : k ≤ f.exponentBits + f.fractionBits) :
    (f.sign s + m) % 2 ^ k = m % 2 ^ k := by
  have hdvd : 2 ^ k ∣ f.sign s := by
    cases s with
    | false => exact Nat.dvd_zero _
    | true => exact Nat.pow_dvd_pow 2 hk
  rw [Nat.add_mod, Nat.mod_eq_zero_of_dvd hdvd, Nat.zero_add, Nat.mod_mod]

/-- **A magnitude up to infinity is a number**, with either sign. -/
theorem decode_sign_add (s : Bool) {m : Nat} (hm : m ≤ f.infinity) : f.decode (f.sign s + m) ≠ .nan := by
  have hlt : m < 2 ^ (f.exponentBits + f.fractionBits) := hm.trans_lt f.infinity_lt
  have hmagnitude : f.magnitude (f.sign s + m) = m := by
    rw [magnitude, signWeight, Nat.pow_eq, f.sign_add_mod s m le_rfl, Nat.mod_eq_of_lt hlt]
  have hfraction : (f.sign s + m) % f.exponentWeight = m % f.exponentWeight :=
    f.sign_add_mod s m (Nat.le_add_left _ _)
  have hpos : 0 < f.exponentWeight := Nat.two_pow_pos _
  simp only [decode, hmagnitude, hfraction]
  split
  · next hmask =>
    -- with all exponent bits set, only infinity itself is small enough
    have hle : f.infinity ≤ m := by
      rw [infinity, ← hmask]
      exact Nat.div_mul_le_self m _
    have hzero : m % f.exponentWeight = 0 := by
      rw [hm.antisymm hle, infinity, Nat.mul_mod_left]
    rw [if_pos hzero]
    exact Datum.noConfusion
  · split <;> exact Datum.noConfusion

/-- Bits beyond the width do not count. -/
theorem decode_mod (word : Nat) : f.decode (word % 2 ^ f.width) = f.decode word := by
  have hwidth : 2 ^ f.width = 2 * f.signWeight := by
    rw [width, signWeight, Nat.pow_eq, Nat.add_assoc, Nat.pow_add, Nat.pow_one]
  have hmod {k : Nat} (hk : k ≤ f.width) : word % 2 ^ f.width % 2 ^ k = word % 2 ^ k :=
    Nat.mod_mod_of_dvd _ (Nat.pow_dvd_pow 2 hk)
  have hnegative : f.isNegative (word % 2 ^ f.width) = f.isNegative word := by
    rw [isNegative, ← hwidth, hmod le_rfl, hwidth, isNegative]
  have hmagnitude : f.magnitude (word % 2 ^ f.width) = f.magnitude word :=
    hmod (k := f.exponentBits + f.fractionBits) (by rw [width]; omega)
  have hfraction : word % 2 ^ f.width % f.exponentWeight = word % f.exponentWeight :=
    hmod (k := f.fractionBits) (by rw [width]; omega)
  rw [decode, hnegative, hmagnitude, hfraction, decode]

/-- **A word with another sign bit** has its other bits as they were. -/
theorem testBit_sign_add (s : Bool) (word : Nat) {i : Nat} (hi : i < f.width) :
    (f.sign s + f.magnitude word).testBit i = if i + 1 = f.width then s else word.testBit i := by
  have hsign : f.sign s = 2 ^ (f.exponentBits + f.fractionBits) * s.toNat := by
    cases s with
    | false => rfl
    | true => exact (Nat.mul_one _).symm
  have hlt : f.magnitude word < 2 ^ (f.exponentBits + f.fractionBits) := Nat.mod_lt _ (Nat.two_pow_pos _)
  rw [width] at hi ⊢
  rw [hsign, Nat.testBit_two_pow_mul_add _ hlt]
  by_cases htop : i < f.exponentBits + f.fractionBits
  · rw [if_pos htop, if_neg (by omega), magnitude, signWeight, Nat.pow_eq, Nat.testBit_mod_two_pow,
      decide_eq_true htop, Bool.true_and]
  · obtain rfl : i = f.exponentBits + f.fractionBits := by omega
    rw [if_neg htop, if_pos (by omega), Nat.sub_self]
    cases s <;> rfl

/-! ### Operations that compute a value -/

/-- **A canonical word**: one that, if it is not a number, is the word that all computations give. -/
def Canonical (word : Nat) : Prop := f.decode word = .nan → word = f.canonicalNaN

variable {f}

theorem Canonical.of_ne {word : Nat} (h : f.decode word ≠ .nan) : f.Canonical word := fun hnan => absurd hnan h

theorem canonical_sign_add (s : Bool) {m : Nat} (hm : m ≤ f.infinity) : f.Canonical (f.sign s + m) :=
  .of_ne (f.decode_sign_add s hm)

theorem canonical_sign (s : Bool) : f.Canonical (f.sign s) := canonical_sign_add s (Nat.zero_le _)

theorem canonical_canonicalNaN : f.Canonical f.canonicalNaN := fun _ => rfl

theorem canonical_round (s : Bool) (num den : Nat) : f.Canonical (f.round s num den) := by
  unfold round
  split
  · exact canonical_sign s
  · exact canonical_sign_add s (Nat.min_le_right _ _)

theorem canonical_encode (x : Datum) : f.Canonical (f.encode x) := by
  cases x with
  | nan => exact canonical_canonicalNaN
  | infinite s => exact canonical_sign_add s le_rfl
  | finite s m e => exact canonical_round s _ _

section

variable (a b : Nat)

theorem canonical_div : f.Canonical (f.div a b) := by
  unfold div
  split
  · exact canonical_canonicalNaN
  · exact canonical_canonicalNaN
  · exact canonical_canonicalNaN
  · exact canonical_encode _
  · exact canonical_sign _
  · split
    · split
      · exact canonical_canonicalNaN
      · exact canonical_encode _
    · exact canonical_round _ _ _

theorem canonical_sqrt : f.Canonical (f.sqrt a) := by
  have hinfinity : f.Canonical f.infinity := by simpa [sign] using canonical_sign_add false (le_refl f.infinity)
  unfold sqrt
  split
  · exact canonical_canonicalNaN
  · split
    · exact canonical_canonicalNaN
    · exact hinfinity
  · split
    · exact canonical_sign _
    split
    · exact canonical_canonicalNaN
    · exact canonical_round _ _ _

theorem canonical_roundToInteger (mode : IntegerRounding) : f.Canonical (f.roundToInteger mode a) := by
  unfold roundToInteger
  split
  · exact canonical_canonicalNaN
  · exact canonical_encode _
  · split
    · exact canonical_encode _
    · exact canonical_round _ _ _

/-- Words that are in some order are numbers. -/
theorem canonical_of_compare? {a b : Nat} {order : Ordering} (h : (f.decode a).compare? (f.decode b) = some order) :
    f.Canonical a ∧ f.Canonical b := by
  have hnan : ¬(f.decode a = .nan ∨ f.decode b = .nan) := fun hnan => by
    rw [Datum.compare?_eq_none.mpr hnan] at h
    nomatch h
  exact ⟨.of_ne fun ha => hnan (.inl ha), .of_ne fun hb => hnan (.inr hb)⟩

theorem canonical_min : f.Canonical (f.min a b) := by
  unfold min
  split
  · exact canonical_canonicalNaN
  · next h => exact (canonical_of_compare? h).1
  · next h =>
    split
    · exact (canonical_of_compare? h).1
    · exact (canonical_of_compare? h).2
  · next h => exact (canonical_of_compare? h).2

theorem canonical_max : f.Canonical (f.max a b) := by
  unfold max
  split
  · exact canonical_canonicalNaN
  · next h => exact (canonical_of_compare? h).1
  · next h =>
    split
    · exact (canonical_of_compare? h).2
    · exact (canonical_of_compare? h).1
  · next h => exact (canonical_of_compare? h).2

end

end FloatFormat

/-- The operations with one operand that compute a value. -/
def FloatUnary.computes : FloatUnary → Bool
  | abs | neg => false
  | ceil | floor | trunc | nearest | sqrt => true

/-- The operations with two operands that compute a value. -/
def FloatBinary.computes : FloatBinary → Bool
  | copysign => false
  | add | sub | mul | div | min | max => true

namespace FloatFormat

variable {f : FloatFormat}

theorem canonical_unary {op : FloatUnary} (h : op.computes = true) (a : Nat) : f.Canonical (op.eval f a) := by
  cases op with
  | abs | neg => nomatch h
  | ceil | floor | trunc | nearest => exact canonical_roundToInteger a _
  | sqrt => exact canonical_sqrt a

theorem canonical_binary {op : FloatBinary} (h : op.computes = true) (a b : Nat) : f.Canonical (op.eval f a b) := by
  cases op with
  | copysign => nomatch h
  | add | sub | mul => exact canonical_encode _
  | div => exact canonical_div a b
  | min => exact canonical_min a b
  | max => exact canonical_max a b

end FloatFormat

end WasmEngine
