import Mathlib.Algebra.GroupWithZero.Nat
import Mathlib.Data.List.Infix
import WasmEngine.Binary.Leb128

/-!
# Groups of seven bits

The readers of unsigned and of signed integers are the same loop. They differ in what they make of the last byte and in
when it fits the bits that are left, which is what a `Leb128.Grouping` says.

The loop counts the bytes that may follow. The format is stated in two ways that do not: as a grammar
(`Leb128.Grouping.Encodes`), in which each byte takes seven bits off the width, and by its form
(`Leb128.Form`), in which a number of bytes at most goes on and the last one of them is special only if there
is room for no other. The two agree (`Leb128.Grouping.exists_encodes_iff`), the loop accepts exactly what they describe
(`Leb128.Grouping.readFrom_eq_ok_iff`), and there are three reasons to refuse bytes, each with the byte that is to
blame (`Leb128.Grouping.readFrom_eq_error_iff`).
-/

namespace WasmEngine

namespace Leb128

/-- How many bytes an integer takes at most. -/
def maxBytes (width : Nat) : Nat := (width + 6) / 7

/-- **Why bytes begin with no integer of a width**, and how far on the byte stands that is to blame: they end too early,
the last byte that is allowed goes on, or it does not fit. -/
inductive Refused (Fits : Nat → UInt8 → Prop) (width : Nat) (l : List UInt8) : DecodeFault → Nat → Prop
  | truncated : l.length < maxBytes width → (∀ b ∈ l, 128 ≤ b.toNat) →
    Refused Fits width l (.shortage .integer) l.length
  | tooLong {n : Nat} {b : UInt8} : n + 1 = maxBytes width → l[n]? = some b → (∀ c ∈ l.take n, 128 ≤ c.toNat) →
    128 ≤ b.toNat → Refused Fits width l .integerTooLong n
  | tooLarge {n : Nat} {b : UInt8} : n + 1 = maxBytes width → l[n]? = some b → (∀ c ∈ l.take n, 128 ≤ c.toNat) →
    b.toNat < 128 → ¬Fits (width - 7 * n) b → Refused Fits width l .integerTooLarge n

section

variable {Fits : Nat → UInt8 → Prop} {width n : Nat} {b : UInt8} {l : List UInt8} {fault : DecodeFault}

theorem maxBytes_pos (hwidth : 0 < width) : 0 < maxBytes width := by
  unfold maxBytes
  omega

theorem maxBytes_of_le (hwidth : 0 < width) (hle : width ≤ 7) : maxBytes width = 1 := by
  unfold maxBytes
  omega

theorem maxBytes_of_lt (hwidth : 7 < width) : maxBytes width = maxBytes (width - 7) + 1 := by
  unfold maxBytes
  omega

theorem refused_nil_iff (hwidth : 0 < width) : Refused Fits width [] fault n ↔ fault = .shortage .integer ∧ n = 0 := by
  constructor
  · rintro (_ | ⟨_, hget, _⟩ | ⟨_, hget, _⟩)
    · exact ⟨rfl, rfl⟩
    · nomatch hget
    · nomatch hget
  · rintro ⟨rfl, rfl⟩
    exact .truncated (maxBytes_pos hwidth) (by simp)

/-- Where there is room for another byte, a refusal is one of the bytes behind the first. -/
theorem refused_cons_iff (hwidth : 0 < width) : Refused Fits width (b :: l) fault n ↔
    width ≤ 7 ∧ 128 ≤ b.toNat ∧ fault = .integerTooLong ∧ n = 0 ∨
    width ≤ 7 ∧ b.toNat < 128 ∧ ¬Fits width b ∧ fault = .integerTooLarge ∧ n = 0 ∨
    7 < width ∧ 128 ≤ b.toNat ∧ ∃ k, Refused Fits (width - 7) l fault k ∧ n = k + 1 := by
  constructor
  · intro h
    rcases Nat.lt_or_ge 7 width with hlt | hle
    · refine .inr (.inr ⟨hlt, ?_⟩)
      have hmax := maxBytes_of_lt hlt
      have hpos : 0 < maxBytes (width - 7) := maxBytes_pos (by omega)
      rcases h with ⟨hlength, hall⟩ | @⟨n, c, hn, hget, hall, hc⟩ | @⟨n, c, hn, hget, hall, hc, hfits⟩
      · obtain ⟨hb, hall⟩ := List.forall_mem_cons.mp hall
        rw [List.length_cons] at hlength
        exact ⟨hb, _, .truncated (by omega) hall, rfl⟩
      · obtain ⟨k, rfl⟩ : ∃ k, n = k + 1 := ⟨n - 1, by omega⟩
        obtain ⟨hb, hall⟩ := List.forall_mem_cons.mp hall
        exact ⟨hb, k, .tooLong (by omega) hget hall hc, rfl⟩
      · obtain ⟨k, rfl⟩ : ∃ k, n = k + 1 := ⟨n - 1, by omega⟩
        obtain ⟨hb, hall⟩ := List.forall_mem_cons.mp hall
        have hleft : width - 7 * (k + 1) = width - 7 - 7 * k := by omega
        exact ⟨hb, k, .tooLarge (by omega) hget hall hc (hleft ▸ hfits), rfl⟩
    · have hmax := maxBytes_of_le hwidth hle
      rcases h with ⟨hlength, -⟩ | @⟨n, c, hn, hget, -, hc⟩ | @⟨n, c, hn, hget, -, hc, hfits⟩
      · rw [List.length_cons] at hlength
        omega
      · obtain rfl : n = 0 := by omega
        cases hget
        exact .inl ⟨hle, hc, rfl, rfl⟩
      · obtain rfl : n = 0 := by omega
        cases hget
        exact .inr (.inl ⟨hle, hc, hfits, rfl, rfl⟩)
  · rintro (⟨hle, hb, rfl, rfl⟩ | ⟨hle, hb, hfits, rfl, rfl⟩ | ⟨hlt, hb, k, h, rfl⟩)
    · exact .tooLong (maxBytes_of_le hwidth hle).symm rfl (by simp) hb
    · exact .tooLarge (maxBytes_of_le hwidth hle).symm rfl (by simp) hb hfits
    · have hmax := maxBytes_of_lt hlt
      rcases h with ⟨hlength, hall⟩ | @⟨k, c, hk, hget, hall, hc⟩ | @⟨k, c, hk, hget, hall, hc, hfits⟩
      · exact .truncated (by rw [List.length_cons]; omega) (List.forall_mem_cons.mpr ⟨hb, hall⟩)
      · exact .tooLong (by omega) hget (List.forall_mem_cons.mpr ⟨hb, hall⟩) hc
      · have hleft : width - 7 * (k + 1) = width - 7 - 7 * k := by omega
        exact .tooLarge (by omega) hget (List.forall_mem_cons.mpr ⟨hb, hall⟩) hc (hleft ▸ hfits)

end

/-! ### Kinds of integers -/

/-- **A kind of integers**: whether a last byte fits a number of bits, what it stands for, and what a byte in front of a
value makes of it. Where there is room for another byte, all last bytes fit. -/
structure Grouping (α : Type) where
  fits : Nat → UInt8 → Bool
  last : UInt8 → α
  more : UInt8 → α → α
  fits_of_lt : ∀ {width : Nat} (b : UInt8), 7 < width → fits width b = true

theorem payload_lt (b : UInt8) : payload b < 128 := Nat.mod_lt _ (by decide)

theorem signedPayload_bounds (b : UInt8) : -64 ≤ signedPayload b ∧ signedPayload b < 64 := by
  have hb := payload_lt b
  unfold signedPayload
  split <;> omega

/-- Unsigned integers. -/
def Grouping.natural : Grouping Nat where
  fits := fitsUnsigned
  last := payload
  more b value := payload b + 128 * value
  fits_of_lt {width} b hwidth := by
    have hpow : 2 ^ 7 ≤ 2 ^ width := Nat.pow_le_pow_right (by decide) (by omega)
    exact decide_eq_true (Nat.lt_of_lt_of_le (payload_lt b) hpow)

/-- Signed integers. -/
def Grouping.integer : Grouping Int where
  fits := fitsSigned
  last := signedPayload
  more b value := payload b + 128 * value
  fits_of_lt {width} b hwidth := by
    have hpow : 2 ^ 6 ≤ 2 ^ (width - 1) := Nat.pow_le_pow_right (by decide) (by omega)
    have hb := signedPayload_bounds b
    simp only [fitsSigned, Nat.pow_eq, Bool.and_eq_true, decide_eq_true_eq]
    omega

namespace Grouping

variable {α : Type} (g : Grouping α)

/-- The loop of both readers. -/
def readFrom (byteAt : Nat → Option UInt8) : (further width position : Nat) → Except DecodeError (α × Nat)
  | 0, width, position =>
    match byteAt position with
    | none => .error ⟨.shortage .integer, position⟩
    | some b =>
      if continues b then .error ⟨.integerTooLong, position⟩
      else if g.fits width b then .ok (g.last b, 1)
      else .error ⟨.integerTooLarge, position⟩
  | further + 1, width, position =>
    match byteAt position with
    | none => .error ⟨.shortage .integer, position⟩
    | some b =>
      if continues b then
        match readFrom byteAt further (width - 7) (position + 1) with
        | .ok (value, length) => .ok (g.more b value, length + 1)
        | .error e => .error e
      else .ok (g.last b, 1)

/-- **Bytes stand for a value of a width.** -/
inductive Encodes : (width : Nat) → List UInt8 → α → Prop
  | last {width : Nat} {b : UInt8} : b.toNat < 128 → g.fits width b = true → Encodes width [b] (g.last b)
  | more {width : Nat} {b : UInt8} {bs : List UInt8} {value : α} : 128 ≤ b.toNat → 7 < width →
    Encodes (width - 7) bs value → Encodes width (b :: bs) (g.more b value)

variable {g} {width position length : Nat} {value : α} {b : UInt8} {l bs : List UInt8}

theorem continues_iff {b : UInt8} : continues b = true ↔ 128 ≤ b.toNat := by simp [continues]

/-! ### The grammar -/

theorem Encodes.ne_nil (h : g.Encodes width bs value) : bs ≠ [] := by
  cases h <;> simp

/-- Bytes begin with an integer if a single one is it, or if the first goes on and the others begin with one. -/
theorem encodes_prefix_cons_iff :
    (∃ bs, g.Encodes width bs value ∧ bs <+: b :: l ∧ bs.length = length) ↔
      b.toNat < 128 ∧ g.fits width b = true ∧ g.last b = value ∧ 1 = length ∨
      128 ≤ b.toNat ∧ 7 < width ∧ ∃ v k, (∃ bs, g.Encodes (width - 7) bs v ∧ bs <+: l ∧ bs.length = k) ∧
        g.more b v = value ∧ k + 1 = length := by
  constructor
  · rintro ⟨bs, h, hpre, rfl⟩
    cases h with
    | last hb hfits =>
      obtain ⟨rfl, -⟩ := List.cons_prefix_cons.mp hpre
      exact .inl ⟨hb, hfits, rfl, rfl⟩
    | more hb hwidth h =>
      obtain ⟨rfl, hrest⟩ := List.cons_prefix_cons.mp hpre
      exact .inr ⟨hb, hwidth, _, _, ⟨_, h, hrest, rfl⟩, rfl, rfl⟩
  · rintro (⟨hb, hfits, rfl, rfl⟩ | ⟨hb, hwidth, v, k, ⟨bs, h, hrest, rfl⟩, rfl, rfl⟩)
    · exact ⟨[b], .last hb hfits, by simp, rfl⟩
    · exact ⟨b :: bs, .more hb hwidth h, List.cons_prefix_cons.mpr ⟨rfl, hrest⟩, rfl⟩

section

variable {byteAt : Nat → Option UInt8} {further : Nat}

/-- What is known of the bytes behind the first one. -/
theorem byteAt_succ (hl : ∀ i, byteAt (position + i) = (b :: l)[i]?) (i : Nat) :
    byteAt (position + 1 + i) = l[i]? := by
  rw [Nat.add_assoc, Nat.add_comm 1 i, hl (i + 1), List.getElem?_cons_succ]

/-- **The loop accepts exactly the grammar**, with as many further bytes as the width has room for. -/
theorem readFrom_eq_ok_iff (hl : ∀ i, byteAt (position + i) = l[i]?) (hwidth : 7 * further < width)
    (hroom : width ≤ 7 * (further + 1)) :
    g.readFrom byteAt further width position = .ok (value, length) ↔
      ∃ bs, g.Encodes width bs value ∧ bs <+: l ∧ bs.length = length := by
  induction further generalizing width position value length l with
  | zero =>
    have hfirst : byteAt position = l[0]? := hl 0
    rw [readFrom, hfirst]
    rcases l with - | ⟨b, l⟩
    · refine iff_of_false nofun ?_
      rintro ⟨bs, h, hpre, -⟩
      exact h.ne_nil (List.prefix_nil.mp hpre)
    rw [encodes_prefix_cons_iff, List.getElem?_cons_zero]
    by_cases hb : 128 ≤ b.toNat
    · simp [continues_iff, hb, Nat.not_lt.mpr hb, show ¬7 < width by omega]
    · by_cases hfits : g.fits width b = true
      · simp [continues_iff, hb, Nat.lt_of_not_le hb, hfits]
      · simp [continues_iff, hb, hfits]
  | succ further ih =>
    have hfirst : byteAt position = l[0]? := hl 0
    rw [readFrom, hfirst]
    rcases l with - | ⟨b, l⟩
    · refine iff_of_false nofun ?_
      rintro ⟨bs, h, hpre, -⟩
      exact h.ne_nil (List.prefix_nil.mp hpre)
    rw [encodes_prefix_cons_iff, List.getElem?_cons_zero]
    have hlt : 7 < width := by omega
    by_cases hb : 128 ≤ b.toNat
    · have hbehind (v : α) (k : Nat) : g.readFrom byteAt further (width - 7) (position + 1) = .ok (v, k) ↔
          ∃ bs, g.Encodes (width - 7) bs v ∧ bs <+: l ∧ bs.length = k :=
        ih (byteAt_succ hl) (by omega) (by omega)
      simp only [continues_iff, hb, if_true, Nat.not_lt.mpr hb, false_and, false_or, true_and, hlt, ← hbehind]
      cases hr : g.readFrom byteAt further (width - 7) (position + 1) with
      | error => simp
      | ok r => simp [Prod.ext_iff]
    · simp [continues_iff, hb, Nat.lt_of_not_le hb, g.fits_of_lt b hlt]

/-- **The loop refuses bytes for one of three reasons**, at the byte that is to blame. -/
theorem readFrom_eq_error_iff {e : DecodeError} (hl : ∀ i, byteAt (position + i) = l[i]?)
    (hwidth : 7 * further < width) (hroom : width ≤ 7 * (further + 1)) :
    g.readFrom byteAt further width position = .error e ↔
      ∃ fault n, Refused (g.fits · ·) width l fault n ∧ ⟨fault, position + n⟩ = e := by
  induction further generalizing width position l with
  | zero =>
    have hfirst : byteAt position = l[0]? := hl 0
    have hpos : 0 < width := by omega
    have hle : width ≤ 7 := by omega
    rw [readFrom, hfirst]
    rcases l with - | ⟨b, l⟩
    · simp [refused_nil_iff hpos]
    rw [List.getElem?_cons_zero]
    by_cases hb : 128 ≤ b.toNat
    · simp [refused_cons_iff hpos, continues_iff, hb, hle, Nat.not_lt.mpr hb, Nat.not_lt.mpr hle]
    · by_cases hfits : g.fits width b = true
      · simp [refused_cons_iff hpos, continues_iff, hb, hfits]
      · simp [refused_cons_iff hpos, continues_iff, hb, hfits, hle, Nat.lt_of_not_le hb]
  | succ further ih =>
    have hfirst : byteAt position = l[0]? := hl 0
    have hpos : 0 < width := by omega
    have hlt : 7 < width := by omega
    rw [readFrom, hfirst]
    rcases l with - | ⟨b, l⟩
    · simp [refused_nil_iff hpos]
    rw [List.getElem?_cons_zero]
    by_cases hb : 128 ≤ b.toNat
    · have hbehind : g.readFrom byteAt further (width - 7) (position + 1) = .error e ↔
          ∃ fault n, Refused (g.fits · ·) (width - 7) l fault n ∧ ⟨fault, position + 1 + n⟩ = e :=
        ih (byteAt_succ hl) (by omega) (by omega)
      have hpass : (match g.readFrom byteAt further (width - 7) (position + 1) with
          | .ok (value, length) => Except.ok (g.more b value, length + 1)
          | .error e => .error e) = .error e ↔ g.readFrom byteAt further (width - 7) (position + 1) = .error e := by
        cases g.readFrom byteAt further (width - 7) (position + 1) <;> simp
      simp only [continues_iff, hb, if_true, hpass, hbehind]
      constructor
      · rintro ⟨fault, n, h, rfl⟩
        refine ⟨fault, n + 1, (refused_cons_iff hpos).mpr (.inr (.inr ⟨hlt, hb, n, h, rfl⟩)), ?_⟩
        rw [Nat.add_assoc, Nat.add_comm 1 n]
      · rintro ⟨fault, n, h, rfl⟩
        rcases (refused_cons_iff hpos).mp h with ⟨hle, -⟩ | ⟨hle, -⟩ | ⟨-, -, k, hk, rfl⟩
        · omega
        · omega
        · exact ⟨fault, k, hk, by rw [Nat.add_assoc, Nat.add_comm 1 k]⟩
    · simp [refused_cons_iff hpos, continues_iff, hb, Nat.not_le.mpr hlt]

end

end Grouping

/-! ### The readers -/

variable {byteAt : Nat → Option UInt8}

theorem unsignedFrom_eq (further width position : Nat) :
    unsignedFrom byteAt further width position = Grouping.natural.readFrom byteAt further width position := by
  induction further generalizing width position with
  | zero => rfl
  | succ further ih =>
    rw [unsignedFrom, Grouping.readFrom, ih]
    cases byteAt position with
    | none => rfl
    | some b => cases Grouping.natural.readFrom byteAt further (width - 7) (position + 1) <;> rfl

theorem signedFrom_eq (further width position : Nat) :
    signedFrom byteAt further width position = Grouping.integer.readFrom byteAt further width position := by
  induction further generalizing width position with
  | zero => rfl
  | succ further ih =>
    rw [signedFrom, Grouping.readFrom, ih]
    cases byteAt position with
    | none => rfl
    | some b => cases Grouping.integer.readFrom byteAt further (width - 7) (position + 1) <;> rfl

end Leb128

end WasmEngine
