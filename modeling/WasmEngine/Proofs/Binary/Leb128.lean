import WasmEngine.Proofs.Binary.Groups

/-!
# Unsigned LEB128 integers

`Leb128.Unsigned` is the format as a grammar: an integer of `n` bits is a last byte that fits `n` bits, or a byte with
its high bit set in front of an integer of `n - 7` bits, if that leaves any. So padding with zero groups is
allowed as long as there is room for it.

The reader accepts exactly that (`Leb128.unsigned_eq_ok_iff`).
-/

namespace WasmEngine

namespace Leb128

/-- **Bytes are an unsigned integer of a width**, in groups of seven bits with the lowest first. -/
inductive Unsigned : (width : Nat) → List UInt8 → Nat → Prop
  | last {width : Nat} {b : UInt8} : b.toNat < 128 → b.toNat < 2 ^ width → Unsigned width [b] b.toNat
  | more {width value : Nat} {b : UInt8} {bs : List UInt8} : 128 ≤ b.toNat → 7 < width →
    Unsigned (width - 7) bs value → Unsigned width (b :: bs) (b.toNat - 128 + 128 * value)

/-- The first of some bytes are an unsigned integer, so many of them. -/
def UnsignedAt (width : Nat) (l : List UInt8) (value length : Nat) : Prop :=
  ∃ bs, Unsigned width bs value ∧ bs <+: l ∧ bs.length = length

variable {width value length : Nat} {l : List UInt8}

/-- **An integer ends where it says so**: no other one begins with the same bytes. -/
theorem Unsigned.unique {bs bs' rest rest' : List UInt8} {value' : Nat} (h : Unsigned width bs value)
    (h' : Unsigned width bs' value') (hbytes : bs ++ rest = bs' ++ rest') : bs = bs' ∧ value = value' := by
  induction h generalizing bs' value' with
  | last hb _ =>
    cases h' with
    | last _ _ =>
      obtain ⟨rfl, -⟩ := List.cons.inj hbytes
      exact ⟨rfl, rfl⟩
    | more hb' _ _ =>
      obtain ⟨rfl, -⟩ := List.cons.inj hbytes
      omega
  | more hb _ _ ih =>
    cases h' with
    | last hb' _ =>
      obtain ⟨rfl, -⟩ := List.cons.inj hbytes
      omega
    | more _ _ h' =>
      obtain ⟨rfl, hrest⟩ := List.cons.inj hbytes
      obtain ⟨rfl, rfl⟩ := ih h' hrest
      exact ⟨rfl, rfl⟩

theorem UnsignedAt.unique {value' length' : Nat} (h : UnsignedAt width l value length)
    (h' : UnsignedAt width l value' length') : value = value' ∧ length = length' := by
  obtain ⟨bs, hbs, ⟨rest, rfl⟩, rfl⟩ := h
  obtain ⟨bs', hbs', ⟨rest', hrest⟩, rfl⟩ := h'
  obtain ⟨rfl, rfl⟩ := hbs.unique hbs' hrest.symm
  exact ⟨rfl, rfl⟩

theorem UnsignedAt.mono {l' : List UInt8} (h : UnsignedAt width l value length) (hl : l <+: l') :
    UnsignedAt width l' value length := by
  obtain ⟨bs, hbs, hpre, hlength⟩ := h
  exact ⟨bs, hbs, hpre.trans hl, hlength⟩

/-! ### The reader -/

theorem payload_of_continues {b : UInt8} (h : 128 ≤ b.toNat) : payload b = b.toNat - 128 := by
  have := b.toNat_lt
  unfold payload
  omega

theorem payload_of_not_continues {b : UInt8} (h : b.toNat < 128) : payload b = b.toNat := Nat.mod_eq_of_lt h

theorem unsigned_iff_encodes {bs : List UInt8} :
    Unsigned width bs value ↔ Grouping.natural.Encodes width bs value := by
  constructor
  · intro h
    induction h with
    | @last width b hb hfits =>
      rw [← payload_of_not_continues hb] at hfits ⊢
      exact .last hb (decide_eq_true hfits)
    | more hb hwidth _ ih =>
      rw [← payload_of_continues hb]
      exact .more hb hwidth ih
  · intro h
    induction h with
    | @last width b hb hfits =>
      have hfits : payload b < 2 ^ width := of_decide_eq_true hfits
      change Unsigned width [b] (payload b)
      rw [payload_of_not_continues hb] at hfits ⊢
      exact .last hb hfits
    | @more width b bs value hb hwidth _ ih =>
      change Unsigned width (b :: bs) (payload b + 128 * value)
      rw [payload_of_continues hb]
      exact .more hb hwidth ih

/-- **The reader accepts exactly the format.** `l` are the bytes from the position on. -/
theorem unsigned_eq_ok_iff {byteAt : Nat → Option UInt8} {width position value length : Nat} {l : List UInt8}
    (hwidth : 0 < width) (hl : ∀ i, byteAt (position + i) = l[i]?) :
    unsigned width byteAt position = .ok (value, length) ↔ UnsignedAt width l value length := by
  rw [unsigned, unsignedFrom_eq,
    Grouping.readFrom_eq_ok_iff hl (by unfold furtherBytes; omega) (by unfold furtherBytes; omega)]
  simp only [UnsignedAt, unsigned_iff_encodes]

end Leb128

end WasmEngine
