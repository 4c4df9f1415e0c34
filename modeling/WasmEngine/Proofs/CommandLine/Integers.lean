import Mathlib.Data.List.Forall2
import Mathlib.Data.Nat.Digits.Defs
import WasmEngine.CommandLine.Argument

/-!
# Integers on the command line

What texts of integers look like is said here without the reader: digits of a base and the number they stand for
(`Numeral`), in base ten or behind a mark in base sixteen (`Magnitude`), with at most one sign in front (`Denotes`).

The reader has a sign of its own in front of digits, on which nothing else looks. So it does not know a plus sign in
front of a mark, and it knows one behind a minus sign or a mark (`Understood`). The texts on which the two differ are
those with a plus sign; without one they are the same. And integers of 32 bits are first brought into 64 bits, where
those from `2 ^ 64 - 2 ^ 31` on are the same as small negative ones (`FitsFolded`). Nothing else stands between what is
denoted and what is read (`integers_read`).
-/

namespace WasmEngine.CommandLine

/-! ### Texts of integers -/

/-- A character is a digit of a base up to sixteen: one of `0` to `9`, or a letter of either case behind them. -/
def IsDigit (base : Nat) (c : Char) (d : Nat) : Prop :=
  d < base ∧ (c = d.digitChar ∨ c = d.digitChar.toUpper)

/-- **Digits of a base**, at least one of them and the highest first, and the number they stand for. -/
def Numeral (base : Nat) (cs : List Char) (n : Nat) : Prop :=
  ∃ ds : List Nat, ds ≠ [] ∧ List.Forall₂ (IsDigit base) cs ds ∧ Nat.ofDigits base ds.reverse = n

/-- Digits in base ten, or in base sixteen behind a mark. -/
inductive Magnitude (Digits : Nat → List Char → Nat → Prop) : List Char → Nat → Prop
  | decimal {cs : List Char} {n : Nat} (h : Digits 10 cs n) : Magnitude Digits cs n
  | hexadecimal {x : Char} {cs : List Char} {n : Nat} (hx : x = 'x' ∨ x = 'X') (h : Digits 16 cs n) :
    Magnitude Digits ('0' :: x :: cs) n

/-- **The text of an integer**: at most one sign, and a magnitude. -/
inductive Denotes : List Char → Int → Prop
  | plain {cs : List Char} {n : Nat} (h : Magnitude Numeral cs n) : Denotes cs n
  | plus {cs : List Char} {n : Nat} (h : Magnitude Numeral cs n) : Denotes ('+' :: cs) n
  | minus {cs : List Char} {n : Nat} (h : Magnitude Numeral cs n) : Denotes ('-' :: cs) (-n)

/-- Digits that may have a plus sign in front of them. -/
def SignedNumeral (base : Nat) (cs : List Char) (n : Nat) : Prop :=
  Numeral base cs n ∨ ∃ rest, cs = '+' :: rest ∧ Numeral base rest n

/-- **What the reader understands**: at most one minus sign, and a magnitude whose digits may have a plus sign of their
own. -/
inductive Understood : List Char → Int → Prop
  | plain {cs : List Char} {n : Nat} (h : Magnitude SignedNumeral cs n) : Understood cs n
  | minus {cs : List Char} {n : Nat} (h : Magnitude SignedNumeral cs n) : Understood ('-' :: cs) (-n)

/-- The integer is one of a width, signed or unsigned. -/
def Fits (width : Nat) (z : Int) : Prop := -2 ^ (width - 1) ≤ z ∧ z < 2 ^ width

/-- The integer is one of 32 bits, or has the word of 64 bits that a negative one of 32 bits has. -/
def FitsFolded (z : Int) : Prop := Fits 32 z ∨ 2 ^ 64 - 2 ^ 31 ≤ z ∧ z < 2 ^ 64

/-! ### Digits -/

theorem hexDigit_of_lt {d : Nat} (h : d < 16) :
    hexDigit? d.digitChar = some d ∧ hexDigit? d.digitChar.toUpper = some d := by
  revert h
  revert d
  decide

/-- Digits are ASCII characters. -/
theorem lt_of_hexDigit {c : Char} {d : Nat} (h : hexDigit? c = some d) : c.toNat < 128 := by
  have hletter {b : Char} (hc : c ≤ b) (hb : b.toNat < 128) : c.toNat < 128 := Nat.lt_of_le_of_lt hc hb
  unfold hexDigit? at h
  split at h
  · next hc => exact hletter hc.2 (by decide)
  split at h
  · next hc => exact hletter hc.2 (by decide)
  split at h
  · next hc => exact hletter hc.2 (by decide)
  · nomatch h

theorem hexDigit_eq_some {c : Char} {d : Nat} : hexDigit? c = some d ↔ IsDigit 16 c d := by
  have hascii : ∀ n < 128, ∀ d ∈ hexDigit? (Char.ofNat n),
      d < 16 ∧ (Char.ofNat n = d.digitChar ∨ Char.ofNat n = d.digitChar.toUpper) := by decide +kernel
  constructor
  · intro h
    have hc := hascii c.toNat (lt_of_hexDigit h) d
    rw [Char.ofNat_toNat] at hc
    exact hc h
  · rintro ⟨hd, rfl | rfl⟩
    · exact (hexDigit_of_lt hd).1
    · exact (hexDigit_of_lt hd).2

/-- Digits of a smaller base are those that stand for less. -/
theorem isDigit_iff {base : Nat} (hbase : base ≤ 16) {c : Char} {d : Nat} :
    IsDigit base c d ↔ hexDigit? c = some d ∧ d < base := by
  rw [hexDigit_eq_some, IsDigit, IsDigit]
  constructor
  · rintro ⟨hd, hc⟩
    exact ⟨⟨by omega, hc⟩, hd⟩
  · rintro ⟨⟨-, hc⟩, hd⟩
    exact ⟨hd, hc⟩

theorem IsDigit.unique {base : Nat} (hbase : base ≤ 16) {c : Char} {d d' : Nat} (h : IsDigit base c d)
    (h' : IsDigit base c d') : d = d' := by
  rw [isDigit_iff hbase] at h h'
  exact Option.some.inj (h.1.symm.trans h'.1)

/-- Signs and marks are no digits. -/
theorem IsDigit.ne {base : Nat} {c : Char} {d : Nat} (hbase : base ≤ 16) (h : IsDigit base c d) :
    c ≠ '+' ∧ c ≠ '-' ∧ c ≠ 'x' ∧ c ≠ 'X' := by
  obtain ⟨hc, -⟩ := (isDigit_iff hbase).mp h
  have hno {b : Char} (hb : hexDigit? b = none) : c ≠ b := by
    rintro rfl
    exact absurd (hc.symm.trans hb) (by simp)
  exact ⟨hno (by decide), hno (by decide), hno (by decide), hno (by decide)⟩

/-! ### Numerals -/

/-- There are no signs and marks in a numeral. -/
theorem Numeral.digits_only {base n : Nat} {cs : List Char} (hbase : base ≤ 16) (h : Numeral base cs n) :
    ∀ c ∈ cs, c ≠ '+' ∧ c ≠ '-' ∧ c ≠ 'x' ∧ c ≠ 'X' := by
  obtain ⟨ds, -, hds, -⟩ := h
  induction hds with
  | nil => nofun
  | cons hd _ ih => exact List.forall_mem_cons.mpr ⟨hd.ne hbase, ih⟩

theorem Numeral.unsigned {base n : Nat} {cs : List Char} (hbase : base ≤ 16) : ¬Numeral base ('+' :: cs) n :=
  fun h => (h.digits_only hbase '+' (by simp)).1 rfl

theorem Numeral.unique {base n n' : Nat} {cs : List Char} (hbase : base ≤ 16) (h : Numeral base cs n)
    (h' : Numeral base cs n') : n = n' := by
  obtain ⟨ds, -, hds, rfl⟩ := h
  obtain ⟨ds', -, hds', rfl⟩ := h'
  have hsame : ds = ds' := by
    induction hds generalizing ds' with
    | nil => exact (List.forall₂_nil_left_iff.mp hds').symm
    | cons hd _ ih =>
      cases hds' with
      | cons hd' hds' => rw [hd.unique hbase hd', ih _ hds']
  rw [hsame]

/-- One digit more. -/
theorem Numeral.snoc {base n d : Nat} {cs : List Char} {c : Char} (h : Numeral base cs n) (hd : IsDigit base c d) :
    Numeral base (cs ++ [c]) (n * base + d) := by
  obtain ⟨ds, hne, hds, rfl⟩ := h
  refine ⟨ds ++ [d], by simp, List.rel_append hds (.cons hd .nil), ?_⟩
  rw [List.reverse_append, List.reverse_singleton, List.singleton_append, Nat.ofDigits_cons,
    Nat.add_comm, Nat.mul_comm]

/-- **The digits that a number is written with** are a numeral that stands for it. -/
theorem numeral_toDigits (n : Nat) : Numeral 10 (Nat.toDigits 10 n) n := by
  induction n using Nat.strong_induction_on with
  | _ n ih =>
    rw [Nat.toDigits_eq_if (by decide)]
    split
    · next hn => exact ⟨[n], by simp, .cons ⟨hn, .inl rfl⟩ .nil, by simp⟩
    · next hn =>
      have hrest := ih (n / 10) (by omega)
      have hlast : IsDigit 10 (n % 10).digitChar (n % 10) := ⟨Nat.mod_lt _ (by decide), .inl rfl⟩
      have := hrest.snoc hlast
      rwa [Nat.div_add_mod'] at this

/-! ### Reading digits -/

/-- What digits without a sign are read as. -/
def digits? (base : Nat) (cs : List Char) : Option Nat :=
  if cs.isEmpty then none
  else cs.foldlM (fun n c => (hexDigit? c).bind fun d => if d < base then some (n * base + d) else none) 0

/-- The number that digits stand for, behind those that stand for `acc`. -/
theorem foldlM_digits {base : Nat} (hbase : base ≤ 16) {cs : List Char} {acc n : Nat} :
    cs.foldlM (fun n c => (hexDigit? c).bind fun d => if d < base then some (n * base + d) else none) acc = some n ↔
      ∃ ds, List.Forall₂ (IsDigit base) cs ds ∧ ds.foldl (fun n d => n * base + d) acc = n := by
  induction cs generalizing acc with
  | nil => simp [List.forall₂_nil_left_iff]
  | cons c cs ih =>
    simp only [List.foldlM_cons, Option.bind_eq_bind, Option.bind_eq_some_iff, Option.ite_none_right_eq_some, ih,
      List.forall₂_cons_left_iff, isDigit_iff hbase]
    constructor
    · rintro ⟨_, ⟨d, hd, hlt, hacc⟩, ds, hds, rfl⟩
      cases hacc
      exact ⟨d :: ds, ⟨d, ds, ⟨hd, hlt⟩, hds, rfl⟩, rfl⟩
    · rintro ⟨_, ⟨d, ds, ⟨hd, hlt⟩, hds, rfl⟩, rfl⟩
      exact ⟨acc * base + d, ⟨d, hd, hlt, rfl⟩, ds, hds, rfl⟩

/-- The number that digits stand for is what counting with them gives. -/
theorem foldl_digits (base : Nat) (ds : List Nat) :
    ds.foldl (fun n d => n * base + d) 0 = Nat.ofDigits base ds.reverse := by
  rw [Nat.ofDigits_eq_foldr, List.foldr_reverse]
  congr
  funext n d
  rw [Nat.add_comm, Nat.mul_comm]
  rfl

theorem digits?_eq_some {base : Nat} (hbase : base ≤ 16) {cs : List Char} {n : Nat} :
    digits? base cs = some n ↔ Numeral base cs n := by
  rw [digits?, Option.ite_none_left_eq_some, foldlM_digits hbase, Numeral]
  constructor
  · rintro ⟨hne, ds, hds, rfl⟩
    refine ⟨ds, ?_, hds, (foldl_digits base ds).symm⟩
    rintro rfl
    exact hne (by simp [List.forall₂_nil_right_iff.mp hds])
  · rintro ⟨ds, hne, hds, rfl⟩
    refine ⟨?_, ds, hds, foldl_digits base ds⟩
    rw [List.isEmpty_iff]
    rintro rfl
    exact hne (List.forall₂_nil_left_iff.mp hds)

theorem natural?_eq (base : Nat) (cs : List Char) : natural? base cs =
    (digits? base (match cs with | '+' :: rest => rest | _ => cs)).bind
      fun n => if n < 0x10000000000000000 then some n else none := by
  have hread (digits : List Char) (next : Nat → Option Nat) :
      (if digits.isEmpty then none >>= next
        else digits.foldlM (fun n c => (hexDigit? c).bind fun d => if d < base then some (n * base + d) else none) 0
          >>= next) = (digits? base digits).bind next := by
    unfold digits?
    split <;> rfl
  exact hread _ _

/-- **The natural numbers that are read** are those below `2 ^ 64`, of digits that may have a plus sign in front. -/
theorem natural?_eq_some {base : Nat} (hbase : base ≤ 16) {cs : List Char} {n : Nat} :
    natural? base cs = some n ↔ SignedNumeral base cs n ∧ n < 2 ^ 64 := by
  have hread (digits : List Char) : ((digits? base digits).bind
      fun n => if n < 0x10000000000000000 then some n else none) = some n ↔ Numeral base digits n ∧ n < 2 ^ 64 := by
    simp only [Option.bind_eq_some_iff, digits?_eq_some hbase, Option.ite_none_right_eq_some]
    constructor
    · rintro ⟨_, h, hn, hsame⟩
      cases hsame
      exact ⟨h, hn⟩
    · rintro ⟨h, hn⟩
      exact ⟨n, h, hn, rfl⟩
  rw [natural?_eq, hread, SignedNumeral]
  split
  · next rest => simp [Numeral.unsigned hbase]
  · next hno =>
    exact and_congr_left' ⟨.inl, fun h => h.resolve_right fun ⟨rest, hcs, _⟩ => hno rest hcs⟩

/-! ### Texts without a plus sign -/

theorem SignedNumeral.unique {base n n' : Nat} {cs : List Char} (hbase : base ≤ 16) (h : SignedNumeral base cs n)
    (h' : SignedNumeral base cs n') : n = n' := by
  obtain h | ⟨rest, rfl, h⟩ := h
  · obtain h' | ⟨_, rfl, -⟩ := h'
    · exact h.unique hbase h'
    · exact absurd h (Numeral.unsigned hbase)
  · obtain h' | ⟨_, hsame, h'⟩ := h'
    · exact absurd h' (Numeral.unsigned hbase)
    · cases hsame
      exact h.unique hbase h'

/-- What is behind a sign in front of digits of base ten is no mark. -/
theorem SignedNumeral.unmarked {x : Char} {cs : List Char} {n : Nat} (hx : x = 'x' ∨ x = 'X') :
    ¬SignedNumeral 10 ('0' :: x :: cs) n := by
  rintro (h | ⟨_, hsame, -⟩)
  · have := h.digits_only (by decide) x (by simp)
    tauto
  · nomatch hsame

/-- No digit is a minus sign. -/
theorem SignedNumeral.ne_minus {base n : Nat} {cs : List Char} (hbase : base ≤ 16) :
    ¬SignedNumeral base ('-' :: cs) n := by
  rintro (h | ⟨_, hsame, -⟩)
  · exact (h.digits_only hbase '-' (by simp)).2.1 rfl
  · nomatch hsame

theorem SignedNumeral.of_no_plus {base n : Nat} {cs : List Char} (h : SignedNumeral base cs n) (hplus : '+' ∉ cs) :
    Numeral base cs n := by
  refine h.resolve_right ?_
  rintro ⟨rest, rfl, -⟩
  simp at hplus

namespace Magnitude

variable {cs : List Char} {n n' : Nat}

theorem unique (h : Magnitude SignedNumeral cs n) (h' : Magnitude SignedNumeral cs n') : n = n' := by
  cases h with
  | decimal h =>
    cases h' with
    | decimal h' => exact h.unique (by decide) h'
    | hexadecimal hx _ => exact absurd h (SignedNumeral.unmarked hx)
  | hexadecimal hx h =>
    cases h' with
    | decimal h' => exact absurd h' (SignedNumeral.unmarked hx)
    | hexadecimal _ h' => exact h.unique (by decide) h'

theorem signed (h : Magnitude Numeral cs n) : Magnitude SignedNumeral cs n := by
  cases h with
  | decimal h => exact .decimal (.inl h)
  | hexadecimal hx h => exact .hexadecimal hx (.inl h)

theorem of_no_plus (h : Magnitude SignedNumeral cs n) (hplus : '+' ∉ cs) : Magnitude Numeral cs n := by
  cases h with
  | decimal h => exact .decimal (h.of_no_plus hplus)
  | hexadecimal hx h => exact .hexadecimal hx (h.of_no_plus (by simp_all))

theorem ne_minus : ¬Magnitude SignedNumeral ('-' :: cs) n := by
  rintro (h | -)
  exact SignedNumeral.ne_minus (by decide) h

/-- Behind a plus sign there is no mark. -/
theorem of_plus (h : Magnitude SignedNumeral ('+' :: cs) n) : Numeral 10 cs n := by
  obtain (h | ⟨rest, hsame, h⟩) | - := h
  · exact absurd h (Numeral.unsigned (by decide))
  · cases hsame
    exact h

end Magnitude

theorem Understood.unique {cs : List Char} {z z' : Int} (h : Understood cs z) (h' : Understood cs z') : z = z' := by
  cases h with
  | plain h =>
    cases h' with
    | plain h' => rw [h.unique h']
    | minus => exact absurd h Magnitude.ne_minus
  | minus h =>
    cases h' with
    | plain h' => exact absurd h' Magnitude.ne_minus
    | minus h' => rw [h.unique h']

/-- **All texts without a plus sign in front are understood** as they are meant. -/
theorem Denotes.understood {cs : List Char} {z : Int} (h : Denotes cs z) (hplus : cs.head? ≠ some '+') :
    Understood cs z := by
  cases h with
  | plain h => exact .plain h.signed
  | plus => exact absurd rfl hplus
  | minus h => exact .minus h.signed

/-- **Nothing is understood in another way** than it is meant. -/
theorem Denotes.eq {cs : List Char} {z z' : Int} (h : Denotes cs z) (h' : Understood cs z') : z = z' := by
  cases h with
  | plain h => exact Understood.unique (.plain h.signed) h'
  | minus h => exact Understood.unique (.minus h.signed) h'
  | plus h =>
    obtain h' | - := h'
    rw [h.signed.unique (.decimal (.inl h'.of_plus))]

/-- **What is understood is a text of an integer**, unless there is a plus sign somewhere behind its start. -/
theorem Understood.denotes {cs : List Char} {z : Int} (h : Understood cs z) (hplus : '+' ∉ cs.tail) :
    Denotes cs z := by
  cases h with
  | minus h => exact .minus (h.of_no_plus hplus)
  | plain h =>
    cases cs with
    | nil => exact .plain (h.of_no_plus nofun)
    | cons c cs =>
      by_cases hc : c = '+'
      · subst hc
        exact .plus (.decimal h.of_plus)
      · exact .plain (h.of_no_plus (by simpa [Ne.symm hc] using hplus))

theorem Magnitude.plus_not_mem {cs : List Char} {n : Nat} (h : Magnitude Numeral cs n) : '+' ∉ cs := by
  cases h with
  | decimal h => exact fun hplus => (h.digits_only (by decide) '+' hplus).1 rfl
  | hexadecimal hx h =>
    rcases hx with rfl | rfl <;> simpa using fun hplus => (h.digits_only (by decide) '+' hplus).1 rfl

/-- Texts of integers have no plus sign behind their start. -/
theorem Denotes.plus_not_mem {cs : List Char} {z : Int} (h : Denotes cs z) : '+' ∉ cs.tail := by
  cases h with
  | plain h => exact fun hplus => h.plus_not_mem (List.mem_of_mem_tail hplus)
  | plus h | minus h => exact h.plus_not_mem

/-! ### Reading integers -/

theorem magnitude?_eq_some {cs : List Char} {n : Nat} :
    magnitude? cs = some n ↔ Magnitude SignedNumeral cs n ∧ n < 2 ^ 64 := by
  have hmark {x : Char} {digits : List Char} (hx : x = 'x' ∨ x = 'X') :
      natural? 16 digits = some n ↔ Magnitude SignedNumeral ('0' :: x :: digits) n ∧ n < 2 ^ 64 := by
    rw [natural?_eq_some (by decide)]
    refine and_congr_left' ⟨.hexadecimal hx, fun h => ?_⟩
    cases h with
    | decimal h => exact absurd h (SignedNumeral.unmarked hx)
    | hexadecimal _ h => exact h
  unfold magnitude?
  split
  · exact hmark (.inl rfl)
  · exact hmark (.inr rfl)
  · next hx hX =>
    rw [natural?_eq_some (by decide)]
    refine and_congr_left' ⟨.decimal, fun h => ?_⟩
    cases h with
    | decimal h => exact h
    | hexadecimal hmark _ =>
      obtain rfl | rfl := hmark
      · exact absurd rfl (hx _)
      · exact absurd rfl (hX _)

/-- A word of 64 bits as a signed number. -/
theorem Fits.bmod {x : Int} (h : Fits 64 x) : x.bmod (2 ^ 64) = if x < 2 ^ 63 then x else x - 2 ^ 64 := by
  obtain ⟨hlow, hhigh⟩ := h
  rw [Int.bmod_def]
  norm_num at *
  omega

/-- **The integers that are read** are those of 64 bits, signed or unsigned, as the signed ones with their words. -/
theorem integer?_eq_some {s : String} {z : Int} :
    integer? s = some z ↔ ∃ x, Understood s.toList x ∧ Fits 64 x ∧ x.bmod (2 ^ 64) = z := by
  unfold integer?
  generalize s.toList = cs
  split
  · simp only [Option.bind_eq_some_iff, magnitude?_eq_some, Option.ite_none_right_eq_some]
    constructor
    · rintro ⟨n, ⟨hn, -⟩, hlt, hz⟩
      have hfits : Fits 64 (-n : Int) := ⟨by omega, by omega⟩
      refine ⟨-n, .minus hn, hfits, ?_⟩
      rw [hfits.bmod, if_pos (by omega)]
      exact Option.some.inj hz
    · rintro ⟨x, hx, hfits, rfl⟩
      obtain hx | hx := hx
      · exact absurd hx Magnitude.ne_minus
      · have := hfits.1
        refine ⟨_, ⟨hx, by omega⟩, by omega, ?_⟩
        rw [hfits.bmod, if_pos (by omega)]
  · next hminus =>
    simp only [Option.map_eq_some_iff, magnitude?_eq_some, signedOfWord]
    constructor
    · rintro ⟨n, ⟨hn, hlt⟩, rfl⟩
      have hfits : Fits 64 (n : Int) := ⟨by omega, by omega⟩
      refine ⟨n, .plain hn, hfits, ?_⟩
      rw [hfits.bmod]
      split <;> split <;> omega
    · rintro ⟨x, hx, hfits, rfl⟩
      obtain hx | hx := hx
      · have := hfits.2
        refine ⟨_, ⟨hx, by omega⟩, ?_⟩
        rw [hfits.bmod]
        split <;> split <;> omega
      · exact absurd rfl (hminus _)

/-- A word is the same, whatever longer word it is taken from. -/
theorem ofInt_bmod {width longer : Nat} (h : width ≤ longer) (z : Int) :
    BitVec.ofInt width (z.bmod (2 ^ longer)) = BitVec.ofInt width z := by
  apply BitVec.eq_of_toInt_eq
  rw [BitVec.toInt_ofInt, BitVec.toInt_ofInt]
  exact Int.bmod_bmod_of_dvd (Nat.pow_dvd_pow 2 h)

/-- **The words of 32 bits that are made of words of 64 bits.** -/
theorem narrow?_eq_some {z : Int} {word : BitVec 32} (h : Fits 64 z) :
    narrow? (z.bmod (2 ^ 64)) = some word ↔ FitsFolded z ∧ word = BitVec.ofInt 32 z := by
  rw [narrow?, ofInt_bmod (by decide), Option.ite_none_right_eq_some, Option.some.injEq, eq_comm (a := word), h.bmod]
  refine and_congr_left' ?_
  obtain ⟨hlow, hhigh⟩ := h
  unfold FitsFolded Fits
  split <;> omega

theorem FitsFolded.fits {z : Int} (h : FitsFolded z) : Fits 64 z := by
  unfold FitsFolded Fits at *
  omega

/-- Every word is read from an integer that fits. -/
theorem fits_toInt {width : Nat} (word : BitVec width) : Fits width word.toInt :=
  ⟨BitVec.le_toInt word, by
    have := BitVec.toInt_lt (x := word)
    have : (2 : Int) ^ (width - 1) ≤ 2 ^ width := pow_le_pow_right₀ (by decide) (Nat.sub_le _ _)
    omega⟩

/-! ### Integers are read as they are written -/

/-- **Integers of a type are read**, those that `Taken` holds for, as the values that `make` makes of them. -/
structure ReadsIntegers (type : ValueType) (make : Int → Value) (Taken : Int → Prop) : Prop where
  /-- What is understood and taken is read, and nothing else. -/
  exactly {s : String} {v : Value} : readValue type s = .ok v ↔ ∃ z, Understood s.toList z ∧ Taken z ∧ v = make z
  /-- What is read is the text of an integer, unless there is a plus sign behind its start. -/
  sound {s : String} {v : Value} (h : readValue type s = .ok v) (hplus : '+' ∉ s.toList.tail) :
    ∃ z, Denotes s.toList z ∧ Taken z ∧ v = make z
  /-- Texts of integers are read, without a sign or with a minus sign. -/
  complete {s : String} {z : Int} (h : Denotes s.toList z) (hplus : s.toList.head? ≠ some '+') (hz : Taken z) :
    readValue type s = .ok (make z)
  /-- Texts of other integers are not. -/
  refuses {s : String} {z : Int} (h : Denotes s.toList z) (hz : ¬Taken z) :
    readValue type s = .error (.invalid type s)
  /-- Values are read as they are shown. -/
  back (z : Int) : readValue type (make z).text = .ok (make z)

/-- **The text that an integer is shown as** denotes it. -/
theorem denotes_toString (z : Int) : Denotes (toString z).toList z ∧ (toString z).toList.head? ≠ some '+' := by
  have hdigits (n : Nat) : Numeral 10 n.repr.toList n := by
    rw [Nat.repr_eq_ofList_toDigits, String.toList_ofList]
    exact numeral_toDigits n
  rw [Int.toString_eq_repr, Int.repr_eq_if]
  split
  · next hz =>
    obtain ⟨n, rfl⟩ := Int.eq_ofNat_of_zero_le hz
    refine ⟨.plain (.decimal (hdigits n)), fun hplus => ?_⟩
    exact ((hdigits n).digits_only (by decide) '+' (List.mem_of_mem_head? hplus)).1 rfl
  · next hz =>
    obtain ⟨n, rfl⟩ := Int.exists_eq_neg_ofNat (by omega : z ≤ 0)
    rw [String.toList_append, Int.neg_neg]
    exact ⟨.minus (.decimal (hdigits n)), by simp⟩

/-- It is enough that what is understood and taken is read, and that what values are shown as is taken. -/
theorem ReadsIntegers.of_exactly {type : ValueType} {make : Int → Value} {Taken : Int → Prop}
    (exactly : ∀ s v, value? type s = some v ↔ ∃ z, Understood s.toList z ∧ Taken z ∧ v = make z)
    (shown : ∀ z, ∃ x, (make z).text = toString x ∧ Taken x ∧ make z = make x) : ReadsIntegers type make Taken := by
  have hread (s : String) (v : Value) :
      readValue type s = .ok v ↔ ∃ z, Understood s.toList z ∧ Taken z ∧ v = make z := by
    rw [← exactly, readValue]
    split
    · next hv => rw [hv, Except.ok.injEq, Option.some.injEq]
    · next hv => simp [hv]
  have hcomplete {s : String} {z : Int} (h : Denotes s.toList z) (hplus : s.toList.head? ≠ some '+') (hz : Taken z) :
      readValue type s = .ok (make z) := (hread s _).mpr ⟨z, h.understood hplus, hz, rfl⟩
  refine { exactly := hread _ _, complete := hcomplete, sound := ?_, refuses := ?_, back := ?_ }
  · intro s v h hplus
    obtain ⟨z, hz, htaken, rfl⟩ := (hread s v).mp h
    exact ⟨z, hz.denotes hplus, htaken, rfl⟩
  · intro s z h hz
    rw [readValue]
    split
    · next v hv =>
      obtain ⟨x, hx, htaken, -⟩ := (exactly s v).mp hv
      rw [h.eq hx] at hz
      exact absurd htaken hz
    · rfl
  · intro z
    obtain ⟨x, htext, hx, hsame⟩ := shown z
    obtain ⟨hdenotes, hplus⟩ := denotes_toString x
    rw [htext, hsame]
    exact hcomplete hdenotes hplus hx

/-- **A text is read as it is meant**: if an integer of the width is read, it is the one that the text denotes, and if
the text denotes one and has no plus sign in front, it is read. -/
structure ReadAsMeant (type : ValueType) (width : Nat) (make : Int → Value) (s : String) : Prop where
  sound {v : Value} (h : readValue type s = .ok v) : ∃ z, Denotes s.toList z ∧ Fits width z ∧ v = make z
  complete {z : Int} (h : Denotes s.toList z) (hplus : s.toList.head? ≠ some '+') (hz : Fits width z) :
    readValue type s = .ok (make z)

/-- What is wrong with texts that are not read as they are meant is a plus sign, or what is taken beyond the width. -/
theorem ReadsIntegers.asMeant_iff {type : ValueType} {width : Nat} {make : Int → Value} {Taken : Int → Prop}
    (h : ReadsIntegers type make Taken) (hfits : ∀ z, Fits width z → Taken z) (s : String) :
    ReadAsMeant type width make s ↔
      ∀ z, Understood s.toList z → Taken z → '+' ∉ s.toList.tail ∧ Fits width z := by
  constructor
  · intro hmeant z hz htaken
    obtain ⟨z', hdenotes, hfits', -⟩ := hmeant.sound (h.exactly.mpr ⟨z, hz, htaken, rfl⟩)
    obtain rfl := hdenotes.eq hz
    exact ⟨hdenotes.plus_not_mem, hfits'⟩
  · intro hgood
    refine ⟨fun hv => ?_, fun hdenotes hplus hz => h.complete hdenotes hplus (hfits _ hz)⟩
    obtain ⟨z, hz, htaken, rfl⟩ := h.exactly.mp hv
    obtain ⟨hplus, hz'⟩ := hgood z hz htaken
    exact ⟨z, hz.denotes hplus, hz', rfl⟩

theorem readsIntegers_i32 : ReadsIntegers .i32 (fun z => .i32 (BitVec.ofInt 32 z)) FitsFolded := by
  refine .of_exactly (fun s v => ?_) fun z => ⟨_, rfl, .inl (fits_toInt _), by rw [BitVec.ofInt_toInt]⟩
  simp only [value?, Option.map_eq_some_iff, Option.bind_eq_some_iff, integer?_eq_some]
  constructor
  · rintro ⟨word, ⟨_, ⟨z, hz, hfits, rfl⟩, hword⟩, rfl⟩
    obtain ⟨hfolded, rfl⟩ := (narrow?_eq_some hfits).mp hword
    exact ⟨z, hz, hfolded, rfl⟩
  · rintro ⟨z, hz, hfolded, rfl⟩
    exact ⟨_, ⟨_, ⟨z, hz, hfolded.fits, rfl⟩, (narrow?_eq_some hfolded.fits).mpr ⟨hfolded, rfl⟩⟩, rfl⟩

theorem readsIntegers_i64 : ReadsIntegers .i64 (fun z => .i64 (BitVec.ofInt 64 z)) (Fits 64) := by
  refine .of_exactly (fun s v => ?_) fun z => ⟨_, rfl, fits_toInt _, by rw [BitVec.ofInt_toInt]⟩
  simp only [value?, Option.map_eq_some_iff, integer?_eq_some]
  constructor
  · rintro ⟨_, ⟨z, hz, hfits, rfl⟩, rfl⟩
    exact ⟨z, hz, hfits, by rw [ofInt_bmod (by decide)]⟩
  · rintro ⟨z, hz, hfits, rfl⟩
    exact ⟨_, ⟨z, hz, hfits, rfl⟩, by rw [ofInt_bmod (by decide)]⟩

/-- **Which texts of integers are read as they are meant**: all but those that are understood although there is a plus
sign behind their start, and for 32 bits those of integers that look like negative ones in 64 bits. Of all texts it is
known what is read. -/
theorem integers_read (s : String) :
    (ReadAsMeant .i32 32 (fun z => .i32 (BitVec.ofInt 32 z)) s ↔
      ∀ z, Understood s.toList z → FitsFolded z → '+' ∉ s.toList.tail ∧ Fits 32 z) ∧
    (ReadAsMeant .i64 64 (fun z => .i64 (BitVec.ofInt 64 z)) s ↔
      ∀ z, Understood s.toList z → Fits 64 z → '+' ∉ s.toList.tail) ∧
    ReadsIntegers .i32 (fun z => .i32 (BitVec.ofInt 32 z)) FitsFolded ∧
    ReadsIntegers .i64 (fun z => .i64 (BitVec.ofInt 64 z)) (Fits 64) := by
  refine ⟨readsIntegers_i32.asMeant_iff (fun _ => .inl) s, ?_, readsIntegers_i32, readsIntegers_i64⟩
  rw [readsIntegers_i64.asMeant_iff (fun _ => id) s]
  exact forall₂_congr fun z _ => ⟨fun h hz => (h hz).1, fun h hz => ⟨h hz, hz⟩⟩

example : readValue .i32 "18446744073709551615" = .ok (.i32 (-1)) := by rfl

example : readValue .i32 "-+1" = .ok (.i32 (-1)) := by rfl

end WasmEngine.CommandLine
