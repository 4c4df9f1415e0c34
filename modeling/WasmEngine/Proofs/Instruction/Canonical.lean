import WasmEngine.Instruction.Access
import WasmEngine.Proofs.Float.Canonical
import WasmEngine.Proofs.Instruction.Division

/-!
# Cells stay canonical

A number of 32 bits does not fill its cell, and all that reads it has to agree on the rest. So the rest is zero
(`Cell.Canonical`): numeric instructions put back such cells (`NumericOp.canonical_eval`), and so do loads
(`LoadOp.canonical_extend`). Nothing relies on it, however. Instructions look at the bits that count and at no others
(`NumericOp.eval_congr`), apart from the two that hand on a cell of 32 bits as it is.

Words that are not numbers have a canonical form as well, which all float instructions give that compute a value
(`NumericOp.canonical_nan`). The others change the sign bit and nothing else (`NumericOp.sign_changed`).
-/

namespace WasmEngine

/-! ### Bits that count -/

/-- The number of bits of a cell that count for a value of the type. -/
def ValueType.cellBits : ValueType → Nat
  | .i32 | .f32 => 32
  | .i64 | .f64 | .ref _ => 64

@[simp] theorem IntWidth.cellBits_type (w : IntWidth) : w.type.cellBits = w.bits := by cases w <;> rfl

@[simp] theorem FloatWidth.cellBits_type (w : FloatWidth) : w.type.cellBits = w.format.width := by cases w <;> rfl

@[simp] theorem IntWidth.isRef_type (w : IntWidth) : w.type.isRef = false := by cases w <;> rfl

@[simp] theorem FloatWidth.isRef_type (w : FloatWidth) : w.type.isRef = false := by cases w <;> rfl

namespace Cell

variable {t : ValueType} {a b c : Cell}

/-- **A canonical cell** of a type: beyond the bits that count, there are zeros. -/
def Canonical (t : ValueType) (c : Cell) : Prop := c.toNat < 2 ^ t.cellBits

/-- The bits of a cell that count, as a number. -/
def meaning (t : ValueType) (c : Cell) : Nat := c.toNat % 2 ^ t.cellBits

theorem canonical_of_wide (h : t.cellBits = 64) (c : Cell) : c.Canonical t := by
  rw [Canonical, h]
  exact c.isLt

theorem canonical_ofInt (w : IntWidth) (x : BitVec w.bits) : (ofInt x).Canonical w.type := by
  rw [Canonical, w.cellBits_type]
  exact ofInt_lt w x

theorem canonical_ofFloat (w : FloatWidth) (word : Nat) : (ofFloat w word).Canonical w.type := by
  rw [Canonical, w.cellBits_type, ofFloat, BitVec.toNat_setWidth]
  exact (Nat.mod_le _ _).trans_lt (BitVec.isLt _)

theorem canonical_ofBool (b : Bool) : (ofBool b).Canonical .i32 := by
  cases b <;> simp [ofBool, Canonical, ValueType.cellBits]

/-- A part of the bits that count is the same for cells in which they are the same. -/
theorem setWidth_congr {n : Nat} (hn : n ≤ t.cellBits) (h : a.meaning t = b.meaning t) :
    a.setWidth n = b.setWidth n := by
  have hmod : a.meaning t % 2 ^ n = b.meaning t % 2 ^ n := by rw [h]
  have hdvd : 2 ^ n ∣ 2 ^ t.cellBits := Nat.pow_dvd_pow 2 hn
  rw [meaning, meaning, Nat.mod_mod_of_dvd _ hdvd, Nat.mod_mod_of_dvd _ hdvd] at hmod
  rw [← BitVec.toNat_inj, BitVec.toNat_setWidth, BitVec.toNat_setWidth, hmod]

theorem eq_of_meaning (ht : t.cellBits = 64) (h : a.meaning t = b.meaning t) : a = b := by
  have hwhole := setWidth_congr (n := 64) ht.ge h
  rwa [BitVec.setWidth_eq, BitVec.setWidth_eq] at hwhole

theorem toInt_congr {w : IntWidth} (h : a.meaning w.type = b.meaning w.type) : a.toInt w = b.toInt w :=
  setWidth_congr w.cellBits_type.ge h

theorem toFloat_congr {w : FloatWidth} (h : a.meaning w.type = b.meaning w.type) : a.toFloat w = b.toFloat w :=
  congrArg BitVec.toNat (setWidth_congr w.cellBits_type.ge h)

theorem number_congr {w : IntWidth} (s : Signedness) (h : a.meaning w.type = b.meaning w.type) :
    a.number w s = b.number w s := by
  rw [number_eq, number_eq, toInt_congr h]

theorem extendSign_congr {n : Nat} (w : IntWidth) (hn : n ≤ t.cellBits) (h : a.meaning t = b.meaning t) :
    a.extendSign n w = b.extendSign n w := by
  rw [extendSign, extendSign, setWidth_congr hn h]

/-! ### Floats in cells -/

theorem format_width_le (w : FloatWidth) : w.format.width ≤ 64 := by cases w <;> decide

theorem toFloat_ofFloat (w : FloatWidth) (word : Nat) : (ofFloat w word).toFloat w = word % 2 ^ w.format.width := by
  rw [toFloat, ofFloat, BitVec.setWidth_setWidth_of_le _ (format_width_le w), BitVec.setWidth_eq, BitVec.toNat_ofNat]

theorem getLsbD_ofFloat (w : FloatWidth) (word : Nat) {i : Nat} (hi : i < w.format.width) :
    (ofFloat w word).getLsbD i = word.testBit i := by
  have hcell : i < 64 := hi.trans_le (format_width_le w)
  rw [ofFloat, BitVec.getLsbD_setWidth, BitVec.getLsbD_ofNat, decide_eq_true hi, decide_eq_true hcell, Bool.true_and,
    Bool.true_and]

theorem testBit_toFloat (w : FloatWidth) (c : Cell) {i : Nat} (hi : i < w.format.width) :
    (c.toFloat w).testBit i = c.getLsbD i := by
  rw [toFloat, BitVec.testBit_toNat, BitVec.getLsbD_setWidth, decide_eq_true hi, Bool.true_and]

/-- A cell with another sign has all other bits of the float as they were. -/
theorem getLsbD_sign (w : FloatWidth) (s : Bool) (c : Cell) {i : Nat} (hi : i < w.format.width) :
    (ofFloat w (w.format.sign s + w.format.magnitude (c.toFloat w))).getLsbD i =
      if i + 1 = w.format.width then s else c.getLsbD i := by
  rw [getLsbD_ofFloat w _ hi, w.format.testBit_sign_add s _ hi, testBit_toFloat w c hi]

theorem isNegative_toFloat (w : FloatWidth) (c : Cell) {i : Nat} (hi : i + 1 = w.format.width) :
    w.format.isNegative (c.toFloat w) = c.getLsbD i := by
  have htop : w.format.exponentBits + w.format.fractionBits = i := by
    rw [FloatFormat.width] at hi
    omega
  rw [FloatFormat.isNegative_eq, htop, testBit_toFloat w c (by omega)]

end Cell

/-- The canonical cell of what is not a number. -/
def FloatWidth.canonicalNaN : FloatWidth → Cell
  | w32 => 0x7FC00000
  | w64 => 0x7FF8000000000000

theorem FloatWidth.ofFloat_canonicalNaN (w : FloatWidth) : Cell.ofFloat w w.format.canonicalNaN = w.canonicalNaN := by
  cases w <;> decide

/-- A canonical word is put into a canonical cell. -/
theorem FloatFormat.Canonical.cell {w : FloatWidth} {word : Nat} (h : w.format.Canonical word)
    (hnan : w.format.exactValue ((Cell.ofFloat w word).toFloat w) = .nan) : Cell.ofFloat w word = w.canonicalNaN := by
  rw [Cell.toFloat_ofFloat, ← exact_decode, decode_mod] at hnan
  cases hword : w.format.decode word with
  | nan => rw [h hword, w.ofFloat_canonicalNaN]
  | infinite | finite => rw [hword] at hnan; nomatch hnan

/-! ### Instructions -/

namespace NumericOp

/-- Whether the instruction hands on a cell of 32 bits as it is. -/
def copies : NumericOp → Bool
  | reinterpretFloat .w32 | reinterpretInt .w32 => true
  | _ => false

/-- The width of the float that an instruction computes, if it does: by arithmetic, rounding, taking the root or the
smaller or larger of two floats, or as the nearest float of another width. -/
def computed? : NumericOp → Option FloatWidth
  | floatUnary w op => if op.computes then some w else none
  | floatBinary w op => if op.computes then some w else none
  | demote => some .w32
  | promote => some .w64
  | _ => none

/-- For an instruction that replaces the sign of its first operand: the width, and the new sign, which depends on the
signs of its operands. -/
def newSign? : NumericOp → Option (FloatWidth × (Bool → Bool → Bool))
  | floatUnary w .abs => some (w, fun _ _ => false)
  | floatUnary w .neg => some (w, fun s _ => !s)
  | floatBinary w .copysign => some (w, fun _ s => s)
  | _ => none

variable {op : NumericOp} {a b a' b' c : Cell}

/-- **Results are canonical**, as long as a cell that is handed on is. -/
theorem canonical_eval {type : ValueType} (htype : op.params.head? = some type) (ha : a.Canonical type)
    (h : op.eval a b = .ok c) : c.Canonical op.result := by
  cases op with
  | intTest | intCompare | floatCompare =>
    cases h
    exact Cell.canonical_ofBool _
  | intUnary w | extend8 w | extend16 w | truncateSat w =>
    cases h
    exact Cell.canonical_ofInt w _
  | intBinary w | truncate w =>
    obtain ⟨n, -, h⟩ := bind_eq_ok.mp h
    cases pure_eq_ok.mp h
    exact Cell.canonical_ofInt w _
  | floatUnary w | floatBinary w | convert w =>
    cases h
    exact Cell.canonical_ofFloat w _
  | wrap =>
    cases h
    exact Cell.canonical_ofInt .w32 _
  | demote =>
    cases h
    exact Cell.canonical_ofFloat .w32 _
  | promote | extend | extend32 => exact Cell.canonical_of_wide rfl c
  | reinterpretFloat w | reinterpretInt w =>
    -- the cell stays as it is, and both types have as many bits
    cases h
    cases htype
    cases w <;> exact ha

theorem isRef_result (op : NumericOp) : op.result.isRef = false := by
  cases op with
  | intTest | intCompare | floatCompare | wrap | extend | extend32 | demote | promote => rfl
  | intUnary w | intBinary w | extend8 w | extend16 w | truncate w | truncateSat w => exact w.isRef_type
  | floatUnary w | floatBinary w | convert w => exact w.isRef_type
  | reinterpretFloat w | reinterpretInt w => cases w <;> rfl

/-- A numeric instruction takes one operand or two. -/
theorem params_cases (op : NumericOp) :
    (op.isUnary = true ∧ ∃ a, op.params = [a]) ∨ op.isUnary = false ∧ ∃ a b, op.params = [a, b] := by
  cases op <;> first | exact .inl ⟨rfl, _, rfl⟩ | exact .inr ⟨rfl, _, _, rfl⟩

/-- **Instructions look at the bits that count.** -/
theorem eval_congr (hcopies : op.copies = false)
    (h : op.params.zipWith Cell.meaning [a, b] = op.params.zipWith Cell.meaning [a', b']) :
    op.eval a b = op.eval a' b' := by
  have hfirst {t : ValueType} {ts : List ValueType} (hparams : op.params = t :: ts) :
      a.meaning t = a'.meaning t := by
    rw [hparams] at h
    exact (List.cons.inj h).1
  have hsecond {t u : ValueType} (hparams : op.params = [t, u]) : b.meaning u = b'.meaning u := by
    rw [hparams] at h
    exact (List.cons.inj (List.cons.inj h).2).1
  cases op with
  | intTest | intUnary => rw [eval, eval, Cell.toInt_congr (hfirst rfl)]
  | intCompare | intBinary => rw [eval, eval, Cell.toInt_congr (hfirst rfl), Cell.toInt_congr (hsecond rfl)]
  | floatUnary | truncate | truncateSat => rw [eval, eval, Cell.toFloat_congr (hfirst rfl)]
  | floatCompare | floatBinary => rw [eval, eval, Cell.toFloat_congr (hfirst rfl), Cell.toFloat_congr (hsecond rfl)]
  | wrap => rw [eval, eval, Cell.toInt, Cell.toInt, Cell.eq_of_meaning rfl (hfirst rfl)]
  | extend s =>
    have hword : a.toInt .w32 = a'.toInt .w32 := Cell.toInt_congr (hfirst rfl)
    cases s with
    | signed => rw [eval, eval, Cell.extendSign_congr (n := 32) .w64 le_rfl (hfirst rfl)]
    | unsigned => rw [eval, eval, hword]
  | convert target source s => rw [eval, eval, Cell.number_congr s (hfirst rfl)]
  | demote => rw [eval, eval, Cell.eq_of_meaning rfl (hfirst rfl)]
  | promote => rw [eval, eval, Cell.toFloat_congr (w := .w32) (hfirst rfl)]
  | extend8 w | extend16 w =>
    have hlow : 16 ≤ w.type.cellBits := by cases w <;> decide
    rw [eval, eval, Cell.extendSign_congr w (by omega) (hfirst rfl)]
  | extend32 => rw [eval, eval, Cell.eq_of_meaning rfl (hfirst rfl)]
  | reinterpretFloat w | reinterpretInt w =>
    cases w with
    | w32 => cases hcopies
    | w64 => rw [eval, eval, Cell.eq_of_meaning rfl (hfirst rfl)]

/-- **What is computed and is not a number is canonical.** -/
theorem canonical_nan {w : FloatWidth} (hw : op.computed? = some w) (a b : Cell) :
    op.result = w.type ∧ ∃ c, op.eval a b = .ok c ∧
      (w.format.exactValue (c.toFloat w) = .nan → c = w.canonicalNaN) := by
  cases op with
  | floatUnary v op =>
    obtain ⟨hcomputes, rfl⟩ : op.computes = true ∧ v = w := by simpa [computed?] using hw
    exact ⟨rfl, _, rfl, (FloatFormat.canonical_unary hcomputes _).cell⟩
  | floatBinary v op =>
    obtain ⟨hcomputes, rfl⟩ : op.computes = true ∧ v = w := by simpa [computed?] using hw
    exact ⟨rfl, _, rfl, (FloatFormat.canonical_binary hcomputes _ _).cell⟩
  | demote | promote =>
    cases hw
    exact ⟨rfl, _, rfl, (FloatFormat.canonical_encode _).cell⟩
  | _ => nomatch hw

/-- **What changes a sign changes nothing else.** -/
theorem sign_changed {w : FloatWidth} {sign : Bool → Bool → Bool} (hw : op.newSign? = some (w, sign)) (a b : Cell) :
    op.result = w.type ∧ ∃ c, op.eval a b = .ok c ∧ ∀ i < w.format.width, c.getLsbD i =
      if i + 1 = w.format.width then sign (a.getLsbD i) (b.getLsbD i) else a.getLsbD i := by
  -- the word of the result is a sign and the magnitude of the first operand
  have hchanged (s : Bool) (hs : ∀ i, i + 1 = w.format.width → s = sign (a.getLsbD i) (b.getLsbD i)) :
      ∀ i < w.format.width,
        (Cell.ofFloat w (w.format.sign s + w.format.magnitude (a.toFloat w))).getLsbD i =
          if i + 1 = w.format.width then sign (a.getLsbD i) (b.getLsbD i) else a.getLsbD i := by
    intro i hi
    rw [Cell.getLsbD_sign w s a hi]
    exact ite_congr rfl (fun htop => hs i htop) fun _ => rfl
  cases op with
  | floatUnary v op =>
    cases op with
    | abs =>
      cases hw
      have habs : w.format.sign false + w.format.magnitude (a.toFloat w) = w.format.abs (a.toFloat w) := Nat.zero_add _
      refine ⟨rfl, _, rfl, ?_⟩
      rw [FloatUnary.eval, ← habs]
      exact hchanged false fun _ _ => rfl
    | neg =>
      cases hw
      exact ⟨rfl, _, rfl, hchanged _ fun i hi => congrArg not (Cell.isNegative_toFloat w a hi)⟩
    | _ => nomatch hw
  | floatBinary v op =>
    cases op with
    | copysign =>
      cases hw
      exact ⟨rfl, _, rfl, hchanged _ fun i hi => Cell.isNegative_toFloat w b hi⟩
    | _ => nomatch hw
  | _ => nomatch hw

end NumericOp

/-! ### Loads -/

/-- **What a load puts on the stack is canonical.** -/
theorem LoadOp.canonical_extend (op : LoadOp) {c : Cell} (h : c.toNat < 2 ^ (8 * op.width)) :
    (op.extend c).Canonical op.type := by
  have hle (n : Nat) (hn : 8 * op.width ≤ n) : c.toNat < 2 ^ n := h.trans_le (Nat.pow_le_pow_right Nat.two_pos hn)
  cases op with
  | int w | float w => cases w <;> exact h
  | int8 w s | int16 w s =>
    cases s with
    | signed => exact Cell.canonical_ofInt w _
    | unsigned => cases w <;> exact hle _ (by decide)
  | int32 => exact Cell.canonical_of_wide rfl _

theorem LoadOp.isRef_type (op : LoadOp) : op.type.isRef = false := by
  cases op with
  | int w | int8 w | int16 w => exact w.isRef_type
  | float w => exact w.isRef_type
  | int32 => rfl

/-! ### All instructions -/

/-- **What an instruction keeps to**, whatever cells it is given. Its result is canonical if its operands are. It depends
on the bits of the operands that count, unless it hands on the cell. If it computes a float, there is one cell that is
not a number; if it replaces a sign, it leaves the other bits as they are. -/
structure NumericOp.Tidy (op : NumericOp) (a b : Cell) : Prop where
  canonical : (∀ p ∈ op.params.zip [a, b], p.2.Canonical p.1) → ∀ c, op.eval a b = .ok c → c.Canonical op.result
  congr : op.copies = false → ∀ a' b',
    op.params.zipWith Cell.meaning [a, b] = op.params.zipWith Cell.meaning [a', b'] → op.eval a b = op.eval a' b'
  copied : op.copies = true → op.eval a b = .ok a
  nan : ∀ w, op.computed? = some w → op.result = w.type ∧ ∃ c, op.eval a b = .ok c ∧
    (w.format.exactValue (c.toFloat w) = .nan → c = w.canonicalNaN)
  sign : ∀ w sign, op.newSign? = some (w, sign) → op.result = w.type ∧ ∃ c, op.eval a b = .ok c ∧
    ∀ i < w.format.width, c.getLsbD i =
      if i + 1 = w.format.width then sign (a.getLsbD i) (b.getLsbD i) else a.getLsbD i

/-- **Cells stay canonical**, of all numeric instructions for all operands, and of all loads for whatever they read. -/
theorem NumericOp.cells_canonical : (∀ (op : NumericOp) (a b : Cell), op.Tidy a b) ∧
    ∀ (load : LoadOp) (c : Cell), c.toNat < 2 ^ (8 * load.width) → (load.extend c).Canonical load.type := by
  refine ⟨fun op a b => ?_, fun load _ => load.canonical_extend⟩
  refine ⟨fun hcells _ => ?_, fun hcopies _ _ => eval_congr hcopies, fun hcopies => ?_,
    fun _ hw => canonical_nan hw a b, fun _ _ hw => sign_changed hw a b⟩
  · obtain ⟨-, type, hparams⟩ | ⟨-, type, _, hparams⟩ := op.params_cases
    all_goals
      rw [hparams] at hcells
      exact canonical_eval (by rw [hparams, List.head?_cons]) (hcells _ List.mem_cons_self)
  · cases op with
    | reinterpretFloat | reinterpretInt => rfl
    | _ => nomatch hcopies

/-- A sum with an operand that is not a number, both with something else in the upper halves of their cells, and a byte
that is loaded with its sign. -/
theorem NumericOp.cells_canonical_strewn :
    (floatBinary .w32 .add).eval 0x89ABCDEF7FA00001 0xFFFFFFFF3F800000 = .ok 0x7FC00000 ∧
    ((LoadOp.int8 .w32 .signed).extend 0x80).toNat < 2 ^ 32 := by
  obtain ⟨hops, hloads⟩ := cells_canonical
  refine ⟨?_, hloads _ 0x80 (by decide)⟩
  have hclean : (floatBinary .w32 .add).eval 0x89ABCDEF7FA00001 0xFFFFFFFF3F800000 =
      (floatBinary .w32 .add).eval 0x7FA00001 0x3F800000 := (hops _ _ _).congr rfl _ _ rfl
  obtain ⟨-, c, hc, hnan⟩ := (hops (floatBinary .w32 .add) 0x7FA00001 0x3F800000).nan .w32 rfl
  have hvalue : FloatWidth.w32.format.exactValue (c.toFloat .w32) = .nan := by
    cases hc
    have hword : FloatFormat.single.decode 0x7FC00000 = .nan := by decide
    exact (FloatFormat.exact_decode _ _).symm.trans (congrArg Datum.exact hword)
  rw [hclean, hc, hnan hvalue]
  rfl

end WasmEngine
