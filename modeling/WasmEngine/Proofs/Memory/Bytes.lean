import Mathlib.Algebra.BigOperators.Group.Finset.Basic
import Mathlib.Algebra.BigOperators.Ring.Finset
import WasmEngine.Instruction.Access
import WasmEngine.Proofs.Binary.Cursor
import WasmEngine.Proofs.Machine.Numbers
import WasmEngine.Proofs.Store.Writes

/-!
# A memory as an array of bytes

What is read from a memory, and what is written to it, byte by byte. An access succeeds exactly if it does not go
beyond the end, where positions are numbers and so nothing wraps around. It gives the bytes that it addresses, or
changes exactly these: `Memory.Rewritten` says what is where afterwards, and it is known for everything that writes as
soon as it is known for `Memory.put` (`Memory.rewritten_put`).

All of this together is `Memory.Lawful`, and it holds of every memory. There is no invariant to be kept.
-/

namespace WasmEngine

open Finset (range)

/-! ### Bytes of numbers -/

theorem littleEndian_toLittleEndian (width n : Nat) : littleEndian (toLittleEndian width n) = n % 256 ^ width := by
  induction width generalizing n with
  | zero => rw [Nat.pow_zero, Nat.mod_one]; rfl
  | succ width ih =>
    have hlow : (UInt8.ofNat n).toNat = n % 256 := UInt8.toNat_ofNat'
    change (UInt8.ofNat n).toNat + 256 * littleEndian (toLittleEndian width (n / 256)) = _
    rw [ih, hlow, Nat.pow_succ', Nat.mod_mul]

theorem getElem?_toLittleEndian {width k : Nat} (n : Nat) (h : k < width) :
    (toLittleEndian width n)[k]? = some (UInt8.ofNat (n / 256 ^ k)) := by
  induction width generalizing n k with
  | zero => omega
  | succ width ih =>
    rcases k with _ | k
    · rw [Nat.pow_zero, Nat.div_one]
      rfl
    · rw [toLittleEndian, List.getElem?_cons_succ, ih _ (by omega), Nat.div_div_eq_div_mul, Nat.pow_succ']

/-- **The value of bytes**, the lowest first, in the usual notation. -/
theorem littleEndian_eq_sum (bs : List UInt8) :
    littleEndian bs = ∑ k ∈ range bs.length, (bs[k]?.getD 0).toNat * 256 ^ k := by
  induction bs with
  | nil => rfl
  | cons b bs ih =>
    change b.toNat + 256 * littleEndian bs = _
    rw [ih, List.length_cons, Finset.sum_range_succ', Finset.mul_sum, Nat.add_comm]
    -- the first byte is the last summand of the shifted sum
    congr 1
    · refine Finset.sum_congr rfl fun k _ => ?_
      rw [List.getElem?_cons_succ, Nat.pow_succ']
      exact Nat.mul_left_comm ..
    · simp

namespace Memory

variable {m m' : Memory} {start length : Nat}

/-! ### Single bytes -/

/-- The byte at a position, if the memory has one there. -/
def byte? (m : Memory) (i : Nat) : Option UInt8 := m.bytes[i]?

theorem byte?_eq_data (m : Memory) (i : Nat) : m.byte? i = m.bytes.data[i]? := rfl

theorem getElem?_extract {bytes : ByteArray} (h : start + length ≤ bytes.size) {k : Nat} (hk : k < length) :
    (bytes.extract start (start + length))[k]? = bytes[start + k]? := by
  change (bytes.extract start (start + length)).data[k]? = bytes.data[start + k]?
  have hsize : bytes.data.size = bytes.size := rfl
  rw [ByteArray.data_extract, Array.getElem?_extract, if_pos (by omega)]

theorem size_slice (h : start + length ≤ m.bytes.size) : (m.slice start length).size = length := by
  rw [slice, ByteArray.size_extract]
  omega

theorem toList_slice (h : start + length ≤ m.bytes.size) {k : Nat} (hk : k < length) :
    (m.slice start length).toList[k]? = m.byte? (start + k) := by
  rw [ByteArray.toList_eq, Array.getElem?_toList]
  exact getElem?_extract h hk

theorem length_toList_slice (h : start + length ≤ m.bytes.size) : (m.slice start length).toList.length = length := by
  rw [length_toList, size_slice h]

/-! ### What writing does -/

/-- **Exactly the addressed bytes have changed**: those from a position on are the ones of a piece, all the others
are as they were, and so is everything else of the memory. -/
structure Rewritten (m m' : Memory) (start length : Nat) (piece : Nat → Option UInt8) : Prop where
  inside : ∀ k < length, m'.byte? (start + k) = piece k
  outside : ∀ i, i < start ∨ start + length ≤ i → m'.byte? i = m.byte? i
  size : m'.bytes.size = m.bytes.size
  max : m'.max = m.max
  cap : m'.cap = m.cap
  peak : m'.peak = m.peak

theorem rewritten_put {piece : ByteArray} (h : start + piece.size ≤ m.bytes.size) :
    m.Rewritten (m.put start piece) start piece.size fun k => piece[k]? := by
  rw [put_eq_overlay h]
  have hdata : piece.data.size = piece.size := rfl
  have hall : m.bytes.data.size = m.bytes.size := rfl
  refine ⟨fun k hk => ?_, fun i hi => ?_, size_overlay .., rfl, rfl, rfl⟩
  -- a byte of the piece lies over a byte of the memory, so it is there
  · have hm : start + k < m.bytes.data.size := by omega
    rw [byte?_eq_data, getElem?_overlay, Array.getElem?_eq_getElem hm, Option.map_some, if_pos (Nat.le_add_right ..),
      Nat.add_sub_cancel_left, Array.getElem?_eq_getElem (hdata ▸ hk)]
    exact (Array.getElem?_eq_getElem hk : piece.data[k]? = _).symm
  · rw [byte?_eq_data, getElem?_overlay, byte?_eq_data]
    rcases hi with hi | hi
    · simp [Nat.not_le.mpr hi]
    · have hnone : piece.data[i - start]? = none := Array.getElem?_eq_none (by omega)
      simp [hnone]

theorem Rewritten.congr {piece piece' : Nat → Option UInt8} (h : m.Rewritten m' start length piece)
    (hpiece : ∀ k < length, piece k = piece' k) : m.Rewritten m' start length piece' :=
  { h with inside := fun k hk => (h.inside k hk).trans (hpiece k hk) }

/-- **A change is made if it fits**, to exactly the bytes it addresses, and otherwise it is out of bounds and nothing
is changed. -/
structure Performs (act : Change Unit) (m : Memory) (fits : Prop) (start length : Nat)
    (piece : Nat → Option UInt8) : Prop where
  done : fits → ∃ m', act m = .ok () m' ∧ m.Rewritten m' start length piece
  refused : ¬fits → act m = .error .memoryOutOfBounds m

/-- All changes put bytes if a condition holds. What remains to be said is which bytes these are. -/
theorem performs_put {condition : Memory → Bool} (source : Memory → ByteArray) {fits : Prop}
    {piece : Nat → Option UInt8} (hfits : condition m = true ↔ fits)
    (hsize : fits → (source m).size = length) (hend : fits → start + length ≤ m.bytes.size)
    (hpiece : fits → ∀ k < length, (source m)[k]? = piece k) :
    Performs (changeIf condition fun m => m.put start (source m)) m fits start length piece where
  done h := by
    have hput : m.Rewritten (m.put start (source m)) start (source m).size fun k => (source m)[k]? :=
      rewritten_put (hsize h ▸ hend h)
    rw [hsize h] at hput
    refine ⟨m.put start (source m), ?_, hput.congr (hpiece h)⟩
    rw [changeIf, if_pos (hfits.mpr h)]
  refused h := by rw [changeIf, if_neg fun hc => h (hfits.mp hc)]

theorem contains_iff : m.contains start length = true ↔ start + length ≤ m.bytes.size := decide_eq_true_iff

theorem performs_write (m : Memory) (start : Nat) (piece : ByteArray) :
    Performs (write start piece) m (start + piece.size ≤ m.bytes.size) start piece.size fun k => piece[k]? :=
  performs_put (fun _ => piece) contains_iff (fun _ => rfl) id fun _ _ _ => rfl

theorem performs_store (m : Memory) (start width : Nat) (c : Cell) :
    Performs (store start width c) m (start + width ≤ m.bytes.size) start width
      fun k => some (UInt8.ofNat (c.toNat / 256 ^ k)) := by
  refine performs_put (fun _ => (toLittleEndian width c.toNat).toByteArray) contains_iff (fun _ => by simp) id
    fun _ k hk => ?_
  rw [← getElem?_toLittleEndian c.toNat hk]
  change (toLittleEndian width c.toNat).toByteArray.data[k]? = _
  simp

theorem data_equalBytes (byte : UInt8) (n : Nat) (bytes : ByteArray) :
    (equalBytes byte n bytes).data = bytes.data ++ Array.replicate n byte := by
  induction n generalizing bytes with
  | zero => simp [equalBytes]
  | succ n ih => rw [equalBytes, ih, ByteArray.data_push, Array.replicate_succ', Array.push_eq_append, Array.append_assoc]

theorem performs_fill (m : Memory) (start : Nat) (byte : UInt8) (length : Nat) :
    Performs (fill start byte length) m (start + length ≤ m.bytes.size) start length fun _ => some byte := by
  have hdata : (equalBytes byte length ByteArray.empty).data = Array.replicate length byte := by
    rw [data_equalBytes]
    exact Array.empty_append
  refine performs_put (fun _ => equalBytes byte length ByteArray.empty) contains_iff (fun _ => ?_) id
    fun _ k hk => ?_
  · rw [← ByteArray.size_data, hdata, Array.size_replicate]
  · change (equalBytes byte length ByteArray.empty).data[k]? = _
    rw [hdata, Array.getElem?_replicate, if_pos hk]

/-- A copy puts the bytes that the source has before it, also where the two overlap. -/
theorem performs_copy (m : Memory) (target source length : Nat) :
    Performs (copy target source length) m (source + length ≤ m.bytes.size ∧ target + length ≤ m.bytes.size) target
      length fun k => m.byte? (source + k) :=
  performs_put (fun m => m.slice source length) (by rw [Bool.and_eq_true, contains_iff, contains_iff])
    (fun h => size_slice h.1) (fun h => h.2) fun h _ hk => getElem?_extract h.1 hk

theorem performs_init (m : Memory) (target : Nat) (segment : ByteArray) (source length : Nat) :
    Performs (init target segment source length) m
      (source + length ≤ segment.size ∧ target + length ≤ m.bytes.size) target length
      fun k => segment[source + k]? :=
  performs_put (fun _ => segment.extract source (source + length))
    (by rw [Bool.and_eq_true, decide_eq_true_iff, contains_iff])
    (fun h => by rw [ByteArray.size_extract]; omega) (fun h => h.2) fun h _ hk => getElem?_extract h.1 hk

/-! ### What reading gives -/

/-- **Reading gives the addressed bytes if they are there**, and otherwise it is out of bounds. -/
structure Gives {α : Type} (result : Except TrapCode α) (fits : Prop) (good : α → Prop) : Prop where
  done : fits → ∃ a, result = .ok a ∧ good a
  refused : ¬fits → result = .error .memoryOutOfBounds

theorem gives_read (m : Memory) (start length : Nat) :
    Gives (m.read start length) (start + length ≤ m.bytes.size)
      fun bytes => bytes.size = length ∧ ∀ k < length, bytes[k]? = m.byte? (start + k) where
  done h := by
    refine ⟨m.slice start length, ?_, size_slice h, fun k hk => getElem?_extract h hk⟩
    rw [read, if_pos (contains_iff.mpr h)]
  refused h := by rw [read, if_neg fun hc => h (contains_iff.mp hc)]

/-- What is loaded fits into a cell. -/
theorem toNat_load {bs : List UInt8} (h : bs.length ≤ 8) :
    (BitVec.ofNat 64 (littleEndian bs)).toNat = littleEndian bs := by
  have hlt := littleEndian_lt bs
  -- eight bytes are all that a cell has
  have hpow : 256 ^ bs.length ≤ 256 ^ 8 := Nat.pow_le_pow_right (by decide) h
  exact Nat.mod_eq_of_lt (Nat.lt_of_lt_of_le hlt hpow)

theorem gives_load (m : Memory) (start : Nat) {width : Nat} (hwidth : width ≤ 8) :
    Gives (m.load start width) (start + width ≤ m.bytes.size)
      fun c => c.toNat = ∑ k ∈ range width, ((m.byte? (start + k)).getD 0).toNat * 256 ^ k where
  done h := by
    have hlength := length_toList_slice h
    refine ⟨BitVec.ofNat 64 (littleEndian (m.slice start width).toList), ?_, ?_⟩
    · rw [load, if_pos (contains_iff.mpr h)]
    · rw [toNat_load (Nat.le_trans (Nat.le_of_eq hlength) hwidth), littleEndian_eq_sum, hlength]
      refine Finset.sum_congr rfl fun k hk => ?_
      rw [toList_slice h (Finset.mem_range.mp hk)]
  refused h := by rw [load, if_neg fun hc => h (contains_iff.mp hc)]

/-! ### Loading what was stored -/

/-- The bytes of a cell are found where it was stored. -/
theorem load_of_store {width : Nat} {c : Cell} (h : store start width c m = .ok () m') :
    m'.load start width = .ok (BitVec.ofNat 64 (c.toNat % 256 ^ width)) := by
  have hstore := performs_store m start width c
  have hfits : start + width ≤ m.bytes.size := by
    by_contra hout
    rw [hstore.refused hout] at h
    nomatch h
  obtain ⟨m'', hok, hrewritten⟩ := hstore.done hfits
  cases hok.symm.trans h
  have hfits' : start + width ≤ m'.bytes.size := hrewritten.size.symm ▸ hfits
  -- the bytes that are loaded are compared one by one, and there are no others
  have hbytes : (m'.slice start width).toList = toLittleEndian width c.toNat := by
    refine List.ext_getElem? fun k => ?_
    rcases Nat.lt_or_ge k width with hk | hk
    · rw [toList_slice hfits' hk, hrewritten.inside k hk, getElem?_toLittleEndian _ hk]
    · rw [List.getElem?_eq_none, List.getElem?_eq_none]
      · rwa [length_toLittleEndian]
      · rwa [length_toList_slice hfits']
  rw [load, if_pos (contains_iff.mpr hfits'), hbytes, littleEndian_toLittleEndian]

end Memory

/-- Only the low bits are looked at when their sign is extended. -/
theorem Cell.extendSign_low {n : Nat} (hn : n ≤ 64) (w : IntWidth) (low : BitVec n) :
    Cell.extendSign n w (low.setWidth 64) = (low.signExtend w.bits).setWidth 64 := by
  rw [Cell.extendSign, BitVec.setWidth_setWidth_of_le _ hn, BitVec.setWidth_eq, Cell.ofInt]

namespace LoadOp

/-- The number of bits of what a load puts on the stack. -/
def bits (op : LoadOp) : Nat :=
  match op.type with
  | .i32 | .f32 => 32
  | _ => 64

/-- Whether a load reads the bytes as a signed number. -/
def isSigned : LoadOp → Bool
  | int8 _ .signed | int16 _ .signed | int32 .signed => true
  | _ => false

/-- **The extension of the low bits of a cell**, with their sign or with zeros, to the type of a load. The cell of the
result has zeros above. -/
def extension (op : LoadOp) (c : Cell) : Cell :=
  let low : BitVec (8 * op.width) := c.setWidth (8 * op.width)
  if op.isSigned then (low.signExtend op.bits).setWidth 64 else low.setWidth 64

/-- The bits that were stored are what is extended. -/
theorem extend_low (op : LoadOp) (c : Cell) :
    op.extend (BitVec.ofNat 64 (c.toNat % 256 ^ op.width)) = op.extension c := by
  have hlow : BitVec.ofNat 64 (c.toNat % 256 ^ op.width) = (c.setWidth (8 * op.width)).setWidth 64 := by
    refine BitVec.eq_of_toNat_eq ?_
    rw [BitVec.toNat_ofNat, BitVec.toNat_setWidth, BitVec.toNat_setWidth, Nat.pow_mul]
  rw [hlow]
  -- only three loads look at the sign, at that of 8, 16 and 32 bits
  cases op with
  | int | float => rfl
  | int8 w signedness =>
    cases signedness with
    | signed => cases w <;> exact Cell.extendSign_low (n := 8) (by decide) _ _
    | unsigned => rfl
  | int16 w signedness =>
    cases signedness with
    | signed => cases w <;> exact Cell.extendSign_low (n := 16) (by decide) _ _
    | unsigned => rfl
  | int32 signedness =>
    cases signedness with
    | signed => exact Cell.extendSign_low (n := 32) (by decide) .w64 _
    | unsigned => rfl

end LoadOp

/-! ### All laws -/

/-- **A memory is an array of bytes that is checked for its bounds.** -/
structure Memory.Lawful (m : Memory) : Prop where
  read : ∀ start length, Gives (m.read start length) (start + length ≤ m.bytes.size)
    fun bytes => bytes.size = length ∧ ∀ k < length, bytes[k]? = m.byte? (start + k)
  write : ∀ start piece, Performs (write start piece) m (start + piece.size ≤ m.bytes.size) start piece.size
    fun k => piece[k]?
  load : ∀ start, ∀ width ≤ 8, Gives (m.load start width) (start + width ≤ m.bytes.size)
    fun c => c.toNat = ∑ k ∈ range width, ((m.byte? (start + k)).getD 0).toNat * 256 ^ k
  store : ∀ start width c, Performs (store start width c) m (start + width ≤ m.bytes.size) start width
    fun k => some (UInt8.ofNat (c.toNat / 256 ^ k))
  fill : ∀ start byte length, Performs (fill start byte length) m (start + length ≤ m.bytes.size) start length
    fun _ => some byte
  copy : ∀ target source length, Performs (copy target source length) m
    (source + length ≤ m.bytes.size ∧ target + length ≤ m.bytes.size) target length fun k => m.byte? (source + k)
  init : ∀ target segment source length, Performs (init target segment source length) m
    (source + length ≤ segment.size ∧ target + length ≤ m.bytes.size) target length fun k => segment[source + k]?
  load_of_store : ∀ (op : LoadOp) start c m', Memory.store start op.width c m = .ok () m' →
    ∃ raw, m'.load start op.width = .ok raw ∧ op.extend raw = op.extension c

theorem Memory.lawful (m : Memory) : m.Lawful where
  read := m.gives_read
  write := m.performs_write
  load start _ hwidth := m.gives_load start hwidth
  store := m.performs_store
  fill := m.performs_fill
  copy := m.performs_copy
  init := m.performs_init
  load_of_store op _ c _ h := ⟨_, load_of_store h, op.extend_low c⟩

end WasmEngine
