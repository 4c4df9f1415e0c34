import WasmEngine.Binary.Module
import WasmEngine.Proofs.Binary.Leb128
import WasmEngine.Proofs.Checks
import WasmEngine.Proofs.Keeps

/-!
# What decoders read

A cursor stands in front of the bytes that are left in its window (`Cursor.rest`). The lemmas here say of each decoder
from which others are put together when it succeeds and with what, in terms of these bytes. So a decoder that is
known to have succeeded is taken apart step by step, and one is shown to succeed by its steps. Of those that look at
bytes they also say how they fail.
-/

namespace WasmEngine

/-! ### The bytes of a window -/

theorem ByteArray.toList_eq (bytes : ByteArray) : bytes.toList = bytes.data.toList := by
  have hloop (i : Nat) (r : List UInt8) :
      ByteArray.toList.loop bytes i r = r.reverse ++ bytes.data.toList.drop i := by
    fun_induction ByteArray.toList.loop bytes i r with
    | case1 i r hlt ih =>
      have hi : i < bytes.data.toList.length := hlt
      have hget : bytes.get! i = bytes.data.toList[i] := by
        change bytes.data[i]! = _
        simp [getElem!_pos bytes.data i hlt]
      rw [ih, hget, List.reverse_cons, List.append_assoc, List.drop_eq_getElem_cons hi]
      rfl
    | case2 i r hge =>
      have hi : bytes.data.toList.length ≤ i := Nat.le_of_not_lt hge
      rw [List.drop_eq_nil_of_le hi, List.append_nil]
  exact hloop 0 []

namespace Cursor

variable {c c' : Cursor}

/-- The bytes that are left in the window. -/
def rest (c : Cursor) : List UInt8 := (c.data.toList.take c.stop).drop c.pos

theorem rest_ofBytes (data : ByteArray) : (ofBytes data).rest = data.toList := by
  refine List.take_of_length_le (Nat.le_of_eq ?_)
  rw [ByteArray.toList_eq]
  rfl

theorem getElem?_rest (c : Cursor) (i : Nat) : c.rest[i]? = c.byteAt (c.pos + i) := by
  unfold rest byteAt
  rw [List.getElem?_drop, List.getElem?_take, ByteArray.toList_eq, Array.getElem?_toList]
  rfl

@[simp] theorem rest_advance (c : Cursor) (n : Nat) : (c.advance n).rest = c.rest.drop n := by
  simp [rest, advance, List.drop_drop]

@[simp] theorem pos_advance (c : Cursor) (n : Nat) : (c.advance n).pos = c.pos + n := rfl

@[simp] theorem stop_advance (c : Cursor) (n : Nat) : (c.advance n).stop = c.stop := rfl

theorem byteAt_eq_some {i : Nat} {b : UInt8} (h : c.byteAt i = some b) : i < c.stop := by
  unfold byteAt at h
  split at h
  · assumption
  · nomatch h

/-- The cursor stands in its window, and the window in its bytes. -/
structure Sound (c : Cursor) : Prop where
  pos : c.pos ≤ c.stop
  stop : c.stop ≤ c.data.size

theorem sound_ofBytes (bytes : ByteArray) : (ofBytes bytes).Sound := ⟨Nat.zero_le _, Nat.le_refl _⟩

theorem Sound.length_rest (h : c.Sound) : c.rest.length = c.remaining := by
  have hdata : c.data.toList.length = c.data.size := by rw [ByteArray.toList_eq]; rfl
  have := h.stop
  simp only [rest, remaining, List.length_drop, List.length_take]
  omega

theorem Sound.advance (h : c.Sound) {n : Nat} (hn : n ≤ c.remaining) : (c.advance n).Sound where
  pos := by
    have := h.pos
    simp only [remaining, pos_advance, stop_advance] at hn ⊢
    omega
  stop := h.stop

theorem Sound.window (h : c.Sound) {n : Nat} (hn : n ≤ c.remaining) : (c.window n).Sound where
  pos := Nat.le_add_right _ _
  stop := by
    have hpos := h.pos
    have hstop := h.stop
    simp only [remaining] at hn
    change c.pos + n ≤ c.data.size
    omega

theorem rest_window {n : Nat} (hn : n ≤ c.remaining) : (c.window n).rest = c.rest.take n := by
  simp only [remaining] at hn
  change (c.data.toList.take (c.pos + n)).drop c.pos = ((c.data.toList.take c.stop).drop c.pos).take n
  rw [List.take_drop, List.take_take]
  rcases Nat.eq_zero_or_pos n with rfl | hpos
  · rw [Nat.add_zero, List.drop_eq_nil_of_le (List.length_take_le _ _),
      List.drop_eq_nil_of_le (Nat.le_trans (List.length_take_le _ _) (Nat.min_le_left _ _))]
  · rw [Nat.min_eq_left (by omega)]

end Cursor

/-! ### When decoders succeed -/

namespace Decoder

variable {α β : Type} {d : Decoder α} {c c' : Cursor}

@[simp] theorem fail_eq_ok {fault : DecodeFault} {offset : Nat} {a : α} :
    (fail fault offset : Decoder α) c = .ok a c' ↔ False := ⟨fun h => (nomatch h), False.elim⟩

/-- A check before what follows. -/
@[simp] theorem check_eq_ok {p : Prop} [Decidable p] {fault : DecodeFault} {offset : Nat} {k : Unit → Decoder α} {a : α} :
    (if p then fail fault offset >>= k else k ()) c = .ok a c' ↔ ¬p ∧ k () c = .ok a c' := by
  by_cases hp : p <;> simp [hp, estate_bind_eq_ok]

@[simp] theorem position_eq_ok {n : Nat} : position c = .ok n c' ↔ c.pos = n ∧ c = c' := estate_pure_eq_ok

@[simp] theorem remaining_eq_ok {n : Nat} : remaining c = .ok n c' ↔ c.remaining = n ∧ c = c' := estate_pure_eq_ok

@[simp] theorem atEnd_eq_ok {b : Bool} : atEnd c = .ok b c' ↔ c.isEmpty = b ∧ c = c' := estate_pure_eq_ok

@[simp] theorem peek_eq_ok {b : UInt8} : peek c = .ok b c' ↔ c.byteAt c.pos = some b ∧ c = c' := by
  rw [peek, estate_get_bind]
  cases c.byteAt c.pos with
  | none => simp
  | some a => simpa using estate_pure_eq_ok

@[simp] theorem byte_eq_ok {b : UInt8} : byte c = .ok b c' ↔ c.byteAt c.pos = some b ∧ c.advance 1 = c' := by
  constructor
  · intro h
    obtain ⟨a, c₁, hpeek, h⟩ := estate_bind_eq_ok.mp h
    obtain ⟨ha, rfl⟩ := peek_eq_ok.mp hpeek
    cases h
    exact ⟨ha, rfl⟩
  · rintro ⟨hb, rfl⟩
    exact estate_bind_eq_ok.mpr ⟨b, c, peek_eq_ok.mpr ⟨hb, rfl⟩, rfl⟩

/-- A byte in front of what is left. -/
theorem byte_eq_ok_iff {b : UInt8} : byte c = .ok b c' ↔ c.rest.head? = some b ∧ c.advance 1 = c' := by
  rw [byte_eq_ok, List.head?_eq_getElem?, Cursor.getElem?_rest, Nat.add_zero]

theorem bytes_eq (n : Nat) (c : Cursor) : bytes n c =
    if c.remaining < n then .error ⟨.shortage .window, c.pos⟩ c else .ok (c.take n) (c.advance n) := by
  change (if c.remaining < n then fail (.shortage .window) c.pos else do
    set (c.advance n)
    return c.take n : Decoder ByteArray) c = _
  split <;> rfl

@[simp] theorem bytes_eq_ok {n : Nat} {bs : ByteArray} :
    bytes n c = .ok bs c' ↔ n ≤ c.remaining ∧ c.take n = bs ∧ c.advance n = c' := by
  rw [bytes_eq, ← Nat.not_lt]
  split <;> simp [*]

theorem split_eq (n : Nat) (c : Cursor) : split n c =
    if c.remaining < n then .error ⟨.lengthExceeds n c.remaining, c.pos⟩ c else .ok (c.window n) (c.advance n) := by
  change (if c.remaining < n then fail (.lengthExceeds n c.remaining) c.pos else do
    set (c.advance n)
    return c.window n : Decoder Cursor) c = _
  split <;> rfl

@[simp] theorem split_eq_ok {n : Nat} {w : Cursor} :
    split n c = .ok w c' ↔ n ≤ c.remaining ∧ c.window n = w ∧ c.advance n = c' := by
  rw [split_eq, ← Nat.not_lt]
  split <;> simp [*]

/-- What is read in a window of its own. -/
@[simp] theorem within_eq_ok {n : Nat} {a : α} {w : Cursor} : within n d c = .ok (a, w) c' ↔
    n ≤ c.remaining ∧ d (c.window n) = .ok a w ∧ c.advance n = c' := by
  simp only [within, EStateM.run, estate_bind_eq_ok, split_eq_ok]
  constructor
  · rintro ⟨_, _, ⟨hn, rfl, rfl⟩, h⟩
    cases hd : d (c.window n) with
    | ok b w' =>
      rw [hd] at h
      cases h
      exact ⟨hn, rfl, rfl⟩
    | error =>
      rw [hd] at h
      nomatch h
  · rintro ⟨hn, hd, rfl⟩
    refine ⟨_, _, ⟨hn, rfl, rfl⟩, ?_⟩
    rw [hd]
    rfl

theorem finish_eq (what : String) (c : Cursor) : finish what c =
    if c.isEmpty then .ok () c else .error ⟨.leftOver what c.remaining, c.pos⟩ c := by
  change (if c.isEmpty then return () else fail (.leftOver what c.remaining) c.pos : Decoder Unit) c = _
  split <;> rfl

@[simp] theorem finish_eq_ok {what : String} : finish what c = .ok () c' ↔ c.isEmpty = true ∧ c = c' := by
  rw [finish_eq]
  split <;> simp [*]

theorem ofLeb128_eq_ok {read : (Nat → Option UInt8) → Nat → Except DecodeError (α × Nat)} {a : α} :
    ofLeb128 read c = .ok a c' ↔ ∃ n, read c.byteAt c.pos = .ok (a, n) ∧ c.advance n = c' := by
  rw [ofLeb128, estate_get_bind]
  rcases read c.byteAt c.pos with e | ⟨b, n⟩
  · exact ⟨fun h => (nomatch h), fun ⟨_, h, _⟩ => (nomatch h)⟩
  · constructor
    · intro h
      cases h
      exact ⟨n, rfl, rfl⟩
    · rintro ⟨m, h, rfl⟩
      cases h
      rfl

/-- **An integer of 32 bits** is the first of what is left. -/
theorem u32_eq_ok {n : Nat} : u32 c = .ok n c' ↔ ∃ length, Leb128.UnsignedAt 32 c.rest n length ∧ c.advance length = c' := by
  unfold u32
  rw [ofLeb128_eq_ok]
  refine exists_congr fun length => and_congr_left' ?_
  exact Leb128.unsigned_eq_ok_iff (by decide) fun i => (c.getElem?_rest i).symm

/-! ### When decoders fail

Those that look at bytes stay where they are when they fail. -/

variable {e : DecodeError}

theorem peek_eq_error (h : peek c = .error e c') : e = ⟨.shortage .window, c.pos⟩ ∧ c' = c := by
  rw [peek, estate_get_bind] at h
  cases hb : c.byteAt c.pos <;> rw [hb] at h <;> cases h
  exact ⟨rfl, rfl⟩

theorem byte_eq_error (h : byte c = .error e c') : e = ⟨.shortage .window, c.pos⟩ ∧ c' = c := by
  cases hp : peek c with
  | ok b c₁ =>
    rw [byte, estate_bind_of_ok hp] at h
    nomatch h
  | error e' c₁ =>
    rw [byte, estate_bind_of_error hp] at h
    cases h
    exact peek_eq_error hp

theorem bytes_eq_error {n : Nat} (h : bytes n c = .error e c') : e = ⟨.shortage .window, c.pos⟩ ∧ c' = c := by
  rw [bytes_eq] at h
  split at h <;> cases h
  exact ⟨rfl, rfl⟩

theorem split_eq_error {n : Nat} (h : split n c = .error e c') :
    e = ⟨.lengthExceeds n c.remaining, c.pos⟩ ∧ c' = c := by
  rw [split_eq] at h
  split at h <;> cases h
  exact ⟨rfl, rfl⟩

theorem finish_eq_error {what : String} (h : finish what c = .error e c') :
    e = ⟨.leftOver what c.remaining, c.pos⟩ ∧ c' = c := by
  rw [finish_eq] at h
  split at h <;> cases h
  exact ⟨rfl, rfl⟩

theorem ofLeb128_eq_error {read : (Nat → Option UInt8) → Nat → Except DecodeError (α × Nat)}
    (h : ofLeb128 read c = .error e c') : read c.byteAt c.pos = .error e ∧ c' = c := by
  rw [ofLeb128, estate_get_bind] at h
  rcases hr : read c.byteAt c.pos with e' | r <;> rw [hr] at h <;> cases h
  exact ⟨rfl, rfl⟩

/-- **Integers are refused** for the bytes that are left. -/
theorem refused_of_ofLeb128 {read : (Nat → Option UInt8) → Nat → Except DecodeError (α × Nat)} {g : Leb128.Grouping α}
    {further width : Nat} (hwidth : 7 * further < width) (hroom : width ≤ 7 * (further + 1))
    (hread : ∀ byteAt position, read byteAt position = g.readFrom byteAt further width position)
    (h : ofLeb128 read c = .error e c') :
    ∃ fault n, Leb128.Refused (g.fits · ·) width c.rest fault n ∧ ⟨fault, c.pos + n⟩ = e := by
  have hr := (ofLeb128_eq_error h).1
  rw [hread] at hr
  exact (Leb128.Grouping.readFrom_eq_error_iff (fun i => (c.getElem?_rest i).symm) hwidth hroom).mp hr

end Decoder

theorem RawModule.ofBytes_eq_ok {bytes : ByteArray} {features : Features} {limits : DecodeLimits} {m : RawModule} :
    ofBytes bytes features limits = .ok m ↔ ∃ c, Decoder.module features limits (.ofBytes bytes) = .ok m c := by
  rw [ofBytes, EStateM.run]
  rcases Decoder.module features limits (.ofBytes bytes) with ⟨m', c⟩ | ⟨e, c⟩
  · constructor
    · rintro ⟨⟩
      exact ⟨c, rfl⟩
    · rintro ⟨_, ⟨⟩⟩
      rfl
  · exact ⟨fun h => (nomatch h), fun ⟨_, h⟩ => (nomatch h)⟩

end WasmEngine
