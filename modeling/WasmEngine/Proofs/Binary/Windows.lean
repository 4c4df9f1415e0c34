import WasmEngine.Proofs.Binary.Parallel

/-!
# Decoders stay in their window

Whatever a decoder does, it goes on in the window in which it began: the bytes and the end of the window stay the
same, and it moves forward and not past the end (`Cursor.Onward`). That holds also where it fails.

All decoders are put together from those that read a byte, a number of bytes or an integer, and from those that read
in a window split off. So it is enough to look at these (`Decoder.keeps_of_parallel`).
-/

namespace WasmEngine

/-- **The one cursor is further on in the window of the other.** -/
structure Cursor.Onward (c c' : Cursor) : Prop where
  data : c'.data = c.data
  stop : c'.stop = c.stop
  pos : c.pos ≤ c'.pos
  fits : c.pos ≤ c.stop → c'.pos ≤ c.stop

namespace Cursor

variable {c c' : Cursor}

instance : IsPreorder Cursor Onward where
  refl _ := ⟨rfl, rfl, Nat.le_refl _, id⟩
  trans _ _ _ h h' := ⟨h'.data.trans h.data, h'.stop.trans h.stop, Nat.le_trans h.pos h'.pos,
    fun hc => h.stop ▸ h'.fits (h.stop ▸ h.fits hc)⟩

theorem onward_advance {n : Nat} (h : n ≤ c.remaining) : Onward c (c.advance n) where
  data := rfl
  stop := rfl
  pos := Nat.le_add_right _ _
  fits hc := by
    unfold remaining at h
    simp only [pos_advance]
    omega

theorem Onward.sound (h : Onward c c') (hc : c.Sound) : c'.Sound :=
  ⟨h.stop ▸ h.fits hc.pos, h.data ▸ h.stop ▸ hc.stop⟩

/-- Integers end where there is still a byte. -/
theorem remaining_of_unsignedAt {width value length : Nat} (h : Leb128.UnsignedAt width c.rest value length) :
    length ≤ c.remaining := by
  obtain ⟨bs, -, hpre, rfl⟩ := h
  have hle := hpre.length_le
  simp only [rest, List.length_drop, List.length_take] at hle
  unfold remaining
  omega

end Cursor

theorem Leb128.signedFrom_reach {byteAt : Nat → Option UInt8} {further width position length : Nat} {value : Int}
    (h : signedFrom byteAt further width position = .ok (value, length)) :
    ∃ n b, length = n + 1 ∧ byteAt (position + n) = some b := by
  induction further generalizing width position value length with
  | zero =>
    unfold signedFrom at h
    split at h
    · cases h
    next b hb =>
    split at h
    · cases h
    split at h
    · cases h
      exact ⟨0, b, rfl, hb⟩
    · cases h
  | succ further ih =>
    unfold signedFrom at h
    split at h
    · cases h
    next b hb =>
    split at h
    · split at h
      · next v n hr =>
        cases h
        obtain ⟨n, b, rfl, hb⟩ := ih hr
        exact ⟨n + 1, b, rfl, by rw [← hb]; congr 1; omega⟩
      · cases h
    · cases h
      exact ⟨0, b, rfl, hb⟩

namespace Decoder

open Cursor

variable {α : Type} {d : Decoder α} {c c' : Cursor}

/-- What a decoder does that succeeds. -/
theorem onward_of_ok (hd : Keeps Onward d) {a : α} (h : d c = .ok a c') : Onward c c' := by
  have := hd c
  rwa [h] at this

/-- A decoder goes on in its window if it does so when it succeeds, and stays in its place when it fails. -/
theorem keeps_of_ok (hok : ∀ c a c', d c = .ok a c' → Onward c c') (herror : ∀ c e c', d c = .error e c' → c' = c) :
    Keeps Onward d := by
  intro c
  cases h : d c with
  | ok a c' => exact hok c a c' h
  | error e c' => exact herror c e c' h ▸ refl_of Onward c

/-! ### The decoders that look at bytes -/

theorem keeps_fail (fault : DecodeFault) (offset : Nat) : Keeps Onward (fail fault offset : Decoder α) := .throw _

theorem keeps_position : Keeps Onward position := .getBind fun _ => .pure _

theorem keeps_remaining : Keeps Onward remaining := .getBind fun _ => .pure _

theorem keeps_atEnd : Keeps Onward atEnd := .getBind fun _ => .pure _

theorem keeps_finish (what : String) : Keeps Onward (finish what) :=
  .getBind fun _ => .ite (.pure _) (keeps_fail _ _)

theorem keeps_peek : Keeps Onward peek := .getBind fun c => by
  split
  · exact .pure _
  · exact keeps_fail _ _

theorem keeps_byte : Keeps Onward byte := by
  refine keeps_of_ok (fun c b c' h => ?_) fun _ _ _ h => (byte_eq_error h).2
  obtain ⟨hb, rfl⟩ := byte_eq_ok.mp h
  have := byteAt_eq_some hb
  exact onward_advance (by unfold Cursor.remaining; omega)

theorem keeps_bytes (n : Nat) : Keeps Onward (bytes n) := by
  refine keeps_of_ok (fun c bs c' h => ?_) fun _ _ _ h => (bytes_eq_error h).2
  obtain ⟨hn, -, rfl⟩ := bytes_eq_ok.mp h
  exact onward_advance hn

theorem keeps_split (n : Nat) : Keeps Onward (split n) := by
  refine keeps_of_ok (fun c w c' h => ?_) fun _ _ _ h => (split_eq_error h).2
  obtain ⟨hn, -, rfl⟩ := split_eq_ok.mp h
  exact onward_advance hn

theorem keeps_within (n : Nat) (d : Decoder α) : Keeps Onward (within n d) :=
  .bind (keeps_split n) fun inner => by
    split
    · exact .pure _
    · exact .throw _

theorem keeps_ofLeb128 {read : (Nat → Option UInt8) → Nat → Except DecodeError (α × Nat)}
    (hread : ∀ c a n, read (byteAt c) c.pos = .ok (a, n) → n ≤ c.remaining) : Keeps Onward (ofLeb128 read) := by
  refine keeps_of_ok (fun c a c' h => ?_) fun _ _ _ h => (ofLeb128_eq_error h).2
  obtain ⟨n, hn, rfl⟩ := ofLeb128_eq_ok.mp h
  exact onward_advance (hread c a n hn)

theorem keeps_u32 : Keeps Onward u32 := keeps_ofLeb128 fun c _ _ h =>
  remaining_of_unsignedAt ((Leb128.unsigned_eq_ok_iff (by decide) fun i => (c.getElem?_rest i).symm).mp h)

theorem keeps_signed (width : Nat) : Keeps Onward (ofLeb128 (Leb128.signed width)) := keeps_ofLeb128 fun c _ _ h => by
  obtain ⟨n, b, rfl, hb⟩ := Leb128.signedFrom_reach h
  have := byteAt_eq_some hb
  unfold Cursor.remaining
  omega

/-! ### The decoders put together from them -/

/-- **Decoders go on in their window**, because those do that they are put together from. -/
theorem keeps_of_parallel {features : Features} {β : Type} {d' : Decoder β} {F : α → β}
    (h : Parallel features features id (fun _ => True) F d d') : Keeps Onward d := by
  generalize hAt : (fun _ : Nat => True) = At at h
  induction h with
  | pure => exact .pure _
  | bind _ _ hd hk => exact .bind (hd hAt) fun a => hk a hAt
  | fail | refused => exact keeps_fail _ _
  | start _ hk => exact .bind keeps_position fun p => hk p (hAt ▸ trivial) hAt
  | remaining => exact keeps_remaining
  | atEnd => exact keeps_atEnd
  | peek => exact keeps_peek
  | byte => exact keeps_byte
  | bytes n => exact keeps_bytes n
  | u32 => exact keeps_u32
  | signed => exact keeps_signed _
  | finish what => exact keeps_finish what
  | within _ n _ _ hk => exact .bind (keeps_within n _) fun r => hk r.1 r.2 r.2 hAt

theorem keeps_word32 : Keeps Onward word32 := .bind (keeps_bytes 4) fun _ => .pure _

theorem keeps_word64 : Keeps Onward word64 := .bind (keeps_bytes 8) fun _ => .pure _

theorem keeps_count : Keeps Onward count := keeps_of_parallel (.count (f := .all))

theorem keeps_name : Keeps Onward name := keeps_of_parallel (.name (f := .all))

theorem keeps_valueType : Keeps Onward valueType := keeps_of_parallel (.valueType (f := .all))

theorem keeps_refType : Keeps Onward refType := keeps_of_parallel (.refType (f := .all))

theorem keeps_limits : Keeps Onward limits := keeps_of_parallel (.limits (f := .all))

variable (features : Features)

theorem keeps_instruction : Keeps Onward (instruction features) := keeps_of_parallel (.instruction features.le_refl)

theorem keeps_localGroups (limit groups total : Nat) : Keeps Onward (localGroups features limit groups total) :=
  keeps_of_parallel (.localGroups features.le_refl limit groups total)

theorem keeps_funcType : Keeps Onward (funcType features) := keeps_of_parallel (.funcType features.le_refl)

theorem keeps_tableType : Keeps Onward (tableType features) := keeps_of_parallel (.tableType features.le_refl)

theorem keeps_importEntry : Keeps Onward (importEntry features) := keeps_of_parallel (.importEntry features.le_refl)

theorem keeps_globalDef : Keeps Onward (globalDef features) := keeps_of_parallel (.globalDef features.le_refl)

theorem keeps_exportEntry : Keeps Onward exportEntry := keeps_of_parallel (.exportEntry (f := .all))

theorem keeps_elementSegment : Keeps Onward (elementSegment features) :=
  keeps_of_parallel (.elementSegment features.le_refl)

theorem keeps_dataSegment : Keeps Onward (dataSegment features) := keeps_of_parallel (.dataSegment features.le_refl)

theorem keeps_sizedBody (limits : DecodeLimits) : Keeps Onward (sizedBody features limits) :=
  keeps_of_parallel (.sizedBody features.le_refl limits)

end Decoder

end WasmEngine
