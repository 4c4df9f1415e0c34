import WasmEngine.Proofs.Binary.Framing
import WasmEngine.Proofs.Binary.Groups

/-!
# Faults are found in the bytes

A fault of decoding has the offset of the byte that is to blame, or of the end of the window if a byte is missing. No
decoder looks beyond its window, and where it remembers a position to blame it later, it is one that it has been at. So
the offset of a fault is never behind the end of the window (`Decoder.Located`), and that of a module's bytes never
behind the end of these (`RawModule.ofBytes_located`).

There is a rule for each way to put decoders together, so it is shown for all of them at once
(`Decoder.Located.of_parallel`); the sections and the module follow.
-/

namespace WasmEngine

theorem Leb128.Refused.le_length {Fits : Nat → UInt8 → Prop} {width n : Nat} {l : List UInt8} {fault : DecodeFault}
    (h : Refused Fits width l fault n) : n ≤ l.length := by
  cases h with
  | truncated => exact Nat.le_refl _
  | tooLong _ hget | tooLarge _ hget => exact Nat.le_of_lt (List.getElem?_eq_some_iff.mp hget).1

namespace Decoder

variable {α β : Type} {stop : Nat} {d : Decoder α}

/-- **Faults are found in the window** or at the end of it, in every window with that end. -/
def Located (stop : Nat) (d : Decoder α) : Prop := ∀ c : Cursor, c.stop = stop → c.pos ≤ stop →
  Yields d c (fun _ c' => c'.stop = stop ∧ c'.pos ≤ stop) fun e _ => e.offset ≤ stop

namespace Located

variable {k : α → Decoder β}

theorem pure (a : α) : Located stop (Pure.pure a) := fun _ hstop hpos => .of_ok rfl ⟨hstop, hpos⟩

theorem fail {fault : DecodeFault} {offset : Nat} (h : offset ≤ stop) :
    Located stop (Decoder.fail fault offset : Decoder α) := fun _ _ _ => .of_error rfl h

theorem bind (h : Located stop d) (hk : ∀ a, Located stop (k a)) : Located stop (d >>= k) :=
  fun c hstop hpos => .bind (h c hstop hpos) fun a c' hc' => hk a c' hc'.1 hc'.2

/-- A position that may be blamed later. -/
theorem start {k : Nat → Decoder β} (hk : ∀ p ≤ stop, Located stop (k p)) : Located stop (Decoder.position >>= k) :=
  fun c hstop hpos => .bind_of_ok (position_eq_ok.mpr ⟨rfl, rfl⟩) (hk c.pos hpos c hstop hpos)

theorem ite {p : Prop} [Decidable p] {d' : Decoder α} (h : Located stop d) (h' : Located stop d') :
    Located stop (if p then d else d') := by
  split
  · exact h
  · exact h'

/-- A check in front of what follows. -/
theorem gate {p : Prop} [Decidable p] {fault : DecodeFault} {offset : Nat} {l : Unit → Decoder α}
    (hoffset : offset ≤ stop) (h : Located stop (l ())) :
    Located stop (if p then Decoder.fail fault offset >>= l else l ()) := .ite (.bind (.fail hoffset) fun _ => h) h

/-- Of a decoder that goes on in its window, only the faults are left to look at. -/
theorem of_keeps (h : Keeps Cursor.Onward d) (herror : ∀ c e c', c.stop = stop → c.pos ≤ stop → d c = .error e c' →
    e.offset ≤ stop) : Located stop d := by
  rintro c rfl hpos
  refine .of_cases (fun a c' hr => ?_) fun e c' hr => herror c e c' rfl hpos hr
  have honward := onward_of_ok h hr
  exact ⟨honward.stop, honward.fits hpos⟩

/-! ### The decoders that look at bytes -/

theorem get : Located stop (MonadState.get : Decoder Cursor) := fun _ hstop hpos => .of_ok rfl ⟨hstop, hpos⟩

theorem remaining : Located stop Decoder.remaining := fun _ hstop hpos => .of_ok rfl ⟨hstop, hpos⟩

theorem atEnd : Located stop Decoder.atEnd := fun _ hstop hpos => .of_ok rfl ⟨hstop, hpos⟩

theorem peek : Located stop Decoder.peek :=
  of_keeps keeps_peek fun _ _ _ _ hpos h => by rw [(peek_eq_error h).1]; exact hpos

theorem byte : Located stop Decoder.byte :=
  of_keeps keeps_byte fun _ _ _ _ hpos h => by rw [(byte_eq_error h).1]; exact hpos

theorem bytes (n : Nat) : Located stop (Decoder.bytes n) :=
  of_keeps (keeps_bytes n) fun _ _ _ _ hpos h => by rw [(bytes_eq_error h).1]; exact hpos

/-- A window that is split off ends in the one it is part of. -/
theorem within (h : ∀ stop, Located stop d) (n : Nat) : Located stop (Decoder.within n d) := by
  refine of_keeps (keeps_within n d) fun c e c' hstop hpos hr => ?_
  rcases hs : Decoder.split n c with ⟨w, c₁⟩ | ⟨e', c₁⟩
  · obtain ⟨hn, rfl, rfl⟩ := split_eq_ok.mp hs
    rw [Decoder.within, estate_bind_of_ok hs] at hr
    rcases hd : d (c.window n) with ⟨a, w⟩ | ⟨e', w⟩ <;> rw [EStateM.run, hd] at hr <;> cases hr
    have hle : e.offset ≤ c.pos + n := (h (c.pos + n) (c.window n) rfl (Nat.le_add_right _ _)).error_of hd
    unfold Cursor.remaining at hn
    omega
  · rw [Decoder.within, estate_bind_of_error hs] at hr
    cases hr
    rw [(split_eq_error hs).1]
    exact hpos

theorem finish (what : String) : Located stop (Decoder.finish what) := by
  intro c hstop hpos
  refine .of_cases (fun _ _ h => ?_) fun _ _ h => ?_
  · obtain ⟨-, rfl⟩ := finish_eq_ok.mp h
    exact ⟨hstop, hpos⟩
  · obtain ⟨rfl, rfl⟩ := finish_eq_error h
    exact hpos

theorem ofLeb128 {read : (Nat → Option UInt8) → Nat → Except DecodeError (α × Nat)} {g : Leb128.Grouping α}
    {further width : Nat} (hwidth : 7 * further < width) (hroom : width ≤ 7 * (further + 1))
    (hread : ∀ byteAt position, read byteAt position = g.readFrom byteAt further width position)
    (hkeeps : Keeps Cursor.Onward (Decoder.ofLeb128 read)) : Located stop (Decoder.ofLeb128 read) := by
  refine of_keeps hkeeps fun c e c' hstop hpos h => ?_
  obtain ⟨fault, n, hfault, rfl⟩ := refused_of_ofLeb128 hwidth hroom hread h
  have hle := hfault.le_length
  have hlength : c.rest.length ≤ c.stop - c.pos := by
    rw [Cursor.rest, List.length_drop]
    exact Nat.sub_le_sub_right (List.length_take_le _ _) _
  change c.pos + n ≤ stop
  omega

theorem u32 : Located stop Decoder.u32 :=
  .ofLeb128 (by decide) (by decide) (fun _ _ => Leb128.unsignedFrom_eq ..) keeps_u32

theorem signed {width : Nat} (hwidth : 0 < width) : Located stop (Decoder.ofLeb128 (Leb128.signed width)) :=
  .ofLeb128 (by unfold Leb128.furtherBytes; omega) (by unfold Leb128.furtherBytes; omega)
    (fun _ _ => Leb128.signedFrom_eq ..) (keeps_signed width)

/-! ### The decoders put together from them -/

/-- **What is put together from decoders that find their faults in the window does so as well**, because only positions
in it are blamed. -/
theorem of_parallel {features : Features} {d' : Decoder β} {F : α → β}
    (h : Parallel features features id (· ≤ stop) F d d') : Located stop d := by
  generalize hAt : (· ≤ stop) = At at h
  induction h generalizing stop with
  | pure => exact .pure _
  | bind _ _ hd hk => exact .bind (hd hAt) fun a => hk a hAt
  | fail hp => exact .fail (by rwa [← hAt] at hp)
  | refused hne => exact absurd rfl hne
  | start _ hk => exact .start fun p hp => hk p (by rwa [← hAt]) hAt
  | remaining => exact remaining
  | atEnd => exact atEnd
  | peek => exact peek
  | byte => exact byte
  | bytes n => exact bytes n
  | u32 => exact u32
  | signed hwidth => exact signed hwidth
  | finish what => exact finish what
  | within _ n _ hd hk => exact .bind (within (fun _ => hd _ rfl) n) fun r => hk r.1 r.2 r.2 hAt

theorem count : Located stop Decoder.count := of_parallel (.count (f := .all))

theorem name : Located stop Decoder.name := of_parallel (.name (f := .all))

/-! ### Sections -/

variable (features : Features) (limits : DecodeLimits) (m : RawModule)

theorem codeSection (declared : Nat) : Located stop (Decoder.codeSection features limits declared) := by
  have hitems (n : Nat) : Located stop (Decoder.items (Decoder.sizedBody features limits) n) :=
    of_parallel (.items (.sizedBody features.le_refl limits) n)
  exact .bind count fun n => .ite (.start fun _ hend => .bind (.fail hend) fun _ => hitems n) (hitems n)

/-- Names that cannot be read are no fault. -/
theorem customSection : Located stop (Decoder.customSection m) :=
  .bind name fun _ => .bind get fun _ => .bind (bytes _) fun _ => fun _ hstop hpos =>
    .of_ok (keepNames_eq_ok _ _ _ _) ⟨hstop, hpos⟩

theorem knownSection (id : UInt8) : Located stop (Decoder.knownSection features limits id m) := by
  unfold Decoder.knownSection
  split
  · exact .bind (of_parallel (.vector (.funcType features.le_refl))) fun _ => .pure _
  · exact .bind (of_parallel (.vector (.importEntry features.le_refl))) fun _ => .pure _
  · exact .bind (of_parallel (.vector (.u32 (f := .all)))) fun _ => .pure _
  · exact .bind (of_parallel (.vector (.tableType features.le_refl))) fun _ => .pure _
  · exact .bind (of_parallel (.vector (.limits (f := .all)))) fun _ => .pure _
  · exact .bind (of_parallel (.vector (.globalDef features.le_refl))) fun _ => .pure _
  · exact .bind (of_parallel (.vector (.exportEntry (f := .all)))) fun _ => .pure _
  · exact .bind u32 fun _ => .pure _
  · exact .bind (of_parallel (.vector (.elementSegment features.le_refl))) fun _ => .pure _
  · exact .bind (codeSection _ _ _) fun _ => .pure _
  · exact .bind (of_parallel (.vector (.dataSegment features.le_refl))) fun _ => .pure _
  · exact .bind u32 fun _ => .pure _
  · exact .pure _

theorem wholeSection (id : UInt8) : Located stop (Decoder.wholeSection features limits id m) :=
  .bind (knownSection _ _ _ _) fun _ => .bind (finish _) fun _ => .pure _

theorem oneSection (rank : Nat) : Located stop (Decoder.oneSection features limits rank m) := by
  refine .start fun _ hstart => .bind byte fun id => .start fun _ hsize => .bind u32 fun size => .gate hsize ?_
  refine .bind remaining fun _ => .gate hsize ?_
  refine .ite (.bind (.within (fun _ => customSection _) _) fun _ => .pure _) ?_
  split
  · exact .fail hstart
  · exact .gate hstart <| .bind (.within (fun _ => wholeSection _ _ _ _) _) fun _ => .pure _

theorem sections : ∀ (fuel rank : Nat) (m : RawModule), Located stop (Decoder.sections features limits fuel rank m)
  | 0, _, _ => .pure _
  | fuel + 1, _, _ => .bind atEnd fun _ => .ite (.pure _) <|
      .bind (oneSection _ _ _ _) fun _ => sections fuel _ _

theorem headerWord (expected : List UInt8) (fault : DecodeFault) : Located stop (Decoder.headerWord expected fault) :=
  .start fun _ hstart => .bind remaining fun _ => .gate hstart <| .bind (bytes 4) fun _ => .ite (.fail hstart) (.pure _)

theorem agreement : Located stop (Decoder.agreement m) :=
  .start fun _ hend => .gate hend <| by
    split
    · exact .ite (.fail hend) (.pure _)
    · exact .pure _

/-- **Faults of a module are found in its bytes.** -/
theorem module : Located stop (Decoder.module features limits) :=
  .bind (headerWord _ _) fun _ => .bind (headerWord _ _) fun _ => .bind remaining fun _ =>
    .bind (sections _ _ _ _ _) fun m => .bind (agreement m) fun _ => .pure _

end Located

end Decoder

/-- **The offset of a fault** is that of a byte, or the number of bytes. -/
theorem RawModule.ofBytes_located {data : ByteArray} {features : Features} {limits : DecodeLimits} {e : DecodeError}
    (h : ofBytes data features limits = .error e) : e.offset ≤ data.size := by
  unfold ofBytes EStateM.run at h
  rcases hr : Decoder.module features limits (.ofBytes data) with ⟨m, c⟩ | ⟨e', c⟩ <;> rw [hr] at h <;> cases h
  exact (Decoder.Located.module features limits (.ofBytes data) rfl (Nat.zero_le _)).error_of hr

end WasmEngine
