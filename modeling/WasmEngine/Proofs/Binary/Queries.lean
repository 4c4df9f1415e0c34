import WasmEngine.Proofs.Agree
import WasmEngine.Proofs.Binary.Shifting
import WasmEngine.Proofs.Binary.Windows

/-!
# Cursors that are asked

A cursor is asked for what stands in front of it (`Cursor.Query`). Two of the queries open another cursor over the
same bytes: a window is split off, or the cursor is copied. From then on each of them goes its own way, so what is asked
is a list of queries to cursors that are told apart by their numbers (`Cursor.Step`), and it goes on after a query
that fails.

However that goes, each cursor is kept to its window (`Cursor.windowed`): it stands in the window and the window lies
in the bytes, it does not go back, a window that is split off is what is skipped, and the answers are those of any other
cursor that stands at the same place in front of the same bytes (`Cursor.Alike`).

Of a query it is enough to know that it goes on in the window (`Cursor.Onward`) and that cursors that are alike are
alike behind it. Both are shown for the queries that look at bytes and passed on to those put together from them.
-/

namespace WasmEngine

namespace Cursor

/-! ### Queries -/

/-- What a cursor can be asked for. -/
inductive Query where
  | position
  | remaining
  | atEnd
  | copy
  | split (length : Nat)
  | finish (what : String)
  | peek
  | byte
  | bytes (length : Nat)
  | u32
  | s32
  | s33
  | s64
  | word32
  | word64
  | count
  | name
  | valueType
  | refType
  | limits

namespace Query

/-- What a query is answered with. -/
@[reducible] def Answer : Query → Type
  | position | remaining | u32 | count => Nat
  | atEnd => Bool
  | copy | split _ => Cursor
  | finish _ => Unit
  | peek | byte => UInt8
  | bytes _ => ByteArray
  | s32 | s33 | s64 => Int
  | word32 => BitVec 32
  | word64 => BitVec 64
  | name => String
  | valueType => ValueType
  | refType => RefType
  | limits => Limits

/-- How a query is answered. -/
def decoder : (q : Query) → Decoder q.Answer
  | position => Decoder.position
  | remaining => Decoder.remaining
  | atEnd => Decoder.atEnd
  | copy => get
  | split length => Decoder.split length
  | finish what => Decoder.finish what
  | peek => Decoder.peek
  | byte => Decoder.byte
  | bytes length => Decoder.bytes length
  | u32 => Decoder.u32
  | s32 => Decoder.s32
  | s33 => Decoder.s33
  | s64 => Decoder.s64
  | word32 => Decoder.word32
  | word64 => Decoder.word64
  | count => Decoder.count
  | name => Decoder.name
  | valueType => Decoder.valueType
  | refType => Decoder.refType
  | limits => Decoder.limits

/-- The cursors that a query opens. -/
def opened : (q : Query) → EStateM.Result DecodeError Cursor q.Answer → List Cursor
  | copy, .ok w _ | split _, .ok w _ => [w]
  | _, _ => []

end Query

/-- A query to one of several cursors. -/
structure Step where
  cursor : Nat
  query : Query

/-- The cursors after a query to one of them: this one has moved, and those that are opened stand behind the others. -/
def Step.run (s : Step) (cs : List Cursor) : List Cursor :=
  match cs[s.cursor]? with
  | none => cs
  | some c =>
    let outcome := s.query.decoder c
    cs.set s.cursor (endState outcome) ++ s.query.opened outcome

/-- The cursors after some queries. -/
def after (cs : List Cursor) (steps : List Step) : List Cursor := steps.foldl (fun cs s => s.run cs) cs

variable {c c' : Cursor} {cs cs' : List Cursor}

theorem after_cons (s : Step) (steps : List Step) : after cs (s :: steps) = after (s.run cs) steps := rfl

theorem Step.run_of_none {s : Step} (h : cs[s.cursor]? = none) : s.run cs = cs := by
  rw [run, h]

theorem Step.run_of_some {s : Step} (h : cs[s.cursor]? = some c) : s.run cs =
    cs.set s.cursor (endState (s.query.decoder c)) ++ s.query.opened (s.query.decoder c) := by
  rw [run, h]

/-! ### Going on in the window -/

/-- A query goes on in the window, whether it succeeds or not. -/
theorem Query.keeps (q : Query) : Keeps Onward q.decoder := by
  cases q with
  | position => exact Decoder.keeps_position
  | remaining => exact Decoder.keeps_remaining
  | atEnd => exact Decoder.keeps_atEnd
  | copy => exact .get
  | split n => exact Decoder.keeps_split n
  | finish what => exact Decoder.keeps_finish what
  | peek => exact Decoder.keeps_peek
  | byte => exact Decoder.keeps_byte
  | bytes n => exact Decoder.keeps_bytes n
  | u32 => exact Decoder.keeps_u32
  | s32 => exact Decoder.keeps_signed 32
  | s33 => exact Decoder.keeps_signed 33
  | s64 => exact Decoder.keeps_signed 64
  | word32 => exact Decoder.keeps_word32
  | word64 => exact Decoder.keeps_word64
  | count => exact Decoder.keeps_count
  | name => exact Decoder.keeps_name
  | valueType => exact Decoder.keeps_valueType
  | refType => exact Decoder.keeps_refType
  | limits => exact Decoder.keeps_limits

/-- Cursors that are opened stand in a window of the same bytes. -/
theorem Query.sound_opened (q : Query) (hc : c.Sound) :
    ∀ w ∈ q.opened (q.decoder c), w.data = c.data ∧ w.Sound := by
  cases q with
  | copy =>
    intro w hw
    obtain rfl := List.mem_singleton.mp hw
    exact ⟨rfl, hc⟩
  | split n =>
    intro w hw
    change w ∈ (split n).opened (Decoder.split n c) at hw
    rw [Decoder.split_eq] at hw
    split at hw
    · nomatch hw
    next hn =>
    obtain rfl := List.mem_singleton.mp hw
    exact ⟨rfl, hc.window (Nat.le_of_not_lt hn)⟩
  | _ => nofun

/-- Cursors that stand in windows of the bytes `data` do so after a query to one of them, and with them those that it
opens. -/
theorem Step.run_sound {data : ByteArray} (h : ∀ c ∈ cs, c.data = data ∧ c.Sound) (s : Step) :
    ∀ c ∈ s.run cs, c.data = data ∧ c.Sound := by
  cases hget : cs[s.cursor]? with
  | none => rwa [s.run_of_none hget]
  | some c =>
    obtain ⟨hdata, hc⟩ := h c (List.mem_of_getElem? hget)
    have hmoved := s.query.keeps c
    rw [s.run_of_some hget]
    intro x hx
    rcases List.mem_append.mp hx with hx | hx
    · rcases List.mem_or_eq_of_mem_set hx with hx | rfl
      · exact h x hx
      · exact ⟨hmoved.data.trans hdata, hmoved.sound hc⟩
    · obtain ⟨hx, hsound⟩ := s.query.sound_opened hc x hx
      exact ⟨hx.trans hdata, hsound⟩

/-- No query takes a cursor back, neither the one that is asked nor another. -/
theorem Step.run_onward {i : Nat} (h : cs[i]? = some c) (s : Step) : ∃ c', (s.run cs)[i]? = some c' ∧ Onward c c' := by
  cases hget : cs[s.cursor]? with
  | none => exact ⟨c, by rwa [s.run_of_none hget], refl_of Onward c⟩
  | some c₀ =>
    have hi : i < cs.length := (List.getElem?_eq_some_iff.mp h).1
    rw [s.run_of_some hget, List.getElem?_append_left (by rwa [List.length_set])]
    by_cases hs : s.cursor = i
    · subst hs
      obtain rfl : c₀ = c := Option.some.inj (hget.symm.trans h)
      exact ⟨_, List.getElem?_set_self hi, s.query.keeps c₀⟩
    · exact ⟨c, by rwa [List.getElem?_set_ne hs], refl_of Onward c⟩

/-- Any queries to cursors that stand in windows of the bytes `data`. -/
theorem after_sound {data : ByteArray} (steps : List Step) (h : ∀ c ∈ cs, c.data = data ∧ c.Sound) :
    ∀ c ∈ after cs steps, c.data = data ∧ c.Sound := by
  induction steps generalizing cs with
  | nil => exact h
  | cons s steps ih => exact ih (s.run_sound h)

/-- **No cursor ever goes back**, whatever is asked. -/
theorem after_onward {i : Nat} (steps : List Step) (h : cs[i]? = some c) :
    ∃ c', (after cs steps)[i]? = some c' ∧ Onward c c' := by
  induction steps generalizing cs c with
  | nil => exact ⟨c, h, refl_of Onward c⟩
  | cons s steps ih =>
    obtain ⟨c₁, h₁, hc₁⟩ := s.run_onward h
    obtain ⟨c₂, h₂, hc₂⟩ := ih h₁
    exact ⟨c₂, h₂, trans_of Onward hc₁ hc₂⟩

theorem sound_after_ofBytes {data : ByteArray} {steps : List Step} {i : Nat}
    (h : (after [ofBytes data] steps)[i]? = some c) : c.data = data ∧ c.Sound := by
  refine after_sound steps (fun x hx => ?_) c (List.mem_of_getElem? h)
  obtain rfl := List.mem_singleton.mp hx
  exact ⟨rfl, sound_ofBytes data⟩

/-- A window that fits stands behind the other cursors when it is split off. -/
theorem Step.run_split {i n : Nat} (h : cs[i]? = some c) (hn : n ≤ c.remaining) :
    (⟨i, .split n⟩ : Step).run cs = cs.set i (c.advance n) ++ [c.window n] := by
  rw [Step.run_of_some h]
  change cs.set i (endState (Decoder.split n c)) ++ Query.opened (.split n) (Decoder.split n c) = _
  rw [Decoder.split_eq_ok.mpr ⟨hn, rfl, rfl⟩]
  rfl

/-- **Every cursor that stands in a window of its bytes comes about**, and no other does. -/
theorem exists_after_iff_sound :
    (∃ (steps : List Step) (i : Nat), (after [ofBytes c.data] steps)[i]? = some c) ↔ c.Sound := by
  refine ⟨fun ⟨_, _, h⟩ => (sound_after_ofBytes h).2, fun hc => ?_⟩
  -- what is in front is split off, and then the window itself
  refine ⟨[⟨0, .split c.pos⟩, ⟨0, .split (c.stop - c.pos)⟩], 2, ?_⟩
  have hpos := hc.pos
  have hstop := hc.stop
  have hfront : c.pos ≤ (ofBytes c.data).remaining := by
    simp only [ofBytes, remaining]
    omega
  have hwindow : c.stop - c.pos ≤ ((ofBytes c.data).advance c.pos).remaining := by
    simp only [ofBytes, advance, remaining]
    omega
  have hc : ((ofBytes c.data).advance c.pos).window (c.stop - c.pos) = c := by
    simp only [ofBytes, advance, window, Nat.zero_add, Nat.add_sub_cancel' hpos]
  rw [after_cons, Step.run_split rfl hfront, after_cons, Step.run_split rfl hwindow, hc]
  rfl

theorem Sound.size_take (h : c.Sound) {n : Nat} (hn : n ≤ c.remaining) : (c.take n).size = n := by
  have hpos := h.pos
  have hstop := h.stop
  simp only [remaining] at hn
  rw [take, ByteArray.size_extract]
  omega

/-! ### Windows that are split off -/

/-- **A window covers what is skipped** between two cursors: it begins where the first one stands and ends where the
second one does. -/
structure Covers (w c c' : Cursor) : Prop where
  data : w.data = c.data
  pos : w.pos = c.pos
  stop : w.stop = c'.pos
  rest : c.rest = w.rest ++ c'.rest

theorem covers_window {n : Nat} (hn : n ≤ c.remaining) : (c.window n).Covers c (c.advance n) where
  data := rfl
  pos := rfl
  stop := rfl
  rest := by rw [rest_window hn, rest_advance, List.take_append_drop]

/-! ### Cursors that are alike -/

/-- **Cursors are alike** that stand at the same place of windows with the same end and the same bytes up to there. What
is in front of them and what is behind their windows may differ. -/
structure Alike (c c' : Cursor) : Prop where
  pos : c'.pos = c.pos
  stop : c'.stop = c.stop
  bytes : ∀ k, c.pos ≤ k → k < c.stop → c'.data[k]? = c.data[k]?

/-- The same bytes at the same place. -/
theorem alike_iff_later : c.Alike c' ↔ c.Later 0 c' := by
  constructor
  · intro h
    refine ⟨h.pos, h.stop, List.ext_getElem? fun k => ?_⟩
    rw [getElem?_rest, getElem?_rest, byteAt, byteAt, h.pos, h.stop]
    split
    next hk => exact h.bytes _ (Nat.le_add_right _ _) hk
    · rfl
  · intro h
    refine ⟨h.pos, h.stop, fun k hpos hstop => ?_⟩
    have hbyte := h.byteAt (k - c.pos)
    rwa [h.pos, Nat.add_zero, Nat.add_sub_cancel' hpos, byteAt, byteAt, h.stop, Nat.add_zero, if_pos hstop,
      if_pos hstop] at hbyte

end Cursor

namespace Decoder

open Cursor

variable {α β : Type} {d d' : Decoder α} {k : α → Decoder β}

/-- **A decoder looks at nothing but its window**: from cursors that are alike it reads the same, or fails for the same
reason at the same place, and the cursors are alike behind it. -/
def Local (d : Decoder α) : Prop := ∀ c c' : Cursor, c.Alike c' → Agree Alike Eq (d c) (d c')

namespace Local

/-- What reads the same at any other place does so at this one, if it stays there when it fails. -/
theorem of_later (h : Later 0 id d d) (hstay : ∀ c e c', d c = .error e c' → c' = c) : Local d := by
  intro c c' hc
  cases hd : d c with
  | ok a c₁ =>
    obtain ⟨c₁', hd', hc₁⟩ := h.ok_of (alike_iff_later.mp hc) hd
    rw [hd']
    exact .ok rfl (alike_iff_later.mpr hc₁)
  | error e c₁ =>
    obtain ⟨c₁', hd'⟩ := h.error_of (alike_iff_later.mp hc) hd
    rw [hd', hstay c e c₁ hd, hstay c' _ c₁' hd']
    exact .error hc

theorem pure (a : α) : Local (Pure.pure a) := fun _ _ hc => .ok rfl hc

theorem fail (fault : DecodeFault) (offset : Nat) : Local (Decoder.fail fault offset : Decoder α) :=
  fun _ _ hc => .error hc

theorem bind (h : Local d) (hk : ∀ a, Local (k a)) : Local (d >>= k) := fun c c' hc =>
  Agree.bind (h c c' hc) fun a _ s s' _ hab hs => hab ▸ hk a s s' hs

theorem ite {p : Prop} [Decidable p] (h : Local d) (h' : Local d') : Local (if p then d else d') := by
  split
  · exact h
  · exact h'

/-! ### The decoders that look at bytes -/

theorem position : Local Decoder.position := of_later .position nofun

theorem remaining : Local Decoder.remaining := of_later .remaining nofun

theorem atEnd : Local Decoder.atEnd := of_later .atEnd nofun

theorem peek : Local Decoder.peek := of_later .peek fun _ _ _ h => (peek_eq_error h).2

theorem byte : Local Decoder.byte := of_later .byte fun _ _ _ h => (byte_eq_error h).2

theorem bytes (n : Nat) : Local (Decoder.bytes n) := of_later (.bytes n) fun _ _ _ h => (bytes_eq_error h).2

theorem u32 : Local Decoder.u32 := of_later .u32 fun _ _ _ h => (ofLeb128_eq_error h).2

theorem signed (width : Nat) : Local (Decoder.ofLeb128 (Leb128.signed width)) :=
  of_later (.signed width) fun _ _ _ h => (ofLeb128_eq_error h).2

theorem finish (what : String) : Local (Decoder.finish what) :=
  of_later (.finish what) fun _ _ _ h => (finish_eq_error h).2

/-! ### The decoders put together from them -/

theorem word32 : Local Decoder.word32 := .bind (bytes 4) fun _ => .pure _

theorem word64 : Local Decoder.word64 := .bind (bytes 8) fun _ => .pure _

theorem count : Local Decoder.count :=
  .bind position fun _ => .bind u32 fun _ => .bind remaining fun _ => .ite (.fail _ _) (.pure _)

theorem name : Local Decoder.name :=
  .bind u32 fun _ => .bind position fun _ => .bind (bytes _) fun _ => by
    split
    · exact .pure _
    · exact .fail _ _

theorem valueType : Local Decoder.valueType :=
  .bind position fun _ => .bind byte fun _ => by
    split
    · exact .pure _
    · exact .fail _ _

theorem refType : Local Decoder.refType :=
  .bind position fun _ => .bind byte fun _ => by
    split
    · exact .pure _
    · exact .fail _ _

theorem limits : Local Decoder.limits :=
  .bind position fun _ => .bind byte fun _ =>
    .ite (.bind u32 fun _ => .pure _) <|
    .ite (.bind u32 fun _ => .bind u32 fun _ => .pure _) (.fail _ _)

end Local

end Decoder

namespace Cursor

variable {c c' : Cursor} {cs cs' : List Cursor}

/-- Alike cursors split off alike windows, or refuse to. -/
theorem Alike.split (h : c.Alike c') (n : Nat) : Agree Alike Alike (Decoder.split n c) (Decoder.split n c') := by
  have hlater := alike_iff_later.mp h
  rw [Decoder.split_eq, Decoder.split_eq, hlater.remaining, h.pos]
  split
  · exact .error h
  next hn =>
  exact .ok (alike_iff_later.mpr (hlater.window (Nat.le_of_not_lt hn))) (alike_iff_later.mpr (hlater.advance n))

/-- Two answers to a query are the same, up to what is outside of the windows of cursors. -/
def Query.Same : (q : Query) → q.Answer → q.Answer → Prop
  | .copy | .split _ => Alike
  | _ => Eq

/-- **Two cursors give the same answers**: whatever they are asked for, both find the same or both fail for the same
reason at the same place, and they are alike behind it. -/
def SameAnswers (c c' : Cursor) : Prop := ∀ q : Query, Agree Alike q.Same (q.decoder c) (q.decoder c')

theorem Alike.sameAnswers (h : c.Alike c') : c.SameAnswers c' := by
  intro q
  cases q with
  | position => exact Decoder.Local.position c c' h
  | remaining => exact Decoder.Local.remaining c c' h
  | atEnd => exact Decoder.Local.atEnd c c' h
  | copy => exact .ok h h
  | split n => exact h.split n
  | finish what => exact Decoder.Local.finish what c c' h
  | peek => exact Decoder.Local.peek c c' h
  | byte => exact Decoder.Local.byte c c' h
  | bytes n => exact Decoder.Local.bytes n c c' h
  | u32 => exact Decoder.Local.u32 c c' h
  | s32 => exact Decoder.Local.signed 32 c c' h
  | s33 => exact Decoder.Local.signed 33 c c' h
  | s64 => exact Decoder.Local.signed 64 c c' h
  | word32 => exact Decoder.Local.word32 c c' h
  | word64 => exact Decoder.Local.word64 c c' h
  | count => exact Decoder.Local.count c c' h
  | name => exact Decoder.Local.name c c' h
  | valueType => exact Decoder.Local.valueType c c' h
  | refType => exact Decoder.Local.refType c c' h
  | limits => exact Decoder.Local.limits c c' h

/-- An integer that goes on behind its window is cut short. -/
example : Decoder.u32 ⟨⟨#[0x80, 0x01]⟩, 0, 1⟩ = .error ⟨.shortage .integer, 1⟩ ⟨⟨#[0x80, 0x01]⟩, 0, 1⟩ := rfl

/-- Where answers agree, so do the cursors that are opened. -/
theorem Query.opened_alike (q : Query) {r r' : EStateM.Result DecodeError Cursor q.Answer} (h : Agree Alike q.Same r r') :
    List.Forall₂ Alike (q.opened r) (q.opened r') := by
  cases q with
  | copy | split n =>
    cases h with
    | ok hw _ => exact .cons hw .nil
    | error _ => exact .nil
  | _ => exact .nil

theorem endState_alike {α β : Type} {R : α → β → Prop} {r : EStateM.Result DecodeError Cursor α}
    {r' : EStateM.Result DecodeError Cursor β} (h : Agree Alike R r r') : (endState r).Alike (endState r') := by
  cases h with
  | ok _ h => exact h
  | error h => exact h

/-- A query to one of cursors that are alike, one by one. -/
theorem Step.run_alike (h : List.Forall₂ Alike cs cs') (s : Step) : List.Forall₂ Alike (s.run cs) (s.run cs') := by
  cases hget : cs[s.cursor]? with
  | none =>
    have hget' : cs'[s.cursor]? = none :=
      List.getElem?_eq_none (h.length_eq ▸ List.getElem?_eq_none_iff.mp hget)
    rwa [s.run_of_none hget, s.run_of_none hget']
  | some c =>
    obtain ⟨c', hget', hc⟩ := forall₂_getElem? h hget
    have houtcome := hc.sameAnswers s.query
    rw [s.run_of_some hget, s.run_of_some hget']
    exact List.rel_append (forall₂_set h s.cursor (endState_alike houtcome)) (s.query.opened_alike houtcome)

/-- **Cursors that are alike stay so**, if the same is asked of them. -/
theorem after_alike (steps : List Step) (h : List.Forall₂ Alike cs cs') :
    List.Forall₂ Alike (after cs steps) (after cs' steps) := by
  induction steps generalizing cs cs' with
  | nil => exact h
  | cons s steps ih => exact ih (s.run_alike h)

/-! ### All together -/

/-- **A cursor is kept to its window**, as the one with the number `i` among some over the bytes `data`. -/
structure Windowed (data : ByteArray) (cs : List Cursor) (i : Nat) (c : Cursor) : Prop where
  /-- It stands in its window, and the window lies in the bytes. -/
  data_eq : c.data = data
  pos_le : c.pos ≤ c.stop
  stop_le : c.stop ≤ data.size
  /-- What remains is the difference, each byte in front of the end is there, and slices of no more than what remains
  are not cut short. -/
  remaining_add : c.pos + c.remaining = c.stop
  byteAt_eq : ∀ k < c.stop, ∃ b, c.byteAt k = some b
  size_take : ∀ n ≤ c.remaining, (c.take n).size = n
  /-- Whatever is asked, of it or of others, it does not go back, and keeps its window. -/
  onward : ∀ steps, ∃ c', (after cs steps)[i]? = some c' ∧ c.pos ≤ c'.pos ∧ c'.stop = c.stop
  /-- A window that fits is split off and covers what is skipped; one that does not is refused, and nothing is skipped. -/
  split : ∀ n ≤ c.remaining, ∃ w c', Decoder.split n c = .ok w c' ∧
    (⟨i, .split n⟩ : Step).run cs = cs.set i c' ++ [w] ∧ c'.pos = c.pos + n ∧ w.Covers c c'
  refused : ∀ n > c.remaining, Decoder.split n c = .error ⟨.lengthExceeds n c.remaining, c.pos⟩ c
  /-- Whatever it is asked for, itself or the cursors that it opens, the answers are those of any cursor that stands at
  the same place and has the same bytes in front of it up to the end of the window. -/
  answers : ∀ c', c.Alike c' → ∀ steps, List.Forall₂ SameAnswers (after [c] steps) (after [c'] steps)

/-- **Cursors are kept to their windows**, by any queries to them and to those that were opened before. -/
theorem windowed {data : ByteArray} {steps : List Step} {i : Nat} (h : (after [ofBytes data] steps)[i]? = some c) :
    Windowed data (after [ofBytes data] steps) i c where
  data_eq := (sound_after_ofBytes h).1
  pos_le := (sound_after_ofBytes h).2.pos
  stop_le := (sound_after_ofBytes h).1 ▸ (sound_after_ofBytes h).2.stop
  remaining_add := Nat.add_sub_cancel' (sound_after_ofBytes h).2.pos
  byteAt_eq k hk := by
    have hdata := Nat.lt_of_lt_of_le hk (sound_after_ofBytes h).2.stop
    exact ⟨c.data[k], by rw [byteAt, if_pos hk, getElem?_pos c.data k hdata]⟩
  size_take n hn := (sound_after_ofBytes h).2.size_take hn
  onward more := by
    obtain ⟨c', h', hc'⟩ := after_onward more h
    exact ⟨c', h', hc'.pos, hc'.stop⟩
  split n hn :=
    ⟨_, _, Decoder.split_eq_ok.mpr ⟨hn, rfl, rfl⟩, Step.run_split h hn, rfl, covers_window hn⟩
  refused n hn := by rw [Decoder.split_eq, if_pos hn]
  answers c' hc' more := (after_alike more (.cons hc' .nil)).imp fun _ _ => Alike.sameAnswers

/-- A window of two of four bytes, in which an integer is cut short by the end of the window. -/
theorem windowed_cut_short :
    (after [ofBytes ⟨#[2, 0x80, 0x80, 0x01]⟩] [⟨0, .u32⟩, ⟨0, .split 2⟩, ⟨1, .byte⟩, ⟨1, .u32⟩])[1]? =
        some ⟨⟨#[2, 0x80, 0x80, 0x01]⟩, 2, 3⟩ ∧
      Windowed ⟨#[2, 0x80, 0x80, 0x01]⟩
        (after [ofBytes ⟨#[2, 0x80, 0x80, 0x01]⟩] [⟨0, .u32⟩, ⟨0, .split 2⟩, ⟨1, .byte⟩, ⟨1, .u32⟩]) 1
        ⟨⟨#[2, 0x80, 0x80, 0x01]⟩, 2, 3⟩ := ⟨rfl, windowed rfl⟩

end Cursor

end WasmEngine
