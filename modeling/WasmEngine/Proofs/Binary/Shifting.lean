import WasmEngine.Proofs.Binary.Framing

/-!
# The same bytes at another place

What a decoder does depends on the bytes that are left in its window and on nothing else, up to the place where they
stand. If the same bytes stand `k` places later (`Cursor.Later`), a decoder reads the same there. Where positions are
part of what is read they are `k` places later as well, and so is the offset of a fault. `Decoder.Later k f d d'` says
that of two decoders, the second of which gives what `f` makes of the results of the first; in most cases the decoders
are the same and `f` is the identity.

There is a rule for each way to put decoders together, so all decoders do (`Decoder.Later.of_parallel`).
-/

namespace WasmEngine

/-! ### Cursors -/

/-- **The same bytes are left, `k` places later.** -/
structure Cursor.Later (k : Nat) (c c' : Cursor) : Prop where
  pos : c'.pos = c.pos + k
  stop : c'.stop = c.stop + k
  rest : c'.rest = c.rest

namespace Cursor.Later

variable {k : Nat} {c c' : Cursor}

theorem remaining (h : Later k c c') : c'.remaining = c.remaining := by
  unfold Cursor.remaining
  rw [h.pos, h.stop]
  omega

theorem isEmpty (h : Later k c c') : c'.isEmpty = c.isEmpty := by
  unfold Cursor.isEmpty
  rw [h.pos, h.stop]
  simp

theorem byteAt (h : Later k c c') (i : Nat) : c'.byteAt (c'.pos + i) = c.byteAt (c.pos + i) := by
  rw [← Cursor.getElem?_rest, ← Cursor.getElem?_rest, h.rest]

theorem advance (h : Later k c c') (n : Nat) : Later k (c.advance n) (c'.advance n) where
  pos := by rw [Cursor.pos_advance, Cursor.pos_advance, h.pos]; omega
  stop := h.stop
  rest := by rw [Cursor.rest_advance, Cursor.rest_advance, h.rest]

theorem window (h : Later k c c') {n : Nat} (hn : n ≤ c.remaining) : Later k (c.window n) (c'.window n) where
  pos := h.pos
  stop := by
    change c'.pos + n = c.pos + n + k
    rw [h.pos]
    omega
  rest := by rw [Cursor.rest_window hn, Cursor.rest_window (h.remaining ▸ hn), h.rest]

end Cursor.Later

theorem ByteArray.eq_of_toList {a b : ByteArray} (h : a.toList = b.toList) : a = b := by
  rw [ByteArray.toList_eq, ByteArray.toList_eq] at h
  exact ByteArray.ext (Array.toList_inj.mp h)

theorem Cursor.Later.take {k : Nat} {c c' : Cursor} (h : c.Later k c') {n : Nat} (hn : n ≤ c.remaining) :
    c'.take n = c.take n := by
  apply ByteArray.eq_of_toList
  rw [Decoder.toList_take hn, Decoder.toList_take (h.remaining ▸ hn), h.rest]

/-! ### Integers -/

/-- A fault `k` places later. -/
def DecodeError.later (k : Nat) (e : DecodeError) : DecodeError := { e with offset := e.offset + k }

/-- An integer is read the same from the same bytes. -/
theorem Leb128.Grouping.readFrom_later {α : Type} (g : Grouping α) {byteAt byteAt' : Nat → Option UInt8} {k : Nat}
    (further width : Nat) {position : Nat} (h : ∀ i, byteAt' (position + k + i) = byteAt (position + i)) :
    g.readFrom byteAt' further width (position + k) =
      (g.readFrom byteAt further width position).mapError (DecodeError.later k) := by
  induction further generalizing width position with
  | zero =>
    have hfirst : byteAt' (position + k) = byteAt position := h 0
    rw [readFrom, readFrom, hfirst]
    cases byteAt position with
    | none => rfl
    | some b =>
      dsimp only
      split
      · rfl
      · split <;> rfl
  | succ further ih =>
    have hfirst : byteAt' (position + k) = byteAt position := h 0
    have hbehind (i : Nat) : byteAt' (position + 1 + k + i) = byteAt (position + 1 + i) := by
      rw [show position + 1 + k + i = position + k + (1 + i) by omega, h (1 + i), Nat.add_assoc]
    have hmore := ih (width - 7) hbehind
    rw [show position + 1 + k = position + k + 1 by omega] at hmore
    rw [readFrom, readFrom, hfirst, hmore]
    cases byteAt position with
    | none => rfl
    | some b =>
      dsimp only
      split
      · cases g.readFrom byteAt further (width - 7) (position + 1) <;> rfl
      · rfl

namespace Decoder

variable {α β γ δ : Type} {k : Nat} {f : α → β} {g : γ → δ} {d : Decoder α} {d' : Decoder β}

/-! ### Decoders -/

/-- The second outcome is what becomes of the first one `k` places later. -/
inductive LaterResult (k : Nat) (f : α → β) :
    EStateM.Result DecodeError Cursor α → EStateM.Result DecodeError Cursor β → Prop
  | ok (a : α) {c c' : Cursor} : c.Later k c' → LaterResult k f (.ok a c) (.ok (f a) c')
  | error (e : DecodeError) {c c' : Cursor} : LaterResult k f (.error e c) (.error (e.later k) c')

/-- **Decoders read the same, `k` places later**, as far as places are concerned: in front of the same bytes the second
gives what `f` makes of the first one's result, or fails for the same reason. -/
def Later (k : Nat) (f : α → β) (d : Decoder α) (d' : Decoder β) : Prop :=
  ∀ c c' : Cursor, c.Later k c' → LaterResult k f (d c) (d' c')

theorem Later.ok_of (h : Later k f d d') {c c₁ c' : Cursor} {a : α} (hc : c.Later k c') (ha : d c = .ok a c₁) :
    ∃ c₁', d' c' = .ok (f a) c₁' ∧ c₁.Later k c₁' := by
  have hr := h c c' hc
  rw [ha] at hr
  generalize d' c' = r at hr ⊢
  cases hr with
  | ok _ hc₁ => exact ⟨_, rfl, hc₁⟩

theorem Later.error_of (h : Later k f d d') {c c₁ c' : Cursor} {e : DecodeError} (hc : c.Later k c')
    (he : d c = .error e c₁) : ∃ c₁', d' c' = .error (e.later k) c₁' := by
  have hr := h c c' hc
  rw [he] at hr
  generalize d' c' = r at hr ⊢
  cases hr with
  | error => exact ⟨_, rfl⟩

namespace Later

variable {K : α → Decoder γ} {K' : β → Decoder δ}

theorem pure (a : α) : Later k f (Pure.pure a) (Pure.pure (f a)) := fun _ _ hc => .ok a hc

theorem fail (fault : DecodeFault) (offset : Nat) :
    Later k f (Decoder.fail fault offset) (Decoder.fail fault (offset + k)) := fun _ _ _ => .error ⟨fault, offset⟩

theorem bind (h : Later k f d d') (hk : ∀ a, Later k g (K a) (K' (f a))) : Later k g (d >>= K) (d' >>= K') := by
  intro c c' hc
  have hr := h c c' hc
  cases ha : d c with
  | ok a c₁ =>
    obtain ⟨c₁', ha', hc₁⟩ := h.ok_of hc ha
    rw [estate_bind_of_ok ha, estate_bind_of_ok ha']
    exact hk a c₁ c₁' hc₁
  | error e c₁ =>
    obtain ⟨c₁', he'⟩ := h.error_of hc ha
    rw [estate_bind_of_error ha, estate_bind_of_error he']
    exact .error e

theorem ite {p : Prop} [Decidable p] {e : Decoder α} {e' : Decoder β} (h : Later k f d d') (he : Later k f e e') :
    Later k f (if p then d else e) (if p then d' else e') := by
  split
  · exact h
  · exact he

/-! ### The decoders that look at bytes -/

theorem position : Later k (· + k) Decoder.position Decoder.position := by
  intro c c' hc
  change LaterResult k _ (.ok c.pos c) (.ok c'.pos c')
  rw [hc.pos]
  exact .ok c.pos hc

theorem remaining : Later k id Decoder.remaining Decoder.remaining := by
  intro c c' hc
  change LaterResult k _ (.ok c.remaining c) (.ok c'.remaining c')
  rw [hc.remaining]
  exact .ok c.remaining hc

theorem atEnd : Later k id Decoder.atEnd Decoder.atEnd := by
  intro c c' hc
  change LaterResult k _ (.ok c.isEmpty c) (.ok c'.isEmpty c')
  rw [hc.isEmpty]
  exact .ok c.isEmpty hc

theorem peek : Later k id Decoder.peek Decoder.peek := by
  intro c c' hc
  have hbyte : c'.byteAt c'.pos = c.byteAt c.pos := hc.byteAt 0
  unfold Decoder.peek
  rw [estate_get_bind, estate_get_bind, hbyte, hc.pos]
  cases c.byteAt c.pos with
  | none => exact .error ⟨_, _⟩
  | some b => exact .ok b hc

/-- Moving on. -/
theorem step (n : Nat) : Later k id (modify (·.advance n) : Decoder Unit) (modify (·.advance n)) :=
  fun _ _ hc => .ok () (hc.advance n)

theorem byte : Later k id Decoder.byte Decoder.byte := .bind peek fun b => .bind (step 1) fun _ => .pure b

theorem bytes (n : Nat) : Later k id (Decoder.bytes n) (Decoder.bytes n) := by
  intro c c' hc
  rw [bytes_eq, bytes_eq, hc.remaining, hc.pos]
  by_cases hn : c.remaining < n
  · rw [if_pos hn, if_pos hn]
    exact .error ⟨_, _⟩
  · rw [if_neg hn, if_neg hn, hc.take (Nat.le_of_not_lt hn)]
    exact .ok _ (hc.advance n)

/-- Bytes that are skipped, and what is done with the window of them. -/
theorem split (n : Nat) {K : Cursor → Decoder γ} {K' : Cursor → Decoder δ}
    (hk : ∀ w w' : Cursor, w.Later k w' → Later k g (K w) (K' w')) :
    Later k g (Decoder.split n >>= K) (Decoder.split n >>= K') := by
  intro c c' hc
  by_cases hn : n ≤ c.remaining
  · rw [estate_bind_of_ok (split_eq_ok.mpr ⟨hn, rfl, rfl⟩),
      estate_bind_of_ok (split_eq_ok.mpr ⟨hc.remaining ▸ hn, rfl, rfl⟩)]
    exact hk _ _ (hc.window hn) _ _ (hc.advance n)
  · have hfail {c : Cursor} (hn : c.remaining < n) :
        Decoder.split n c = .error ⟨.lengthExceeds n c.remaining, c.pos⟩ c := by rw [split_eq, if_pos hn]
    rw [estate_bind_of_error (hfail (Nat.lt_of_not_le hn)),
      estate_bind_of_error (hfail (hc.remaining ▸ Nat.lt_of_not_le hn)), hc.remaining, hc.pos]
    exact .error ⟨_, _⟩

/-- What is read in a window of its own. -/
theorem within (h : Later k f d d') (n : Nat) {K : α × Cursor → Decoder γ} {K' : β × Cursor → Decoder δ}
    (hk : ∀ a w w', Later k g (K (a, w)) (K' (f a, w'))) :
    Later k g (Decoder.within n d >>= K) (Decoder.within n d' >>= K') := by
  unfold Decoder.within
  rw [bind_assoc, bind_assoc]
  refine .split n fun w w' hw => ?_
  unfold EStateM.run
  cases ha : d w with
  | ok a w₁ =>
    obtain ⟨w₁', ha', -⟩ := h.ok_of hw ha
    rw [ha']
    exact hk a w₁ w₁'
  | error e w₁ =>
    obtain ⟨w₁', he'⟩ := h.error_of hw ha
    rw [he']
    exact fun _ _ _ => .error e

theorem finish (what : String) : Later k id (Decoder.finish what) (Decoder.finish what) := by
  intro c c' hc
  rw [finish_eq, finish_eq, hc.isEmpty, hc.remaining, hc.pos]
  split
  · exact .ok () hc
  · exact .error ⟨_, _⟩

theorem ofLeb128 {read : (Nat → Option UInt8) → Nat → Except DecodeError (α × Nat)} (grouping : Leb128.Grouping α)
    (further width : Nat)
    (hread : ∀ byteAt position, read byteAt position = grouping.readFrom byteAt further width position) :
    Later k id (Decoder.ofLeb128 read) (Decoder.ofLeb128 read) := by
  intro c c' hc
  have hbytes (i : Nat) : c'.byteAt (c.pos + k + i) = c.byteAt (c.pos + i) := hc.pos ▸ hc.byteAt i
  have hsame := grouping.readFrom_later further width hbytes
  unfold Decoder.ofLeb128
  rw [estate_get_bind, estate_get_bind, hc.pos, hread, hread, hsame]
  cases grouping.readFrom c.byteAt further width c.pos with
  | ok r => exact .ok r.1 (hc.advance r.2)
  | error e => exact .error e

theorem u32 : Later k id Decoder.u32 Decoder.u32 := .ofLeb128 _ _ _ fun _ _ => Leb128.unsignedFrom_eq ..

theorem signed (width : Nat) :
    Later k id (Decoder.ofLeb128 (Leb128.signed width)) (Decoder.ofLeb128 (Leb128.signed width)) :=
  .ofLeb128 _ _ _ fun _ _ => Leb128.signedFrom_eq ..

/-! ### The decoders put together from them -/

/-- **What is put together in the same way reads the same at another place.** -/
theorem of_parallel {features : Features} (h : Parallel features features (· + k) (fun _ => True) f d d') :
    Later k f d d' := by
  generalize hAt : (fun _ : Nat => True) = At at h
  induction h with
  | pure a => exact .pure a
  | bind _ _ hd hk => exact .bind (hd hAt) fun a => hk a hAt
  | fail => exact .fail _ _
  | refused hne => exact absurd rfl hne
  | start _ hk => exact .bind position fun p => hk p (hAt ▸ trivial) hAt
  | remaining => exact remaining
  | atEnd => exact atEnd
  | peek => exact peek
  | byte => exact byte
  | bytes n => exact bytes n
  | u32 => exact u32
  | signed => exact signed _
  | finish what => exact finish what
  | within _ n _ hd hk => exact .within (hd _ rfl) n fun a w w' => hk a w w' hAt

theorem count : Later k id Decoder.count Decoder.count := of_parallel (.count (f := .all))

theorem name : Later k id Decoder.name Decoder.name := of_parallel (.name (f := .all))

theorem limits : Later k id Decoder.limits Decoder.limits := of_parallel (.limits (f := .all))

theorem exportEntry : Later k id Decoder.exportEntry Decoder.exportEntry := of_parallel (.exportEntry (f := .all))

section

variable (features : Features)

theorem funcType : Later k id (Decoder.funcType features) (Decoder.funcType features) :=
  of_parallel (.funcType features.le_refl)

theorem tableType : Later k id (Decoder.tableType features) (Decoder.tableType features) :=
  of_parallel (.tableType features.le_refl)

theorem importEntry : Later k id (Decoder.importEntry features) (Decoder.importEntry features) :=
  of_parallel (.importEntry features.le_refl)

theorem globalDef : Later k id (Decoder.globalDef features) (Decoder.globalDef features) :=
  of_parallel (.globalDef features.le_refl)

theorem elementSegment : Later k id (Decoder.elementSegment features) (Decoder.elementSegment features) :=
  of_parallel (.elementSegment features.le_refl)

theorem dataSegment : Later k id (Decoder.dataSegment features) (Decoder.dataSegment features) :=
  of_parallel (.dataSegment features.le_refl)

theorem sizedBody (limits : DecodeLimits) : Later k (FunctionBody.mapOffsets (· + k))
    (Decoder.sizedBody features limits) (Decoder.sizedBody features limits) :=
  of_parallel (.sizedBody features.le_refl limits)

end

/-! ### Names -/

theorem nameMap : ∀ (pairs : Nat) (names : List (Nat × String)),
    Later k id (Decoder.nameMap pairs names) (Decoder.nameMap pairs names)
  | 0, _ => .pure _
  | pairs + 1, names => .bind u32 fun index => .bind name fun text =>
      nameMap pairs (Names.insertName index text names)

theorem moduleName : Later k id Decoder.moduleName Decoder.moduleName :=
  .bind name fun _ => .bind (finish _) fun _ => .pure _

theorem functionNames : Later k id Decoder.functionNames Decoder.functionNames :=
  .bind count fun n => .bind (nameMap n []) fun _ => .bind (finish _) fun _ => .pure _

theorem nameSubsection (names : Names) :
    Later k id (Decoder.nameSubsection names) (Decoder.nameSubsection names) :=
  .bind byte fun _ => .bind u32 fun size =>
    .ite (.within moduleName size fun _ _ _ => .pure _) <|
    .ite (.within functionNames size fun _ _ _ => .pure _) <|
    .split size fun _ _ _ => .pure _

theorem nameSubsections : ∀ (fuel : Nat) (names : Names),
    Later k id (Decoder.nameSubsections fuel names) (Decoder.nameSubsections fuel names)
  | 0, _ => .pure _
  | fuel + 1, names => .bind atEnd fun _ => .ite (.pure _) <|
      .bind (nameSubsection names) fun names => nameSubsections fuel names

theorem nameSection : Later k id Decoder.nameSection Decoder.nameSection :=
  .bind remaining fun n => nameSubsections n {}

end Later

end Decoder

end WasmEngine
