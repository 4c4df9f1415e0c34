import WasmEngine.Proofs.Binary.Framing
import WasmEngine.Proofs.Binary.Integers
import WasmEngine.Proofs.Binary.Widening
import WasmEngine.Proofs.Memory.Bytes

/-!
# Decoders and grammars

A grammar says which bytes stand for which values. There are three things to be said of a decoder and some bytes: that
whatever it reads is of a grammar (`Decoder.Follows`), that it reads some bytes as a value whatever stands behind them
(`Decoder.Accepts`), and that it reads nothing from bytes that begin in some way (`Decoder.Rejects`). Each of them has
a rule for each way to put decoders together, so that a proof goes through a decoder from its first byte to its last.

A decoder that follows a grammar and accepts all of it is **exact** (`Decoder.Exact`). The grammar is then one that can
be read from left to right: no bytes begin with two of its words (`Decoder.Exact.unique`).
-/

namespace WasmEngine

/-! ### Words at the front of a window -/

namespace Cursor

variable {c : Cursor} {bs bs' : List UInt8}

theorem Sound.pass (hc : c.Sound) (h : bs <+: c.rest) : (c.advance bs.length).Sound :=
  hc.advance (hc.length_rest ▸ h.length_le)

theorem append_prefix_rest : bs ++ bs' <+: c.rest ↔ bs <+: c.rest ∧ bs' <+: (c.advance bs.length).rest := by
  rw [rest_advance]
  constructor
  · rintro ⟨tail, h⟩
    rw [← h, List.append_assoc]
    exact ⟨List.prefix_append _ _, by rw [List.drop_left]; exact List.prefix_append _ _⟩
  · rintro ⟨⟨tail, h⟩, h'⟩
    rw [← h, List.drop_left] at h'
    rw [← h]
    exact List.prefix_append_right_inj bs |>.mpr h'

theorem advance_append (c : Cursor) (bs bs' : List UInt8) :
    c.advance (bs ++ bs').length = (c.advance bs.length).advance bs'.length := by
  rw [advance_advance, List.length_append]

end Cursor

/-! ### Bytes -/

theorem toLittleEndian_littleEndian (bs : List UInt8) : toLittleEndian bs.length (littleEndian bs) = bs := by
  induction bs with
  | nil => rfl
  | cons b bs ih =>
    have hb := b.toNat_lt
    have hhigh : littleEndian (b :: bs) / 256 = littleEndian bs := by
      change (b.toNat + 256 * littleEndian bs) / 256 = _
      omega
    have hlow : UInt8.ofNat (littleEndian (b :: bs)) = b := by
      refine UInt8.toNat_inj.mp ?_
      rw [UInt8.toNat_ofNat']
      change (b.toNat + 256 * littleEndian bs) % 256 = _
      omega
    rw [List.length_cons, toLittleEndian, hhigh, hlow, ih]

theorem RefType.ofByte?_eq_some {b : UInt8} {t : RefType} : ofByte? b = some t ↔ t.byte = b := by
  constructor
  · intro h
    unfold ofByte? at h
    split at h
    · next hb => cases h; exact hb.symm
    split at h
    · next hb => cases h; exact hb.symm
    · nomatch h
  · rintro rfl
    cases t <;> rfl

theorem ValueType.ofByte?_eq_some {b : UInt8} {t : ValueType} : ofByte? b = some t ↔ t.byte = b := by
  constructor
  · intro h
    unfold ofByte? at h
    iterate 4
      split at h
      · next hb => cases h; exact hb.symm
    obtain ⟨t, ht, rfl⟩ := Option.map_eq_some_iff.mp h
    exact RefType.ofByte?_eq_some.mp ht
  · rintro rfl
    rcases t with _ | _ | _ | _ | ⟨_ | _⟩ <;> rfl

namespace Decoder

variable {α β : Type} {d : Decoder α} {k : α → Decoder β} {F : List UInt8 → α → Prop} {G : List UInt8 → β → Prop}
  {bs bs' : List UInt8} {a : α} {b : β}

/-- **Whatever the decoder reads is of the grammar.** -/
def Follows (d : Decoder α) (F : List UInt8 → α → Prop) : Prop :=
  ∀ c a c', c.Sound → d c = .ok a c' → ∃ bs, F bs a ∧ bs <+: c.rest ∧ c.advance bs.length = c'

/-- **The decoder reads bytes as a value**, whatever stands behind them. -/
def Accepts (d : Decoder α) (bs : List UInt8) (a : α) : Prop :=
  ∀ c, c.Sound → bs <+: c.rest → d c = .ok a (c.advance bs.length)

/-- **The decoder reads nothing** from bytes that begin with these. -/
def Rejects (d : Decoder α) (bs : List UInt8) : Prop :=
  ∀ c, c.Sound → bs <+: c.rest → ∀ a c', d c ≠ .ok a c'

/-- **A decoder is exact** for a grammar: it reads all words of it, whatever stands behind them, and nothing else. -/
def Exact (d : Decoder α) (F : List UInt8 → α → Prop) : Prop :=
  ∀ c a c', c.Sound → (d c = .ok a c' ↔ ∃ bs, F bs a ∧ bs <+: c.rest ∧ c.advance bs.length = c')

namespace Exact

theorem of_follows (h : Follows d F) (h' : ∀ bs a, F bs a → Accepts d bs a) : Exact d F := by
  intro c a c' hc
  refine ⟨h c a c' hc, ?_⟩
  rintro ⟨bs, hbs, hpre, rfl⟩
  exact h' bs a hbs c hc hpre

theorem follows (h : Exact d F) : Follows d F := fun c a c' hc => (h c a c' hc).mp

theorem accepts (h : Exact d F) (hbs : F bs a) : Accepts d bs a :=
  fun c hc hpre => (h c a _ hc).mpr ⟨bs, hbs, hpre, rfl⟩

/-- **A word ends where it says so**: no other one begins with the same bytes. -/
theorem unique (h : Exact d F) {rest rest' : List UInt8} {a' : α} (hbs : F bs a) (hbs' : F bs' a')
    (hbytes : bs ++ rest = bs' ++ rest') : bs = bs' ∧ a = a' := by
  have hc := Cursor.sound_ofBytes (bs ++ rest).toByteArray
  have hrest : (Cursor.ofBytes (bs ++ rest).toByteArray).rest = bs ++ rest := by
    rw [Cursor.rest_ofBytes, ByteArray.toList_eq, List.data_toByteArray]
  have hread := h.accepts hbs _ hc (by rw [hrest]; exact List.prefix_append bs rest)
  have hread' := h.accepts hbs' _ hc (by rw [hrest, hbytes]; exact List.prefix_append bs' rest')
  rw [hread] at hread'
  injection hread' with ha hcursor
  have hlength : bs.length = bs'.length := by simpa [Cursor.advance] using hcursor
  exact ⟨(List.append_inj hbytes hlength).1, ha⟩

end Exact

/-! ### Rules -/

namespace Follows

protected theorem pure (h : F [] a) : Follows (pure a) F := by
  intro c a' c' _ h'
  obtain ⟨rfl, rfl⟩ := estate_pure_eq_ok.mp h'
  exact ⟨[], h, List.nil_prefix, rfl⟩

theorem fail {fault : DecodeFault} {offset : Nat} : Follows (Decoder.fail fault offset) F := fun _ _ _ _ h => nomatch h

theorem bind (hd : Follows d F) (hk : ∀ a bs, F bs a → Follows (k a) fun bs' => G (bs ++ bs')) :
    Follows (d >>= k) G := by
  intro c b c' hc h
  obtain ⟨a, c₁, ha, hb⟩ := estate_bind_eq_ok.mp h
  obtain ⟨bs, hbs, hpre, rfl⟩ := hd _ _ _ hc ha
  obtain ⟨bs', hbs', hpre', rfl⟩ := hk a bs hbs _ _ _ (hc.pass hpre) hb
  exact ⟨bs ++ bs', hbs', Cursor.append_prefix_rest.mpr ⟨hpre, hpre'⟩, c.advance_append bs bs'⟩

theorem mono {F' : List UInt8 → α → Prop} (hd : Follows d F) (h : ∀ a bs, F bs a → F' bs a) : Follows d F' := by
  intro c a c' hc ha
  obtain ⟨bs, hbs, hrest⟩ := hd c a c' hc ha
  exact ⟨bs, h a bs hbs, hrest⟩

/-- The last bytes are read. -/
theorem map {f : α → β} (hd : Follows d F) (h : ∀ a bs, F bs a → G bs (f a)) :
    Follows (d >>= fun a => pure (f a)) G :=
  hd.bind fun a bs hbs => .pure (by rw [List.append_nil]; exact h a bs hbs)

/-- No bytes are read. -/
theorem start {k : Nat → Decoder β} (hk : ∀ p, Follows (k p) G) : Follows (position >>= k) G :=
  fun c b c' hc h => hk c.pos c b c' hc h

theorem require {features : Features} {p : Proposal} {offset : Nat} {k : Unit → Decoder β} (hk : Follows (k ()) G) :
    Follows (Decoder.require features p offset >>= k) G :=
  fun c b c' hc h => hk c b c' hc (below_of_require c b c' h)

theorem ite {c : Prop} [Decidable c] {d' : Decoder α} (h : c → Follows d F) (h' : ¬c → Follows d' F) :
    Follows (if c then d else d') F := by
  split
  · exact h ‹_›
  · exact h' ‹_›

/-- What is read behind a check. -/
theorem gate {c : Prop} [Decidable c] {fault : DecodeFault} {offset : Nat} {k : Unit → Decoder β}
    (h : ¬c → Follows (k ()) G) : Follows (if c then Decoder.fail fault offset >>= k else k ()) G :=
  ite (fun _ _ _ _ _ h => nomatch h) h

theorem byte {k : UInt8 → Decoder β} (hk : ∀ b, Follows (k b) fun bs => G (b :: bs)) :
    Follows (Decoder.byte >>= k) G := by
  refine bind (F := fun bs b => bs = [b]) ?_ ?_
  · intro c b c' hc h
    obtain ⟨hb, rfl⟩ := byte_eq_ok_iff.mp h
    obtain ⟨tail, htail⟩ := List.head?_eq_some_iff.mp hb
    exact ⟨[b], rfl, htail ▸ List.prefix_append [b] tail, rfl⟩
  · rintro b _ rfl
    exact hk b

end Follows

theorem accepts_byte (x : UInt8) : Accepts byte [x] x := by
  rintro c hc ⟨tail, htail⟩
  exact byte_eq_ok_iff.mpr ⟨by rw [← htail]; rfl, rfl⟩

namespace Accepts

protected theorem pure : Accepts (pure a) [] a := fun _ _ _ => rfl

theorem bind (hd : Accepts d bs a) (hk : Accepts (k a) bs' b) : Accepts (d >>= k) (bs ++ bs') b := by
  intro c hc hpre
  obtain ⟨h, h'⟩ := Cursor.append_prefix_rest.mp hpre
  rw [estate_bind_of_ok (hd c hc h), hk _ (hc.pass h) h', Cursor.advance_append]

/-- The last bytes are read. -/
theorem last (hd : Accepts d bs a) (hk : Accepts (k a) [] b) : Accepts (d >>= k) bs b := by
  have h := hd.bind hk
  rwa [List.append_nil] at h

theorem map {f : α → β} (hd : Accepts d bs a) : Accepts (d >>= fun a => pure (f a)) bs (f a) := hd.last .pure

theorem ite {c : Prop} [Decidable c] {d' : Decoder α} (h : c → Accepts d bs a) (h' : ¬c → Accepts d' bs a) :
    Accepts (if c then d else d') bs a := by
  split
  · exact h ‹_›
  · exact h' ‹_›

/-- No bytes are read. -/
theorem start {k : Nat → Decoder β} (hk : ∀ p, Accepts (k p) bs b) : Accepts (position >>= k) bs b :=
  fun c hc h => hk c.pos c hc h

theorem require {p : Proposal} {offset : Nat} {k : Unit → Decoder β} (hk : Accepts (k ()) bs b) :
    Accepts (Decoder.require .all p offset >>= k) bs b := by
  have hrequire : Decoder.require .all p offset = pure () := by cases p <;> rfl
  rw [hrequire]
  exact hk

theorem byte {k : UInt8 → Decoder β} {x : UInt8} (hk : Accepts (k x) bs b) :
    Accepts (Decoder.byte >>= k) (x :: bs) b :=
  bind (accepts_byte x) hk

end Accepts

namespace Rejects

theorem fail {fault : DecodeFault} {offset : Nat} : Rejects (Decoder.fail fault offset : Decoder α) bs :=
  fun _ _ _ _ _ h => nomatch h

/-- What is read first is not there. -/
theorem first (hd : Rejects d bs) : Rejects (d >>= k) bs := by
  intro c hc hpre b c' h
  obtain ⟨a, c₁, ha, -⟩ := estate_bind_eq_ok.mp h
  exact hd c hc hpre a c₁ ha

/-- What is read behind it is not there. -/
theorem next (hd : Accepts d bs a) (hk : Rejects (k a) bs') : Rejects (d >>= k) (bs ++ bs') := by
  intro c hc hpre b c' h
  obtain ⟨hbs, hbs'⟩ := Cursor.append_prefix_rest.mp hpre
  rw [estate_bind_of_ok (hd c hc hbs)] at h
  exact hk _ (hc.pass hbs) hbs' b c' h

theorem append (h : Rejects d bs) : Rejects d (bs ++ bs') :=
  fun c hc hpre => h c hc ((List.prefix_append bs bs').trans hpre)

theorem last (hd : Accepts d bs a) (hk : Rejects (k a) []) : Rejects (d >>= k) bs := by
  have h := next hd hk
  rwa [List.append_nil] at h

theorem start {k : Nat → Decoder β} (hk : ∀ p, Rejects (k p) bs) : Rejects (position >>= k) bs :=
  fun c hc h => hk c.pos c hc h

theorem byte {k : UInt8 → Decoder β} {x : UInt8} (hk : Rejects (k x) bs) : Rejects (Decoder.byte >>= k) (x :: bs) :=
  next (accepts_byte x) hk

theorem require {features : Features} {p : Proposal} {offset : Nat} {k : Unit → Decoder β} (hk : Rejects (k ()) bs) :
    Rejects (Decoder.require features p offset >>= k) bs :=
  fun c hc hpre b c' h => hk c hc hpre b c' (below_of_require c b c' h)

end Rejects

/-! ### Integers -/

theorem ofLeb128_exact {read : (Nat → Option UInt8) → Nat → Except DecodeError (α × Nat)} {g : Leb128.Grouping α}
    {width : Nat} (hwidth : 0 < width)
    (hread : ∀ byteAt position, read byteAt position = g.readFrom byteAt (Leb128.furtherBytes width) width position) :
    Exact (ofLeb128 read) (g.Encodes width) := by
  intro c a c' _
  have hfurther : 7 * Leb128.furtherBytes width < width ∧ width ≤ 7 * (Leb128.furtherBytes width + 1) := by
    unfold Leb128.furtherBytes
    omega
  rw [ofLeb128_eq_ok]
  constructor
  · rintro ⟨n, h, rfl⟩
    rw [hread, Leb128.Grouping.readFrom_eq_ok_iff (fun i => (c.getElem?_rest i).symm) hfurther.1 hfurther.2] at h
    obtain ⟨bs, hbs, hpre, rfl⟩ := h
    exact ⟨bs, hbs, hpre, rfl⟩
  · rintro ⟨bs, hbs, hpre, rfl⟩
    refine ⟨bs.length, ?_, rfl⟩
    rw [hread, Leb128.Grouping.readFrom_eq_ok_iff (fun i => (c.getElem?_rest i).symm) hfurther.1 hfurther.2]
    exact ⟨bs, hbs, hpre, rfl⟩

theorem u32_exact : Exact u32 (Leb128.Unsigned 32) := by
  intro c n c' hc
  simp only [Leb128.unsigned_iff_encodes]
  exact ofLeb128_exact (by decide) (fun _ _ => Leb128.unsignedFrom_eq ..) c n c' hc

theorem signed_exact {width : Nat} (hwidth : 0 < width) :
    Exact (ofLeb128 (Leb128.signed width)) (Leb128.Signed width) := by
  intro c n c' hc
  simp only [Leb128.signed_iff_encodes]
  exact ofLeb128_exact hwidth (fun _ _ => Leb128.signedFrom_eq ..) c n c' hc

theorem s32_exact : Exact s32 (Leb128.Signed 32) := signed_exact (by decide)

theorem s33_exact : Exact s33 (Leb128.Signed 33) := signed_exact (by decide)

theorem s64_exact : Exact s64 (Leb128.Signed 64) := signed_exact (by decide)

/-! ### Words and types -/

/-- A word is as many bytes, the lowest first. -/
theorem word_exact (n : Nat) : Exact (do return BitVec.ofNat (8 * n) (littleEndian (← bytes n).toList))
    fun bs (w : BitVec (8 * n)) => bs = toLittleEndian n w.toNat := by
  have hpow : 2 ^ (8 * n) = 256 ^ n := by rw [Nat.pow_mul]
  intro c w c' hc
  simp only [estate_bind_eq_ok, bytes_eq_ok, estate_pure_eq_ok]
  constructor
  · rintro ⟨_, _, ⟨hn, rfl, rfl⟩, rfl, rfl⟩
    rw [toList_take hn]
    have hlength : (c.rest.take n).length = n := by rw [List.length_take, hc.length_rest, Nat.min_eq_left hn]
    have hlt := littleEndian_lt (c.rest.take n)
    have hbytes := toLittleEndian_littleEndian (c.rest.take n)
    rw [hlength] at hlt hbytes
    refine ⟨c.rest.take n, ?_, List.take_prefix _ _, by rw [hlength]⟩
    rw [BitVec.toNat_ofNat, hpow, Nat.mod_eq_of_lt hlt, hbytes]
  · rintro ⟨_, rfl, hpre, rfl⟩
    have hn : n ≤ c.remaining := by
      rw [← hc.length_rest, ← length_toLittleEndian n w.toNat]
      exact hpre.length_le
    rw [length_toLittleEndian]
    refine ⟨_, _, ⟨hn, rfl, rfl⟩, ?_, rfl⟩
    have htake : c.rest.take n = toLittleEndian n w.toNat := by
      rw [List.prefix_iff_eq_take, length_toLittleEndian] at hpre
      exact hpre.symm
    rw [toList_take hn, htake, littleEndian_toLittleEndian, ← hpow, Nat.mod_eq_of_lt w.isLt, BitVec.ofNat_toNat,
      BitVec.setWidth_eq]

theorem word32_exact : Exact word32 fun bs w => bs = toLittleEndian 4 w.toNat := word_exact 4

theorem word64_exact : Exact word64 fun bs w => bs = toLittleEndian 8 w.toNat := word_exact 8

theorem refType_exact : Exact refType fun bs t => bs = [t.byte] := by
  refine .of_follows ?_ ?_
  · refine .start fun _ => .byte fun b => ?_
    split
    · next t ht => exact .pure (by rw [RefType.ofByte?_eq_some.mp ht])
    · exact .fail
  · rintro _ t rfl
    refine .start fun _ => .byte ?_
    rw [RefType.ofByte?_eq_some.mpr rfl]
    exact .pure

theorem valueType_exact : Exact valueType fun bs t => bs = [t.byte] := by
  refine .of_follows ?_ ?_
  · refine .start fun _ => .byte fun b => ?_
    split
    · next t ht => exact .pure (by rw [ValueType.ofByte?_eq_some.mp ht])
    · exact .fail
  · rintro _ t rfl
    refine .start fun _ => .byte ?_
    rw [ValueType.ofByte?_eq_some.mpr rfl]
    exact .pure

theorem follows_valueTypeOf {features : Features} : Follows (valueTypeOf features) fun bs t => bs = [t.byte] :=
  .start fun _ => valueType_exact.follows.bind fun t _ h =>
    .ite (fun _ => .require (.pure (by rw [List.append_nil, h]))) fun _ => .pure (by rw [List.append_nil, h])

theorem accepts_valueTypeOf (t : ValueType) : Accepts (valueTypeOf .all) [t.byte] t :=
  .start fun _ => .bind (valueType_exact.accepts rfl) (.ite (fun _ => .require .pure) fun _ => .pure)

/-! ### Vectors -/

/-- Words of a grammar one behind the other. -/
inductive Sequence (F : List UInt8 → α → Prop) : List UInt8 → List α → Prop
  | nil : Sequence F [] []
  | cons {bs bs' : List UInt8} {a : α} {as : List α} : F bs a → Sequence F bs' as →
    Sequence F (bs ++ bs') (a :: as)

/-- **A vector**: the number of its items, and the items behind it. -/
inductive Counted (F : List UInt8 → α → Prop) : List UInt8 → List α → Prop
  | mk {bs bs' : List UInt8} {as : List α} : Leb128.Unsigned 32 bs as.length → Sequence F bs' as →
    Counted F (bs ++ bs') as

theorem Sequence.length_le (hF : ∀ bs a, F bs a → bs ≠ []) {as : List α} (h : Sequence F bs as) :
    as.length ≤ bs.length := by
  induction h with
  | nil => exact Nat.le_refl _
  | cons ha _ ih =>
    have := List.length_pos_of_ne_nil (hF _ _ ha)
    rw [List.length_cons, List.length_append]
    omega

theorem Follows.items (hd : Follows d F) : ∀ n, Follows (items d n) fun bs as => as.length = n ∧ Sequence F bs as
  | 0 => .pure ⟨rfl, .nil⟩
  | n + 1 => hd.bind fun _ _ ha => (Follows.items hd n).map fun _ _ has => ⟨congrArg (· + 1) has.1, .cons ha has.2⟩

theorem accepts_items (hd : ∀ bs a, F bs a → Accepts d bs a) {as : List α} (h : Sequence F bs as) :
    Accepts (items d as.length) bs as := by
  induction h with
  | nil => exact .pure
  | cons ha _ ih => exact .bind (hd _ _ ha) (.map ih)

theorem count_eq_ok {c c' : Cursor} {n : Nat} : count c = .ok n c' ↔ u32 c = .ok n c' ∧ n ≤ c'.remaining := by
  simp only [count, estate_bind_eq_ok, position_eq_ok, remaining_eq_ok]
  constructor
  · rintro ⟨_, _, ⟨rfl, rfl⟩, m, c₁, hm, _, _, ⟨rfl, rfl⟩, h⟩
    split at h
    · cases h
    · next hle =>
      cases h
      exact ⟨hm, Nat.le_of_not_lt hle⟩
  · rintro ⟨hm, hle⟩
    refine ⟨_, _, ⟨rfl, rfl⟩, n, c', hm, _, _, ⟨rfl, rfl⟩, ?_⟩
    rw [if_neg (Nat.not_lt.mpr hle)]
    rfl

/-- A vector is read exactly if its items are, each of which takes a byte at least. -/
theorem Exact.vector (hd : Exact d F) (hF : ∀ bs a, F bs a → bs ≠ []) : Exact (vector d) (Counted F) := by
  refine .of_follows ?_ ?_
  · have hcount : Follows count (Leb128.Unsigned 32) := fun c n c' hc h =>
      u32_exact.follows c n c' hc (count_eq_ok.mp h).1
    refine hcount.bind fun n bs hn => (hd.follows.items n).mono fun as bs' has => ?_
    obtain ⟨rfl, hsequence⟩ := has
    exact .mk hn hsequence
  · rintro _ as (@⟨bs, bs', as, hn, has⟩) c hc hpre
    obtain ⟨hbs, hbs'⟩ := Cursor.append_prefix_rest.mp hpre
    have hc' := hc.pass hbs
    -- there are at least as many bytes as items
    have hcount : count c = .ok as.length (c.advance bs.length) := by
      refine count_eq_ok.mpr ⟨u32_exact.accepts hn c hc hbs, ?_⟩
      rw [← hc'.length_rest]
      exact (has.length_le hF).trans hbs'.length_le
    rw [Decoder.vector, estate_bind_of_ok hcount, accepts_items (fun _ _ h => hd.accepts h) has _ hc' hbs',
      Cursor.advance_append]

end Decoder

end WasmEngine
