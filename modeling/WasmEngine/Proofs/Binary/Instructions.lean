import WasmEngine.Proofs.Binary.InstructionGrammar

/-!
# Instructions are read exactly

What is read as an instruction has the form of one, whatever proposals are on (`Decoder.follows_instruction`). With all
of them on, all forms are read (`Decoder.accepts_instruction`), so the decoder is exact for the grammar
(`Decoder.instruction_exact`).

Bytes that begin no instruction are refused, then. There are a few ways to miss the format by little
(`Instruction.Malformed`).
-/

namespace WasmEngine

open Leb128 (Signed Unsigned)

/-! ### All that is read is of the grammar -/

namespace Decoder

variable {features : Features}

theorem u32_ne_nil {bs : List UInt8} {n : Nat} (h : Unsigned 32 bs n) : bs ≠ [] := by
  cases h <;> exact List.cons_ne_nil _ _

theorem follows_zeroByte {α : Type} {k : Unit → Decoder α} {G : List UInt8 → α → Prop}
    (hk : Follows (k ()) fun bs => G (0x00 :: bs)) : Follows (zeroByte >>= k) G := by
  refine .bind (F := fun bs _ => bs = [0x00]) (.start fun _ => .byte fun b => ?_) ?_
  · exact .ite (fun hb => .pure (by rw [hb])) fun _ => .fail
  · rintro _ _ rfl
    exact hk

theorem memArg_exact : Exact memArg fun bs arg => arg.Encoded bs := by
  refine .of_follows ?_ ?_
  · exact u32_exact.follows.bind fun _ _ halign => u32_exact.follows.map fun _ _ hoffset => .mk halign hoffset
  · rintro _ _ ⟨halign, hoffset⟩
    exact .bind (u32_exact.accepts halign) (.map (u32_exact.accepts hoffset))

theorem follows_blockType : Follows (blockType features) fun bs type => type.Encoded bs := by
  refine .start fun start => ?_
  intro c type c' hc h
  obtain ⟨b, c₁, hpeek, h⟩ := estate_bind_eq_ok.mp h
  obtain ⟨hb, rfl⟩ := peek_eq_ok.mp hpeek
  have hindex : Follows (do
      let index ← s33
      require features .multiValue start
      if index < 0 then fail (.blockType index) start else return .index index.toNat) fun bs (type : BlockType) =>
        type.Encoded bs := by
    refine s33_exact.follows.bind fun n bs hn => .require (.ite (fun _ => .fail) fun hnonneg => .pure ?_)
    obtain ⟨index, rfl⟩ := Int.eq_ofNat_of_zero_le (Int.not_lt.mp hnonneg)
    rw [List.append_nil]
    exact .index hn
  split at h
  · next hempty =>
    -- the byte that is read is the one that was looked at
    obtain ⟨b', c₁, hread, h⟩ := estate_bind_eq_ok.mp h
    obtain ⟨hb', rfl⟩ := byte_eq_ok_iff.mp hread
    obtain ⟨tail, htail⟩ := List.head?_eq_some_iff.mp hb'
    rw [(byte_eq_ok.mp hread).1, Option.some_inj, hempty] at hb
    cases h
    exact ⟨[0x40], .empty, htail ▸ hb ▸ List.prefix_append [b'] tail, rfl⟩
  · refine Follows.ite (fun _ => ?_) (fun _ => hindex) c type c' hc h
    exact follows_valueTypeOf.map fun _ _ hbs => hbs ▸ .value _

theorem follows_branchTable : Follows branchTable fun bs => Instruction.Encoded (0x0E :: bs) :=
  (u32_exact.vector fun _ _ => u32_ne_nil).follows.bind fun _ _ hlabels =>
    u32_exact.follows.map fun _ _ hdefault => .brTable hlabels hdefault

theorem follows_indirectCall : Follows (indirectCall features) fun bs => Instruction.Encoded (0x11 :: bs) := by
  refine u32_exact.follows.bind fun _ _ htype => .start fun _ => u32_exact.follows.bind fun _ _ htable => ?_
  refine .ite (fun _ => .fail) fun _ => .pure ?_
  rw [List.append_nil]
  exact .callIndirect htype htable

theorem follows_typedSelect : Follows (typedSelect features) fun bs => Instruction.Encoded (0x1C :: bs) := by
  refine .start fun _ => u32_exact.follows.bind fun n _ hn => .ite (fun _ => .fail) fun hone => ?_
  obtain rfl : n = 1 := not_not.mp hone
  exact follows_valueTypeOf.map fun type _ hbs => hbs ▸ .selectTyped type hn

theorem follows_longInstruction (start : Nat) :
    Follows (longInstruction features start) fun bs => Instruction.Encoded (0xFC :: bs) := by
  refine u32_exact.follows.bind fun sub bs hsub => ?_
  split
  · next op hop =>
    refine .require (.pure ?_)
    rw [List.append_nil]
    exact .saturating (NumericOp.saturating_eq_some.mp hop) hsub
  refine .require ?_
  split
  case h_1 => exact u32_exact.follows.bind fun _ _ h => follows_zeroByte (.pure (.memoryInit hsub h))
  case h_2 => exact u32_exact.follows.map fun _ _ h => .dataDrop hsub h
  case h_3 => exact follows_zeroByte (follows_zeroByte (.pure (.memoryCopy hsub)))
  case h_4 => exact follows_zeroByte (.pure (.memoryFill hsub))
  case h_5 => exact u32_exact.follows.bind fun _ _ h => u32_exact.follows.map fun _ _ h' => .tableInit hsub h h'
  case h_6 => exact u32_exact.follows.map fun _ _ h => .elemDrop hsub h
  case h_7 => exact u32_exact.follows.bind fun _ _ h => u32_exact.follows.map fun _ _ h' => .tableCopy hsub h h'
  case h_8 => exact u32_exact.follows.map fun _ _ h => .tableGrow hsub h
  case h_9 => exact u32_exact.follows.map fun _ _ h => .tableSize hsub h
  case h_10 => exact u32_exact.follows.map fun _ _ h => .tableFill hsub h
  case h_11 => exact .fail

theorem follows_tabledInstruction (opcode : UInt8) (start : Nat) :
    Follows (tabledInstruction features opcode start) fun bs => Instruction.Encoded (opcode :: bs) := by
  unfold tabledInstruction
  split
  · next op hop =>
    obtain rfl := LoadOp.ofOpcode?_eq_some.mp hop
    exact memArg_exact.follows.map fun _ _ h => .load op h
  · next op _ hop =>
    obtain rfl := StoreOp.ofOpcode?_eq_some.mp hop
    exact memArg_exact.follows.map fun _ _ h => .store op h
  · next op _ _ hop =>
    have hnumeric := Instruction.Encoded.numeric (NumericOp.ofOpcode?_eq_some.mp hop)
    exact .ite (fun _ => .require (.pure hnumeric)) fun _ => .pure hnumeric
  · exact .fail

/-- **What is read as an instruction has the form of it**, whatever proposals are on. -/
theorem follows_instruction : Follows (instruction features) Instruction.Encoded := by
  refine .start fun start => .byte fun opcode => ?_
  split
  case h_1 => exact .pure .unreachable
  case h_2 => exact .pure .nop
  case h_3 => exact follows_blockType.map fun _ _ h => .block h
  case h_4 => exact follows_blockType.map fun _ _ h => .loop h
  case h_5 => exact follows_blockType.map fun _ _ h => .if_ h
  case h_6 => exact .pure .else_
  case h_7 => exact .pure .end_
  case h_8 => exact u32_exact.follows.map fun _ _ h => .br h
  case h_9 => exact u32_exact.follows.map fun _ _ h => .brIf h
  case h_10 => exact follows_branchTable
  case h_11 => exact .pure .return_
  case h_12 => exact u32_exact.follows.map fun _ _ h => .call h
  case h_13 => exact follows_indirectCall
  case h_14 => exact .pure .drop
  case h_15 => exact .pure .select
  case h_16 => exact .require follows_typedSelect
  case h_17 => exact u32_exact.follows.map fun _ _ h => .localGet h
  case h_18 => exact u32_exact.follows.map fun _ _ h => .localSet h
  case h_19 => exact u32_exact.follows.map fun _ _ h => .localTee h
  case h_20 => exact u32_exact.follows.map fun _ _ h => .globalGet h
  case h_21 => exact u32_exact.follows.map fun _ _ h => .globalSet h
  case h_22 => exact .require (u32_exact.follows.map fun _ _ h => .tableGet h)
  case h_23 => exact .require (u32_exact.follows.map fun _ _ h => .tableSet h)
  case h_24 => exact follows_zeroByte (.pure .memorySize)
  case h_25 => exact follows_zeroByte (.pure .memoryGrow)
  case h_26 => exact s32_exact.follows.map fun _ _ h => .i32Const h
  case h_27 => exact s64_exact.follows.map fun _ _ h => .i64Const h
  case h_28 => exact word32_exact.follows.map fun word _ h => h ▸ .f32Const word
  case h_29 => exact word64_exact.follows.map fun word _ h => h ▸ .f64Const word
  case h_30 => exact .require (refType_exact.follows.map fun type _ h => h ▸ .refNull type)
  case h_31 => exact .require (.pure .refIsNull)
  case h_32 => exact .require (u32_exact.follows.map fun _ _ h => .refFunc h)
  case h_33 => exact follows_longInstruction start
  case h_34 => exact follows_tabledInstruction opcode start

/-! ### All of the grammar is read -/

theorem accepts_zero : Accepts zeroByte [0x00] () := .start fun _ => .byte .pure

theorem accepts_zeroByte {α : Type} {k : Unit → Decoder α} {bs : List UInt8} {a : α} (hk : Accepts (k ()) bs a) :
    Accepts (zeroByte >>= k) (0x00 :: bs) a := .bind accepts_zero hk

theorem peek_of_front {c : Cursor} {b : UInt8} {bs : List UInt8} (h : b :: bs <+: c.rest) : peek c = .ok b c := by
  obtain ⟨tail, htail⟩ := h
  refine peek_eq_ok.mpr ⟨?_, rfl⟩
  rw [← Nat.add_zero c.pos, ← Cursor.getElem?_rest, ← htail]
  rfl

theorem accepts_peek {α : Type} {k : UInt8 → Decoder α} {b : UInt8} {bs : List UInt8} {a : α}
    (hk : Accepts (k b) (b :: bs) a) : Accepts (peek >>= k) (b :: bs) a := by
  intro c hc hpre
  rw [estate_bind_of_ok (peek_of_front hpre)]
  exact hk c hc hpre

/-- An index does not begin like the other block types, and neither does a negative number of several bytes. -/
theorem head_of_signed {bs : List UInt8} {n : Int} (h : Signed 33 bs n) (hn : 0 ≤ n ∨ 1 < bs.length) :
    ∃ b tail, bs = b :: tail ∧ b ≠ 0x40 ∧ b &&& 0xC0 ≠ 0x40 := by
  have hbytes : ∀ k < 256, k < 64 ∨ 128 ≤ k → UInt8.ofNat k ≠ 0x40 ∧ UInt8.ofNat k &&& 0xC0 ≠ 0x40 := by
    decide +kernel
  have hbyte (b : UInt8) (hb : b.toNat < 64 ∨ 128 ≤ b.toNat) : b ≠ 0x40 ∧ b &&& 0xC0 ≠ 0x40 := by
    have := hbytes b.toNat b.toNat_lt hb
    rwa [UInt8.ofNat_toNat] at this
  cases h with
  | nonnegative hb _ => exact ⟨_, _, rfl, hbyte _ (.inl hb)⟩
  | negative => exact absurd hn (by simp; omega)
  | more hb _ _ => exact ⟨_, _, rfl, hbyte _ (.inr hb)⟩

theorem accepts_blockType {bs : List UInt8} {type : BlockType} (h : type.Encoded bs) :
    Accepts (blockType .all) bs type := by
  refine .start fun start => ?_
  cases h with
  | empty => exact accepts_peek (.byte .pure)
  | value t =>
    refine accepts_peek ?_
    have hbyte : t.byte ≠ 0x40 ∧ t.byte &&& 0xC0 = 0x40 := by rcases t with _ | _ | _ | _ | ⟨_ | _⟩ <;> decide
    rw [if_neg hbyte.1, if_pos hbyte.2]
    exact .map (accepts_valueTypeOf t)
  | index hn =>
    obtain ⟨b, tail, rfl, hempty, hvalue⟩ := head_of_signed hn (.inl (Int.natCast_nonneg _))
    refine accepts_peek ?_
    rw [if_neg hempty, if_neg hvalue]
    refine .last (s33_exact.accepts hn) (.require ?_)
    rw [if_neg (by omega), Int.toNat_natCast]
    exact .pure

/-- Opcodes of tables are found in the tables. -/
theorem accepts_tabled {b : UInt8} {bs : List UInt8} {i : Instruction}
    (hb : 0x28 ≤ b.toNat ∧ b.toNat ≤ 0x3E ∨ 0x45 ≤ b.toNat ∧ b.toNat ≤ 0xC4)
    (h : ∀ start, Accepts (tabledInstruction .all b start) bs i) : Accepts (instruction .all) (b :: bs) i := by
  refine .start fun start => .byte ?_
  split
  case h_34 => exact h start
  all_goals exact absurd hb (by decide)

theorem accepts_load (op : LoadOp) {bs : List UInt8} {arg : MemArg} (h : arg.Encoded bs) :
    Accepts (instruction .all) (op.byte :: bs) (.load op arg) := by
  have hrange := op.byte_range
  refine accepts_tabled (by omega) fun start => ?_
  rw [tabledInstruction, LoadOp.ofOpcode?_eq_some.mpr rfl]
  exact .map (memArg_exact.accepts h)

theorem accepts_store (op : StoreOp) {bs : List UInt8} {arg : MemArg} (h : arg.Encoded bs) :
    Accepts (instruction .all) (op.byte :: bs) (.store op arg) := by
  have hrange := op.byte_range
  have hload : LoadOp.ofOpcode? op.byte.toNat = none := Option.eq_none_iff_forall_ne_some.mpr fun load hload => by
    have := load.byte_range
    rw [LoadOp.ofOpcode?_eq_some.mp hload] at this
    omega
  refine accepts_tabled (by omega) fun start => ?_
  rw [tabledInstruction, hload, StoreOp.ofOpcode?_eq_some.mpr rfl]
  exact .map (memArg_exact.accepts h)

theorem accepts_numeric {op : NumericOp} {b : UInt8} (h : op.byte? = some b) :
    Accepts (instruction .all) [b] (.numeric op) := by
  have hrange := NumericOp.byte_range h
  have hload : LoadOp.ofOpcode? b.toNat = none := Option.eq_none_iff_forall_ne_some.mpr fun load hload => by
    have := load.byte_range
    rw [LoadOp.ofOpcode?_eq_some.mp hload] at this
    omega
  have hstore : StoreOp.ofOpcode? b.toNat = none := Option.eq_none_iff_forall_ne_some.mpr fun store hstore => by
    have := store.byte_range
    rw [StoreOp.ofOpcode?_eq_some.mp hstore] at this
    omega
  refine accepts_tabled (by omega) fun start => ?_
  rw [tabledInstruction, hload, hstore, NumericOp.ofOpcode?_eq_some.mpr h]
  exact .ite (fun _ => .require .pure) fun _ => .pure

theorem accepts_instruction {bs : List UInt8} {i : Instruction} (h : i.Encoded bs) :
    Accepts (instruction .all) bs i := by
  cases h with
  | unreachable | nop | else_ | end_ | return_ | drop | select => exact .start fun _ => .byte .pure
  | block h | loop h | if_ h => exact .start fun _ => .byte (.map (accepts_blockType h))
  | br h | brIf h | call h | localGet h | localSet h | localTee h | globalGet h | globalSet h =>
    exact .start fun _ => .byte (.map (u32_exact.accepts h))
  | tableGet h | tableSet h | refFunc h => exact .start fun _ => .byte (.require (.map (u32_exact.accepts h)))
  | brTable h h' =>
    have hlabels := (u32_exact.vector fun _ _ => u32_ne_nil).accepts h
    exact .start fun _ => .byte (.bind hlabels (.map (u32_exact.accepts h')))
  | callIndirect h h' =>
    refine .start fun _ => .byte (.bind (u32_exact.accepts h) (.start fun _ => .last (u32_exact.accepts h') ?_))
    rw [if_neg (by simp [Features.all])]
    exact .pure
  | selectTyped type h =>
    have htype := Accepts.map (f := Instruction.selectTyped) (accepts_valueTypeOf type)
    exact .start fun _ => .byte (.require (.start fun _ => .bind (u32_exact.accepts h) htype))
  | load op h => exact accepts_load op h
  | store op h => exact accepts_store op h
  | memorySize | memoryGrow => exact .start fun _ => .byte (accepts_zeroByte .pure)
  | i32Const h => exact .start fun _ => .byte (.map (s32_exact.accepts h))
  | i64Const h => exact .start fun _ => .byte (.map (s64_exact.accepts h))
  | f32Const word => exact .start fun _ => .byte (.map (word32_exact.accepts rfl))
  | f64Const word => exact .start fun _ => .byte (.map (word64_exact.accepts rfl))
  | numeric h => exact accepts_numeric h
  | refNull type => exact .start fun _ => .byte (.require (.map (refType_exact.accepts rfl)))
  | refIsNull => exact .start fun _ => .byte (.require .pure)
  | saturating hop h =>
    refine .start fun _ => .byte (.last (u32_exact.accepts h) ?_)
    rw [NumericOp.saturating_eq_some.mpr hop]
    exact .require .pure
  | memoryInit h h' =>
    refine .start fun _ => .byte (.bind (u32_exact.accepts h) (.require ?_))
    exact .bind (u32_exact.accepts h') (accepts_zeroByte .pure)
  | memoryCopy h =>
    exact .start fun _ => .byte (.bind (u32_exact.accepts h) (.require (accepts_zeroByte (accepts_zeroByte .pure))))
  | memoryFill h => exact .start fun _ => .byte (.bind (u32_exact.accepts h) (.require (accepts_zeroByte .pure)))
  | dataDrop h h' | elemDrop h h' | tableGrow h h' | tableSize h h' | tableFill h h' =>
    exact .start fun _ => .byte (.bind (u32_exact.accepts h) (.require (.map (u32_exact.accepts h'))))
  | tableInit h h' h'' | tableCopy h h' h'' =>
    have hlast := u32_exact.accepts h''
    exact .start fun _ => .byte (.bind (u32_exact.accepts h) (.require (.bind (u32_exact.accepts h') (.map hlast))))

end Decoder

/-! ### Bytes that begin no instruction -/

/-- The bytes that instructions begin with. -/
def Instruction.Assigned (b : UInt8) : Prop :=
  b ≤ 0x05 ∨ 0x0B ≤ b ∧ b ≤ 0x11 ∨ 0x1A ≤ b ∧ b ≤ 0x1C ∨ 0x20 ≤ b ∧ b ≤ 0x26 ∨ 0x28 ≤ b ∧ b ≤ 0xC4 ∨
    0xD0 ≤ b ∧ b ≤ 0xD2 ∨ b = 0xFC

/-- **How bytes can miss the format**: by an opcode that there is not, by a byte that should be zero, by the index of a
type that is negative, or by a selection between values of several types or of none. -/
inductive Instruction.Malformed : List UInt8 → Prop
  | opcode {b : UInt8} : ¬Assigned b → Malformed [b]
  | longOpcode {bs : List UInt8} {sub : Nat} : Unsigned 32 bs sub → 17 < sub → Malformed (0xFC :: bs)
  | memorySize {b : UInt8} : b ≠ 0 → Malformed [0x3F, b]
  | memoryGrow {b : UInt8} : b ≠ 0 → Malformed [0x40, b]
  | memoryInit {b : UInt8} {bs bs' : List UInt8} {data : Nat} : Unsigned 32 bs 8 → Unsigned 32 bs' data → b ≠ 0 →
    Malformed (0xFC :: (bs ++ (bs' ++ [b])))
  | memoryCopy {b b' : UInt8} {bs : List UInt8} : Unsigned 32 bs 10 → b ≠ 0 ∨ b' ≠ 0 →
    Malformed (0xFC :: (bs ++ [b, b']))
  | memoryFill {b : UInt8} {bs : List UInt8} : Unsigned 32 bs 11 → b ≠ 0 → Malformed (0xFC :: (bs ++ [b]))
  | blockType {b : UInt8} {bs : List UInt8} {n : Int} : b ∈ [0x02, 0x03, 0x04] → Signed 33 bs n → n < 0 →
    1 < bs.length → Malformed (b :: bs)
  | selectTyped {bs : List UInt8} {n : Nat} : Unsigned 32 bs n → n ≠ 1 → Malformed (0x1C :: bs)

instance : DecidablePred Instruction.Assigned := fun _ => inferInstanceAs (Decidable (_ ∨ _))

theorem Instruction.Encoded.assigned {bs : List UInt8} {i : Instruction} (h : i.Encoded bs) :
    ∃ b tail, bs = b :: tail ∧ Assigned b := by
  have htabled {b : UInt8} (hb : 0x28 ≤ b.toNat ∧ b.toNat ≤ 0xC4) : Assigned b :=
    .inr (.inr (.inr (.inr (.inl ⟨UInt8.le_iff_toNat_le.mpr hb.1, UInt8.le_iff_toNat_le.mpr hb.2⟩))))
  cases h with
  | load op =>
    have := op.byte_range
    exact ⟨_, _, rfl, htabled (by omega)⟩
  | store op =>
    have := op.byte_range
    exact ⟨_, _, rfl, htabled (by omega)⟩
  | numeric hop =>
    have := NumericOp.byte_range hop
    exact ⟨_, _, rfl, htabled (by omega)⟩
  | _ => exact ⟨_, _, rfl, by decide⟩

namespace Decoder

theorem rejects_zeroByte {b : UInt8} (hb : b ≠ 0) : Rejects zeroByte [b] := by
  refine .start fun _ => .byte ?_
  rw [if_neg hb]
  exact .fail

theorem rejects_peek {α : Type} {k : UInt8 → Decoder α} {b : UInt8} {bs : List UInt8}
    (hk : Rejects (k b) (b :: bs)) : Rejects (peek >>= k) (b :: bs) := by
  intro c hc hpre
  rw [estate_bind_of_ok (peek_of_front hpre)]
  exact hk c hc hpre

theorem rejects_blockType {bs : List UInt8} {n : Int} (hn : Signed 33 bs n) (hneg : n < 0) (hlength : 1 < bs.length) :
    Rejects (blockType .all) bs := by
  obtain ⟨b, tail, rfl, hempty, hvalue⟩ := head_of_signed hn (.inr hlength)
  refine .start fun start => rejects_peek ?_
  rw [if_neg hempty, if_neg hvalue]
  refine .last (s33_exact.accepts hn) (.require ?_)
  rw [if_pos hneg]
  exact .fail

theorem rejects_instruction {bs : List UInt8} (h : Instruction.Malformed bs) : Rejects (instruction .all) bs := by
  cases h with
  | opcode hb =>
    rintro c hc ⟨rest, hrest⟩ i c' h
    obtain ⟨bs, hbs, ⟨rest', hrest'⟩, -⟩ := follows_instruction c i c' hc h
    obtain ⟨b', tail, rfl, hassigned⟩ := hbs.assigned
    obtain ⟨rfl, -⟩ := List.cons.inj (hrest'.trans hrest.symm)
    exact hb hassigned
  | longOpcode hsub hlarge =>
    refine .start fun _ => .byte (.last (u32_exact.accepts hsub) ?_)
    rw [List.getElem?_eq_none (show NumericOp.saturating.length ≤ _ from Nat.le_trans (by decide) hlarge)]
    refine .require ?_
    split
    case h_11 => exact .fail
    all_goals exact absurd hlarge (by decide)
  | memorySize hb | memoryGrow hb => exact .start fun _ => .byte (.first (rejects_zeroByte hb))
  | memoryInit hsub hdata hb =>
    refine .start fun _ => .byte (.next (u32_exact.accepts hsub) (.require ?_))
    exact .next (u32_exact.accepts hdata) (.first (rejects_zeroByte hb))
  | @memoryCopy b b' bs hsub hb =>
    refine .start fun _ => .byte (.next (u32_exact.accepts hsub) (.require ?_))
    by_cases hzero : b = 0
    · have hb' : b' ≠ 0 := hb.resolve_left (not_not_intro hzero)
      rw [hzero]
      exact .next accepts_zero (.first (rejects_zeroByte hb'))
    · change Rejects _ ([b] ++ [b'])
      exact .append (.first (rejects_zeroByte hzero))
  | memoryFill hsub hb =>
    exact .start fun _ => .byte (.next (u32_exact.accepts hsub) (.require (.first (rejects_zeroByte hb))))
  | blockType hb hn hneg hlength =>
    have htype := rejects_blockType hn hneg hlength
    simp only [List.mem_cons, List.not_mem_nil, or_false] at hb
    rcases hb with rfl | rfl | rfl <;> exact .start fun _ => .byte (.first htype)
  | selectTyped hn hone =>
    refine .start fun _ => .byte (.require (.start fun _ => .last (u32_exact.accepts hn) ?_))
    rw [if_pos hone]
    exact .fail

/-- **Instructions are read exactly**, if all proposals are on: all forms of instructions are read, whatever stands
behind them, and nothing else. All instructions whose immediates fit have a form, and no bytes begin with two. Bytes
that miss the format are refused. -/
theorem instruction_exact : Exact (instruction .all) Instruction.Encoded ∧
    (∀ i : Instruction, i.Fits → ∃ bs, i.Encoded bs) ∧
    (∀ (bs bs' rest rest' : List UInt8) (i i' : Instruction), i.Encoded bs → i'.Encoded bs' →
      bs ++ rest = bs' ++ rest' → bs = bs' ∧ i = i') ∧
    ∀ bs, Instruction.Malformed bs → Rejects (instruction .all) bs := by
  have hexact : Exact (instruction .all) Instruction.Encoded :=
    .of_follows follows_instruction fun _ _ => accepts_instruction
  exact ⟨hexact, fun _ => Instruction.exists_encoded, fun _ _ _ _ _ _ => hexact.unique, fun _ => rejects_instruction⟩

-- a label that is padded with a byte, and an `end` behind the instruction
example : instruction .all (.ofBytes ⟨#[0x0C, 0x85, 0x00, 0x0B]⟩) =
    .ok (.br 5) ⟨⟨#[0x0C, 0x85, 0x00, 0x0B]⟩, 3, 4⟩ := rfl

end Decoder

end WasmEngine
