import WasmEngine.Proofs.Binary.Grammar

/-!
# The format of instructions

An instruction is its opcode, a byte, and what the opcode asks for. `Instruction.Encoded` is this format as a grammar,
one opcode after the other. Integers may be padded wherever they stand, so most instructions have several forms. There
is one at least for each instruction whose immediates are numbers of 32 bits (`Instruction.exists_encoded`).

Loads, stores and numeric instructions have their opcodes here one by one. Where a decoder looks them up in tables, they
are consecutive (`List.entry_iff`).
-/

namespace WasmEngine

/-! ### Opcodes of tables -/

/-- The opcode of a load. -/
def LoadOp.byte : LoadOp → UInt8
  | int .w32 => 0x28
  | int .w64 => 0x29
  | float .w32 => 0x2A
  | float .w64 => 0x2B
  | int8 .w32 .signed => 0x2C
  | int8 .w32 .unsigned => 0x2D
  | int16 .w32 .signed => 0x2E
  | int16 .w32 .unsigned => 0x2F
  | int8 .w64 .signed => 0x30
  | int8 .w64 .unsigned => 0x31
  | int16 .w64 .signed => 0x32
  | int16 .w64 .unsigned => 0x33
  | int32 .signed => 0x34
  | int32 .unsigned => 0x35

/-- The opcode of a store. -/
def StoreOp.byte : StoreOp → UInt8
  | int .w32 => 0x36
  | int .w64 => 0x37
  | float .w32 => 0x38
  | float .w64 => 0x39
  | int8 .w32 => 0x3A
  | int16 .w32 => 0x3B
  | int8 .w64 => 0x3C
  | int16 .w64 => 0x3D
  | int32 => 0x3E

/-- The place of a comparison among those of a width. -/
def IntRelation.place : IntRelation → UInt8
  | eq => 0
  | ne => 1
  | lt .signed => 2
  | lt .unsigned => 3
  | gt .signed => 4
  | gt .unsigned => 5
  | le .signed => 6
  | le .unsigned => 7
  | ge .signed => 8
  | ge .unsigned => 9

/-- The place of a comparison among those of a width. -/
def FloatRelation.place : FloatRelation → UInt8
  | eq => 0
  | ne => 1
  | lt => 2
  | gt => 3
  | le => 4
  | ge => 5

/-- The place of an operation among those of a width. -/
def IntUnary.place : IntUnary → UInt8
  | clz => 0
  | ctz => 1
  | popcnt => 2

/-- The place of an operation among those of a width. -/
def IntBinary.place : IntBinary → UInt8
  | add => 0
  | sub => 1
  | mul => 2
  | div .signed => 3
  | div .unsigned => 4
  | rem .signed => 5
  | rem .unsigned => 6
  | and => 7
  | or => 8
  | xor => 9
  | shl => 10
  | shr .signed => 11
  | shr .unsigned => 12
  | rotl => 13
  | rotr => 14

/-- The place of an operation among those of a width. -/
def FloatUnary.place : FloatUnary → UInt8
  | abs => 0
  | neg => 1
  | ceil => 2
  | floor => 3
  | trunc => 4
  | nearest => 5
  | sqrt => 6

/-- The place of an operation among those of a width. -/
def FloatBinary.place : FloatBinary → UInt8
  | add => 0
  | sub => 1
  | mul => 2
  | div => 3
  | min => 4
  | max => 5
  | copysign => 6

namespace NumericOp

/-- The opcode of a numeric instruction, if that is one byte. -/
def byte? : NumericOp → Option UInt8
  | intTest .w32 => some 0x45
  | intCompare .w32 r => some (0x46 + r.place)
  | intTest .w64 => some 0x50
  | intCompare .w64 r => some (0x51 + r.place)
  | floatCompare .w32 r => some (0x5B + r.place)
  | floatCompare .w64 r => some (0x61 + r.place)
  | intUnary .w32 op => some (0x67 + op.place)
  | intBinary .w32 op => some (0x6A + op.place)
  | intUnary .w64 op => some (0x79 + op.place)
  | intBinary .w64 op => some (0x7C + op.place)
  | floatUnary .w32 op => some (0x8B + op.place)
  | floatBinary .w32 op => some (0x92 + op.place)
  | floatUnary .w64 op => some (0x99 + op.place)
  | floatBinary .w64 op => some (0xA0 + op.place)
  | wrap => some 0xA7
  | truncate .w32 .w32 .signed => some 0xA8
  | truncate .w32 .w32 .unsigned => some 0xA9
  | truncate .w32 .w64 .signed => some 0xAA
  | truncate .w32 .w64 .unsigned => some 0xAB
  | extend .signed => some 0xAC
  | extend .unsigned => some 0xAD
  | truncate .w64 .w32 .signed => some 0xAE
  | truncate .w64 .w32 .unsigned => some 0xAF
  | truncate .w64 .w64 .signed => some 0xB0
  | truncate .w64 .w64 .unsigned => some 0xB1
  | convert .w32 .w32 .signed => some 0xB2
  | convert .w32 .w32 .unsigned => some 0xB3
  | convert .w32 .w64 .signed => some 0xB4
  | convert .w32 .w64 .unsigned => some 0xB5
  | demote => some 0xB6
  | convert .w64 .w32 .signed => some 0xB7
  | convert .w64 .w32 .unsigned => some 0xB8
  | convert .w64 .w64 .signed => some 0xB9
  | convert .w64 .w64 .unsigned => some 0xBA
  | promote => some 0xBB
  | reinterpretFloat .w32 => some 0xBC
  | reinterpretFloat .w64 => some 0xBD
  | reinterpretInt .w32 => some 0xBE
  | reinterpretInt .w64 => some 0xBF
  | extend8 .w32 => some 0xC0
  | extend16 .w32 => some 0xC1
  | extend8 .w64 => some 0xC2
  | extend16 .w64 => some 0xC3
  | extend32 => some 0xC4
  | truncateSat .. => none

/-- The number of a numeric instruction that begins with the byte `0xFC`. -/
def sub? : NumericOp → Option Nat
  | truncateSat .w32 .w32 .signed => some 0
  | truncateSat .w32 .w32 .unsigned => some 1
  | truncateSat .w32 .w64 .signed => some 2
  | truncateSat .w32 .w64 .unsigned => some 3
  | truncateSat .w64 .w32 .signed => some 4
  | truncateSat .w64 .w32 .unsigned => some 5
  | truncateSat .w64 .w64 .signed => some 6
  | truncateSat .w64 .w64 .unsigned => some 7
  | _ => none

end NumericOp

/-- **The opcodes of a table are consecutive.** What stands at an opcode has it, and stands there alone. -/
theorem List.entry_iff {α : Type} {table : List α} {first : Nat} (code : α → Option Nat)
    (hcodes : table.map code = (List.range' first table.length).map some) {n : Nat} {a : α} :
    (if n < first then none else table[n - first]?) = some a ↔ a ∈ table ∧ code a = some n := by
  have hcode {k : Nat} {a : α} (h : table[k]? = some a) : code a = some (first + k) := by
    have hk := (List.getElem?_eq_some_iff.mp h).1
    have heq : (table.map code)[k]? = some (code a) := by rw [List.getElem?_map, h]; rfl
    rw [hcodes, List.getElem?_map, List.getElem?_range' hk] at heq
    simpa using heq.symm
  constructor
  · intro h
    split at h
    · nomatch h
    · next hle =>
      refine ⟨List.mem_of_getElem? h, ?_⟩
      rw [hcode h, Nat.add_sub_cancel' (Nat.le_of_not_lt hle)]
  · rintro ⟨hmem, hn⟩
    obtain ⟨k, hk⟩ := List.mem_iff_getElem?.mp hmem
    obtain rfl : first + k = n := Option.some_inj.mp ((hcode hk).symm.trans hn)
    rw [if_neg (by omega), Nat.add_sub_cancel_left, hk]

theorem LoadOp.ofOpcode?_eq_some {op : LoadOp} {b : UInt8} : ofOpcode? b.toNat = some op ↔ op.byte = b := by
  have hall : op ∈ all := by rcases op with ⟨_ | _⟩ | ⟨_ | _⟩ | ⟨_ | _, _ | _⟩ | ⟨_ | _, _ | _⟩ | ⟨_ | _⟩ <;> decide
  rw [ofOpcode?, List.entry_iff (fun op => some op.byte.toNat) (by decide), Option.some_inj, UInt8.toNat_inj,
    and_iff_right hall]

theorem LoadOp.byte_range (op : LoadOp) : 0x28 ≤ op.byte.toNat ∧ op.byte.toNat ≤ 0x35 := by
  rcases op with ⟨_ | _⟩ | ⟨_ | _⟩ | ⟨_ | _, _ | _⟩ | ⟨_ | _, _ | _⟩ | ⟨_ | _⟩ <;> decide

theorem StoreOp.ofOpcode?_eq_some {op : StoreOp} {b : UInt8} : ofOpcode? b.toNat = some op ↔ op.byte = b := by
  have hall : op ∈ all := by rcases op with ⟨_ | _⟩ | ⟨_ | _⟩ | ⟨_ | _⟩ | ⟨_ | _⟩ | _ <;> decide
  rw [ofOpcode?, List.entry_iff (fun op => some op.byte.toNat) (by decide), Option.some_inj, UInt8.toNat_inj,
    and_iff_right hall]

theorem StoreOp.byte_range (op : StoreOp) : 0x36 ≤ op.byte.toNat ∧ op.byte.toNat ≤ 0x3E := by
  rcases op with ⟨_ | _⟩ | ⟨_ | _⟩ | ⟨_ | _⟩ | ⟨_ | _⟩ | _ <;> decide

namespace NumericOp

theorem mem_plain {op : NumericOp} (h : op.isSaturating = false) : op ∈ plain := by
  rcases op with ⟨_ | _⟩ | ⟨_ | _, r⟩ | ⟨_ | _, r⟩ | ⟨_ | _, op⟩ | ⟨_ | _, op⟩ | ⟨_ | _, op⟩ | ⟨_ | _, op⟩ | _ |
    ⟨_ | _, _ | _, _ | _⟩ | ⟨_ | _⟩ | ⟨_ | _, _ | _, _ | _⟩ | _ | _ | ⟨_ | _⟩ | ⟨_ | _⟩ | ⟨_ | _⟩ | ⟨_ | _⟩ | _ |
    ⟨_, _, _⟩
  case intCompare.w32 | intCompare.w64 => rcases r with _ | _ | ⟨_ | _⟩ | ⟨_ | _⟩ | ⟨_ | _⟩ | ⟨_ | _⟩ <;> decide +kernel
  case floatCompare.w32 | floatCompare.w64 => cases r <;> decide +kernel
  case intUnary.w32 | intUnary.w64 => cases op <;> decide +kernel
  case intBinary.w32 | intBinary.w64 =>
    rcases op with _ | _ | _ | ⟨_ | _⟩ | ⟨_ | _⟩ | _ | _ | _ | _ | ⟨_ | _⟩ | _ | _ <;> decide +kernel
  case floatUnary.w32 | floatUnary.w64 => cases op <;> decide +kernel
  case floatBinary.w32 | floatBinary.w64 => cases op <;> decide +kernel
  case truncateSat => nomatch h
  all_goals decide +kernel

theorem not_isSaturating_of_byte {op : NumericOp} {b : UInt8} (h : op.byte? = some b) : op.isSaturating = false := by
  cases op with
  | truncateSat => nomatch h
  | _ => rfl

theorem ofOpcode?_eq_some {op : NumericOp} {b : UInt8} : ofOpcode? b.toNat = some op ↔ op.byte? = some b := by
  have hbyte : op.byte?.map UInt8.toNat = some b.toNat ↔ op.byte? = some b := by
    simp only [Option.map_eq_some_iff, UInt8.toNat_inj, exists_eq_right]
  rw [ofOpcode?, List.entry_iff (fun op => op.byte?.map UInt8.toNat) (by decide +kernel), hbyte,
    and_iff_right_iff_imp]
  exact fun h => mem_plain (not_isSaturating_of_byte h)

theorem byte_range {op : NumericOp} {b : UInt8} (h : op.byte? = some b) : 0x45 ≤ b.toNat ∧ b.toNat ≤ 0xC4 := by
  have hplain : ∀ op ∈ plain, ∀ b ∈ op.byte?, 0x45 ≤ b.toNat ∧ b.toNat ≤ 0xC4 := by decide +kernel
  exact hplain op (mem_plain (not_isSaturating_of_byte h)) b h

theorem saturating_eq_some {op : NumericOp} {n : Nat} : saturating[n]? = some op ↔ op.sub? = some n := by
  have hentry : (if n < 0 then none else saturating[n - 0]?) = some op ↔ op ∈ saturating ∧ op.sub? = some n :=
    List.entry_iff sub? (by decide)
  rw [if_neg (Nat.not_lt_zero n), Nat.sub_zero] at hentry
  rw [hentry, and_iff_right_iff_imp]
  intro h
  cases op with
  | truncateSat target source s => cases target <;> cases source <;> cases s <;> decide
  | _ => nomatch h

end NumericOp

/-! ### The grammar -/

open Leb128 (Signed Unsigned)

/-- **The format of block types.** All but indices are one byte, which is a negative number. -/
inductive BlockType.Encoded : List UInt8 → BlockType → Prop
  | empty : Encoded [0x40] .empty
  | value (type : ValueType) : Encoded [type.byte] (.value type)
  | index {bs : List UInt8} {type : Nat} : Signed 33 bs type → Encoded bs (.index type)

/-- The format of alignment and offset. -/
inductive MemArg.Encoded : List UInt8 → MemArg → Prop
  | mk {bs bs' : List UInt8} {align offset : Nat} : Unsigned 32 bs align → Unsigned 32 bs' offset →
    Encoded (bs ++ bs') ⟨align, offset⟩

/-- **The format of instructions.** -/
inductive Instruction.Encoded : List UInt8 → Instruction → Prop
  | unreachable : Encoded [0x00] .unreachable
  | nop : Encoded [0x01] .nop
  | block {bs : List UInt8} {type : BlockType} : type.Encoded bs → Encoded (0x02 :: bs) (.block type)
  | loop {bs : List UInt8} {type : BlockType} : type.Encoded bs → Encoded (0x03 :: bs) (.loop type)
  | if_ {bs : List UInt8} {type : BlockType} : type.Encoded bs → Encoded (0x04 :: bs) (.if_ type)
  | else_ : Encoded [0x05] .else_
  | end_ : Encoded [0x0B] .end_
  | br {bs : List UInt8} {label : Nat} : Unsigned 32 bs label → Encoded (0x0C :: bs) (.br label)
  | brIf {bs : List UInt8} {label : Nat} : Unsigned 32 bs label → Encoded (0x0D :: bs) (.brIf label)
  | brTable {bs bs' : List UInt8} {labels : List Nat} {default : Nat} : Decoder.Counted (Unsigned 32) bs labels →
    Unsigned 32 bs' default → Encoded (0x0E :: (bs ++ bs')) (.brTable labels default)
  | return_ : Encoded [0x0F] .return_
  | call {bs : List UInt8} {func : Nat} : Unsigned 32 bs func → Encoded (0x10 :: bs) (.call func)
  | callIndirect {bs bs' : List UInt8} {type table : Nat} : Unsigned 32 bs type → Unsigned 32 bs' table →
    Encoded (0x11 :: (bs ++ bs')) (.callIndirect type table)
  | drop : Encoded [0x1A] .drop
  | select : Encoded [0x1B] .select
  | selectTyped {bs : List UInt8} (type : ValueType) : Unsigned 32 bs 1 →
    Encoded (0x1C :: (bs ++ [type.byte])) (.selectTyped type)
  | localGet {bs : List UInt8} {index : Nat} : Unsigned 32 bs index → Encoded (0x20 :: bs) (.localGet index)
  | localSet {bs : List UInt8} {index : Nat} : Unsigned 32 bs index → Encoded (0x21 :: bs) (.localSet index)
  | localTee {bs : List UInt8} {index : Nat} : Unsigned 32 bs index → Encoded (0x22 :: bs) (.localTee index)
  | globalGet {bs : List UInt8} {index : Nat} : Unsigned 32 bs index → Encoded (0x23 :: bs) (.globalGet index)
  | globalSet {bs : List UInt8} {index : Nat} : Unsigned 32 bs index → Encoded (0x24 :: bs) (.globalSet index)
  | tableGet {bs : List UInt8} {table : Nat} : Unsigned 32 bs table → Encoded (0x25 :: bs) (.tableGet table)
  | tableSet {bs : List UInt8} {table : Nat} : Unsigned 32 bs table → Encoded (0x26 :: bs) (.tableSet table)
  | load (op : LoadOp) {bs : List UInt8} {arg : MemArg} : arg.Encoded bs → Encoded (op.byte :: bs) (.load op arg)
  | store (op : StoreOp) {bs : List UInt8} {arg : MemArg} : arg.Encoded bs → Encoded (op.byte :: bs) (.store op arg)
  | memorySize : Encoded [0x3F, 0x00] .memorySize
  | memoryGrow : Encoded [0x40, 0x00] .memoryGrow
  | i32Const {bs : List UInt8} {n : Int} : Signed 32 bs n → Encoded (0x41 :: bs) (.i32Const (BitVec.ofInt 32 n))
  | i64Const {bs : List UInt8} {n : Int} : Signed 64 bs n → Encoded (0x42 :: bs) (.i64Const (BitVec.ofInt 64 n))
  | f32Const (word : BitVec 32) : Encoded (0x43 :: toLittleEndian 4 word.toNat) (.f32Const word)
  | f64Const (word : BitVec 64) : Encoded (0x44 :: toLittleEndian 8 word.toNat) (.f64Const word)
  | numeric {op : NumericOp} {b : UInt8} : op.byte? = some b → Encoded [b] (.numeric op)
  | refNull (type : RefType) : Encoded [0xD0, type.byte] (.refNull type)
  | refIsNull : Encoded [0xD1] .refIsNull
  | refFunc {bs : List UInt8} {func : Nat} : Unsigned 32 bs func → Encoded (0xD2 :: bs) (.refFunc func)
  | saturating {op : NumericOp} {bs : List UInt8} {sub : Nat} : op.sub? = some sub → Unsigned 32 bs sub →
    Encoded (0xFC :: bs) (.numeric op)
  | memoryInit {bs bs' : List UInt8} {data : Nat} : Unsigned 32 bs 8 → Unsigned 32 bs' data →
    Encoded (0xFC :: (bs ++ (bs' ++ [0x00]))) (.memoryInit data)
  | dataDrop {bs bs' : List UInt8} {data : Nat} : Unsigned 32 bs 9 → Unsigned 32 bs' data →
    Encoded (0xFC :: (bs ++ bs')) (.dataDrop data)
  | memoryCopy {bs : List UInt8} : Unsigned 32 bs 10 → Encoded (0xFC :: (bs ++ [0x00, 0x00])) .memoryCopy
  | memoryFill {bs : List UInt8} : Unsigned 32 bs 11 → Encoded (0xFC :: (bs ++ [0x00])) .memoryFill
  | tableInit {bs bs' bs'' : List UInt8} {element table : Nat} : Unsigned 32 bs 12 → Unsigned 32 bs' element →
    Unsigned 32 bs'' table → Encoded (0xFC :: (bs ++ (bs' ++ bs''))) (.tableInit element table)
  | elemDrop {bs bs' : List UInt8} {element : Nat} : Unsigned 32 bs 13 → Unsigned 32 bs' element →
    Encoded (0xFC :: (bs ++ bs')) (.elemDrop element)
  | tableCopy {bs bs' bs'' : List UInt8} {target source : Nat} : Unsigned 32 bs 14 → Unsigned 32 bs' target →
    Unsigned 32 bs'' source → Encoded (0xFC :: (bs ++ (bs' ++ bs''))) (.tableCopy target source)
  | tableGrow {bs bs' : List UInt8} {table : Nat} : Unsigned 32 bs 15 → Unsigned 32 bs' table →
    Encoded (0xFC :: (bs ++ bs')) (.tableGrow table)
  | tableSize {bs bs' : List UInt8} {table : Nat} : Unsigned 32 bs 16 → Unsigned 32 bs' table →
    Encoded (0xFC :: (bs ++ bs')) (.tableSize table)
  | tableFill {bs bs' : List UInt8} {table : Nat} : Unsigned 32 bs 17 → Unsigned 32 bs' table →
    Encoded (0xFC :: (bs ++ bs')) (.tableFill table)

/-! ### Which instructions have a form -/

/-- The index of a block type is a number of 32 bits. -/
def BlockType.Fits : BlockType → Prop
  | index type => type < 2 ^ 32
  | _ => True

/-- All immediates of the instruction are numbers of 32 bits. -/
def Instruction.Fits : Instruction → Prop
  | block type | loop type | if_ type => type.Fits
  | br n | brIf n | call n | localGet n | localSet n | localTee n | globalGet n | globalSet n | tableGet n | tableSet n
  | memoryInit n | dataDrop n | elemDrop n | tableGrow n | tableSize n | tableFill n | refFunc n => n < 2 ^ 32
  | brTable labels default => labels.length < 2 ^ 32 ∧ (∀ label ∈ labels, label < 2 ^ 32) ∧ default < 2 ^ 32
  | callIndirect m n | tableInit m n | tableCopy m n => m < 2 ^ 32 ∧ n < 2 ^ 32
  | load _ arg | store _ arg => arg.align < 2 ^ 32 ∧ arg.offset < 2 ^ 32
  | _ => True

theorem Instruction.Encoded.ne_nil {bs : List UInt8} {i : Instruction} (h : i.Encoded bs) : bs ≠ [] := by
  cases h <;> exact List.cons_ne_nil _ _

theorem BlockType.exists_encoded_iff {type : BlockType} : (∃ bs, type.Encoded bs) ↔ type.Fits := by
  constructor
  · rintro ⟨bs, h⟩
    cases h with
    | empty | value => trivial
    | index h =>
      have := h.bounds.2
      change _ < 2 ^ 32
      omega
  · intro h
    cases type with
    | empty => exact ⟨_, .empty⟩
    | value t => exact ⟨_, .value t⟩
    | index type =>
      have hfits : type < 2 ^ 32 := h
      have hsigned : ∃ bs, Signed 33 bs type := Leb128.exists_signed (by decide) (by omega)
      obtain ⟨bs, hbs⟩ := hsigned
      exact ⟨bs, .index hbs⟩

theorem MemArg.exists_encoded_iff {arg : MemArg} :
    (∃ bs, arg.Encoded bs) ↔ arg.align < 2 ^ 32 ∧ arg.offset < 2 ^ 32 := by
  constructor
  · rintro ⟨_, ⟨halign, hoffset⟩⟩
    exact ⟨halign.lt, hoffset.lt⟩
  · rintro ⟨halign, hoffset⟩
    obtain ⟨bs, hbs⟩ := Leb128.exists_unsigned halign
    obtain ⟨bs', hbs'⟩ := Leb128.exists_unsigned hoffset
    exact ⟨bs ++ bs', .mk hbs hbs'⟩

theorem Decoder.Sequence.lt {bs : List UInt8} {ns : List Nat} (h : Sequence (Unsigned 32) bs ns) :
    ∀ n ∈ ns, n < 2 ^ 32 := by
  induction h with
  | nil => nofun
  | cons hn _ ih => exact List.forall_mem_cons.mpr ⟨hn.lt, ih⟩

theorem Decoder.exists_sequence {ns : List Nat} (h : ∀ n ∈ ns, n < 2 ^ 32) : ∃ bs, Sequence (Unsigned 32) bs ns := by
  induction ns with
  | nil => exact ⟨[], .nil⟩
  | cons n ns ih =>
    obtain ⟨hn, hns⟩ := List.forall_mem_cons.mp h
    obtain ⟨bs, hbs⟩ := Leb128.exists_unsigned hn
    obtain ⟨bs', hbs'⟩ := ih hns
    exact ⟨bs ++ bs', .cons hbs hbs'⟩

theorem Instruction.Encoded.fits {bs : List UInt8} {i : Instruction} (h : i.Encoded bs) : i.Fits := by
  cases h with
  | block h | loop h | if_ h => exact BlockType.exists_encoded_iff.mp ⟨_, h⟩
  | br h | brIf h | call h | localGet h | localSet h | localTee h | globalGet h | globalSet h | tableGet h | tableSet h
  | refFunc h => exact h.lt
  | memoryInit _ h | dataDrop _ h | elemDrop _ h | tableGrow _ h | tableSize _ h | tableFill _ h => exact h.lt
  | brTable h h' =>
    obtain ⟨hlength, hlabels⟩ := h
    exact ⟨hlength.lt, hlabels.lt, h'.lt⟩
  | callIndirect h h' | tableInit _ h h' | tableCopy _ h h' => exact ⟨h.lt, h'.lt⟩
  | load _ h | store _ h => exact MemArg.exists_encoded_iff.mp ⟨_, h⟩
  | _ => trivial

theorem exists_of_u32 {i : Instruction} {n : Nat} (hn : n < 2 ^ 32)
    (h : ∀ bs, Unsigned 32 bs n → ∃ bs', i.Encoded bs') : ∃ bs', i.Encoded bs' := by
  obtain ⟨bs, hbs⟩ := Leb128.exists_unsigned hn
  exact h bs hbs

theorem NumericOp.exists_encoded (op : NumericOp) : ∃ bs, (Instruction.numeric op).Encoded bs := by
  have hplain : ∀ op ∈ NumericOp.plain, ∃ b, op.byte? = some b := by
    simp only [← Option.isSome_iff_exists]
    decide +kernel
  cases hsaturating : op.isSaturating with
  | false =>
    obtain ⟨b, hb⟩ := hplain op (NumericOp.mem_plain hsaturating)
    exact ⟨[b], .numeric hb⟩
  | true =>
    obtain ⟨sub, hsub, hlt⟩ : ∃ sub, op.sub? = some sub ∧ sub < 2 ^ 32 := by
      cases op with
      | truncateSat target source s =>
        cases target <;> cases source <;> cases s <;> exact ⟨_, rfl, by decide⟩
      | _ => nomatch hsaturating
    exact exists_of_u32 hlt fun _ h => ⟨_, .saturating hsub h⟩

/-- **An instruction has a form if its immediates fit.** -/
theorem Instruction.exists_encoded {i : Instruction} (h : i.Fits) : ∃ bs, i.Encoded bs := by
  have hword {w : Nat} (hw : 0 < w) (word : BitVec w) : ∃ bs, Signed w bs word.toInt :=
    Leb128.exists_signed hw ⟨BitVec.le_toInt word, BitVec.toInt_lt⟩
  cases i with
  | unreachable => exact ⟨_, .unreachable⟩
  | nop => exact ⟨_, .nop⟩
  | else_ => exact ⟨_, .else_⟩
  | end_ => exact ⟨_, .end_⟩
  | return_ => exact ⟨_, .return_⟩
  | drop => exact ⟨_, .drop⟩
  | select => exact ⟨_, .select⟩
  | memorySize => exact ⟨_, .memorySize⟩
  | memoryGrow => exact ⟨_, .memoryGrow⟩
  | refNull type => exact ⟨_, .refNull type⟩
  | refIsNull => exact ⟨_, .refIsNull⟩
  | f32Const word => exact ⟨_, .f32Const word⟩
  | f64Const word => exact ⟨_, .f64Const word⟩
  | numeric op => exact op.exists_encoded
  | block =>
    obtain ⟨bs, hbs⟩ := BlockType.exists_encoded_iff.mpr h
    exact ⟨_, .block hbs⟩
  | loop =>
    obtain ⟨bs, hbs⟩ := BlockType.exists_encoded_iff.mpr h
    exact ⟨_, .loop hbs⟩
  | if_ =>
    obtain ⟨bs, hbs⟩ := BlockType.exists_encoded_iff.mpr h
    exact ⟨_, .if_ hbs⟩
  | load op =>
    obtain ⟨bs, hbs⟩ := MemArg.exists_encoded_iff.mpr h
    exact ⟨_, .load op hbs⟩
  | store op =>
    obtain ⟨bs, hbs⟩ := MemArg.exists_encoded_iff.mpr h
    exact ⟨_, .store op hbs⟩
  | i32Const word =>
    obtain ⟨bs, hbs⟩ := hword (by decide) word
    have hconst := Encoded.i32Const hbs
    rw [BitVec.ofInt_toInt] at hconst
    exact ⟨_, hconst⟩
  | i64Const word =>
    obtain ⟨bs, hbs⟩ := hword (by decide) word
    have hconst := Encoded.i64Const hbs
    rw [BitVec.ofInt_toInt] at hconst
    exact ⟨_, hconst⟩
  | br => exact exists_of_u32 h fun _ h => ⟨_, .br h⟩
  | brIf => exact exists_of_u32 h fun _ h => ⟨_, .brIf h⟩
  | brTable =>
    obtain ⟨hlength, hlabels, hdefault⟩ := h
    obtain ⟨bs, hbs⟩ := Decoder.exists_sequence hlabels
    exact exists_of_u32 hlength fun _ h => exists_of_u32 hdefault fun _ h' => ⟨_, .brTable (.mk h hbs) h'⟩
  | call => exact exists_of_u32 h fun _ h => ⟨_, .call h⟩
  | callIndirect => exact exists_of_u32 h.1 fun _ h' => exists_of_u32 h.2 fun _ h'' => ⟨_, .callIndirect h' h''⟩
  | selectTyped type => exact exists_of_u32 (n := 1) (by decide) fun _ h => ⟨_, .selectTyped type h⟩
  | localGet => exact exists_of_u32 h fun _ h => ⟨_, .localGet h⟩
  | localSet => exact exists_of_u32 h fun _ h => ⟨_, .localSet h⟩
  | localTee => exact exists_of_u32 h fun _ h => ⟨_, .localTee h⟩
  | globalGet => exact exists_of_u32 h fun _ h => ⟨_, .globalGet h⟩
  | globalSet => exact exists_of_u32 h fun _ h => ⟨_, .globalSet h⟩
  | tableGet => exact exists_of_u32 h fun _ h => ⟨_, .tableGet h⟩
  | tableSet => exact exists_of_u32 h fun _ h => ⟨_, .tableSet h⟩
  | refFunc => exact exists_of_u32 h fun _ h => ⟨_, .refFunc h⟩
  | memoryInit =>
    exact exists_of_u32 (n := 8) (by decide) fun _ hsub => exists_of_u32 h fun _ h => ⟨_, .memoryInit hsub h⟩
  | dataDrop =>
    exact exists_of_u32 (n := 9) (by decide) fun _ hsub => exists_of_u32 h fun _ h => ⟨_, .dataDrop hsub h⟩
  | memoryCopy => exact exists_of_u32 (n := 10) (by decide) fun _ hsub => ⟨_, .memoryCopy hsub⟩
  | memoryFill => exact exists_of_u32 (n := 11) (by decide) fun _ hsub => ⟨_, .memoryFill hsub⟩
  | tableInit =>
    exact exists_of_u32 (n := 12) (by decide) fun _ hsub => exists_of_u32 h.1 fun _ h' => exists_of_u32 h.2 fun _ h'' =>
      ⟨_, .tableInit hsub h' h''⟩
  | elemDrop =>
    exact exists_of_u32 (n := 13) (by decide) fun _ hsub => exists_of_u32 h fun _ h => ⟨_, .elemDrop hsub h⟩
  | tableCopy =>
    exact exists_of_u32 (n := 14) (by decide) fun _ hsub => exists_of_u32 h.1 fun _ h' => exists_of_u32 h.2 fun _ h'' =>
      ⟨_, .tableCopy hsub h' h''⟩
  | tableGrow =>
    exact exists_of_u32 (n := 15) (by decide) fun _ hsub => exists_of_u32 h fun _ h => ⟨_, .tableGrow hsub h⟩
  | tableSize =>
    exact exists_of_u32 (n := 16) (by decide) fun _ hsub => exists_of_u32 h fun _ h => ⟨_, .tableSize hsub h⟩
  | tableFill =>
    exact exists_of_u32 (n := 17) (by decide) fun _ hsub => exists_of_u32 h fun _ h => ⟨_, .tableFill hsub h⟩

end WasmEngine
