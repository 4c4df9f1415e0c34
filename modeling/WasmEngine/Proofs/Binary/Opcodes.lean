import WasmEngine.Proofs.Binary.Proposals

/-!
# Opcodes

An instruction begins with its opcode, one byte (`Instruction.opcode`). Loads, stores and numeric instructions have
theirs by their place in a table, and all that has a number behind the byte `0xFC` begins with that. Whatever the
decoder reads as an instruction begins with the opcode of the instruction (`Decoder.instruction_begins`).
-/

namespace WasmEngine

/-! ### Tables of opcodes -/

/-- What has an opcode by its place in a table is found in the table at its opcode. -/
theorem List.add_idxOf_eq {α : Type} [DecidableEq α] {table : List α} (htable : table.Nodup) {first n : Nat} {a : α}
    (h : (if n < first then none else table[n - first]?) = some a) : first + table.idxOf a = n := by
  split at h
  · nomatch h
  · next hle =>
    obtain ⟨hlt, rfl⟩ := List.getElem?_eq_some_iff.mp h
    rw [htable.idxOf_getElem, Nat.add_sub_cancel' (Nat.le_of_not_lt hle)]

/-- The opcode of a load. -/
def LoadOp.opcode (op : LoadOp) : Nat := firstOpcode + all.idxOf op

theorem LoadOp.opcode_of {n : Nat} {op : LoadOp} (h : ofOpcode? n = some op) : op.opcode = n :=
  List.add_idxOf_eq (by decide) h

/-- The opcode of a store. -/
def StoreOp.opcode (op : StoreOp) : Nat := firstOpcode + all.idxOf op

theorem StoreOp.opcode_of {n : Nat} {op : StoreOp} (h : ofOpcode? n = some op) : op.opcode = n :=
  List.add_idxOf_eq (by decide) h

namespace NumericOp

/-- The opcode of a numeric instruction. -/
def opcode (op : NumericOp) : Nat := if op.isSaturating then 0xFC else firstPlain + plain.idxOf op

theorem isSaturating_of_mem : ∀ op ∈ saturating, op.isSaturating = true := by decide

theorem not_isSaturating_of_mem : ∀ op ∈ plain, op.isSaturating = false := by decide +kernel

theorem opcode_of {n : Nat} {op : NumericOp} (h : ofOpcode? n = some op) : op.opcode = n := by
  have hplain : op.isSaturating = false := by
    unfold ofOpcode? at h
    split at h
    · nomatch h
    · exact not_isSaturating_of_mem op (List.mem_of_getElem? h)
  rw [opcode, hplain]
  exact List.add_idxOf_eq (by decide +kernel) h

end NumericOp

/-- **The byte that an instruction begins with.** -/
def Instruction.opcode : Instruction → UInt8
  | unreachable => 0x00
  | nop => 0x01
  | block _ => 0x02
  | loop _ => 0x03
  | if_ _ => 0x04
  | else_ => 0x05
  | end_ => 0x0B
  | br _ => 0x0C
  | brIf _ => 0x0D
  | brTable .. => 0x0E
  | return_ => 0x0F
  | call _ => 0x10
  | callIndirect .. => 0x11
  | drop => 0x1A
  | select => 0x1B
  | selectTyped _ => 0x1C
  | localGet _ => 0x20
  | localSet _ => 0x21
  | localTee _ => 0x22
  | globalGet _ => 0x23
  | globalSet _ => 0x24
  | tableGet _ => 0x25
  | tableSet _ => 0x26
  | load op _ => UInt8.ofNat op.opcode
  | store op _ => UInt8.ofNat op.opcode
  | memorySize => 0x3F
  | memoryGrow => 0x40
  | i32Const _ => 0x41
  | i64Const _ => 0x42
  | f32Const _ => 0x43
  | f64Const _ => 0x44
  | numeric op => UInt8.ofNat op.opcode
  | refNull _ => 0xD0
  | refIsNull => 0xD1
  | refFunc _ => 0xD2
  | memoryInit _ | dataDrop _ | memoryCopy | memoryFill | tableInit .. | elemDrop _ | tableCopy .. | tableGrow _
  | tableSize _ | tableFill _ => 0xFC

/-! ### What instructions begin with -/

namespace Decoder

variable {features : Features} {c c' : Cursor}

theorem begins_longInstruction (start : Nat) : Gives (·.opcode = 0xFC) (longInstruction features start) := by
  refine .next fun sub => ?_
  split
  · next op hop =>
    have hsaturating : op.opcode = 0xFC := if_pos (NumericOp.isSaturating_of_mem op (List.mem_of_getElem? hop))
    refine .next fun _ => .pure ?_
    rw [Instruction.opcode, hsaturating]
    rfl
  refine .next fun _ => ?_
  split
  case h_1 | h_3 | h_5 | h_7 => exact .next fun _ => .next fun _ => .pure rfl
  case h_11 => exact .fail
  all_goals exact .next fun _ => .pure rfl

theorem begins_tabledInstruction (opcode : UInt8) (start : Nat) :
    Gives (·.opcode = opcode) (tabledInstruction features opcode start) := by
  unfold tabledInstruction
  split
  · next op hop =>
    refine .next fun _ => .pure ?_
    rw [Instruction.opcode, LoadOp.opcode_of hop, UInt8.ofNat_toNat]
  · next op _ hop =>
    refine .next fun _ => .pure ?_
    rw [Instruction.opcode, StoreOp.opcode_of hop, UInt8.ofNat_toNat]
  · next op _ _ hop =>
    have hbegins : (Instruction.numeric op).opcode = opcode := by
      rw [Instruction.opcode, NumericOp.opcode_of hop, UInt8.ofNat_toNat]
    exact .ite (fun _ => .next fun _ => .pure hbegins) fun _ => .pure hbegins
  · exact .fail

/-- **What is read as an instruction begins with its opcode.** -/
theorem instruction_begins {i : Instruction} (h : instruction features c = .ok i c') :
    c.byteAt c.pos = some i.opcode := by
  obtain ⟨start, _, hstart, h⟩ := estate_bind_eq_ok.mp h
  obtain ⟨-, rfl⟩ := position_eq_ok.mp hstart
  obtain ⟨opcode, c₁, hread, h⟩ := estate_bind_eq_ok.mp h
  rw [(byte_eq_ok.mp hread).1]
  refine congrArg some ((?_ : Gives (·.opcode = opcode) _) _ _ _ h).symm
  split
  case h_1 | h_2 | h_6 | h_7 | h_11 | h_14 | h_15 => exact .pure rfl
  case h_10 => exact .next fun _ => .next fun _ => .pure rfl
  case h_13 => exact .next fun _ => .next fun _ => .next fun _ => .ite (fun _ => .fail) fun _ => .pure rfl
  case h_16 =>
    exact .next fun _ => .next fun _ => .next fun _ => .ite (fun _ => .fail) fun _ => .next fun _ => .pure rfl
  case h_22 | h_23 | h_30 | h_32 => exact .next fun _ => .next fun _ => .pure rfl
  case h_33 => exact begins_longInstruction start
  case h_34 => exact begins_tabledInstruction _ start
  all_goals exact .next fun _ => .pure rfl

/-- The byte at the start of an instruction, in the bytes of the module. -/
theorem instruction_byte {i : Instruction} (h : instruction features c = .ok i c') :
    c.data[c.pos]? = some i.opcode := by
  have hbyte := instruction_begins h
  unfold Cursor.byteAt at hbyte
  split at hbyte
  · exact hbyte
  · nomatch hbyte

end Decoder

end WasmEngine
