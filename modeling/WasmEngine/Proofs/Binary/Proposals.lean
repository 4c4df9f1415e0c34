import WasmEngine.Proofs.Binary.Framing
import WasmEngine.Proofs.Binary.Widening

/-!
# What proposals have to be on for

A decoder that succeeds has not met a construct of a proposal that is off. For most constructs that can be seen in
what was read: a value type that is a reference, a block whose signature is an index. It is a property of all that
a decoder gives (`Decoder.Gives`), and passed on from the decoders it is put together from.

For others it depends on bytes that leave no trace in what was read, such as the opcode of an instruction or the flags
of a segment. There the lemmas start from the byte in front of the cursor.
-/

namespace WasmEngine

variable {f : Features}

namespace Features

/-- A value of the type can be there. -/
def AdmitsValue (f : Features) (t : ValueType) : Prop := t.isRef = true → f.referenceTypes = true

/-- References of the type can be stored. -/
def AdmitsElement (f : Features) (t : RefType) : Prop := t = .externref → f.referenceTypes = true

/-- A block can have the signature. -/
def AdmitsBlock (f : Features) : BlockType → Prop
  | .empty => True
  | .value t => f.AdmitsValue t
  | .index _ => f.multiValue = true

/-- The signatures and types that an instruction mentions can be there. -/
def AdmitsInstruction (f : Features) : Instruction → Prop
  | .block t | .loop t | .if_ t => f.AdmitsBlock t
  | .selectTyped t => f.AdmitsValue t
  | _ => True

/-- The types that an import mentions can be there. -/
def AdmitsImport (f : Features) : ImportType → Prop
  | .table t => f.AdmitsElement t.element
  | .global t => f.AdmitsValue t.value
  | .func _ | .memory _ => True

end Features

namespace Decoder

variable {α β : Type} {d : Decoder α} {P : α → Prop} {Q : β → Prop}

/-- **All that a decoder gives has a property.** -/
def Gives (P : α → Prop) (d : Decoder α) : Prop := ∀ c a c', d c = .ok a c' → P a

namespace Gives

protected theorem pure {a : α} (h : P a) : Gives P (pure a) := fun _ _ _ hr => (estate_pure_eq_ok.mp hr).1 ▸ h

theorem fail {fault : DecodeFault} {offset : Nat} : Gives P (Decoder.fail fault offset) := fun _ _ _ h => nomatch h

theorem bind {k : α → Decoder β} (hd : Gives P d) (hk : ∀ a, P a → Gives Q (k a)) : Gives Q (d >>= k) := by
  intro c b c' h
  obtain ⟨a, c₁, ha, hb⟩ := estate_bind_eq_ok.mp h
  exact hk a (hd _ _ _ ha) _ _ _ hb

/-- The first part does not matter. -/
theorem next {k : α → Decoder β} (hk : ∀ a, Gives Q (k a)) : Gives Q (d >>= k) :=
  bind (fun _ _ _ _ => trivial) fun a (_ : True) => hk a

theorem ite {c : Prop} [Decidable c] {d' : Decoder α} (h : c → Gives P d) (h' : ¬c → Gives P d') :
    Gives P (if c then d else d') := by
  split
  · exact h ‹_›
  · exact h' ‹_›

theorem reads {entries : List (Nat × α)} {c c' : Cursor} (h : Gives P d) (hr : Reads d c entries c') :
    ∀ x ∈ entries, P x.2 := by
  induction hr with
  | nil => nofun
  | cons ha _ ih => exact List.forall_mem_cons.mpr ⟨h _ _ _ ha, ih⟩

theorem vector (h : Gives P d) : Gives (∀ a ∈ ·, P a) (vector d) := by
  intro c as c' hr
  obtain ⟨entries, ⟨_, -, hreads⟩, rfl⟩ := vector_eq_ok.mp hr
  exact List.forall_mem_map.mpr (h.reads hreads)

theorem of_vector {entries : List (Nat × α)} {c c' : Cursor} (h : Gives P d) (hr : ReadsVector d c entries c') :
    ∀ x ∈ entries, P x.2 := by
  obtain ⟨_, -, hreads⟩ := hr
  exact h.reads hreads

end Gives

theorem gives_require (p : Proposal) (offset : Nat) : Gives (fun _ => f.has p = true) (require f p offset) := by
  intro c a c' h
  unfold require at h
  split at h
  · assumption
  · nomatch h

theorem gives_valueTypeOf : Gives f.AdmitsValue (valueTypeOf f) :=
  .next fun _ => .next fun _ => .ite (fun _ => .bind (gives_require .referenceTypes _) fun _ h => .pure fun _ => h)
    fun hno => .pure fun h => absurd h hno

theorem gives_blockType : Gives f.AdmitsBlock (blockType f) := by
  refine .next fun _ => .next fun _ => .ite (fun _ => .next fun _ => .pure trivial) fun _ => ?_
  refine .ite (fun _ => .bind gives_valueTypeOf fun _ h => .pure h) fun _ => ?_
  exact .next fun _ => .bind (gives_require .multiValue _) fun _ h => .ite (fun _ => .fail) fun _ => .pure h

theorem gives_typedSelect : Gives f.AdmitsInstruction (typedSelect f) :=
  .next fun _ => .next fun _ => .ite (fun _ => .fail) fun _ => .bind gives_valueTypeOf fun _ h => .pure h

theorem gives_longInstruction (start : Nat) : Gives f.AdmitsInstruction (longInstruction f start) := by
  refine .next fun sub => ?_
  split
  · exact .next fun _ => .pure trivial
  refine .next fun _ => ?_
  split
  case h_1 => exact .next fun _ => .next fun _ => .pure trivial
  case h_3 => exact .next fun _ => .next fun _ => .pure trivial
  case h_5 | h_7 => exact .next fun _ => .next fun _ => .pure trivial
  case h_11 => exact .fail
  all_goals exact .next fun _ => .pure trivial

theorem gives_tabledInstruction (opcode : UInt8) (start : Nat) :
    Gives f.AdmitsInstruction (tabledInstruction f opcode start) := by
  unfold tabledInstruction
  split
  · exact .next fun _ => .pure trivial
  · exact .next fun _ => .pure trivial
  · exact .ite (fun _ => .next fun _ => .pure trivial) fun _ => .pure trivial
  · exact .fail

/-- **Instructions mention what can be there.** -/
theorem gives_instruction : Gives f.AdmitsInstruction (instruction f) := by
  refine .next fun start => .next fun opcode => ?_
  split
  case h_1 | h_2 | h_6 | h_7 | h_11 | h_14 | h_15 => exact .pure trivial
  case h_3 | h_4 | h_5 => exact .bind gives_blockType fun _ h => .pure h
  case h_10 => exact .next fun _ => .next fun _ => .pure trivial
  case h_13 => exact .next fun _ => .next fun _ => .next fun _ => .ite (fun _ => .fail) fun _ => .pure trivial
  case h_16 => exact .next fun _ => gives_typedSelect
  case h_22 | h_23 | h_30 | h_32 => exact .next fun _ => .next fun _ => .pure trivial
  case h_31 => exact .next fun _ => .pure trivial
  case h_33 => exact gives_longInstruction start
  case h_34 => exact gives_tabledInstruction _ start
  all_goals exact .next fun _ => .pure trivial

/-! ### Sections -/

theorem gives_funcType : Gives (fun t : FuncType => ∀ v ∈ t.params ++ t.results, f.AdmitsValue v) (funcType f) := by
  have hrest : Gives (fun t : FuncType => ∀ v ∈ t.params ++ t.results, f.AdmitsValue v) (do
      let params ← Decoder.vector (valueTypeOf f)
      let results ← Decoder.vector (valueTypeOf f)
      return { params, results : FuncType }) :=
    .bind gives_valueTypeOf.vector fun _ hp => .bind gives_valueTypeOf.vector fun _ hr =>
      .pure (List.forall_mem_append.mpr ⟨hp, hr⟩)
  exact .next fun _ => .next fun _ => .ite (fun _ => .next fun _ => hrest) fun _ => hrest

theorem gives_tableType : Gives (fun t : TableType => f.AdmitsElement t.element) (tableType f) := by
  refine .next fun _ => .next fun element => .ite (fun _ => ?_) fun hno => ?_
  · exact .bind (gives_require .referenceTypes _) fun _ h => .next fun _ => .pure fun _ => h
  · exact .next fun _ => .pure fun h => absurd h hno

theorem gives_globalType : Gives (fun t : GlobalType => f.AdmitsValue t.value) (globalType f) :=
  .bind gives_valueTypeOf fun _ h => .next fun _ => .next fun _ =>
    .ite (fun _ => .pure h) fun _ => .ite (fun _ => .pure h) fun _ => .fail

theorem gives_importEntry : Gives (fun i : Import => f.AdmitsImport i.type) (importEntry f) := by
  refine .next fun _ => .next fun _ => .next fun _ => .next fun kind => ?_
  split
  · exact .next fun _ => .pure trivial
  · exact .bind gives_tableType fun _ h => .pure h
  · exact .next fun _ => .pure trivial
  · exact .bind gives_globalType fun _ h => .pure h
  · exact .fail

theorem gives_globalDef : Gives (fun g : GlobalDef => f.AdmitsValue g.type.value) (globalDef f) :=
  .bind gives_globalType fun _ h => .next fun _ => .pure h

theorem gives_elementType (flags : Nat) : Gives f.AdmitsElement (elementType f flags) := by
  refine .next fun _ => .ite (fun _ => .pure nofun) fun _ => .ite (fun _ => ?_) fun _ => ?_
  · refine .next fun type => .ite (fun _ => ?_) fun hno => .pure fun h => absurd h hno
    exact .bind (gives_require .referenceTypes _) fun _ h => .pure fun _ => h
  · exact .next fun _ => .ite (fun _ => .next fun _ => .pure nofun) fun _ => .pure nofun

theorem gives_elementSegment : Gives (fun e : ElementSegment => f.AdmitsElement e.type) (elementSegment f) := by
  have hrest (flags : Nat) : Gives (fun e : ElementSegment => f.AdmitsElement e.type) (do
      let mode ← elementMode f flags
      let type ← elementType f flags
      let items ← Decoder.vector (if flags.testBit 2 then constExpr f else ConstExpr.refFunc <$> u32)
      return { type, items, mode : ElementSegment }) :=
    .next fun _ => .bind (gives_elementType flags) fun _ h => .next fun _ => .pure h
  exact .next fun _ => .next fun flags => .ite (fun _ => .next fun _ => .ite (fun _ => .next fun _ => hrest flags)
    fun _ => hrest flags) fun _ => .ite (fun _ => .next fun _ => hrest flags) fun _ => hrest flags

/-! ### Bytes in front of the cursor -/

variable {c c' : Cursor}

/-- The bytes of the module from the cursor on, also beyond the end of the window. -/
def bytesFrom (c : Cursor) : List UInt8 := c.data.toList.drop c.pos

theorem byte_unique {b b' : UInt8} (h : byte c = .ok b c') (hb : c.data[c.pos]? = some b') : b = b' := by
  obtain ⟨hb', -⟩ := byte_eq_ok.mp h
  unfold Cursor.byteAt at hb'
  split at hb'
  · exact Option.some.inj (hb'.symm.trans hb)
  · nomatch hb'

theorem u32_unique {n n' k : Nat} (h : u32 c = .ok n c') (hn : Leb128.UnsignedAt 32 (bytesFrom c) n' k) :
    n = n' ∧ c' = c.advance k := by
  obtain ⟨length, hlength, rfl⟩ := u32_eq_ok.mp h
  have hpre : c.rest <+: bytesFrom c := (List.take_prefix _ _).drop _
  obtain ⟨rfl, rfl⟩ := (hlength.mono hpre).unique hn
  exact ⟨rfl, rfl⟩

/-- Flags of element segments need one of two proposals. -/
theorem elementSegment_flags {e : ElementSegment} {flags k : Nat} (h : elementSegment f c = .ok e c')
    (hflags : Leb128.UnsignedAt 32 (bytesFrom c) flags k) (hne : flags ≠ 0) :
    f.bulkMemory = true ∨ f.referenceTypes = true := by
  obtain ⟨_, _, hstart, h⟩ := estate_bind_eq_ok.mp h
  obtain ⟨-, rfl⟩ := position_eq_ok.mp hstart
  obtain ⟨_, _, hread, h⟩ := estate_bind_eq_ok.mp h
  obtain ⟨rfl, rfl⟩ := u32_unique hread hflags
  obtain ⟨-, h⟩ := check_eq_ok.mp h
  by_cases hf : f.referenceTypes
  · exact .inr hf
  · rw [if_pos (by simp [hne, hf])] at h
    obtain ⟨_, _, hrequire, -⟩ := estate_bind_eq_ok.mp h
    exact .inl (gives_require .bulkMemory _ _ _ _ hrequire)

/-- Flags of data segments need a proposal. -/
theorem dataSegment_flags {s : DataSegment} {flags k : Nat} (h : dataSegment f c = .ok s c')
    (hflags : Leb128.UnsignedAt 32 (bytesFrom c) flags k) (hne : flags ≠ 0) : f.bulkMemory = true := by
  obtain ⟨_, _, h, -⟩ := estate_bind_eq_ok.mp h
  obtain ⟨_, _, hstart, h⟩ := estate_bind_eq_ok.mp h
  obtain ⟨-, rfl⟩ := position_eq_ok.mp hstart
  obtain ⟨_, _, hread, h⟩ := estate_bind_eq_ok.mp h
  obtain ⟨rfl, rfl⟩ := u32_unique hread hflags
  split at h
  · exact absurd rfl hne
  · obtain ⟨_, _, hrequire, -⟩ := estate_bind_eq_ok.mp h
    exact gives_require .bulkMemory _ _ _ _ hrequire
  · obtain ⟨_, _, hrequire, -⟩ := estate_bind_eq_ok.mp h
    exact gives_require .bulkMemory _ _ _ _ hrequire
  · nomatch h

end Decoder

/-- The opcodes of one byte that a proposal brings. -/
def Proposal.opcodes : Proposal → List UInt8
  | signExtension => [0xC0, 0xC1, 0xC2, 0xC3, 0xC4]
  | referenceTypes => [0x1C, 0x25, 0x26, 0xD0, 0xD1, 0xD2]
  | multiValue | saturatingFloatToInt | bulkMemory => []

/-- The numbers behind the byte `0xFC` that a proposal brings. -/
def Proposal.longOpcodes : Proposal → List Nat
  | saturatingFloatToInt => [0, 1, 2, 3, 4, 5, 6, 7]
  | bulkMemory => [8, 9, 10, 11, 12, 13, 14]
  | referenceTypes => [15, 16, 17]
  | multiValue | signExtension => []

namespace Decoder

variable {c c' : Cursor} {i : Instruction}

/-- What is read behind a requirement was required. -/
theorem has_of_require {α : Type} {p : Proposal} {offset : Nat} {k : Unit → Decoder α} {a : α}
    (h : (require f p offset >>= k) c = .ok a c') : f.has p = true := by
  obtain ⟨_, _, hrequire, -⟩ := estate_bind_eq_ok.mp h
  exact gives_require p offset _ _ _ hrequire

theorem tabledInstruction_signExtension {opcode : UInt8} {start : Nat}
    (hop : opcode ∈ Proposal.signExtension.opcodes) (h : tabledInstruction f opcode start c = .ok i c') :
    f.has .signExtension = true := by
  simp only [Proposal.opcodes, List.mem_cons, List.not_mem_nil, or_false] at hop
  rcases hop with rfl | rfl | rfl | rfl | rfl <;> exact has_of_require h

/-- **An opcode of a proposal** in front of the cursor. -/
theorem instruction_opcode (h : instruction f c = .ok i c') {b : UInt8} (hb : c.data[c.pos]? = some b) {p : Proposal}
    (hp : b ∈ p.opcodes) : f.has p = true := by
  obtain ⟨start, _, hstart, h⟩ := estate_bind_eq_ok.mp h
  obtain ⟨-, rfl⟩ := position_eq_ok.mp hstart
  obtain ⟨_, _, hread, h⟩ := estate_bind_eq_ok.mp h
  obtain rfl := byte_unique hread hb
  cases p with
  | signExtension =>
    simp only [Proposal.opcodes, List.mem_cons, List.not_mem_nil, or_false] at hp
    rcases hp with rfl | rfl | rfl | rfl | rfl <;> exact tabledInstruction_signExtension (by decide) h
  | referenceTypes =>
    simp only [Proposal.opcodes, List.mem_cons, List.not_mem_nil, or_false] at hp
    rcases hp with rfl | rfl | rfl | rfl | rfl | rfl <;> exact has_of_require h
  | multiValue | saturatingFloatToInt | bulkMemory => nomatch hp

/-- **A long opcode of a proposal** in front of the cursor. -/
theorem instruction_longOpcode (h : instruction f c = .ok i c') (hb : c.data[c.pos]? = some 0xFC) {sub k : Nat}
    (hsub : Leb128.UnsignedAt 32 (bytesFrom (c.advance 1)) sub k) {p : Proposal} (hp : sub ∈ p.longOpcodes) :
    f.has p = true := by
  obtain ⟨start, _, hstart, h⟩ := estate_bind_eq_ok.mp h
  obtain ⟨-, rfl⟩ := position_eq_ok.mp hstart
  obtain ⟨_, _, hread, h⟩ := estate_bind_eq_ok.mp h
  obtain ⟨-, rfl⟩ := byte_eq_ok.mp hread
  obtain rfl := byte_unique hread hb
  change longInstruction f start (c.advance 1) = _ at h
  obtain ⟨_, _, hread, h⟩ := estate_bind_eq_ok.mp h
  obtain ⟨rfl, rfl⟩ := u32_unique hread hsub
  cases p with
  | saturatingFloatToInt =>
    simp only [Proposal.longOpcodes, List.mem_cons, List.not_mem_nil, or_false] at hp
    rcases hp with rfl | rfl | rfl | rfl | rfl | rfl | rfl | rfl <;> exact has_of_require h
  | bulkMemory =>
    simp only [Proposal.longOpcodes, List.mem_cons, List.not_mem_nil, or_false] at hp
    rcases hp with rfl | rfl | rfl | rfl | rfl | rfl | rfl <;> exact has_of_require h
  | referenceTypes =>
    simp only [Proposal.longOpcodes, List.mem_cons, List.not_mem_nil, or_false] at hp
    rcases hp with rfl | rfl | rfl <;> exact has_of_require h
  | multiValue | signExtension => nomatch hp

/-! ### Bodies -/

/-- A number of locals of one type. -/
def localGroup : Decoder (Nat × ValueType) := do
  let count ← u32
  return (count, ← valueType)

theorem valueType_of_valueTypeOf {t : ValueType} (h : valueTypeOf f c = .ok t c') : valueType c = .ok t c' := by
  obtain ⟨_, _, hstart, h⟩ := estate_bind_eq_ok.mp h
  obtain ⟨-, rfl⟩ := position_eq_ok.mp hstart
  obtain ⟨t', c₁, ht, h⟩ := estate_bind_eq_ok.mp h
  split at h
  · obtain ⟨_, _, hrequire, h⟩ := estate_bind_eq_ok.mp h
    obtain ⟨rfl, rfl⟩ := estate_pure_eq_ok.mp h
    unfold require at hrequire
    split at hrequire
    · obtain ⟨-, rfl⟩ := estate_pure_eq_ok.mp hrequire
      exact ht
    · nomatch hrequire
  · obtain ⟨rfl, rfl⟩ := estate_pure_eq_ok.mp h
    exact ht

theorem localGroups_reads {limit groups total : Nat} {locals : List ValueType}
    (h : localGroups f limit groups total c = .ok locals c') : ∃ entries, Reads localGroup c entries c' ∧
      entries.length = groups ∧ ∀ x ∈ entries, f.AdmitsValue x.2.2 := by
  induction groups generalizing total locals c with
  | zero =>
    obtain ⟨-, rfl⟩ := estate_pure_eq_ok.mp h
    exact ⟨[], .nil, rfl, nofun⟩
  | succ groups ih =>
    obtain ⟨_, _, hstart, h⟩ := estate_bind_eq_ok.mp h
    obtain ⟨-, rfl⟩ := position_eq_ok.mp hstart
    obtain ⟨count, c₁, hcount, h⟩ := estate_bind_eq_ok.mp h
    obtain ⟨-, h⟩ := check_eq_ok.mp h
    obtain ⟨type, c₂, htype, h⟩ := estate_bind_eq_ok.mp h
    obtain ⟨rest, c₃, hrest, h⟩ := estate_bind_eq_ok.mp h
    obtain ⟨-, rfl⟩ := estate_pure_eq_ok.mp h
    obtain ⟨entries, hreads, rfl, hall⟩ := ih hrest
    refine ⟨(c.pos, count, type) :: entries, .cons ?_ hreads, rfl, ?_⟩
    · have htype' := valueType_of_valueTypeOf htype
      exact estate_bind_eq_ok.mpr ⟨count, c₁, hcount, estate_bind_eq_ok.mpr ⟨type, c₂, htype', rfl⟩⟩
    · exact List.forall_mem_cons.mpr ⟨gives_valueTypeOf _ _ _ htype, hall⟩

/-- Each instruction of a body was read at its offset. -/
theorem instructionsFrom_mem {fuel depth : Nat} {code : List (Nat × Instruction)}
    (h : instructionsFrom f fuel depth c = .ok code c') : ∀ x ∈ code, ∃ c₁ c₂, c.Onward c₁ ∧
      instruction f c₁ = .ok x.2 c₂ ∧ c₁.pos = x.1 := by
  induction fuel generalizing depth code c c' with
  | zero =>
    cases depth with
    | zero =>
      obtain ⟨rfl, -⟩ := estate_pure_eq_ok.mp h
      nofun
    | succ depth => nomatch h
  | succ fuel ih =>
    cases depth with
    | zero =>
      rw [instructionsFrom_zero] at h
      obtain ⟨rfl, -⟩ := estate_pure_eq_ok.mp h
      nofun
    | succ depth =>
      rw [instructionsFrom_succ] at h
      obtain ⟨_, _, hstart, h⟩ := estate_bind_eq_ok.mp h
      obtain ⟨rfl, rfl⟩ := position_eq_ok.mp hstart
      obtain ⟨_, _, hempty, h⟩ := estate_bind_eq_ok.mp h
      obtain ⟨-, rfl⟩ := atEnd_eq_ok.mp hempty
      obtain ⟨-, h⟩ := check_eq_ok.mp h
      obtain ⟨i, c₁, hi, h⟩ := estate_bind_eq_ok.mp h
      obtain ⟨rest, c₂, hrest, h⟩ := estate_bind_eq_ok.mp h
      obtain ⟨rfl, -⟩ := estate_pure_eq_ok.mp h
      refine List.forall_mem_cons.mpr ⟨⟨c, c₁, refl_of _ _, hi, rfl⟩, fun x hx => ?_⟩
      obtain ⟨c₃, c₄, honward, hread, hpos⟩ := ih hrest x hx
      exact ⟨c₃, c₄, trans_of _ (onward_of_ok (keeps_instruction f) hi) honward, hread, hpos⟩

/-- **The parts of a body** in front of a cursor: its size, and in the window of that size the number of its groups of
locals, these, and its instructions. -/
theorem sizedBody_parts {limits : DecodeLimits} {body : FunctionBody} (h : sizedBody f limits c = .ok body c') :
    ∃ size length, Leb128.UnsignedAt 32 c.rest size length ∧ size ≤ (c.advance length).remaining ∧
      body.offset = c.pos + length ∧ ∃ n c₁ c₂ c₃, count ((c.advance length).window size) = .ok n c₁ ∧
        localGroups f limits.maxLocals n 0 c₁ = .ok body.locals c₂ ∧
        instructionsFrom f (c₂.remaining + 1) 1 c₂ = .ok body.code c₃ := by
  obtain ⟨size, _, hsize, h⟩ := estate_bind_eq_ok.mp h
  obtain ⟨length, hlength, rfl⟩ := u32_eq_ok.mp hsize
  obtain ⟨⟨_, w⟩, _, hwithin, h⟩ := estate_bind_eq_ok.mp h
  obtain ⟨hfits, hbody, rfl⟩ := within_eq_ok.mp hwithin
  cases h
  obtain ⟨_, _, hoffset, hbody⟩ := estate_bind_eq_ok.mp hbody
  obtain ⟨rfl, rfl⟩ := position_eq_ok.mp hoffset
  obtain ⟨n, c₁, hn, hbody⟩ := estate_bind_eq_ok.mp hbody
  obtain ⟨locals, c₂, hlocals, hbody⟩ := estate_bind_eq_ok.mp hbody
  obtain ⟨_, _, hleft, hbody⟩ := estate_bind_eq_ok.mp hbody
  obtain ⟨rfl, rfl⟩ := remaining_eq_ok.mp hleft
  obtain ⟨code, c₃, hcode, hbody⟩ := estate_bind_eq_ok.mp hbody
  obtain ⟨_, _, -, hbody⟩ := estate_bind_eq_ok.mp hbody
  obtain ⟨rfl, -⟩ := estate_pure_eq_ok.mp hbody
  exact ⟨size, length, hlength, hfits, rfl, n, c₁, c₂, c₃, hn, hlocals, hcode⟩

/-- **What is known of a body** in front of a cursor: its groups of locals and its instructions. -/
theorem sizedBody_reads {limits : DecodeLimits} {body : FunctionBody} (h : sizedBody f limits c = .ok body c') :
    ∃ size length, Leb128.UnsignedAt 32 (bytesFrom c) size length ∧
      (∃ groups c₁, ReadsVector localGroup ((c.advance length).window size) groups c₁ ∧
        ∀ x ∈ groups, f.AdmitsValue x.2.2) ∧
      ∀ x ∈ body.code, ∃ c₁ c₂, c₁.data = c.data ∧ instruction f c₁ = .ok x.2 c₂ ∧ c₁.pos = x.1 := by
  obtain ⟨size, length, hlength, -, -, n, c₁, c₂, c₃, hn, hlocals, hcode⟩ := sizedBody_parts h
  obtain ⟨groups, hgroups, rfl, hall⟩ := localGroups_reads hlocals
  refine ⟨size, length, hlength.mono ((List.take_prefix _ _).drop _), ⟨groups, c₂, ⟨c₁, hn, hgroups⟩, hall⟩, ?_⟩
  intro x hx
  obtain ⟨c₄, c₅, honward, hread, hpos⟩ := instructionsFrom_mem hcode x hx
  refine ⟨c₄, c₅, honward.data.trans ?_, hread, hpos⟩
  exact (onward_of_ok (keeps_localGroups f _ _ _) hlocals).data.trans (onward_of_ok keeps_count hn).data

end Decoder

/-! ### The format with more proposals -/

section

variable {g : Features} {limits : DecodeLimits} {data : ByteArray}

theorem Decoder.ReadsVector.mono {α : Type} {d d' : Decoder α} {entries : List (Nat × α)} {c c' : Cursor}
    (h : Below d d') (hr : ReadsVector d c entries c') : ReadsVector d' c entries c' := by
  obtain ⟨c₁, hn, hreads⟩ := hr
  refine ⟨c₁, hn, ?_⟩
  clear hn
  induction hreads with
  | nil => exact .nil
  | cons ha _ ih => exact .cons (h _ _ _ ha) ih

theorem Contents.StandsIn.mono (h : f ≤ g) {contents : Contents} {w c : Cursor}
    (hs : contents.StandsIn f limits w c) : contents.StandsIn g limits w c := by
  cases contents with
  | types => exact Decoder.ReadsVector.mono (Decoder.below_funcType h) hs
  | imports => exact Decoder.ReadsVector.mono (Decoder.below_importEntry h) hs
  | tables => exact Decoder.ReadsVector.mono (Decoder.below_tableType h) hs
  | globals => exact Decoder.ReadsVector.mono (Decoder.below_globalDef h) hs
  | elements => exact Decoder.ReadsVector.mono (Decoder.below_elementSegment h) hs
  | code => exact Decoder.ReadsVector.mono (Decoder.below_sizedBody h limits) hs
  | data => exact Decoder.ReadsVector.mono (Decoder.below_dataSegment h) hs
  | _ => exact hs

theorem Section.StandFrom.mono (h : f ≤ g) {pos : Nat} {S : List Section} (hs : StandFrom f limits data pos S) :
    StandFrom g limits data pos S := by
  induction S generalizing pos with
  | nil => trivial
  | cons s rest ih => exact ⟨⟨hs.1.size, hs.1.limit, hs.1.payload.mono h⟩, ih hs.2⟩

/-- **With more proposals a module has the same sections.** -/
theorem RawModule.Format.mono (h : f ≤ g) {S : List Section} (hs : Format f limits data S) : Format g limits data S :=
  ⟨hs.bytes, hs.stand.mono h, hs.ordered, hs.bodies, hs.dataCount⟩

/-- Each section stands somewhere. -/
theorem Section.StandFrom.mem {pos : Nat} {S : List Section} (h : StandFrom f limits data pos S) {s : Section}
    (hs : s ∈ S) : ∃ w c, w.data = data ∧ s.contents.StandsIn f limits w c := by
  induction S generalizing pos with
  | nil => nomatch hs
  | cons s' rest ih =>
    rcases List.mem_cons.mp hs with rfl | hs
    · exact ⟨_, _, rfl, h.1.payload⟩
    · exact ih h.2 hs

end

end WasmEngine
