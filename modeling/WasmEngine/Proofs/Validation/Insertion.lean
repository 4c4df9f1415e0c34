import WasmEngine.Proofs.Binary.Insertion
import WasmEngine.Proofs.Validation.Widening

/-!
# Custom sections are inert

Validation looks neither at custom sections nor at names. Offsets it hands on: those of instructions go into the
executable form of a body, each with the op that the instruction becomes, and nothing depends on what they are. So a
body whose instructions stand elsewhere has the same ops, and the same greatest height of the stack.

With what is known of the bytes, this says that custom sections are inert (`Module.ofBytes_insert`): a module that is
accepted is accepted with one more of them, as the same module but for what is recorded of custom sections, for names
and for the offsets of what stands behind.
-/

namespace WasmEngine

variable {features : Features} {limits : DecodeLimits} {f : Nat → Nat}

/-! ### Code that stands elsewhere -/

/-- A well typed instruction that stands elsewhere. -/
def TypedInstruction.mapOffset (f : Nat → Nat) (x : TypedInstruction) : TypedInstruction :=
  { x with offset := f x.offset }

/-- A body in executable form whose instructions stand elsewhere. -/
def CompiledBody.mapOffsets (f : Nat → Nat) (body : CompiledBody) : CompiledBody :=
  { body with offsets := body.offsets.map f }

/-- **Code is checked the same wherever it stands**, and is found to be wrong at the same instruction. -/
theorem Typing.run_mapOffsets (c : Context) (locals : List ValueType) (last : Nat) (t : Typing)
    (code : List (Nat × Instruction)) : run c locals (f last) t (code.map (Prod.map f id)) =
      ((run c locals last t code).map (Prod.map (List.map (TypedInstruction.mapOffset f)) id)).mapError
        (Prod.map id f) := by
  induction code generalizing last t with
  | nil => rfl
  | cons x rest ih =>
    obtain ⟨offset, i⟩ := x
    rw [List.map_cons, Prod.map_apply, id, run, run]
    rcases t.step c locals i with fault | (⟨t, reshapes⟩ | peak)
    · rfl
    · simp only [ih]
      rcases run c locals offset t rest with e | ⟨typed, peak⟩ <;> rfl
    · rcases rest with - | ⟨⟨next, i'⟩, rest⟩ <;> rfl

theorem TypedInstruction.lower_mapOffset (pc : Nat) (starts : List (Option Nat)) (code : List TypedInstruction) :
    lower pc starts (code.map (mapOffset f)) =
      ((lower pc starts code).1.map (Prod.map f id), (lower pc starts code).2) := by
  induction code generalizing pc starts with
  | nil => rfl
  | cons x rest ih =>
    obtain ⟨offset, i, reshapes⟩ := x
    rw [List.map_cons]
    cases i <;> simp [lower, mapOffset, leaveBlock, ih, Instruction.plainOp?]

theorem CompiledBody.ofTyped_mapOffset (hf : f 0 = 0) (locals : List ValueType) (code : List TypedInstruction)
    (peak : Nat) : ofTyped locals (code.map (TypedInstruction.mapOffset f)) peak =
      (ofTyped locals code peak).mapOffsets f := by
  have hclose : ((code.map (TypedInstruction.mapOffset f)).getLast?.map (·.offset)).getD 0 =
      f ((code.getLast?.map (·.offset)).getD 0) := by
    rw [List.getLast?_map]
    cases code.getLast? with
    | none => exact hf.symm
    | some x => rfl
  simp only [ofTyped, hclose, TypedInstruction.lower_mapOffset]
  simp [mapOffsets]

/-- **A body that stands elsewhere** is brought into the same form, but for the offsets. -/
theorem FunctionBody.compile_mapOffsets (hf : f 0 = 0) {c : Context} {func : Nat} {body : FunctionBody}
    {compiled : CompiledBody} (h : body.compile c func = .ok compiled) :
    (body.mapOffsets f).compile c func = .ok (compiled.mapOffsets f) := by
  unfold compile at h ⊢
  rcases htype : c.func func with fault | type <;> rw [htype] at h
  · nomatch h
  · rcases hrun : Typing.run c (type.params ++ body.locals) body.offset (.start type.results) body.code with
      e | ⟨typed, peak⟩ <;> dsimp only at h <;> rw [hrun] at h <;> cases h
    dsimp only [mapOffsets]
    rw [Typing.run_mapOffsets, hrun]
    exact congrArg _ (CompiledBody.ofTyped_mapOffset hf _ _ _)

theorem FunctionBody.compileAll_mapOffsets (hf : f 0 = 0) {c : Context} {func : Nat} {bodies : List FunctionBody}
    {code : List CompiledBody} (h : compileAll c func bodies = .ok code) :
    compileAll c func (bodies.map (mapOffsets f)) = .ok (code.map (CompiledBody.mapOffsets f)) := by
  induction bodies generalizing func code with
  | nil =>
    cases h
    rfl
  | cons body rest ih =>
    obtain ⟨compiled, hbody, h⟩ := bind_eq_ok.mp h
    obtain ⟨code, hrest, h⟩ := bind_eq_ok.mp h
    cases h
    exact bind_eq_ok.mpr ⟨_, compile_mapOffsets hf hbody, bind_eq_ok.mpr ⟨_, ih hrest, rfl⟩⟩

/-! ### Modules -/

variable {data data' : ByteArray} {before behind : List Section} {s : CustomForm} {m : Module}

/-- **Validation does not see custom sections.** -/
theorem RawModule.validate_insert {raw : RawModule} (h : raw.validate features = .ok m) :
    (raw.insert before behind s).validate features = .ok { raw.insert before behind s with
      code := m.code.map (·.mapOffsets (shiftBehind (Section.boundary before) s.bytes.length)) } := by
  obtain ⟨hdecl, code, hcode, rfl⟩ := validate_eq_ok.mp h
  have hzero : shiftBehind (Section.boundary before) s.bytes.length 0 = 0 := if_pos (Nat.zero_le _)
  exact validate_eq_ok.mpr ⟨hdecl, _, FunctionBody.compileAll_mapOffsets hzero hcode, by rw [List.map_toArray]⟩

/-- **Custom sections are inert**: wherever sections of a module meet, one more may be inserted. The module is accepted
as it was, with the same ops in the code; what changes are the custom sections, names if the section has any, and the
offsets of what stands behind it. -/
theorem Module.ofBytes_insert (h : Module.ofBytes data features limits = .ok m)
    (hS : RawModule.Format features limits data (before ++ behind)) (hs : s.WellFormed limits)
    (hdata : data'.toList = data.toList.take (Section.boundary before) ++ s.bytes ++
      data.toList.drop (Section.boundary before)) :
    Module.ofBytes data' features limits = .ok { m.toRawModule.insert before behind s with
      code := m.code.map (·.mapOffsets (shiftBehind (Section.boundary before) s.bytes.length)) } := by
  obtain ⟨raw, hraw, hvalid⟩ := ofBytes_eq_ok.mp h
  have hm : m.toRawModule = raw := by
    obtain ⟨-, code, -, rfl⟩ := RawModule.validate_eq_ok.mp hvalid
    rfl
  rw [hm]
  exact ofBytes_eq_ok.mpr ⟨_, RawModule.ofBytes_inserted hraw hS hs hdata, RawModule.validate_insert hvalid⟩

/-- A custom section that names the module, with a size in two bytes. -/
def CustomForm.naming : CustomForm := ⟨[137, 0], [4], "name", ⟨#[0, 2, 1, 120]⟩⟩

/-- The module with a table, an element segment and code, behind a section that names it. -/
def Module.namedBytes : ByteArray :=
  ⟨#[0, 97, 115, 109, 1, 0, 0, 0, 0, 137, 0, 4, 110, 97, 109, 101, 0, 2, 1, 120, 1, 5, 1, 96, 0, 1, 127, 3, 2, 1, 0, 4,
    4, 1, 112, 0, 1, 9, 7, 1, 0, 65, 0, 11, 1, 0, 10, 10, 1, 8, 0, 65, 0, 17, 0, 0, 192, 11]⟩

/-- The section may stand before all others. -/
theorem Module.ofBytes_insert_naming : ∃ m S, Module.ofBytes extendingBytes .all {} = .ok m ∧
    RawModule.Format .all {} extendingBytes ([] ++ S) ∧ CustomForm.naming.WellFormed {} ∧
    namedBytes.toList = extendingBytes.toList.take (Section.boundary []) ++ CustomForm.naming.bytes ++
      extendingBytes.toList.drop (Section.boundary []) ∧
    Module.ofBytes namedBytes .all {} = .ok { m.toRawModule.insert [] S .naming with
      code := m.code.map (·.mapOffsets (shiftBehind (Section.boundary []) CustomForm.naming.bytes.length)) } := by
  have haccepted : (Module.ofBytes extendingBytes .all {}).toOption.isSome = true := by decide +kernel
  rcases hm : Module.ofBytes extendingBytes .all {} with e | m
  · rw [hm] at haccepted
    nomatch haccepted
  obtain ⟨raw, hraw, -⟩ := ofBytes_eq_ok.mp hm
  obtain ⟨S, hS, -⟩ := RawModule.ofBytes_eq_ok_iff.mp hraw
  have hform : CustomForm.naming.WellFormed {} := by
    have hpayload : CustomForm.naming.payload.length = 9 := by decide +kernel
    have hname : CustomForm.naming.name.toUTF8.size = 4 := by decide +kernel
    refine ⟨?_, ?_, ?_⟩
    · rw [hpayload]
      exact .more (by decide) (by decide) (.last (by decide) (by decide))
    · rw [hname]
      exact .last (by decide) (by decide)
    · rw [hpayload]
      decide
  have hbytes : namedBytes.toList = extendingBytes.toList.take (Section.boundary []) ++ CustomForm.naming.bytes ++
      extendingBytes.toList.drop (Section.boundary []) := by
    rw [ByteArray.toList_eq, ByteArray.toList_eq]
    decide +kernel
  exact ⟨m, S, rfl, hS, hform, hbytes, Module.ofBytes_insert hm hS hform hbytes⟩

end WasmEngine
