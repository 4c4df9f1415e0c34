import WasmEngine.Proofs.Binary.Blame
import WasmEngine.Proofs.Binary.Opcodes
import WasmEngine.Proofs.Validation.Proposals

/-!
# Errors of modules are located

An error that is found while a module is read blames one of its bytes, or the end of these if a byte is missing
(`Error.OfDecoding`). An error that is found in the code of a function blames one of the instructions of its body
(`Error.OfBody`), and the byte at the offset of the error is the opcode of that instruction. For this each offset that
the check of a body may hold on to has to be that of an instruction: at the end of code that does not end its blocks it
is the offset of the last instruction, and a body that was read has one (`Decoder.instructionsFrom_ne_nil`).

Errors in what a module declares outside of function bodies have no place.
-/

namespace WasmEngine

/-! ### Errors and their places -/

/-- **An error of decoding blames a byte** or the end of the bytes. It is an error of validation if it is about a
constant expression. -/
structure Error.OfDecoding (data : ByteArray) (e : Error) : Prop where
  category : e.category = .decode ∨ e.category = .validation ∧ e.number = 2016
  place : ∃ offset ≤ data.size, e.place = { offset := some offset }

/-- **An error of a body blames an instruction** of the body. The byte at its offset is the opcode. -/
structure Error.OfBody (data : ByteArray) (func : Nat) (body : FunctionBody) (e : Error) : Prop where
  category : e.category = .validation
  place : ∃ x ∈ body.code, e.place = { offset := some x.1, func := some func } ∧ data[x.1]? = some x.2.opcode

theorem DecodeFault.category_or (fault : DecodeFault) :
    fault.category = .decode ∨ fault.category = .validation ∧ fault.number = 2016 := by
  cases fault with
  | constant => exact .inr ⟨rfl, rfl⟩
  | _ => exact .inl rfl

variable {data : ByteArray} {features : Features} {limits : DecodeLimits} {c : Context}

theorem Error.ofDecode_located {e : DecodeError} (h : RawModule.ofBytes data features limits = .error e) :
    (ofDecode e).OfDecoding data where
  category := e.fault.category_or
  place := ⟨e.offset, RawModule.ofBytes_located h, rfl⟩

/-! ### Instructions of bodies -/

/-- Code goes on to the `end` of its block, which is an instruction. -/
theorem Decoder.instructionsFrom_ne_nil {fuel depth : Nat} {w w' : Cursor} {code : List (Nat × Instruction)}
    (h : instructionsFrom features (fuel + 1) (depth + 1) w = .ok code w') : code ≠ [] := by
  rw [instructionsFrom_succ] at h
  obtain ⟨_, _, -, h⟩ := estate_bind_eq_ok.mp h
  obtain ⟨_, _, -, h⟩ := estate_bind_eq_ok.mp h
  obtain ⟨-, h⟩ := check_eq_ok.mp h
  obtain ⟨_, _, -, h⟩ := estate_bind_eq_ok.mp h
  obtain ⟨_, _, -, h⟩ := estate_bind_eq_ok.mp h
  obtain ⟨rfl, -⟩ := estate_pure_eq_ok.mp h
  exact List.cons_ne_nil _ _

/-- **Bodies in the bytes** have instructions, and at the offset of each is its opcode. -/
theorem RawModule.body_opcodes {raw : RawModule} (h : RawModule.ofBytes data features limits = .ok raw)
    {body : FunctionBody} (hbody : body ∈ raw.bodies) :
    body.code ≠ [] ∧ ∀ x ∈ body.code, data[x.1]? = some x.2.opcode := by
  obtain ⟨S, hS, rfl⟩ := ofBytes_eq_ok_iff.mp h
  constructor
  · obtain ⟨_, _, -, hread⟩ := hS.body_mem hbody
    obtain ⟨_, _, -, -, -, _, _, _, _, -, -, hcode⟩ := Decoder.sizedBody_parts hread
    exact Decoder.instructionsFrom_ne_nil hcode
  · intro x hx
    obtain ⟨_, _, rfl, hpos, hinstruction⟩ := hS.body_instruction hbody hx
    exact hpos ▸ Decoder.instruction_byte hinstruction

/-- **Checking code blames one of its instructions.** -/
theorem Typing.run_error {locals : List ValueType} {last : Nat} {t : Typing} {code : List (Nat × Instruction)}
    (hcode : code ≠ []) {fault : ValidationFault} {offset : Nat}
    (h : run c locals last t code = .error (fault, offset)) : ∃ x ∈ code, x.1 = offset := by
  induction code generalizing t last with
  | nil => exact absurd rfl hcode
  | cons x rest ih =>
    obtain ⟨start, i⟩ := x
    rw [run] at h
    split at h
    -- the instruction itself is wrong
    · cases h
      exact ⟨_, List.mem_cons_self, rfl⟩
    -- the fault is in the rest, or the rest is missing
    · rcases bind_eq_error.mp h with hrest | ⟨_, -, h⟩
      · cases rest with
        | nil =>
          cases hrest
          exact ⟨_, List.mem_cons_self, rfl⟩
        | cons y rest =>
          obtain ⟨z, hz, rfl⟩ := ih (List.cons_ne_nil _ _) hrest
          exact ⟨z, List.mem_cons_of_mem _ hz, rfl⟩
      · cases h
    -- the body is over, but the code goes on
    · split at h
      · cases h
      · cases h
        exact ⟨_, List.mem_cons_of_mem _ List.mem_cons_self, rfl⟩

theorem FunctionBody.compile_error {func : Nat} {type : FuncType} (hfunc : c.func func = .ok type)
    {body : FunctionBody} (hcode : body.code ≠ []) {e : Error} (h : body.compile c func = .error e) :
    e.category = .validation ∧ ∃ x ∈ body.code, e.place = { offset := some x.1, func := some func } := by
  rw [compile, hfunc] at h
  dsimp only at h
  split at h
  · next fault offset hrun =>
    cases h
    obtain ⟨x, hx, rfl⟩ := Typing.run_error hcode hrun
    exact ⟨rfl, x, hx, rfl⟩
  · nomatch h

/-- **The error of several bodies** is that of the first one that has an error. -/
theorem FunctionBody.compileAll_eq_error {func : Nat} {bodies : List FunctionBody} {e : Error} :
    compileAll c func bodies = .error e ↔ ∃ (k : Nat) (body : FunctionBody), bodies[k]? = some body ∧
      body.compile c (func + k) = .error e ∧
      ∀ j < k, ∀ earlier, bodies[j]? = some earlier → ∃ compiled, earlier.compile c (func + j) = .ok compiled := by
  induction bodies generalizing func with
  | nil =>
    constructor
    · intro h
      cases h
    · rintro ⟨k, body, hk, -⟩
      cases hk
  | cons body rest ih =>
    have hshift (j : Nat) : func + (j + 1) = func + 1 + j := by omega
    rw [compileAll, bind_eq_error]
    simp only [bind_pure_eq_error, ih]
    constructor
    · rintro (hbody | ⟨compiled, hbody, k, body', hk, herror, hearlier⟩)
      · exact ⟨0, body, rfl, hbody, fun _ hj => absurd hj (Nat.not_lt_zero _)⟩
      · refine ⟨k + 1, body', hk, (hshift k).symm ▸ herror, fun j hj earlier hget => ?_⟩
        cases j with
        | zero =>
          cases hget
          exact ⟨compiled, hbody⟩
        | succ j => exact (hshift j).symm ▸ hearlier j (Nat.lt_of_succ_lt_succ hj) earlier hget
    · rintro ⟨k, body', hk, herror, hearlier⟩
      cases k with
      | zero =>
        cases hk
        exact .inl herror
      | succ k =>
        obtain ⟨compiled, hbody⟩ := hearlier 0 (Nat.succ_pos k) body rfl
        refine .inr ⟨compiled, hbody, k, body', hk, hshift k ▸ herror, fun j hj earlier hget => ?_⟩
        exact hshift j ▸ hearlier (j + 1) (Nat.succ_lt_succ hj) earlier hget

/-! ### Modules -/

/-- With its declarations in order, each body of a module has a signature. -/
theorem RawModule.func_of_declarations {raw : RawModule} (hraw : RawModule.ofBytes data features limits = .ok raw)
    (hdecl : (Context.ofModule raw features).checkDeclarations raw = .ok ()) {k : Nat} (hk : k < raw.bodies.length) :
    ∃ type, (Context.ofModule raw features).func (raw.importedCount .func + k) = .ok type := by
  unfold Context.checkDeclarations at hdecl
  obtain ⟨⟨⟩, -, hdecl⟩ := bind_eq_ok.mp hdecl
  obtain ⟨⟨⟩, -, hdecl⟩ := bind_eq_ok.mp hdecl
  obtain ⟨⟨⟩, hfunctions, -⟩ := bind_eq_ok.mp hdecl
  rw [(ofBytes_agree hraw).1] at hk
  obtain ⟨type, htype, -⟩ := bind_eq_ok.mp (forM_eq_ok.mp hfunctions _ (List.getElem_mem hk))
  refine ⟨type, Context.func_eq_ok.mpr ⟨raw.functions[k], ?_, Context.lookUp_eq_ok.mp htype⟩⟩
  exact (raw.funcSpace_own k).trans (List.getElem?_eq_getElem hk)

/-- **Errors of bodies** blame their instructions. -/
theorem FunctionBody.compile_located {raw : RawModule} (hraw : RawModule.ofBytes data features limits = .ok raw)
    (hdecl : (Context.ofModule raw features).checkDeclarations raw = .ok ()) {k : Nat} {body : FunctionBody}
    (hk : raw.bodies[k]? = some body) {e : Error}
    (h : body.compile (.ofModule raw features) (raw.importedCount .func + k) = .error e) :
    e.OfBody data (raw.importedCount .func + k) body := by
  obtain ⟨hcode, hopcodes⟩ := RawModule.body_opcodes hraw (List.mem_of_getElem? hk)
  obtain ⟨type, htype⟩ := RawModule.func_of_declarations hraw hdecl (List.getElem?_eq_some_iff.mp hk).1
  obtain ⟨hcategory, x, hx, hplace⟩ := compile_error htype hcode h
  exact ⟨hcategory, x, hx, hplace, hopcodes x hx⟩

theorem RawModule.validate_eq_error {raw : RawModule}
    (hdecl : (Context.ofModule raw features).checkDeclarations raw = .ok ()) {e : Error} :
    raw.validate features = .error e ↔
      FunctionBody.compileAll (.ofModule raw features) (raw.importedCount .func) raw.bodies = .error e := by
  unfold validate
  dsimp only
  rw [hdecl]
  exact bind_pure_eq_error

/-- **Errors of modules are located.** If the bytes cannot be read, a byte is to blame, or the end of the bytes. If
they can and all is well outside of function bodies, there is an error if a body has one, the first such body counts,
and one of its instructions is to blame. -/
theorem Module.ofBytes_error (data : ByteArray) (features : Features) (limits : DecodeLimits) :
    (∀ e, RawModule.ofBytes data features limits = .error e →
      ofBytes data features limits = .error (.ofDecode e) ∧ (Error.ofDecode e).OfDecoding data) ∧
    ∀ raw, RawModule.ofBytes data features limits = .ok raw →
      (Context.ofModule raw features).checkDeclarations raw = .ok () →
      (∀ (k : Nat) (body : FunctionBody) (e : Error), raw.bodies[k]? = some body →
        body.compile (.ofModule raw features) (raw.importedCount .func + k) = .error e →
        e.OfBody data (raw.importedCount .func + k) body) ∧
      ∀ e, ofBytes data features limits = .error e ↔
        ∃ (k : Nat) (body : FunctionBody), raw.bodies[k]? = some body ∧
          body.compile (.ofModule raw features) (raw.importedCount .func + k) = .error e ∧
          ∀ j < k, ∀ earlier, raw.bodies[j]? = some earlier →
            ∃ compiled, earlier.compile (.ofModule raw features) (raw.importedCount .func + j) = .ok compiled := by
  refine ⟨fun e he => ⟨by rw [ofBytes, he], Error.ofDecode_located he⟩, fun raw hraw hdecl => ⟨?_, fun e => ?_⟩⟩
  · exact fun k body e hk h => FunctionBody.compile_located hraw hdecl hk h
  · rw [ofBytes, hraw]
    exact (RawModule.validate_eq_error hdecl).trans FunctionBody.compileAll_eq_error

/-- A module that imports a function and defines another one, which adds without having numbers. -/
def Module.underflowingBytes : ByteArray :=
  ⟨#[0, 97, 115, 109, 1, 0, 0, 0, 1, 5, 1, 96, 0, 1, 127, 2, 7, 1, 1, 97, 1, 102, 0, 0, 3, 2, 1, 0, 10, 5, 1, 3, 0, 106,
    11]⟩

/-- The second function is to blame, at its addition. Of bytes that are cut off, the end is. -/
theorem Module.ofBytes_error_underflowing :
    (∃ e, ofBytes ⟨#[0, 97, 115]⟩ .mvp {} = .error e ∧ e.OfDecoding ⟨#[0, 97, 115]⟩) ∧
      ∃ body e, ofBytes underflowingBytes .mvp {} = .error e ∧ e.OfBody underflowingBytes 1 body := by
  constructor
  · have hrejected : (RawModule.ofBytes ⟨#[0, 97, 115]⟩ .mvp {}).isOk = false := by decide +kernel
    obtain ⟨e, he⟩ := eq_error_of_isOk hrejected
    exact ⟨_, (ofBytes_error ⟨#[0, 97, 115]⟩ .mvp {}).1 e he⟩
  · have hrejected : (RawModule.ofBytes underflowingBytes .mvp {}).toOption.any (fun raw =>
        ((Context.ofModule raw .mvp).checkDeclarations raw).isOk && raw.importedCount .func == 1 &&
          raw.bodies[0]?.any fun body => !(body.compile (.ofModule raw .mvp) 1).isOk) = true := by decide +kernel
    rcases hraw : RawModule.ofBytes underflowingBytes .mvp {} with e | raw
    · rw [hraw] at hrejected
      nomatch hrejected
    · rw [hraw, Except.toOption, Option.any_some, Bool.and_eq_true, Bool.and_eq_true, beq_iff_eq] at hrejected
      obtain ⟨⟨hdecl, hcount⟩, hbody⟩ := hrejected
      obtain ⟨⟨⟩, hdecl⟩ := eq_ok_of_isOk hdecl
      obtain ⟨body, hk, hbody⟩ := (Option.any_eq_true _ _).mp hbody
      obtain ⟨e, he⟩ := eq_error_of_isOk (Bool.not_eq_eq_eq_not.mp hbody)
      obtain ⟨hlocated, hfirst⟩ := (ofBytes_error underflowingBytes .mvp {}).2 raw hraw hdecl
      rw [hcount] at hlocated hfirst
      exact ⟨body, e, (hfirst e).mpr ⟨0, body, hk, he, nofun⟩, hlocated 0 body e hk he⟩

end WasmEngine
