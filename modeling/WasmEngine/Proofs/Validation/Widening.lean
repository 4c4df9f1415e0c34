import WasmEngine.Proofs.Binary.Widening
import WasmEngine.Proofs.Validation.Bodies

/-!
# Modules with more proposals

Validation looks at the proposals in two places only: where signatures have several results, and where there are
several tables. Code is checked without a look at them (`Typing.step_features`). So with more proposals
each check that was passed is passed again, bodies are brought into the same executable form, and a
module that was accepted is accepted as the same module (`Module.ofBytes_of_le`).
-/

namespace WasmEngine

variable {f g : Features}

namespace Context

variable {c : Context}

theorem checkTypes_mono (h : f ≤ g) (hc : checkTypes { c with features := f } = .ok ()) :
    checkTypes { c with features := g } = .ok () := by
  unfold checkTypes at hc ⊢
  dsimp only at hc ⊢
  by_cases hf : f.multiValue
  · have hg : g.multiValue = true := h .multiValue hf
    rw [if_pos hg]
    rfl
  · rw [if_neg hf] at hc
    split
    · rfl
    · exact hc

theorem checkTableCount_mono (h : f ≤ g) (hc : checkTableCount { c with features := f } = .ok ()) :
    checkTableCount { c with features := g } = .ok () := by
  unfold checkTableCount at hc ⊢
  dsimp only at hc ⊢
  by_cases hf : f.referenceTypes
  · have hg : g.referenceTypes = true := h .referenceTypes hf
    simp [hg, pure_eq_ok]
  · by_cases hmany : 1 < c.tables.length
    · simp [hf, hmany, throw_eq_ok] at hc
    · simp [hmany, pure_eq_ok]

theorem checkExports_features (c : Context) (features : Features) (names : List String) (exports : List Export) :
    checkExports { c with features } names exports = c.checkExports names exports := by
  induction exports generalizing names with
  | nil => rfl
  | cons e rest ih =>
    rw [checkExports, checkExports]
    simp only [ih]
    rfl

/-- Everything else is checked without a look at the proposals. -/
theorem checkDeclarations_mono (h : f ≤ g) {m : RawModule}
    (hc : (ofModule m f).checkDeclarations m = .ok ()) : (ofModule m g).checkDeclarations m = .ok () := by
  unfold checkDeclarations at hc ⊢
  obtain ⟨⟨⟩, htypes, hc⟩ := bind_eq_ok.mp hc
  obtain ⟨⟨⟩, himports, hc⟩ := bind_eq_ok.mp hc
  obtain ⟨⟨⟩, hfunctions, hc⟩ := bind_eq_ok.mp hc
  obtain ⟨⟨⟩, htables, hc⟩ := bind_eq_ok.mp hc
  obtain ⟨⟨⟩, hcount, hc⟩ := bind_eq_ok.mp hc
  obtain ⟨⟨⟩, hmemories, hc⟩ := bind_eq_ok.mp hc
  obtain ⟨⟨⟩, hone, hc⟩ := bind_eq_ok.mp hc
  obtain ⟨⟨⟩, hglobals, hc⟩ := bind_eq_ok.mp hc
  obtain ⟨⟨⟩, hexports, hc⟩ := bind_eq_ok.mp hc
  rw [← checkExports_features _ g] at hexports
  refine bind_eq_ok.mpr ⟨(), checkTypes_mono (c := ofModule m f) h htypes, ?_⟩
  refine bind_eq_ok.mpr ⟨(), himports, bind_eq_ok.mpr ⟨(), hfunctions, bind_eq_ok.mpr ⟨(), htables, ?_⟩⟩⟩
  refine bind_eq_ok.mpr ⟨(), checkTableCount_mono (c := ofModule m f) h hcount, ?_⟩
  refine bind_eq_ok.mpr ⟨(), hmemories, bind_eq_ok.mpr ⟨(), hone, bind_eq_ok.mpr ⟨(), hglobals, ?_⟩⟩⟩
  exact bind_eq_ok.mpr ⟨(), hexports, hc⟩

end Context

/-! ### Bodies -/

theorem Typing.run_features (c : Context) (features : Features) (locals : List ValueType) (last : Nat) (t : Typing)
    (code : List (Nat × Instruction)) : run { c with features } locals last t code = run c locals last t code := by
  induction code generalizing t last with
  | nil => rfl
  | cons x rest ih =>
    obtain ⟨offset, i⟩ := x
    rw [run, run, t.step_features c features locals i]
    simp only [ih]

theorem FunctionBody.compile_features (c : Context) (features : Features) (func : Nat) (body : FunctionBody) :
    body.compile { c with features } func = body.compile c func := by
  unfold compile
  simp only [Typing.run_features c features]
  rfl

theorem FunctionBody.compileAll_features (c : Context) (features : Features) (func : Nat)
    (bodies : List FunctionBody) : compileAll { c with features } func bodies = compileAll c func bodies := by
  induction bodies generalizing func with
  | nil => rfl
  | cons body rest ih => rw [compileAll, compileAll, body.compile_features c features func, ih]

/-! ### Modules -/

theorem RawModule.validate_eq_ok {raw : RawModule} {m : Module} : raw.validate f = .ok m ↔
    (Context.ofModule raw f).checkDeclarations raw = .ok () ∧
      ∃ code, FunctionBody.compileAll (.ofModule raw f) (raw.importedCount .func) raw.bodies = .ok code ∧
        m = { raw with code := code.toArray } := by
  unfold validate
  dsimp only
  rcases (Context.ofModule raw f).checkDeclarations raw with fault | ⟨⟨⟩⟩
  · simp
  · rw [bind_eq_ok]
    simp only [pure_eq_ok, true_and, eq_comm (a := m)]

theorem RawModule.validate_mono (h : f ≤ g) {raw : RawModule} {m : Module} (hm : raw.validate f = .ok m) :
    raw.validate g = .ok m := by
  obtain ⟨hdecl, code, hcode, rfl⟩ := validate_eq_ok.mp hm
  refine validate_eq_ok.mpr ⟨Context.checkDeclarations_mono h hdecl, code, ?_, rfl⟩
  rw [← hcode]
  exact FunctionBody.compileAll_features (.ofModule raw f) g _ _

theorem Module.ofBytes_eq_ok {bytes : ByteArray} {limits : DecodeLimits} {m : Module} :
    ofBytes bytes f limits = .ok m ↔ ∃ raw, RawModule.ofBytes bytes f limits = .ok raw ∧ raw.validate f = .ok m := by
  unfold ofBytes
  rcases RawModule.ofBytes bytes f limits with e | raw <;> simp

/-- **Proposals only add modules.** What is accepted with some proposals is accepted with more, as the same
module. -/
theorem Module.ofBytes_of_le (h : f ≤ g) {bytes : ByteArray} {limits : DecodeLimits} {m : Module}
    (hm : Module.ofBytes bytes f limits = .ok m) : Module.ofBytes bytes g limits = .ok m := by
  obtain ⟨raw, hraw, hvalid⟩ := ofBytes_eq_ok.mp hm
  exact ofBytes_eq_ok.mpr ⟨raw, RawModule.ofBytes_mono h hraw, RawModule.validate_mono h hvalid⟩

/-- A module with a table, an element segment, an indirect call and a sign extension. -/
def Module.extendingBytes : ByteArray :=
  ⟨#[0, 97, 115, 109, 1, 0, 0, 0, 1, 5, 1, 96, 0, 1, 127, 3, 2, 1, 0, 4, 4, 1, 112, 0, 1, 9, 7, 1, 0, 65, 0, 11, 1, 0, 10,
    10, 1, 8, 0, 65, 0, 17, 0, 0, 192, 11]⟩

/-- It needs one proposal, and is read the same when another one is switched on. -/
theorem Module.ofBytes_extending : ∃ m, Features.mvp.set .signExtension true ≤
      (Features.mvp.set .signExtension true).set .referenceTypes true ∧
    Module.ofBytes extendingBytes (Features.mvp.set .signExtension true) {} = .ok m ∧
    Module.ofBytes extendingBytes ((Features.mvp.set .signExtension true).set .referenceTypes true) {} = .ok m := by
  have haccepted : (Module.ofBytes extendingBytes (Features.mvp.set .signExtension true) {}).toOption.isSome = true := by
    decide +kernel
  rcases hm : Module.ofBytes extendingBytes (Features.mvp.set .signExtension true) {} with e | m
  · rw [hm] at haccepted
    nomatch haccepted
  · exact ⟨m, Features.le_set _ _, rfl, Module.ofBytes_of_le (Features.le_set _ _) hm⟩

end WasmEngine
