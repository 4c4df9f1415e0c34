import WasmEngine.Proofs.Store.Typed
import WasmEngine.Proofs.Validation.Rests

/-!
# Bodies of functions

A function that a module declares has a body that was checked (`WasmFunc.Declared.body`), and only one: what
checking finds out depends on the code, and not on the features under which it was accepted (`TypedBody.Of.visits`).
Within a body, execution rests at one spot at most for each op (`TypedBody.Visits.eq_of_pc`).
-/

namespace WasmEngine

/-! ### Spots are unique -/

namespace TypedBody

variable {b : TypedBody} {p q : Spot}

/-- The code ahead of a spot is what is left of the body. -/
theorem Visits.suffix (h : b.Visits p) : p.code <:+ b.code := by
  induction h with
  | start => exact List.suffix_refl _
  | next _ _ ih => exact (List.suffix_cons _ _).trans ih

/-- **There is one spot for each rest of the code.** -/
theorem Visits.eq_of_code (hp : b.Visits p) (hq : b.Visits q) (h : p.code = q.code) : p = q := by
  induction hp generalizing q with
  | start =>
    cases hq with
    | start => rfl
    | @next _ _ x rest _ _ _ hq _ =>
      change b.code = rest at h
      have hle : (x :: rest).length ≤ b.code.length := hq.suffix.length_le
      rw [h] at hle
      exact absurd hle (Nat.not_succ_le_self _)
  | @next _ _ x rest _ _ _ hp hstep ih =>
    cases hq with
    | start =>
      change rest = b.code at h
      have hle : (x :: rest).length ≤ b.code.length := hp.suffix.length_le
      rw [← h] at hle
      exact absurd hle (Nat.not_succ_le_self _)
    | @next _ _ y rest' _ _ _ hq hstep' =>
      obtain rfl : rest = rest' := h
      -- both instructions are the last one before the rest of the same code
      have hle : (x :: rest).length ≤ (y :: rest).length := Nat.le_refl _
      have hcode := (List.suffix_of_suffix_length_le hp.suffix hq.suffix hle).eq_of_length rfl
      cases hcode
      cases ih hq rfl
      cases hstep.symm.trans hstep'
      rfl

theorem length_lower (pc : Nat) (starts : List (Option Nat)) (code : List TypedInstruction) :
    (TypedInstruction.lower pc starts code).1.length = (code.map (·.instruction.width)).sum := by
  induction code generalizing pc starts with
  | nil => rfl
  | cons x rest ih =>
    obtain ⟨head, hlength, hops⟩ := TypedInstruction.lower_ops pc starts x rest
    rw [hops, List.length_append, hlength, ih, List.map_cons, List.sum_cons]

/-- The code ahead has as many ops as are left. -/
theorem Visits.sum_width (h : b.Visits p) :
    p.pc + (p.code.map (·.instruction.width)).sum = b.ops.length := by
  obtain ⟨hle, hdrop⟩ := h.ops
  have hlength := congrArg List.length hdrop
  rw [List.length_drop, length_lower] at hlength
  omega

/-- **Execution rests at one spot at most for each op.** -/
theorem Visits.eq_of_pc (hp : b.Visits p) (hq : b.Visits q) {x y : TypedInstruction}
    {rest rest' : List TypedInstruction} (hx : p.code = x :: rest) (hy : q.code = y :: rest')
    (hwidth : x.instruction.width = 1) (hwidth' : y.instruction.width = 1) (hpc : p.pc = q.pc) : p = q := by
  refine hp.eq_of_code hq ?_
  have hsum := hp.sum_width.trans hq.sum_width.symm
  rw [hpc, Nat.add_left_cancel_iff] at hsum
  -- one of the codes is a rest of the other, which would have more ops
  have hless {code : List TypedInstruction} {z : TypedInstruction} {behind : List TypedInstruction}
      (hz : z.instruction.width = 1) (hsuffix : code <:+ behind) :
      (code.map (·.instruction.width)).sum < ((z :: behind).map (·.instruction.width)).sum := by
    obtain ⟨front, rfl⟩ := hsuffix
    simp only [List.map_cons, List.sum_cons, List.map_append, List.sum_append, hz]
    omega
  rw [hx, hy] at hsum ⊢
  rcases List.suffix_or_suffix_of_suffix hp.suffix hq.suffix with h | h <;> rw [hx, hy, List.suffix_cons_iff] at h
  · rcases h with h | h
    · exact h
    · exact absurd hsum (Nat.ne_of_lt (hless hwidth' h))
  · rcases h with h | h
    · exact h.symm
    · exact absurd hsum.symm (Nat.ne_of_lt (hless hwidth h))

end TypedBody

/-! ### Features do not matter -/

/-- Checking an instruction does not look at the features. -/
theorem Typing.step_features (t : Typing) (c : Context) (features : Features) (locals : List ValueType)
    (i : Instruction) : t.step { c with features } locals i = t.step c locals i := by
  cases i <;> rfl

theorem Module.step_context (m : Module) (features features' : Features) (t : Typing) (locals : List ValueType)
    (i : Instruction) : t.step (m.context features) locals i = t.step (m.context features') locals i :=
  (t.step_features (m.context features') features locals i).symm ▸ rfl

/-- **What checking finds out depends on the code only.** -/
theorem Typing.Checks.eq {c c' : Context} {locals : List ValueType} {t : Typing}
    {code code' : List TypedInstruction} {peak peak' : Nat}
    (hstep : ∀ t i, Typing.step c locals t i = Typing.step c' locals t i) (h : t.Checks c locals code peak)
    (h' : t.Checks c' locals code' peak') (hcode : code.map (·.erase) = code'.map (·.erase)) : code = code' := by
  induction h generalizing code' with
  | @last t offset peak hlast =>
    cases h' with
    | last =>
      cases hcode
      rfl
    | @next _ _ x _ _ hstep' =>
      obtain ⟨offset', i, reshapes⟩ := x
      obtain ⟨hx, -⟩ := List.cons.inj hcode
      cases hx
      rw [← hstep, hlast] at hstep'
      nomatch hstep'
  | @next t t' x rest peak hnext _ ih =>
    obtain ⟨offset, i, reshapes⟩ := x
    cases h' with
    | last hlast =>
      obtain ⟨hx, -⟩ := List.cons.inj hcode
      cases hx
      rw [← hstep, hnext] at hlast
      nomatch hlast
    | @next _ _ y _ _ hnext' hrest' =>
      obtain ⟨offset', i', reshapes'⟩ := y
      obtain ⟨hx, hrest⟩ := List.cons.inj hcode
      cases hx
      rw [← hstep, hnext] at hnext'
      cases hnext'
      rw [ih hrest' hrest]

/-! ### Bodies of functions -/

/-- **A typed body is that of a function** of a module, and gave rise to an executable one. -/
structure TypedBody.Of (b : TypedBody) (m : Module) (features : Features) (func : Nat) (body : CompiledBody) :
    Prop where
  checked : m.Checked features
  context : b.context = m.context features
  source : ∃ type source, m.funcType? func = some type ∧ m.source? func = some source ∧
    b.locals = type.params ++ source.locals ∧ b.results = type.results ∧ b.code.map (·.erase) = source.code ∧
    body = .ofTyped source.locals b.code b.peak

/-- **A function has one typed body**, as far as its spots are concerned. -/
theorem TypedBody.Of.visits {b b' : TypedBody} {m : Module} {features features' : Features} {func : Nat}
    {body : CompiledBody} (h : b.Of m features func body) (h' : b'.Of m features' func body) :
    b'.locals = b.locals ∧ b'.results = b.results ∧ b'.code = b.code ∧ ∀ {p : Spot}, b.Visits p → b'.Visits p := by
  obtain ⟨type, source, htype, hsource, hlocals, hresults, hcode, -⟩ := h.source
  obtain ⟨type', source', htype', hsource', hlocals', hresults', hcode', -⟩ := h'.source
  cases htype.symm.trans htype'
  cases hsource.symm.trans hsource'
  have hl : b'.locals = b.locals := hlocals'.trans hlocals.symm
  have hr : b'.results = b.results := hresults'.trans hresults.symm
  have hstep (t : Typing) (i : Instruction) :
      t.step b'.context b.locals i = t.step b.context b.locals i := by
    rw [h'.context, h.context]
    exact m.step_context _ _ _ _ _
  have hc : b'.code = b.code := by
    have hchecks := b'.checks
    rw [hl, hr] at hchecks
    exact hchecks.eq hstep b.checks (hcode'.trans hcode.symm)
  refine ⟨hl, hr, hc, fun hv => ?_⟩
  induction hv with
  | start =>
    rw [← hr, ← hc]
    exact .start
  | next _ hnext ih => exact ih.next (by rw [hl, hstep, hnext])

/-- **The body of a function of a module was checked.** -/
theorem Module.Checked.of_body {m : Module} {features : Features} (hm : m.Checked features) {func : Nat}
    {body : CompiledBody} (hbody : m.body? func = some body) : ∃ b, TypedBody.Of b m features func body := by
  unfold Module.body? at hbody
  dsimp only at hbody
  split at hbody
  · nomatch hbody
  next hown =>
  obtain ⟨k, rfl⟩ : ∃ k, func = m.importedCount .func + k := Nat.exists_eq_add_of_le (Nat.le_of_not_lt hown)
  rw [Nat.add_sub_cancel_left] at hbody
  have hlt : k < m.functions.length := by
    rw [← hm.bodies, ← hm.codeSize]
    exact (Array.getElem?_eq_some_iff.mp hbody).1
  obtain ⟨source, compiled, hsource, hcode, hcompile⟩ := hm.body hlt
  cases hcode.symm.trans hbody
  obtain ⟨type, b, htype, hcontext, hlocals, hresults, herase, hcompiled⟩ := TypedBody.of_compile hcompile
  refine ⟨b, hm, hcontext, type, source, Module.func_eq_ok.mp htype, ?_, hlocals, hresults, herase, hcompiled⟩
  rw [RawModule.source?, if_neg hown, Nat.add_sub_cancel_left]
  exact hsource

/-- **A function that a module declares has a body that was checked.** -/
theorem WasmFunc.Declared.body {f : WasmFunc} (hf : f.Declared) : ∃ features b body,
    f.module.body? f.index = some body ∧ TypedBody.Of b f.module features f.index body := by
  obtain ⟨features, hm⟩ := hf.valid.checked
  obtain ⟨k, hk⟩ : ∃ k, f.index = f.module.importedCount .func + k := Nat.exists_eq_add_of_le hf.own
  have hfunc : (f.module.context features).func f.index = .ok f.type := Module.func_eq_ok.mpr hf.type
  obtain ⟨t, ht, -⟩ := Context.func_eq_ok.mp hfunc
  have hlt : k < f.module.functions.length := by
    change f.module.funcSpace[f.index]? = some t at ht
    rw [hk, RawModule.funcSpace_own] at ht
    exact (List.getElem?_eq_some_iff.mp ht).1
  obtain ⟨_, body, -, hcode, -⟩ := hm.body hlt
  have hbody : f.module.body? f.index = some body := by
    rw [Module.body?, if_neg (Nat.not_lt.mpr hf.own), hk, Nat.add_sub_cancel_left]
    exact hcode
  obtain ⟨b, hof⟩ := hm.of_body hbody
  exact ⟨features, b, body, hbody, hof⟩

end WasmEngine
