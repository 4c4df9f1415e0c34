import WasmEngine.Proofs.Checks
import WasmEngine.Validation.Module

/-!
# Valid modules

A `Module` is `Valid` if it was made from bytes. All that the rest of the theory uses of that is collected in
`Module.Checked`: what the sections of the module declare fits together, and its code is that of its bodies,
each of which was checked at the index of its function.
-/

namespace WasmEngine

/-- **A module that was read and found to be valid**, under some features and some bounds. -/
def Module.Valid (m : Module) : Prop :=
  ∃ bytes features limits, Module.ofBytes bytes features limits = .ok m

/-- What was read is valid. -/
theorem Module.valid_get {bytes : ByteArray} {features : Features} {limits : DecodeLimits}
    (h : (Module.ofBytes bytes features limits).toOption.isSome = true) :
    ((Module.ofBytes bytes features limits).toOption.get h).Valid := by
  refine ⟨bytes, features, limits, ?_⟩
  generalize Module.ofBytes bytes features limits = r at h ⊢
  cases r with
  | error e => nomatch h
  | ok m => rfl

/-- What the code of a module can refer to. -/
def Module.context (m : Module) (features : Features) : Context :=
  .ofModule m.toRawModule features

namespace Context

variable {c : Context}

theorem lookUp_eq_ok {α : Type} {space : IndexSpace} {entries : List α} {i : Nat} {a : α} :
    lookUp space entries i = .ok a ↔ entries[i]? = some a := by
  unfold lookUp
  cases entries[i]? <;> simp

theorem func_eq_ok {i : Nat} {type : FuncType} :
    c.func i = .ok type ↔ ∃ t, c.funcs[i]? = some t ∧ c.types[t]? = some type := by
  unfold func Context.type
  simp only [bind_eq_ok, lookUp_eq_ok]

/-- What is asked for by an import makes sense as far as code depends on it. -/
theorem checkImport_func {i : Import} {t : Nat} (h : c.checkImport i = .ok ()) (ht : i.type = .func t) :
    ∃ type, c.types[t]? = some type := by
  unfold checkImport at h
  rw [ht] at h
  obtain ⟨type, htype, -⟩ := bind_eq_ok.mp h
  exact ⟨type, lookUp_eq_ok.mp htype⟩

theorem expectConst_eq_ok {e : ConstExpr} {type : ValueType} :
    c.expectConst e type = .ok () ↔ c.constType e = .ok type := by
  unfold expectConst
  rw [bind_eq_ok]
  constructor
  · rintro ⟨actual, ha, h⟩
    split at h
    · next he => rw [ha, he]
    · nomatch h
  · intro h
    exact ⟨type, h, if_pos rfl⟩

end Context

/-- **What is known of a module that was checked.** -/
structure Module.Checked (m : Module) (features : Features) : Prop where
  imports : ∀ i ∈ m.imports, (m.context features).checkImport i = .ok ()
  functions : ∀ t ∈ m.functions, ∃ type, m.types[t]? = some type
  memoryLimits : ∀ l ∈ m.memories, ∀ max, l.max = some max → l.min ≤ max
  memories : m.memorySpace.length ≤ 1
  globals : ∀ g ∈ m.globals, (m.context features).constType g.init = .ok g.type.value
  exports : ∀ e ∈ m.exports, (m.context features).checkExport e = .ok ()
  start : ∀ f, m.start = some f → (m.context features).func f = .ok ⟨[], []⟩
  items : ∀ s ∈ m.elements, ∀ item ∈ s.items, (m.context features).constType item = .ok (.ref s.type)
  elements : ∀ s ∈ m.elements, ∀ table offset, s.mode = .active table offset →
    (∃ t, m.tableSpace[table]? = some t ∧ t.element = s.type) ∧
      (m.context features).constType offset = .ok .i32
  data : ∀ s ∈ m.data, ∀ memory offset, s.mode = .active memory offset →
    (∃ l, m.memorySpace[memory]? = some l) ∧ (m.context features).constType offset = .ok .i32
  bodies : m.bodies.length = m.functions.length
  codeSize : m.code.size = m.bodies.length
  code : ∀ (k : Nat) (body : FunctionBody), m.bodies[k]? = some body →
    ∃ compiled, m.code[k]? = some compiled ∧
      body.compile (m.context features) (m.importedCount .func + k) = .ok compiled
  dataCount : ∀ n, m.dataCount = some n → n = m.data.length

theorem Limits.min_le_of_check {l : Limits} {bound max : Nat} {what : String}
    (h : l.check bound what = .ok ()) (hmax : l.max = some max) : l.min ≤ max := by
  unfold check at h
  split at h
  · nomatch h
  split at h
  · nomatch h
  next hle =>
  rw [hmax] at hle
  simpa using hle

namespace Context

variable {c : Context}

theorem checkExports_mem {names : List String} {exports : List Export}
    (h : c.checkExports names exports = .ok ()) : ∀ e ∈ exports, c.checkExport e = .ok () := by
  induction exports generalizing names with
  | nil =>
    intro e he
    nomatch he
  | cons e rest ih =>
    unfold checkExports at h
    split at h
    · nomatch h
    · obtain ⟨⟨⟩, he, h⟩ := bind_eq_ok.mp h
      exact List.forall_mem_cons.mpr ⟨he, ih h⟩

theorem checkMemoryCount_eq_ok (h : c.checkMemoryCount = .ok ()) : c.memories.length ≤ 1 := by
  unfold checkMemoryCount at h
  split at h
  · nomatch h
  · next hle => exact Nat.le_of_not_lt hle

theorem checkStart_eq_ok {f : Nat} : c.checkStart f = .ok () ↔ c.func f = .ok ⟨[], []⟩ := by
  unfold checkStart
  rw [bind_eq_ok]
  constructor
  · rintro ⟨type, ht, h⟩
    split at h
    · next he => rw [ht, he]
    · nomatch h
  · intro h
    exact ⟨_, h, if_pos rfl⟩

theorem checkElement_items {s : ElementSegment} (h : c.checkElement s = .ok ()) :
    ∀ item ∈ s.items, c.constType item = .ok (.ref s.type) := by
  unfold checkElement at h
  obtain ⟨⟨⟩, hitems, -⟩ := bind_eq_ok.mp h
  exact fun item hi => expectConst_eq_ok.mp (forM_eq_ok.mp hitems item hi)

theorem checkElement_active {s : ElementSegment} {table : Nat} {offset : ConstExpr}
    (h : c.checkElement s = .ok ()) (hs : s.mode = .active table offset) :
    (∃ t, c.tables[table]? = some t ∧ t.element = s.type) ∧ c.constType offset = .ok .i32 := by
  unfold checkElement at h
  obtain ⟨⟨⟩, -, h⟩ := bind_eq_ok.mp h
  rw [hs] at h
  obtain ⟨t, ht, h⟩ := bind_eq_ok.mp h
  split at h
  · next he => exact ⟨⟨t, lookUp_eq_ok.mp ht, he⟩, expectConst_eq_ok.mp h⟩
  · nomatch h

theorem checkData_active {s : DataSegment} {memory : Nat} {offset : ConstExpr}
    (h : c.checkData s = .ok ()) (hs : s.mode = .active memory offset) :
    (∃ l, c.memories[memory]? = some l) ∧ c.constType offset = .ok .i32 := by
  unfold checkData at h
  rw [hs] at h
  obtain ⟨l, hl, h⟩ := bind_eq_ok.mp h
  exact ⟨⟨l, lookUp_eq_ok.mp hl⟩, expectConst_eq_ok.mp h⟩

end Context

theorem FunctionBody.compileAll_eq_ok {c : Context} {func : Nat} {bodies : List FunctionBody}
    {code : List CompiledBody} (h : compileAll c func bodies = .ok code) :
    code.length = bodies.length ∧ ∀ (k : Nat) (body : FunctionBody), bodies[k]? = some body →
      ∃ compiled, code[k]? = some compiled ∧ body.compile c (func + k) = .ok compiled := by
  induction bodies generalizing func code with
  | nil =>
    cases pure_eq_ok.mp h
    exact ⟨rfl, fun k body hk => by nomatch hk⟩
  | cons body bodies ih =>
    obtain ⟨compiled, hbody, h⟩ := bind_eq_ok.mp h
    obtain ⟨rest, hrest, h⟩ := bind_eq_ok.mp h
    cases pure_eq_ok.mp h
    obtain ⟨hlength, hcode⟩ := ih hrest
    refine ⟨congrArg (· + 1) hlength, fun k b hk => ?_⟩
    cases k with
    | zero =>
      cases hk
      exact ⟨compiled, rfl, hbody⟩
    | succ k =>
      obtain ⟨compiled, hk', hb⟩ := hcode k b hk
      exact ⟨compiled, hk', by rwa [show func + (k + 1) = func + 1 + k by omega]⟩

/-- What the sections of a module agree on. -/
theorem Decoder.agreement_eq_ok {m : RawModule} {c c' : Cursor} (h : agreement m c = .ok () c') :
    m.bodies.length = m.functions.length ∧ ∀ n, m.dataCount = some n → n = m.data.length := by
  unfold agreement at h
  obtain ⟨stop, c₁, -, h⟩ := estate_bind_eq_ok.mp h
  split at h
  · obtain ⟨_, _, h, -⟩ := estate_bind_eq_ok.mp h
    nomatch h
  · next hbodies =>
    refine ⟨(Decidable.not_not.mp hbodies).symm, fun n hn => ?_⟩
    rw [hn] at h
    dsimp only at h
    split at h
    · nomatch h
    · next he => exact Decidable.not_not.mp he

theorem RawModule.ofBytes_agree {bytes : ByteArray} {features : Features} {limits : DecodeLimits}
    {m : RawModule} (h : RawModule.ofBytes bytes features limits = .ok m) :
    m.bodies.length = m.functions.length ∧ ∀ n, m.dataCount = some n → n = m.data.length := by
  unfold RawModule.ofBytes at h
  split at h
  · next raw rest hrun =>
    cases h
    change Decoder.module features limits _ = _ at hrun
    unfold Decoder.module at hrun
    obtain ⟨_, _, -, hrun⟩ := estate_bind_eq_ok.mp hrun
    obtain ⟨_, _, -, hrun⟩ := estate_bind_eq_ok.mp hrun
    obtain ⟨_, _, -, hrun⟩ := estate_bind_eq_ok.mp hrun
    obtain ⟨m, _, -, hrun⟩ := estate_bind_eq_ok.mp hrun
    obtain ⟨⟨⟩, _, hagree, hrun⟩ := estate_bind_eq_ok.mp hrun
    obtain ⟨rfl, -⟩ := estate_pure_eq_ok.mp hrun
    exact Decoder.agreement_eq_ok hagree
  · nomatch h

/-- **Validation checks what it should.** -/
theorem RawModule.validate_checked {raw : RawModule} {features : Features} {m : Module}
    (hbodies : raw.bodies.length = raw.functions.length)
    (hdata : ∀ n, raw.dataCount = some n → n = raw.data.length)
    (h : raw.validate features = .ok m) : m.Checked features := by
  unfold RawModule.validate at h
  dsimp only at h
  split at h
  · nomatch h
  next hdecl =>
  obtain ⟨code, hcode, h⟩ := bind_eq_ok.mp h
  cases pure_eq_ok.mp h
  obtain ⟨hlength, hcode⟩ := FunctionBody.compileAll_eq_ok hcode
  unfold Context.checkDeclarations at hdecl
  obtain ⟨⟨⟩, -, hdecl⟩ := bind_eq_ok.mp hdecl
  obtain ⟨⟨⟩, himports, hdecl⟩ := bind_eq_ok.mp hdecl
  obtain ⟨⟨⟩, hfunctions, hdecl⟩ := bind_eq_ok.mp hdecl
  obtain ⟨⟨⟩, -, hdecl⟩ := bind_eq_ok.mp hdecl
  obtain ⟨⟨⟩, -, hdecl⟩ := bind_eq_ok.mp hdecl
  obtain ⟨⟨⟩, hlimits, hdecl⟩ := bind_eq_ok.mp hdecl
  obtain ⟨⟨⟩, hcount, hdecl⟩ := bind_eq_ok.mp hdecl
  obtain ⟨⟨⟩, hglobals, hdecl⟩ := bind_eq_ok.mp hdecl
  obtain ⟨⟨⟩, hexports, hdecl⟩ := bind_eq_ok.mp hdecl
  obtain ⟨⟨⟩, hstart, hdecl⟩ := bind_eq_ok.mp hdecl
  obtain ⟨⟨⟩, helements, hsegments⟩ := bind_eq_ok.mp hdecl
  exact {
    imports := forM_eq_ok.mp himports
    functions := fun t ht => by
      obtain ⟨type, htype, -⟩ := bind_eq_ok.mp (forM_eq_ok.mp hfunctions t ht)
      exact ⟨type, Context.lookUp_eq_ok.mp htype⟩
    memoryLimits := fun l hl _ hmax => Limits.min_le_of_check (forM_eq_ok.mp hlimits l hl) hmax
    memories := Context.checkMemoryCount_eq_ok hcount
    globals := fun g hg => Context.expectConst_eq_ok.mp (forM_eq_ok.mp hglobals g hg)
    exports := Context.checkExports_mem hexports
    start := fun f hf => by
      change raw.start = some f at hf
      rw [hf] at hstart
      exact Context.checkStart_eq_ok.mp hstart
    items := fun s hs => Context.checkElement_items (forM_eq_ok.mp helements s hs)
    elements := fun s hs _ _ hm => Context.checkElement_active (forM_eq_ok.mp helements s hs) hm
    data := fun s hs _ _ hm => Context.checkData_active (forM_eq_ok.mp hsegments s hs) hm
    bodies := hbodies
    codeSize := hlength
    code := fun k body hk => by
      obtain ⟨compiled, hk', hb⟩ := hcode k body hk
      exact ⟨compiled, by rw [List.getElem?_toArray]; exact hk', hb⟩
    dataCount := hdata }

/-- **What is known of valid modules.** -/
theorem Module.Valid.checked {m : Module} (h : m.Valid) : ∃ features, m.Checked features := by
  obtain ⟨bytes, features, limits, h⟩ := h
  unfold Module.ofBytes at h
  split at h
  · nomatch h
  · next raw hraw =>
    obtain ⟨hbodies, hdata⟩ := RawModule.ofBytes_agree hraw
    exact ⟨features, RawModule.validate_checked hbodies hdata h⟩

/-! ### Index spaces -/

namespace RawModule

variable (m : RawModule)

/-- How many entities of a kind are imported, as the length of a part of an index space. -/
theorem importedCount_eq {α : Type} {kind : ExternKind} {pick : ImportType → Option α}
    (h : ∀ t : ImportType, (pick t).isSome = decide (t.kind = kind)) :
    m.importedCount kind = (m.imports.filterMap (pick ·.type)).length := by
  unfold importedCount
  rw [List.length_filterMap_eq_countP]
  congr 1
  funext i
  exact (h i.type).symm

theorem importedCount_func : m.importedCount .func = (m.imports.filterMap (·.type.func?)).length :=
  m.importedCount_eq fun t => by cases t <;> rfl

theorem importedCount_global :
    m.importedCount .global = (m.imports.filterMap (·.type.global?)).length :=
  m.importedCount_eq fun t => by cases t <;> rfl

/-- A function that is defined by the module. -/
theorem funcSpace_own (k : Nat) : m.funcSpace[m.importedCount .func + k]? = m.functions[k]? := by
  rw [funcSpace, importedCount_func, List.getElem?_append_right (Nat.le_add_right _ _),
    Nat.add_sub_cancel_left]

end RawModule

namespace Module

variable {m : Module} {features : Features}

theorem func_eq_ok {f : Nat} {type : FuncType} :
    (m.context features).func f = .ok type ↔ m.funcType? f = some type := by
  rw [Context.func_eq_ok]
  unfold RawModule.funcType?
  simp only [Option.bind_eq_bind, Option.bind_eq_some_iff]
  rfl

/-- Functions have signatures. -/
theorem Checked.funcType (h : m.Checked features) {f t : Nat} (ht : m.funcSpace[f]? = some t) :
    ∃ type, m.types[t]? = some type ∧ m.funcType? f = some type := by
  have htype : ∃ type, m.types[t]? = some type := by
    rcases List.mem_append.mp (List.mem_of_getElem? ht) with hi | hi
    · obtain ⟨i, hi, hit⟩ := List.mem_filterMap.mp hi
      have himport : i.type = .func t := by
        cases hk : i.type <;> rw [hk] at hit <;> cases hit
        rfl
      exact Context.checkImport_func (h.imports i hi) himport
    · exact h.functions t hi
  obtain ⟨type, htype⟩ := htype
  exact ⟨type, htype, by rw [RawModule.funcType?, ht]; exact htype⟩

/-- Functions that the module defines have code. -/
theorem Checked.body (h : m.Checked features) {k : Nat} (hk : k < m.functions.length) :
    ∃ body compiled, m.bodies[k]? = some body ∧ m.code[k]? = some compiled ∧
      body.compile (m.context features) (m.importedCount .func + k) = .ok compiled := by
  have hbody : k < m.bodies.length := h.bodies ▸ hk
  obtain ⟨compiled, hcode, hcompile⟩ := h.code k _ (List.getElem?_eq_getElem hbody)
  exact ⟨_, compiled, List.getElem?_eq_getElem hbody, hcode, hcompile⟩

end Module

end WasmEngine
