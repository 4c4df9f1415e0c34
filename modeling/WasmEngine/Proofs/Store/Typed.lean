import Mathlib.Algebra.GroupWithZero.Nat
import WasmEngine.Proofs.Module.Valid
import WasmEngine.Proofs.Store.Growth

/-!
# Well-typed stores

Cells have no types, but what is in a store has: the elements of a table, the value of a global and the items
of an element segment. `Store.Fits` says what a cell of a type can be, and `Store.Typed` that all cells of a
store are what they should be. Beside that, an instance has at each index of its module's index spaces what
the module declares there, and functions come from valid modules.

What a store has to offer to a type only gets more as the store extends.
-/

namespace WasmEngine

namespace Store

variable {σ : Type} {s s' : Store σ}

/-! ### Cells -/

/-- How many addresses there are that references of a type may hold. -/
def refBound (s : Store σ) : RefType → Nat
  | .funcref => s.funcs.size
  | .externref => s.externs.size

/-- **What a cell of a type can be**: a reference is null, which is zero, or the address of what is there, plus one.
A number of 32 bits leaves the rest of its cell zero. -/
def Fits (s : Store σ) : ValueType → Cell → Prop
  | .ref t, c => c = 0 ∨ ∃ addr < s.refBound t, c = BitVec.ofNat 64 (addr + 1)
  | .i32, c | .f32, c => c.toNat < 2 ^ 32
  | .i64, _ | .f64, _ => True

theorem Extends.refBound_le (h : Extends s s') : ∀ t : RefType, s.refBound t ≤ s'.refBound t
  | .funcref => h.funcs.size_le
  | .externref => h.externs

theorem Fits.mono (h : Extends s s') {type : ValueType} {c : Cell} (hc : s.Fits type c) :
    s'.Fits type c := by
  cases type with
  | ref t =>
    rcases hc with rfl | ⟨addr, ha, rfl⟩
    · exact .inl rfl
    · exact .inr ⟨addr, Nat.lt_of_lt_of_le ha (h.refBound_le t), rfl⟩
  | _ => exact hc

/-- Zero is a cell of every type. -/
theorem fits_zero : ∀ type : ValueType, s.Fits type 0
  | .i32 | .f32 => Nat.two_pow_pos 32
  | .i64 | .f64 => trivial
  | .ref _ => .inl rfl

/-- A word of 32 bits leaves the rest of its cell zero. -/
theorem toNat_setWidth_lt (w : BitVec 32) : (w.setWidth 64).toNat < 2 ^ 32 := by
  rw [BitVec.toNat_setWidth_of_le (by decide)]
  exact w.isLt

theorem toCell_ref (a : Addr) : Cell.ofRef (some a) = BitVec.ofNat 64 (a.toNat + 1) := by
  apply BitVec.eq_of_toNat_eq
  simp [Cell.ofRef]

/-- A value that belongs to the store has a cell of its type. -/
theorem fits_toCell {v : Value} (h : s.owns v = true) : s.Fits v.type v.toCell := by
  cases v with
  | i32 w | f32 w => exact toNat_setWidth_lt w
  | i64 | f64 => trivial
  | ref t a => cases a with
    | none => exact .inl rfl
    | some a => cases t <;> exact .inr ⟨a.toNat, of_decide_eq_true h, toCell_ref a⟩

theorem fits_of_toCell {v : Value} {type : ValueType} {c : Cell} (h : s.toCell v type = .ok c) :
    s.Fits type c := by
  unfold toCell at h
  split at h
  · nomatch h
  next ht =>
  obtain rfl := Decidable.not_not.mp ht
  split at h
  · next ho =>
    cases h
    exact fits_toCell ho
  · nomatch h

theorem toCell_eq {v : Value} {type : ValueType} {c : Cell} (h : s.toCell v type = .ok c) : c = v.toCell := by
  unfold toCell at h
  split at h
  · nomatch h
  split at h
  · cases h
    rfl
  · nomatch h

/-- The address in a cell of a reference type is one of the store. -/
theorem Fits.toRef_lt {t : RefType} {c : Cell} (hc : s.Fits (.ref t) c) {a : Addr}
    (ha : c.toRef = some a) : a.toNat < s.refBound t := by
  rcases hc with rfl | ⟨addr, hlt, rfl⟩
  · nomatch ha
  · unfold Cell.toRef at ha
    split at ha
    · nomatch ha
    · next hne =>
      cases ha
      have hne : (addr + 1) % 2 ^ 64 ≠ 0 := fun h => hne (BitVec.eq_of_toNat_eq h)
      rw [BitVec.toNat_setWidth, BitVec.toNat_sub, BitVec.toNat_ofNat]
      have : (1 : Cell).toNat = 1 := rfl
      omega

/-! ### Entities -/

theorem resolve_eq_ok {α : Type} {id index : Nat} {entries : Array α} {a : α}
    (h : s.resolve id index entries = .ok a) : entries[index]? = some a := by
  obtain ⟨⟨⟩, -, h⟩ := bind_eq_ok.mp h
  cases ha : entries[index]? <;> rw [ha] at h
  · nomatch h
  · rw [pure_eq_ok.mp h]

/-- The function at an address has a signature of a module. -/
def FuncAt (s : Store σ) (m : Module) (type addr : Nat) : Prop :=
  ∃ f, s.funcs[addr]? = some f ∧ m.types[type]? = some f.type

/-- The table at an address is at least as large as a type says, and bounded by it. -/
def TableAt (s : Store σ) (type : TableType) (addr : Nat) : Prop :=
  ∃ t, s.tables[addr]? = some t ∧ t.element = type.element ∧ t.type.limits.fits type.limits = true

/-- The memory at an address is at least as large as limits say, and bounded by them. -/
def MemoryAt (s : Store σ) (limits : Limits) (addr : Nat) : Prop :=
  ∃ e, s.memories[addr]? = some e ∧ e.memory.limits.fits limits = true

/-- The global at an address is of a type. -/
def GlobalAt (s : Store σ) (type : GlobalType) (addr : Nat) : Prop :=
  ∃ g, s.globals[addr]? = some g ∧ g.type = type

theorem FuncAt.mono (h : Extends s s') {m : Module} {type addr : Nat} (hf : s.FuncAt m type addr) :
    s'.FuncAt m type addr := by
  obtain ⟨f, hf, htype⟩ := hf
  obtain ⟨_, hf', rfl⟩ := h.funcs addr f hf
  exact ⟨f, hf', htype⟩

/-- What fits goes on fitting while it grows, as long as its maximum stays. -/
theorem fits_of_le {n n' : Nat} {max : Option Nat} {l : Limits} (hn : n ≤ n')
    (h : (Limits.mk n max).fits l = true) : (Limits.mk n' max).fits l = true := by
  unfold Limits.fits at h ⊢
  simp only [Bool.and_eq_true, decide_eq_true_eq] at h ⊢
  exact ⟨Nat.le_trans h.1 hn, h.2⟩

theorem TableAt.mono (h : Extends s s') {type : TableType} {addr : Nat} (ht : s.TableAt type addr) :
    s'.TableAt type addr := by
  obtain ⟨t, ht, helement, hfits⟩ := ht
  obtain ⟨t', ht', hgrows⟩ := h.tables addr t ht
  refine ⟨t', ht', hgrows.element.trans helement, ?_⟩
  rw [Table.type, hgrows.max]
  exact fits_of_le hgrows.size hfits

theorem MemoryAt.mono (h : Extends s s') {limits : Limits} {addr : Nat}
    (hm : s.MemoryAt limits addr) : s'.MemoryAt limits addr := by
  obtain ⟨e, he, hfits⟩ := hm
  obtain ⟨e', he', hgrows⟩ := h.memories addr e he
  refine ⟨e', he', ?_⟩
  rw [Memory.limits, hgrows.max]
  exact fits_of_le (Nat.div_le_div_right hgrows.size) hfits

theorem GlobalAt.mono (h : Extends s s') {type : GlobalType} {addr : Nat}
    (hg : s.GlobalAt type addr) : s'.GlobalAt type addr := by
  obtain ⟨g, hg, htype⟩ := hg
  obtain ⟨g', hg', he⟩ := h.globals addr g hg
  exact ⟨g', hg', he.trans htype⟩

end Store

/-- **An instance has what its module declares.** -/
structure ModuleInstance.Typed {σ : Type} (s : Store σ) (i : ModuleInstance) : Prop where
  valid : i.module.Valid
  funcs : List.Forall₂ (s.FuncAt i.module) i.module.funcSpace i.funcs.toList
  tables : List.Forall₂ s.TableAt i.module.tableSpace i.tables.toList
  memories : List.Forall₂ s.MemoryAt i.module.memorySpace i.memories.toList
  globals : List.Forall₂ s.GlobalAt i.module.globalSpace i.globals.toList
  elements : List.Forall₂ (fun (segment : ElementSegment) (items : Array Cell) =>
    ∀ c ∈ items, s.Fits (.ref segment.type) c) i.module.elements i.elements.toList
  data : i.data.size = i.module.data.length

theorem ModuleInstance.Typed.mono {σ : Type} {s s' : Store σ} (h : s.Extends s') {i : ModuleInstance}
    (hi : i.Typed s) : i.Typed s' where
  valid := hi.valid
  funcs := hi.funcs.imp fun _ _ hf => hf.mono h
  tables := hi.tables.imp fun _ _ ht => ht.mono h
  memories := hi.memories.imp fun _ _ hm => hm.mono h
  globals := hi.globals.imp fun _ _ hg => hg.mono h
  elements := hi.elements.imp fun _ _ hc c hmem => (hc c hmem).mono h
  data := hi.data

/-- A function that a module defines is one of a valid module, at an index of its own. -/
structure WasmFunc.Declared (f : WasmFunc) : Prop where
  valid : f.module.Valid
  own : f.module.importedCount .func ≤ f.index
  type : f.module.funcType? f.index = some f.type

namespace Store

variable {σ : Type} {s s' : Store σ}

/-- **Everything in a store has its type.** -/
structure Typed (s : Store σ) : Prop where
  funcs : ∀ f : WasmFunc, .wasm f ∈ s.funcs → f.Declared
  tables : ∀ t ∈ s.tables, ∀ c ∈ t.cells, s.Fits (.ref t.element) c
  globals : ∀ g ∈ s.globals, s.Fits g.type.value g.cell
  instances : ∀ i ∈ s.instances, i.Typed s

/-- A store stays well typed if what was added to it has its type. -/
theorem Typed.extend (ht : s.Typed) (h : Extends s s')
    (funcs : ∀ f : WasmFunc, .wasm f ∈ s'.funcs → .wasm f ∈ s.funcs ∨ f.Declared)
    (tables : ∀ t ∈ s'.tables, t ∈ s.tables ∨ ∀ c ∈ t.cells, s'.Fits (.ref t.element) c)
    (globals : ∀ g ∈ s'.globals, g ∈ s.globals ∨ s'.Fits g.type.value g.cell)
    (instances : ∀ i ∈ s'.instances, i ∈ s.instances ∨ i.Typed s') : s'.Typed where
  funcs f hf := (funcs f hf).elim (ht.funcs f) fun hx => hx
  tables t ht' := (tables t ht').elim (fun hm c hc => (ht.tables t hm c hc).mono h) fun hx => hx
  globals g hg := (globals g hg).elim (fun hm => (ht.globals g hm).mono h) fun hx => hx
  instances i hi := (instances i hi).elim (fun hm => (ht.instances i hm).mono h) fun hx => hx

end Store

end WasmEngine
