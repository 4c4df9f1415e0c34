import Mathlib.Order.Defs.Unbundled
import WasmEngine.Store.Instantiate

/-!
# How stores grow

Addresses stay good: whatever happens in a store, what is at an address stays there. A table may get longer
and hold other references, a memory may grow, a global may get another value, an instance may lose its
segments; but the kind of each, and everything that other parts of the store rely on, is as it was.
`Store.Extends` says so, and it is the relation between any two stores of a run.

Few operations make functions or instances, or change who owns a memory. For all the others there is the
sharper `Store.Quiet`.
-/

namespace WasmEngine

/-! ### Arrays that keep what they have -/

/-- **What is in the first array stays at its place in the second**, up to a change that `R` allows. -/
def Persists {α : Type} (R : α → α → Prop) (xs ys : Array α) : Prop :=
  ∀ (i : Nat) (x : α), xs[i]? = some x → ∃ y, ys[i]? = some y ∧ R x y

namespace Persists

variable {α : Type} {R : α → α → Prop} {xs ys zs : Array α}

theorem of_refl (h : ∀ x, R x x) (xs : Array α) : Persists R xs xs :=
  fun _ x hx => ⟨x, hx, h x⟩

theorem trans (hR : ∀ x y z, R x y → R y z → R x z) (h : Persists R xs ys)
    (h' : Persists R ys zs) : Persists R xs zs := by
  intro i x hx
  obtain ⟨y, hy, hxy⟩ := h i x hx
  obtain ⟨z, hz, hyz⟩ := h' i y hy
  exact ⟨z, hz, hR x y z hxy hyz⟩

theorem push (h : ∀ x, R x x) (a : α) : Persists R xs (xs.push a) := by
  intro i x hx
  refine ⟨x, ?_, h x⟩
  have hi : i < xs.size := (Array.getElem?_eq_some_iff.mp hx).1
  rw [Array.getElem?_push, if_neg (by omega)]
  exact hx

theorem append (h : ∀ x, R x x) (as : Array α) : Persists R xs (xs ++ as) := by
  intro i x hx
  refine ⟨x, ?_, h x⟩
  rw [Array.getElem?_append_left (Array.getElem?_eq_some_iff.mp hx).1]
  exact hx

/-- One entry is changed. -/
theorem modify (h : ∀ x, R x x) {f : α → α} {i : Nat} (hf : ∀ x, R x (f x)) :
    Persists R xs (xs.modify i f) := by
  intro j x hx
  rw [Array.getElem?_modify, hx]
  split
  · exact ⟨f x, rfl, hf x⟩
  · exact ⟨x, rfl, h x⟩

theorem map {f : α → α} (hf : ∀ x, R x (f x)) : Persists R xs (xs.map f) := by
  intro i x hx
  exact ⟨f x, by rw [Array.getElem?_map, hx]; rfl, hf x⟩

theorem size_le (h : Persists R xs ys) : xs.size ≤ ys.size := by
  rcases Nat.lt_or_ge ys.size xs.size with hlt | hge
  · obtain ⟨y, hy, -⟩ := h ys.size xs[ys.size] (Array.getElem?_eq_getElem hlt)
    exact absurd (Array.getElem?_eq_some_iff.mp hy).1 (Nat.lt_irrefl _)
  · exact hge

end Persists

/-! ### What may change of an entity -/

/-- A table keeps its type and does not get shorter. -/
structure Table.Grows (t t' : Table) : Prop where
  element : t'.element = t.element
  max : t'.max = t.max
  size : t.size ≤ t'.size

/-- A memory keeps its bounds and does not get shorter. -/
structure Memory.Grows (m m' : Memory) : Prop where
  max : m'.max = m.max
  cap : m'.cap = m.cap
  size : m.bytes.size ≤ m'.bytes.size

/-- An instance keeps everything but the contents of its segments. -/
structure ModuleInstance.SameShape (i i' : ModuleInstance) : Prop where
  module : i'.module = i.module
  funcs : i'.funcs = i.funcs
  tables : i'.tables = i.tables
  memories : i'.memories = i.memories
  globals : i'.globals = i.globals
  exports : i'.exports = i.exports
  elements : i'.elements.size = i.elements.size
  data : i'.data.size = i.data.size

instance : IsPreorder Table Table.Grows where
  refl _ := ⟨rfl, rfl, Nat.le_refl _⟩
  trans _ _ _ h h' := ⟨h'.1.trans h.1, h'.2.trans h.2, Nat.le_trans h.3 h'.3⟩

instance : IsPreorder Memory Memory.Grows where
  refl _ := ⟨rfl, rfl, Nat.le_refl _⟩
  trans _ _ _ h h' := ⟨h'.1.trans h.1, h'.2.trans h.2, Nat.le_trans h.3 h'.3⟩

instance : IsPreorder ModuleInstance ModuleInstance.SameShape where
  refl _ := ⟨rfl, rfl, rfl, rfl, rfl, rfl, rfl, rfl⟩
  trans _ _ _ h h' := ⟨h'.1.trans h.1, h'.2.trans h.2, h'.3.trans h.3, h'.4.trans h.4,
    h'.5.trans h.5, h'.6.trans h.6, h'.7.trans h.7, h'.8.trans h.8⟩

namespace Store

variable {σ : Type}

/-- The owner of the memory at an address. -/
def ownerOf (s : Store σ) (addr : Nat) : Option Nat := s.memories[addr]?.bind (·.owner)

/-- **Whatever is at an address stays there.** -/
structure Extends (s s' : Store σ) : Prop where
  id : s'.id = s.id
  config : s'.config = s.config
  funcs : Persists Eq s.funcs s'.funcs
  tables : Persists Table.Grows s.tables s'.tables
  memories : Persists (fun e e' => e.memory.Grows e'.memory) s.memories s'.memories
  globals : Persists (fun g g' => g'.type = g.type) s.globals s'.globals
  instances : Persists ModuleInstance.SameShape s.instances s'.instances
  externs : s.externs.size ≤ s'.externs.size

/-- **Nothing is made that can run**, and no memory changes hands. -/
structure Quiet (s s' : Store σ) : Prop extends Extends s s' where
  funcs_eq : s'.funcs = s.funcs
  instances_size : s'.instances.size = s.instances.size
  owner : ∀ addr, s'.ownerOf addr = s.ownerOf addr

instance : IsPreorder (Store σ) Extends where
  refl _ := ⟨rfl, rfl, .of_refl (fun _ => rfl) _, .of_refl (refl_of _) _,
    .of_refl (fun e => refl_of Memory.Grows e.memory) _,
    .of_refl (R := fun g g' : Global => g'.type = g.type) (fun _ => rfl) _,
    .of_refl (refl_of _) _, Nat.le_refl _⟩
  trans _ _ _ h h' := {
    id := h'.id.trans h.id
    config := h'.config.trans h.config
    funcs := h.funcs.trans (fun _ _ _ h h' => h.trans h') h'.funcs
    tables := h.tables.trans (fun _ _ _ => trans_of _) h'.tables
    memories := h.memories.trans (fun _ _ _ => trans_of Memory.Grows) h'.memories
    globals := h.globals.trans (fun _ _ _ h h' => h'.trans h) h'.globals
    instances := h.instances.trans (fun _ _ _ => trans_of _) h'.instances
    externs := Nat.le_trans h.externs h'.externs }

instance : IsPreorder (Store σ) Quiet where
  refl s := { toExtends := refl_of _ s, funcs_eq := rfl, instances_size := rfl, owner := fun _ => rfl }
  trans _ _ _ h h' := {
    toExtends := trans_of Extends h.toExtends h'.toExtends
    funcs_eq := h'.funcs_eq.trans h.funcs_eq
    instances_size := h'.instances_size.trans h.instances_size
    owner := fun a => (h'.owner a).trans (h.owner a) }

/-! ### Changes of one part of a store -/

/-- Counters, fuel, flags and the embedder's data do not matter to anything. -/
theorem Quiet.of_entities {s s' : Store σ} (id : s'.id = s.id) (config : s'.config = s.config)
    (funcs : s'.funcs = s.funcs) (memories : s'.memories = s.memories)
    (tables : s'.tables = s.tables) (globals : s'.globals = s.globals)
    (instances : s'.instances = s.instances) (externs : s'.externs = s.externs) : Quiet s s' where
  id := id
  config := config
  funcs := funcs ▸ .of_refl (fun _ => rfl) _
  tables := tables ▸ .of_refl (refl_of _) _
  memories := memories ▸ .of_refl (fun e => refl_of Memory.Grows e.memory) _
  globals := globals ▸ .of_refl (R := fun g g' : Global => g'.type = g.type) (fun _ => rfl) _
  instances := instances ▸ .of_refl (refl_of _) _
  externs := externs ▸ Nat.le_refl _
  funcs_eq := funcs
  instances_size := instances ▸ rfl
  owner := fun a => by rw [ownerOf, memories, ownerOf]

theorem quiet_tables {s : Store σ} {tables : Array Table}
    (h : Persists Table.Grows s.tables tables) : Quiet s { s with tables } :=
  { refl_of Quiet s with tables := h }

theorem quiet_globals {s : Store σ} {globals : Array Global}
    (h : Persists (fun g g' => g'.type = g.type) s.globals globals) : Quiet s { s with globals } :=
  { refl_of Quiet s with globals := h }

theorem quiet_memories {s : Store σ} {memories : Array MemoryEntry}
    (h : Persists (fun e e' => e.memory.Grows e'.memory) s.memories memories)
    (owner : ∀ a : Nat, memories[a]?.bind (·.owner) = s.ownerOf a) : Quiet s { s with memories } :=
  { refl_of Quiet s with memories := h, owner }

theorem quiet_modifyInstance {s : Store σ} {place : Nat} {change : ModuleInstance → ModuleInstance}
    (h : ∀ i : ModuleInstance, i.SameShape (change i)) : Quiet s (s.modifyInstance place change) :=
  { refl_of Quiet s with
    instances := .modify (refl_of _) h
    instances_size := Array.size_modify .. }

end Store

end WasmEngine
