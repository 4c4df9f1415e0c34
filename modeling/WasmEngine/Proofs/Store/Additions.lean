import WasmEngine.Proofs.Store.Instantiate

/-!
# What the making of an instance adds

Until its segments are written, a new instance changes nothing that others can see: tables, memories and globals
that were there have the contents they had, though a memory may have a new owner. What comes on top of them is
empty: tables of null references and memories of zeros. `Store.Adds` says so, and it holds after every phase,
whether the making succeeds or not.
-/

namespace WasmEngine

namespace Store

variable {σ : Type} {s s' : Store σ}

/-- **Contents stay as they are, and what is new is empty.** -/
structure Adds (s s' : Store σ) : Prop where
  tables : Persists Eq s.tables s'.tables
  memories : Persists (fun e e' : MemoryEntry => e'.memory = e.memory) s.memories s'.memories
  globals : Persists Eq s.globals s'.globals
  nulls : ∀ (a : Nat) (t : Table), s.tables.size ≤ a → s'.tables[a]? = some t → ∀ c ∈ t.cells, c = 0
  zeros : ∀ (a : Nat) (e : MemoryEntry), s.memories.size ≤ a → s'.memories[a]? = some e →
    ∀ b ∈ e.memory.bytes.data, b = 0

instance : IsPreorder (Store σ) Adds where
  refl s := {
    tables := .of_refl (fun _ => rfl) _
    memories := .of_refl (R := fun e e' : MemoryEntry => e'.memory = e.memory) (fun _ => rfl) _
    globals := .of_refl (fun _ => rfl) _
    nulls := fun _ _ ha h => absurd (Array.getElem?_eq_some_iff.mp h).1 (Nat.not_lt.mpr ha)
    zeros := fun _ _ ha h => absurd (Array.getElem?_eq_some_iff.mp h).1 (Nat.not_lt.mpr ha) }
  trans s₁ s₂ s₃ h h' := {
    tables := h.tables.trans (fun _ _ _ h h' => h.trans h') h'.tables
    memories := h.memories.trans (fun _ _ _ h h' => h'.trans h) h'.memories
    globals := h.globals.trans (fun _ _ _ h h' => h.trans h') h'.globals
    nulls := fun a t ha ht => by
      rcases Nat.lt_or_ge a s₂.tables.size with hlt | hge
      · obtain ⟨_, ht', rfl⟩ := h'.tables a _ (Array.getElem?_eq_getElem hlt)
        cases ht'.symm.trans ht
        exact h.nulls a _ ha (Array.getElem?_eq_getElem hlt)
      · exact h'.nulls a t hge ht
    zeros := fun a e ha he => by
      rcases Nat.lt_or_ge a s₂.memories.size with hlt | hge
      · obtain ⟨e', he', hsame⟩ := h'.memories a _ (Array.getElem?_eq_getElem hlt)
        cases he'.symm.trans he
        rw [hsame]
        exact h.zeros a _ ha (Array.getElem?_eq_getElem hlt)
      · exact h'.zeros a e hge he }

/-- Functions, instances and everything else make no difference. -/
theorem Adds.of_eq (tables : s'.tables = s.tables) (memories : s'.memories = s.memories)
    (globals : s'.globals = s.globals) : Adds s s' where
  tables := tables ▸ (refl_of Adds s).tables
  memories := memories ▸ (refl_of Adds s).memories
  globals := globals ▸ (refl_of Adds s).globals
  nulls := tables ▸ (refl_of Adds s).nulls
  zeros := memories ▸ (refl_of Adds s).zeros

/-! ### New entities -/

/-- What is behind the end of an array after a push is what was pushed. -/
theorem getElem?_push_of_le {α : Type} {xs : Array α} {x y : α} {k : Nat} (hk : xs.size ≤ k)
    (h : (xs.push x)[k]? = some y) : x = y := by
  have hlt := (Array.getElem?_eq_some_iff.mp h).1
  rw [Array.size_push] at hlt
  obtain rfl : k = xs.size := by omega
  rw [Array.getElem?_push_size] at h
  exact Option.some.inj h

theorem adds_addTable {t : Table} (ht : ∀ c ∈ t.cells, c = 0) : Keeps Adds (addTable t : StoreM σ Nat) :=
  .modifyGet fun s => { refl_of Adds s with
    tables := .push (fun _ => rfl) t
    nulls := fun _ _ ha h => getElem?_push_of_le ha h ▸ ht }

theorem adds_addMemory {m : Memory} (hm : ∀ b ∈ m.bytes.data, b = 0) (owner : Option Nat) :
    Keeps Adds (addMemory m owner : StoreM σ Nat) :=
  .modifyGet fun s => { refl_of Adds s with
    memories := .push (R := fun e e' : MemoryEntry => e'.memory = e.memory) (fun _ => rfl) _
    zeros := fun _ _ ha h => getElem?_push_of_le ha h ▸ hm }

theorem adds_addGlobal (g : Global) : Keeps Adds (addGlobal g : StoreM σ Nat) :=
  .modifyGet fun s => { refl_of Adds s with globals := .push (fun _ => rfl) g }

/-- A new table is full of its initial element. -/
theorem mem_of_allocate_table {type : TableType} {init : Cell} {t : Table}
    (h : Table.allocate type init = .ok t) : ∀ c ∈ t.cells, c = init := by
  unfold Table.allocate at h
  split at h
  · nomatch h
  · cases h
    exact fun c hc => (Array.mem_replicate.mp hc).2

theorem mem_pushZeros {b : UInt8} (n : Nat) (bytes : ByteArray) (h : b ∈ (pushZeros n bytes).data) :
    b ∈ bytes.data ∨ b = 0 := by
  induction n generalizing bytes with
  | zero => exact .inl h
  | succ n ih =>
    rcases ih _ h with hb | hb
    · exact Array.mem_push.mp hb
    · exact .inr hb

/-- A new memory is full of zeros. -/
theorem mem_of_allocate_memory {l : Limits} {cap : Nat} {m : Memory} (h : Memory.allocate l cap = .ok m) :
    ∀ b ∈ m.bytes.data, b = 0 := by
  unfold Memory.allocate at h
  extract_lets cap at h
  split at h
  · nomatch h
  · cases h
    intro b hb
    rcases mem_pushZeros _ _ hb with hb | hb
    · exact absurd hb (Array.not_mem_empty b)
    · exact hb

/-! ### The phases -/

theorem adds_claimMemory (place addr : Nat) : Keeps Adds (claimMemory place addr : StoreM σ Unit) := by
  refine .getBind fun s => ?_
  split
  · exact .throw _
  split
  · exact .throw _
  · refine .modify fun s => { refl_of Adds s with
      memories := .modify (R := fun e e' : MemoryEntry => e'.memory = e.memory) (fun _ => rfl) fun _ => rfl
      zeros := fun a e ha h => ?_ }
    have hlt := (Array.getElem?_eq_some_iff.mp h).1
    rw [Array.size_modify] at hlt
    exact absurd hlt (Nat.not_lt.mpr ha)

theorem adds_makeFuncs (m : Module) (place imported : Nat) :
    Keeps Adds (makeFuncs m place imported : StoreM σ (List Nat)) :=
  .mapM _ fun _ _ => .bind (keeps_outside _) fun _ => .modifyGet fun _ => .of_eq rfl rfl rfl

theorem adds_makeTables (m : Module) : Keeps Adds (makeTables m : StoreM σ (List Nat)) := by
  refine .mapM _ fun type _ => ?_
  split
  · next h => exact adds_addTable (mem_of_allocate_table h)
  · exact .throw _

theorem adds_makeMemories (m : Module) (place : Nat) :
    Keeps Adds (makeMemories m place : StoreM σ (List Nat)) := by
  refine .getBind fun s => .mapM _ fun limits _ => ?_
  split
  · next h => exact adds_addMemory (mem_of_allocate_memory h) _
  · exact .throw _

theorem adds_makeGlobals (funcs : Array Nat) : ∀ (defs : List GlobalDef) (globals : Array Nat),
    Keeps Adds (makeGlobals funcs defs globals : StoreM σ (Array Nat))
  | [], _ => .pure _
  | _ :: defs, _ => .bind (keeps_constCell _ _ _) fun _ => .bind (adds_addGlobal _) fun _ =>
      adds_makeGlobals funcs defs _

/-- **The making of an instance changes no contents.** -/
theorem adds_makeInstance (m : Module) (entities : List Extern) (place : Nat) :
    Keeps Adds (makeInstance m entities place : StoreM σ Unit) := by
  unfold makeInstance
  refine .bind (.forM _ fun _ _ => adds_claimMemory _ _) fun _ => .bind (adds_makeFuncs _ _ _) fun _ =>
    .bind (adds_makeTables _) fun _ => .bind (adds_makeMemories _ _) fun _ =>
    .bind (adds_makeGlobals _ _ _) fun _ =>
    .bind (.mapM _ fun _ _ => .map (.mapM _ fun _ _ => keeps_constCell _ _ _)) fun _ =>
    .getBind fun _ => .bind (.mapM _ fun _ _ => keeps_outside _) fun _ => .modify fun _ => .of_eq rfl rfl rfl

end Store

end WasmEngine
