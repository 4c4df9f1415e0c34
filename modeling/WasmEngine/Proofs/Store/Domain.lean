import WasmEngine.Proofs.Store.Instantiate

/-!
# Parts of a store

A `Domain` is a part of a store, given by the addresses that belong to it. A store is confined to a domain
(`Store.Confined`) if nothing in it leads out: instances refer to what belongs to it, and so do the references in
its tables, globals and element segments. Values of code that runs in such a part refer to nothing outside, either
(`Store.FitsIn`).

To be confined to everything (`Domain.all`) is no restriction.
-/

namespace WasmEngine

/-- A part of a store. -/
structure Domain where
  funcs : Nat → Prop
  externs : Nat → Prop
  tables : Nat → Prop
  memories : Nat → Prop
  globals : Nat → Prop
  instances : Nat → Prop

namespace Domain

variable {D : Domain}

/-- All of a store. -/
def all : Domain where
  funcs _ := True
  externs _ := True
  tables _ := True
  memories _ := True
  globals _ := True
  instances _ := True

/-- The addresses that references of a type may hold. -/
def refs (D : Domain) : RefType → Nat → Prop
  | .funcref => D.funcs
  | .externref => D.externs

/-- **A cell of a type refers to nothing outside.** -/
def Admits (D : Domain) : ValueType → Cell → Prop
  | .ref t, c => ∀ a : Addr, c.toRef = some a → D.refs t a.toNat
  | .i32, _ | .i64, _ | .f32, _ | .f64, _ => True

theorem admits_all (type : ValueType) (c : Cell) : Domain.all.Admits type c := by
  cases type with
  | ref t => cases t <;> exact fun _ _ => trivial
  | _ => trivial

theorem admits_zero (type : ValueType) : D.Admits type 0 := by
  cases type with
  | ref t => exact fun _ h => nomatch h
  | _ => trivial

/-- The reference to a function is its address in 32 bits. -/
theorem toRef_ofNat {addr : Nat} {a : Addr} (h : Cell.toRef (BitVec.ofNat 64 (addr + 1)) = some a) :
    a.toNat = addr % 2 ^ 32 := by
  unfold Cell.toRef at h
  split at h
  · nomatch h
  next hne =>
  cases h
  have hpos : (addr + 1) % 2 ^ 64 ≠ 0 := fun hzero => hne (BitVec.eq_of_toNat_eq hzero)
  have hone : (1 : Cell).toNat = 1 := rfl
  rw [BitVec.toNat_setWidth, BitVec.toNat_sub, BitVec.toNat_ofNat]
  omega

theorem admits_func {addr : Nat} (h : D.funcs (addr % 2 ^ 32)) :
    D.Admits (.ref .funcref) (BitVec.ofNat 64 (addr + 1)) :=
  fun _ ha => toRef_ofNat ha ▸ h

/-- **A value refers to nothing outside.** -/
def Allows (D : Domain) : Value → Prop
  | .ref t (some a) => D.refs t a.toNat
  | _ => True

theorem allows_ofCell {type : ValueType} {c : Cell} (h : D.Admits type c) : D.Allows (.ofCell type c) := by
  cases type with
  | ref t =>
    unfold Value.ofCell
    dsimp only
    cases ha : c.toRef with
    | none => trivial
    | some a => exact h a ha
  | _ => trivial

theorem Allows.admits {v : Value} (h : D.Allows v) : D.Admits v.type v.toCell := by
  cases v with
  | ref t a =>
    intro a' ha'
    cases a with
    | none => nomatch ha'
    | some a =>
      have heq := toRef_ofNat ((congrArg Cell.toRef (Store.toCell_ref a)).symm.trans ha')
      rw [Nat.mod_eq_of_lt a.isLt] at heq
      exact heq ▸ h
  | _ => trivial

end Domain

/-- The addresses that an instance has lie in a domain. -/
structure ModuleInstance.Links (i : ModuleInstance) (D : Domain) : Prop where
  funcs : ∀ a ∈ i.funcs, D.funcs a
  tables : ∀ a ∈ i.tables, D.tables a
  memories : ∀ a ∈ i.memories, D.memories a
  globals : ∀ a ∈ i.globals, D.globals a

/-- **An instance refers to nothing outside**, and neither do its element segments. -/
structure ModuleInstance.Within (i : ModuleInstance) (D : Domain) : Prop extends i.Links D where
  elements : ∀ (x : Nat) segment items, i.module.elements[x]? = some segment → i.elements[x]? = some items →
    ∀ c ∈ items, D.Admits (.ref segment.type) c

namespace Store

variable {σ α : Type} {s s' : Store σ} {D : Domain} {place : Nat}

/-- What a cell of a type can be in a part of a store. -/
structure FitsIn (s : Store σ) (D : Domain) (type : ValueType) (c : Cell) : Prop where
  fits : s.Fits type c
  admits : D.Admits type c

/-- **A store is confined to a domain** if nothing in the domain leads out of it. References have 32 bits, and so
have the addresses that they lead to. -/
structure Confined (s : Store σ) (D : Domain) : Prop where
  narrow : ∀ a, D.funcs a → D.funcs (a % 2 ^ 32)
  funcs : ∀ a f, D.funcs a → s.funcs[a]? = some (.wasm f) → D.instances f.instance_
  instances : ∀ a i, D.instances a → s.instances[a]? = some i → i.Within D
  tables : ∀ a t, D.tables a → s.tables[a]? = some t → ∀ c ∈ t.cells, D.Admits (.ref t.element) c
  globals : ∀ a g, D.globals a → s.globals[a]? = some g → D.Admits g.type.value g.cell

/-- Everything has its type, and what is in a domain leads to nothing outside. -/
structure TypedIn (s : Store σ) (D : Domain) : Prop where
  typed : s.Typed
  confined : s.Confined D

theorem FitsIn.mono (h : Extends s s') {type : ValueType} {c : Cell} (hc : s.FitsIn D type c) :
    s'.FitsIn D type c := ⟨hc.fits.mono h, hc.admits⟩

theorem fitsIn_zero (type : ValueType) : s.FitsIn D type 0 := ⟨fits_zero type, Domain.admits_zero type⟩

theorem fitsIn_i32 (w : BitVec 32) : s.FitsIn D .i32 (w.setWidth 64) := ⟨toNat_setWidth_lt w, trivial⟩

theorem confined_all (s : Store σ) : s.Confined .all where
  narrow _ _ := trivial
  funcs _ _ _ _ := trivial
  instances _ _ _ _ :=
    { funcs := fun _ _ => trivial, tables := fun _ _ => trivial, memories := fun _ _ => trivial
      globals := fun _ _ => trivial, elements := fun _ _ _ _ _ c _ => Domain.admits_all _ c }
  tables _ _ _ _ c _ := Domain.admits_all _ c
  globals _ g _ _ := Domain.admits_all _ g.cell

theorem Typed.in_all (hs : s.Typed) : s.TypedIn .all := ⟨hs, confined_all s⟩

/-! ### Single changes -/

/-- What changes neither tables, globals nor instances keeps a store confined. -/
theorem Confined.of_quiet (hs : s.Confined D) (h : Quiet s s') (tables : s'.tables = s.tables)
    (globals : s'.globals = s.globals) (instances : s'.instances = s.instances) : s'.Confined D where
  narrow := hs.narrow
  funcs := h.funcs_eq ▸ hs.funcs
  instances := instances ▸ hs.instances
  tables := tables ▸ hs.tables
  globals := globals ▸ hs.globals

theorem TypedIn.of_quiet (hs : s.TypedIn D) (h : Quiet s s') (tables : s'.tables = s.tables)
    (globals : s'.globals = s.globals) (instances : s'.instances = s.instances) : s'.TypedIn D :=
  ⟨hs.typed.of_quiet h tables globals instances, hs.confined.of_quiet h tables globals instances⟩

theorem typedIn_setMemory {addr : Nat} {e : MemoryEntry} {m : Memory} (hs : s.TypedIn D)
    (h : s.memories[addr]? = some e) (hm : e.memory.Grows m) : (s.setMemory addr m).TypedIn D :=
  hs.of_quiet (quiet_setMemory h hm) rfl rfl rfl

theorem getElem?_modify_cases {β : Type} {xs : Array β} {i j : Nat} {f : β → β} {x : β}
    (h : (xs.modify i f)[j]? = some x) : xs[j]? = some x ∨ ∃ y, i = j ∧ xs[j]? = some y ∧ x = f y := by
  rw [Array.getElem?_modify] at h
  split at h
  · next he =>
    obtain ⟨y, hy, rfl⟩ := Option.map_eq_some_iff.mp h
    exact .inr ⟨y, he, hy, rfl⟩
  · exact .inl h

theorem typedIn_setTableAt {addr : Nat} {t t' : Table} (hs : s.TypedIn D) (h : s.tables[addr]? = some t)
    (ht : t.Grows t') (hall : t'.All (s.FitsIn D (.ref t.element))) : (s.setTableAt addr t').TypedIn D where
  typed := typed_setTableAt hs.typed h ht fun c hc => (hall c hc).fits
  confined := { hs.confined with
    tables := fun a u ha hu c hc => by
      rcases getElem?_modify_cases hu with hu | ⟨_, -, -, rfl⟩
      · exact hs.confined.tables a u ha hu c hc
      · exact ht.element ▸ (hall c hc).admits }

theorem typedIn_setGlobalCell {addr : Nat} {c : Cell} (hs : s.TypedIn D)
    (h : ∀ g, s.globals[addr]? = some g → s.FitsIn D g.type.value c) : (s.setGlobalCell addr c).TypedIn D where
  typed := typed_setGlobalCell hs.typed fun g hg => (h g hg).fits
  confined := { hs.confined with
    globals := fun a g ha hg => by
      rcases getElem?_modify_cases hg with hg | ⟨y, rfl, hy, rfl⟩
      · exact hs.confined.globals a g ha hg
      · exact (h y hy).admits }

theorem typedIn_dropElement (hs : s.TypedIn D) (place index : Nat) : (s.dropElement place index).TypedIn D where
  typed := typed_dropElement hs.typed place index
  confined := { hs.confined with
    instances := fun a i ha hi => by
      rcases getElem?_modify_cases hi with hi | ⟨j, rfl, hj, rfl⟩
      · exact hs.confined.instances a i ha hi
      · have hwithin := hs.confined.instances _ j ha hj
        refine { hwithin with elements := fun x segment items hsegment hitems c hc => ?_ }
        rw [Array.getElem?_setIfInBounds] at hitems
        split at hitems
        · split at hitems <;> cases hitems
          nomatch hc
        · exact hwithin.elements x segment items hsegment hitems c hc }

theorem typedIn_dropData (hs : s.TypedIn D) (place index : Nat) : (s.dropData place index).TypedIn D where
  typed := typed_dropData hs.typed place index
  confined := { hs.confined with
    instances := fun a i ha hi => by
      rcases getElem?_modify_cases hi with hi | ⟨j, rfl, hj, rfl⟩
      · exact hs.confined.instances a i ha hi
      · exact { hs.confined.instances _ j ha hj with } }

/-! ### Computations -/

/-- A computation leaves a store behind that is well typed and confined, whether it fails or not. -/
abbrev TypedInAfter (D : Domain) (act : StoreM σ α) (s : Store σ) : Prop :=
  Yields act s (fun _ s' => s'.TypedIn D) fun _ s' => s'.TypedIn D

theorem typedInAfter_onMemory {ε : Type} {addr : Nat} {missing : Error} {toError : ε → Error}
    {act : EStateM ε Memory α} (hs : s.TypedIn D) (h : Keeps Memory.Grows act) :
    TypedInAfter D (onMemory addr missing toError act) s := by
  cases he : s.memories[addr]? with
  | none => exact .of_error (onMemory_none he) hs
  | some e =>
    have hm := h e.memory
    unfold TypedInAfter Yields
    rw [onMemory_some he]
    cases hr : act e.memory <;> rw [hr] at hm <;> exact typedIn_setMemory hs he hm

theorem typedInAfter_onTable {ε : Type} {addr : Nat} {missing : Error} {toError : ε → Error}
    {act : EStateM ε Table α} {t : Table} (hs : s.TypedIn D) (hD : D.tables addr) (ht : s.tables[addr]? = some t)
    (h : Keeps Table.Grows act) (hall : Table.KeepsAll (s.FitsIn D (.ref t.element)) act) :
    TypedInAfter D (onTable addr missing toError act) s := by
  have hgrows := h t
  have hcells := hall t fun c hc => ⟨hs.typed.tables t (Array.mem_of_getElem? ht) c hc,
    hs.confined.tables addr t hD ht c hc⟩
  unfold TypedInAfter Yields
  rw [onTable_some ht]
  cases hr : act t <;> rw [hr] at hgrows hcells <;> exact typedIn_setTableAt hs ht hgrows hcells

/-- What leaves tables, globals and instances alone keeps a store well typed and confined. -/
theorem typedInAfter_of_quiet {act : StoreM σ α} (hs : s.TypedIn D) (h : Keeps Quiet act)
    (same : (endState (act s)).tables = s.tables ∧ (endState (act s)).globals = s.globals ∧
      (endState (act s)).instances = s.instances) : TypedInAfter D act s :=
  .of_end (hs.of_quiet (h s) same.1 same.2.1 same.2.2)

end Store

end WasmEngine
