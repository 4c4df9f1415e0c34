import WasmEngine.Proofs.Store.Requests
import WasmEngine.Proofs.Store.Typed

/-!
# Requests keep types

Whatever is asked of a well-typed store, it is well typed afterwards (`Store.typed_perform`). Values are
checked on the way in: they become cells only if they have the type that is wanted and refer to nothing
outside of the store. Tables are written with cells of theirs, and the rest does not touch cells.
-/

namespace WasmEngine

theorem mem_modify {α : Type} {xs : Array α} {i : Nat} {f : α → α} {x : α} (h : x ∈ xs.modify i f) :
    x ∈ xs ∨ ∃ y, xs[i]? = some y ∧ x = f y := by
  obtain ⟨j, hj⟩ := Array.mem_iff_getElem?.mp h
  rw [Array.getElem?_modify] at hj
  split at hj
  · next he =>
    subst he
    obtain ⟨y, hy, rfl⟩ := Option.map_eq_some_iff.mp hj
    exact .inr ⟨y, hy, rfl⟩
  · exact .inl (Array.mem_of_getElem? hj)

theorem mem_of_mem_extract {α : Type} {xs : Array α} {start stop : Nat} {x : α}
    (h : x ∈ xs.extract start stop) : x ∈ xs := by
  obtain ⟨k, hk, rfl⟩ := Array.mem_extract_iff_getElem.mp h
  exact Array.getElem_mem _

/-! ### Tables with cells of one kind -/

namespace Table

/-- All elements of a table have a property. -/
def All (P : Cell → Prop) (t : Table) : Prop := ∀ c ∈ t.cells, P c

variable {P : Cell → Prop}

theorem all_setAll {piece : List Cell} (hpiece : ∀ c ∈ piece, P c) {start : Nat} {cells : Array Cell}
    (h : ∀ c ∈ cells, P c) : ∀ c ∈ setAll start piece cells, P c := by
  induction piece generalizing start cells with
  | nil => exact h
  | cons c rest ih =>
    refine ih (fun c hc => hpiece c (List.mem_cons_of_mem _ hc)) fun d hd => ?_
    rcases Array.mem_or_eq_of_mem_setIfInBounds hd with hd | rfl
    · exact h d hd
    · exact hpiece d List.mem_cons_self

theorem All.put {t : Table} (h : t.All P) {start : Nat} {piece : Array Cell}
    (hpiece : ∀ c ∈ piece, P c) : (t.put start piece).All P :=
  all_setAll (fun c hc => hpiece c (Array.mem_toList_iff.mp hc)) h

theorem All.extract {t : Table} (h : t.All P) (start stop : Nat) :
    ∀ c ∈ t.cells.extract start stop, P c :=
  fun c hc => h c (mem_of_mem_extract hc)

/-- What changes a table keeps a property of all elements. -/
abbrev KeepsAll {ε α : Type} (P : Cell → Prop) (act : EStateM ε Table α) : Prop :=
  Keeps (fun t t' => t.All P → t'.All P) act

theorem keepsAll_changeIf {condition : Table → Bool} {change : Table → Table}
    (h : ∀ t : Table, condition t = true → t.All P → (change t).All P) :
    KeepsAll P (changeIf condition change) := by
  intro t ht
  unfold changeIf
  split
  · next hc => exact h t hc ht
  · exact ht

theorem keepsAll_set (index : Nat) {c : Cell} (hc : P c) : KeepsAll P (set index c) :=
  keepsAll_changeIf fun t _ ht d hd => by
    rcases Array.mem_or_eq_of_mem_setIfInBounds hd with hd | rfl
    · exact ht d hd
    · exact hc

theorem keepsAll_fill (start : Nat) {c : Cell} (hc : P c) (length : Nat) :
    KeepsAll P (fill start c length) :=
  keepsAll_changeIf fun _ _ ht => ht.put fun _ hd => (Array.mem_replicate.mp hd).2 ▸ hc

theorem keepsAll_copyWithin (target source length : Nat) : KeepsAll P (copyWithin target source length) :=
  keepsAll_changeIf fun _ _ ht => ht.put (ht.extract _ _)

theorem keepsAll_init (target : Nat) {items : Array Cell} (h : ∀ c ∈ items, P c)
    (source length : Nat) : KeepsAll P (init target items source length) :=
  keepsAll_changeIf fun _ _ ht => ht.put fun c hc => h c (mem_of_mem_extract hc)

theorem keepsAll_grow (delta : Nat) {c : Cell} (hc : P c) : KeepsAll P (grow delta c) := by
  intro t ht
  unfold grow
  dsimp only
  split
  · intro d hd
    rcases Array.mem_append.mp hd with hd | hd
    · exact ht d hd
    · exact (Array.mem_replicate.mp hd).2 ▸ hc
  · exact ht

end Table

namespace Store

variable {σ α : Type} {s : Store σ}

/-! ### Single changes -/

/-- What changes neither tables, globals nor instances keeps types. -/
theorem Typed.of_quiet {s' : Store σ} (hs : s.Typed) (h : Quiet s s') (tables : s'.tables = s.tables)
    (globals : s'.globals = s.globals) (instances : s'.instances = s.instances) : s'.Typed :=
  hs.extend h.toExtends (fun _ hf => .inl (h.funcs_eq ▸ hf)) (fun _ ht => .inl (tables ▸ ht))
    (fun _ hg => .inl (globals ▸ hg)) fun _ hi => .inl (instances ▸ hi)

theorem typed_setMemory {addr : Nat} {e : MemoryEntry} {m : Memory} (hs : s.Typed)
    (h : s.memories[addr]? = some e) (hm : e.memory.Grows m) : (s.setMemory addr m).Typed :=
  hs.of_quiet (quiet_setMemory h hm) rfl rfl rfl

theorem typed_setTableAt {addr : Nat} {t t' : Table} (hs : s.Typed) (h : s.tables[addr]? = some t)
    (ht : t.Grows t') (hall : t'.All (s.Fits (.ref t.element))) : (s.setTableAt addr t').Typed := by
  have hext := (quiet_setTableAt h ht).toExtends
  refine hs.extend hext (fun _ => .inl) (fun u hu => ?_) (fun _ => .inl) fun _ => .inl
  change u ∈ s.tables.modify addr (fun _ => t') at hu
  rcases mem_modify hu with hu | ⟨y, -, rfl⟩
  · exact .inl hu
  · exact .inr fun c hc => ht.element ▸ (hall c hc).mono hext

theorem typed_setGlobalCell {addr : Nat} {c : Cell} (hs : s.Typed)
    (h : ∀ g, s.globals[addr]? = some g → s.Fits g.type.value c) : (s.setGlobalCell addr c).Typed := by
  have hext := (quiet_setGlobalCell addr c s).toExtends
  refine hs.extend hext (fun _ => .inl) (fun _ => .inl) (fun g hg => ?_) fun _ => .inl
  change g ∈ s.globals.modify addr ({ · with cell := c }) at hg
  rcases mem_modify hg with hg | ⟨y, hy, rfl⟩
  · exact .inl hg
  · exact .inr ((h y hy).mono hext)

/-! ### Computations -/

/-- A computation leaves a well-typed store behind, whether it fails or not. -/
abbrev TypedAfter (act : StoreM σ α) (s : Store σ) : Prop :=
  Yields act s (fun _ s' => s'.Typed) fun _ s' => s'.Typed

theorem lift_spec (r : Except Error α) :
    Yields (lift r : StoreM σ α) s (fun a s' => s = s' ∧ r = .ok a) (fun _ s' => s = s') := by
  cases r with
  | ok a => exact .of_ok rfl ⟨rfl, rfl⟩
  | error e => exact .of_error rfl rfl

/-- Going on behind a check that leaves the store alone. -/
theorem typedAfter_lift {β : Type} {r : Except Error α} {k : α → StoreM σ β} (hs : s.Typed)
    (h : ∀ a, r = .ok a → TypedAfter (k a) s) : TypedAfter (lift r >>= k) s := by
  refine .bind ((lift_spec r).imp (fun _ _ h => h) fun _ _ h => h ▸ hs) ?_
  rintro a _ ⟨rfl, ha⟩
  exact h a ha

theorem typedAfter_onMemory {ε : Type} {addr : Nat} {missing : Error} {toError : ε → Error}
    {act : EStateM ε Memory α} (hs : s.Typed) (h : Keeps Memory.Grows act) :
    TypedAfter (onMemory addr missing toError act) s := by
  cases he : s.memories[addr]? with
  | none => exact .of_error (onMemory_none he) hs
  | some e =>
    have hm := h e.memory
    unfold TypedAfter Yields
    rw [onMemory_some he]
    cases hr : act e.memory <;> rw [hr] at hm <;> exact typed_setMemory hs he hm

theorem typedAfter_onTable {ε : Type} {addr : Nat} {missing : Error} {toError : ε → Error}
    {act : EStateM ε Table α} (hs : s.Typed) (h : Keeps Table.Grows act)
    (hall : ∀ t, s.tables[addr]? = some t → Table.KeepsAll (s.Fits (.ref t.element)) act) :
    TypedAfter (onTable addr missing toError act) s := by
  cases he : s.tables[addr]? with
  | none => exact .of_error (onTable_none he) hs
  | some t =>
    have ht := h t
    have hc := hall t he t fun c hc => hs.tables t (Array.mem_of_getElem? he) c hc
    unfold TypedAfter Yields
    rw [onTable_some he]
    cases hr : act t <;> rw [hr] at ht hc <;> exact typed_setTableAt hs he ht hc

/-! ### Requests -/

theorem typed_newMemory (hs : s.Typed) (limits : Limits) : TypedAfter (newMemory limits) s := by
  refine .of_get ?_
  split
  · exact .of_error rfl hs
  · exact .of_ok rfl (hs.of_quiet (keeps_addMemory _ s) rfl rfl rfl)

theorem typed_newTable (hs : s.Typed) (type : TableType) (init : Value) :
    TypedAfter (newTable type init) s := by
  refine .of_get (typedAfter_lift hs fun c hc => ?_)
  unfold Table.allocate
  by_cases hbig : maxTableElements < type.limits.min
  · rw [if_pos hbig]
    exact .of_error rfl hs
  · rw [if_neg hbig]
    refine .of_ok rfl ?_
    have hext := (keeps_addTable ⟨type.element, type.limits.max, Array.replicate type.limits.min c⟩ s).toExtends
    refine hs.extend hext (fun _ => .inl) (fun t ht => ?_) (fun _ => .inl) fun _ => .inl
    refine (Array.mem_push.mp ht).imp (fun h => h) fun ht d hd => ?_
    subst ht
    rw [(Array.mem_replicate.mp hd).2]
    exact (fits_of_toCell hc).mono hext

theorem typed_newGlobal (hs : s.Typed) (type : GlobalType) (init : Value) :
    TypedAfter (newGlobal type init) s := by
  refine .of_get (typedAfter_lift hs fun c hc => .of_ok rfl ?_)
  have hext := (keeps_addGlobal ⟨type, c⟩ s).toExtends
  refine hs.extend hext (fun _ => .inl) (fun _ => .inl) (fun g hg => ?_) fun _ => .inl
  refine (Array.mem_push.mp hg).imp (fun h => h) fun hg => ?_
  subst hg
  exact (fits_of_toCell hc).mono hext

theorem cellForTable_spec (h : Handle .table) (v : Value) :
    Yields (cellForTable h v) s
      (fun c s' => s = s' ∧ ∀ t, s.tables[h.index]? = some t → s.Fits (.ref t.element) c)
      (fun _ s' => s = s') := by
  refine .of_get (.bind (lift_spec _) ?_)
  rintro t _ ⟨rfl, ht⟩
  refine (lift_spec _).mono ?_
  rintro c _ ⟨rfl, hc⟩
  refine ⟨rfl, fun t' ht' => ?_⟩
  obtain rfl : t = t' := Option.some.inj ((resolve_eq_ok ht).symm.trans ht')
  exact fits_of_toCell hc

theorem typed_setTable (hs : s.Typed) (h : Handle .table) (index : Nat) (v : Value) :
    TypedAfter (setTable h index v) s := by
  refine .bind ((cellForTable_spec h v).imp (fun _ _ h => h) fun _ _ h => h ▸ hs) ?_
  rintro c _ ⟨rfl, hc⟩
  exact typedAfter_onTable hs (Table.keeps_set _ _) fun t ht => Table.keepsAll_set _ (hc t ht)

theorem typed_growTable (hs : s.Typed) (h : Handle .table) (delta : Nat) (init : Value) :
    TypedAfter (growTable h delta init) s := by
  refine .bind ((cellForTable_spec h init).imp (fun _ _ h => h) fun _ _ h => h ▸ hs) ?_
  rintro c _ ⟨rfl, hc⟩
  refine .bind (typedAfter_onTable hs (Table.keeps_grow _ _) fun t ht =>
    Table.keepsAll_grow _ (hc t ht)) fun n s' hs' => ?_
  split
  · exact .of_ok rfl hs'
  · exact .of_error rfl hs'

theorem typed_setGlobal (hs : s.Typed) (h : Handle .global) (v : Value) :
    TypedAfter (setGlobal h v) s := by
  refine .of_get (typedAfter_lift hs fun g hg => ?_)
  split
  · refine typedAfter_lift hs fun c hc => .of_ok rfl (typed_setGlobalCell hs fun g' hg' => ?_)
    obtain rfl : g = g' := Option.some.inj ((resolve_eq_ok hg).symm.trans hg')
    exact fits_of_toCell hc
  · exact .of_error rfl hs

/-- What leaves tables, globals and instances alone keeps types. -/
theorem typedAfter_of_quiet {act : StoreM σ α} (hs : s.Typed) (h : Keeps Quiet act)
    (same : (endState (act s)).tables = s.tables ∧ (endState (act s)).globals = s.globals ∧
      (endState (act s)).instances = s.instances) : TypedAfter act s := by
  have hend := hs.of_quiet (h s) same.1 same.2.1 same.2.2
  unfold TypedAfter Yields
  cases hr : act s <;> rw [hr] at hend <;> exact hend

theorem typed_changeFuel (hs : s.Typed) (change : Nat → Nat) : TypedAfter (changeFuel change) s := by
  refine .of_get ?_
  split
  · exact .of_ok rfl (hs.of_quiet (.of_entities rfl rfl rfl rfl rfl rfl rfl rfl) rfl rfl rfl)
  · exact .of_error rfl hs

/-- **Requests keep types.** -/
theorem typed_perform (hs : s.Typed) : ∀ r : StoreRequest, TypedAfter (perform r) s
  | .newMemory limits => typed_newMemory hs limits
  | .newTable type init => typed_newTable hs type init
  | .newGlobal type init => typed_newGlobal hs type init
  | .newExternref object => typedAfter_of_quiet hs (keeps_newExternref object) ⟨rfl, rfl, rfl⟩
  | .readMemory .. => .of_get <| typedAfter_lift hs fun _ _ => by
    split
    · exact .of_ok rfl hs
    · exact .of_error rfl hs
  | .writeMemory .. => .of_get <| typedAfter_lift hs fun _ _ =>
    typedAfter_onMemory hs (Memory.keeps_write _ _)
  | .pokeMemory .. => .of_get <| typedAfter_lift hs fun _ _ =>
    typedAfter_onMemory hs fun m => m.grows_poke _ _
  | .growMemory .. => .of_get <| typedAfter_lift hs fun _ _ =>
    typedAfter_onMemory hs (Memory.keeps_grow _)
  | .getTable .. | .getGlobal _ => .of_get <| typedAfter_lift hs fun _ _ => .of_ok rfl hs
  | .setTable h index v => typed_setTable hs h index v
  | .growTable h delta init => typed_growTable hs h delta init
  | .setGlobal h v => typed_setGlobal hs h v
  | .setFuel _ | .addFuel _ => typed_changeFuel hs _
  | .resetStats | .interrupt | .resetInterrupt =>
    .of_ok rfl (hs.of_quiet (.of_entities rfl rfl rfl rfl rfl rfl rfl rfl) rfl rfl rfl)
  | .externType _ => .of_get <| (lift_spec _).imp (fun _ _ h => h.1 ▸ hs) fun _ _ h => h ▸ hs
  | .exported .. | .moduleName _ | .funcOfValue _ => .of_get (.of_ok rfl hs)

end Store

end WasmEngine
