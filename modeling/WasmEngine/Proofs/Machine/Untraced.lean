import WasmEngine.Proofs.Machine.Linking

/-!
# Errors without a stack trace

Stack traces are for running code. What looks handles and values up fails without a trap (`Trapless`), and what works on
a store may trap, but knows nothing of the frames around it: no request (`Store.never_perform`) and no instantiation
(`Store.never_instantiate`) fails with an error that has a stack trace, up to where the start function runs.
-/

namespace WasmEngine

open Error

variable {σ α β : Type}

/-! ### Without a trap -/

/-- **A computation does not trap**: if it fails, then by a fault. -/
def Trapless (x : Except Error α) : Prop := Spares (fun e => e.trap?.isSome = true) x

namespace Trapless

theorem ok (a : α) : Trapless (.ok a : Except Error α) := Spares.ok a

theorem fault (f : Fault) : Trapless (.error (.ofFault f) : Except Error α) := Spares.error nofun

theorem bind {x : Except Error α} {k : α → Except Error β} (hx : Trapless x) (hk : ∀ a, Trapless (k a)) :
    Trapless (x >>= k) := Spares.bind hx hk

theorem forM {f : α → Except Error Unit} (hf : ∀ a, Trapless (f a)) (l : List α) : Trapless (l.forM f) :=
  Spares.forM hf l

end Trapless

theorem Error.not_traced_of_trap? {e : Error} (h : ¬e.trap?.isSome = true) : ¬e.Traced := by
  cases e with
  | failure => nofun
  | trap => exact absurd rfl h

namespace Store

theorem trapless_checkId (s : Store σ) (id : Nat) : Trapless (s.checkId id) := by
  unfold checkId
  split
  · exact .ok ()
  · exact .fault _

theorem trapless_resolve (s : Store σ) (id index : Nat) (entries : Array α) : Trapless (s.resolve id index entries) :=
  .bind (s.trapless_checkId id) fun _ => by
    split
    · exact .ok _
    · exact .fault _

theorem trapless_memory (s : Store σ) (h : Handle .memory) : Trapless (s.memory h) :=
  .bind (s.trapless_resolve _ _ _) fun _ => .ok _

theorem trapless_externType (s : Store σ) (e : Extern) : Trapless (s.externType e) := by
  cases e with
  | func | table | global => exact .bind (s.trapless_resolve _ _ _) fun _ => .ok _
  | memory h => exact .bind (s.trapless_memory h) fun _ => .ok _

theorem trapless_toCell (s : Store σ) (v : Value) (type : ValueType) : Trapless (s.toCell v type) := by
  unfold toCell
  split
  · exact .fault _
  · split
    · exact .ok _
    · exact .fault _

theorem trapless_checkImport (s : Store σ) (m : Module) (i : Import) (e : Extern) : Trapless (s.checkImport m i e) := by
  refine .bind (s.trapless_checkId _) fun _ => ?_
  split
  · exact .fault _
  · refine .bind (s.trapless_externType e) fun _ => ?_
    split
    · exact .ok ()
    · exact .fault _

theorem trapless_checkImports (s : Store σ) (m : Module) (entities : List Extern) :
    Trapless (s.checkImports m entities) := by
  unfold checkImports
  split
  · exact .fault _
  · exact .forM (fun _ => s.trapless_checkImport m _ _) _

end Store

theorem Machine.trapless_checkCall (s : Store σ) (h : Handle .func) (args : List Value) :
    Trapless (checkCall s h args) := by
  refine .bind (s.trapless_resolve _ _ _) fun _ => ?_
  dsimp only
  split
  · exact .fault _
  · exact .forM (fun _ => .bind (s.trapless_toCell _ _) fun _ => .ok ()) _

/-! ### Without a stack trace -/

namespace Store

theorem never_lift {x : Except Error α} (h : Trapless x) : Never Traced (lift x : StoreM σ α) := by
  cases x with
  | ok a => exact .pure a
  | error e => exact .throw (not_traced_of_trap? (h e rfl))

theorem never_throw (f : Fault) : Never Traced (throw (.ofFault f) : StoreM σ α) := .throw (not_traced_ofFault f)

theorem never_newMemory (limits : Limits) : Never Traced (newMemory limits : StoreM σ _) :=
  .getBind fun _ => by
    split
    · exact never_throw _
    · exact .bind (.modifyGet _) fun _ => .pure _

theorem never_newTable (type : TableType) (init : Value) : Never Traced (newTable type init : StoreM σ _) :=
  .getBind fun s => .bind (never_lift (s.trapless_toCell _ _)) fun _ => by
    split
    · exact never_throw _
    · exact .bind (.modifyGet _) fun _ => .pure _

theorem never_newGlobal (type : GlobalType) (init : Value) : Never Traced (newGlobal type init : StoreM σ _) :=
  .getBind fun s => .bind (never_lift (s.trapless_toCell _ _)) fun _ => .bind (.modifyGet _) fun _ => .pure _

theorem never_newFunc (f : HostFunc σ) : Never Traced (newFunc f) :=
  .getBind fun _ => .bind (.modifyGet _) fun _ => .pure _

theorem never_readMemory (h : Handle .memory) (start length : Nat) :
    Never Traced (readMemory h start length : StoreM σ _) :=
  .getBind fun s => .bind (never_lift (s.trapless_memory h)) fun _ => by
    split
    · exact .pure _
    · exact .throw (not_traced_ofCode _)

theorem never_writeMemory (h : Handle .memory) (start : Nat) (bytes : ByteArray) :
    Never Traced (writeMemory h start bytes : StoreM σ _) :=
  .getBind fun s => .bind (never_lift (s.trapless_checkId _)) fun _ =>
    never_onMemory (not_traced_ofFault _) (.of_forall not_traced_ofCode)

theorem never_cellForTable (h : Handle .table) (v : Value) : Never Traced (cellForTable h v : StoreM σ _) :=
  .getBind fun s => .bind (never_lift (s.trapless_resolve _ _ _)) fun _ => never_lift (s.trapless_toCell _ _)

theorem never_growTable (h : Handle .table) (delta : Nat) (init : Value) :
    Never Traced (growTable h delta init : StoreM σ _) :=
  .bind (never_cellForTable h init) fun _ =>
    .bind (never_onTable (not_traced_ofFault _) (.of_forall not_traced_ofCode)) fun _ => by
      split
      · exact .pure _
      · exact never_throw _

theorem never_setGlobal (h : Handle .global) (v : Value) : Never Traced (setGlobal h v : StoreM σ _) :=
  .getBind fun s => .bind (never_lift (s.trapless_resolve _ _ _)) fun _ => by
    split
    · exact .bind (never_lift (s.trapless_toCell _ _)) fun _ => .modify _
    · exact never_throw _

theorem never_changeFuel (change : Nat → Nat) : Never Traced (changeFuel change : StoreM σ _) :=
  .getBind fun _ => by
    split
    · exact .modify _
    · exact never_throw _

/-- **No request fails with an error that has a stack trace.** -/
theorem never_perform (r : StoreRequest) : Never Traced (perform r : StoreM σ r.Result) := by
  cases r with
  | newMemory limits => exact never_newMemory limits
  | newTable type init => exact never_newTable type init
  | newGlobal type init => exact never_newGlobal type init
  | newExternref => exact .modifyGet _
  | readMemory h start length => exact never_readMemory h start length
  | writeMemory h start bytes => exact never_writeMemory h start bytes
  | pokeMemory h start byte =>
    exact .getBind fun s => .bind (never_lift (s.trapless_checkId _)) fun _ =>
      never_onMemory (not_traced_ofFault _) (.of_forall not_traced_ofCode)
  | growMemory h delta =>
    exact .getBind fun s => .bind (never_lift (s.trapless_checkId _)) fun _ =>
      never_onMemory (not_traced_ofFault _) (.of_forall fun _ => not_traced_ofFault _)
  | getTable => exact .getBind fun s => .bind (never_lift (s.trapless_resolve _ _ _)) fun _ => .pure _
  | setTable h index v =>
    exact .bind (never_cellForTable h v) fun _ => never_onTable (not_traced_ofFault _) (.of_forall not_traced_ofCode)
  | growTable h delta init => exact never_growTable h delta init
  | getGlobal => exact .getBind fun s => .map (never_lift (s.trapless_resolve _ _ _))
  | setGlobal h v => exact never_setGlobal h v
  | setFuel | addFuel => exact never_changeFuel _
  | resetStats | interrupt | resetInterrupt => exact .modify _
  | externType e => exact .getBind fun s => never_lift (s.trapless_externType e)
  | exported | moduleName | funcOfValue => exact .getBind fun _ => .pure _

theorem never_claimMemory (place addr : Nat) : Never Traced (claimMemory place addr : StoreM σ Unit) :=
  .getBind fun _ => by
    split
    · exact never_throw _
    · split
      · exact never_throw _
      · exact .modify _

/-- **No instantiation fails with an error that has a stack trace**, before its start function runs. -/
theorem never_instantiate (m : Module) (entities : List Extern) :
    Never Traced (instantiate m entities : StoreM σ (Option Nat)) := by
  intro s e s' h
  obtain ⟨rest, hinstantiate, hrest⟩ := instantiate_eq m entities s
  obtain ⟨behind, hmake, hbehind⟩ := makeInstance_eq (σ := σ) m entities s.instances.size
  have hforeign {e : Error} (he : e.Traced) : e.Foreign := .inr (.inl he)
  have hbuild : Never Traced (makeInstance m entities s.instances.size >>= fun _ => rest) := by
    rw [hmake]
    exact .bind (.bind (.forM _ fun _ _ => never_claimMemory _ _) fun _ => hbehind.mono fun _ => hforeign) fun _ =>
      hrest.mono fun _ => hforeign
  rw [hinstantiate] at h
  split at h
  · next hcheck =>
    cases h
    exact not_traced_of_trap? (s.trapless_checkImports m entities _ hcheck)
  · split at h
    · nomatch h
    · next hb =>
      cases h
      exact hbuild _ _ _ hb

end Store

end WasmEngine
