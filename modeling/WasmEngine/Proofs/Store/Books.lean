import WasmEngine.Proofs.Commutes
import WasmEngine.Proofs.Store.Requests

/-!
# The books of a store

A store keeps books beside its entities: fuel, the interrupt flag, the counters, and the depth of calls. Whatever
makes, reads or writes entities does not notice a change of the books (`Store.rebook`): it commutes with every one of
them. Requests that are about the books themselves are set apart (`StoreRequest.onBooks`), and so is running code,
which is charged for.
-/

namespace WasmEngine

/-- What a store keeps account of, apart from its entities. -/
structure Books where
  consumeFuel : Bool
  fuel : Option Nat
  interrupted : Bool
  stats : Stats
  depth : Nat

/-- The requests that are about the books. -/
def StoreRequest.onBooks : StoreRequest → Bool
  | setFuel _ | addFuel _ | resetStats | interrupt | resetInterrupt => true
  | _ => false

namespace Store

variable {σ α ε : Type}

/-- The books of a store. -/
def books (s : Store σ) : Books := ⟨s.config.consumeFuel, s.fuel, s.interrupted, s.stats, s.depth⟩

/-- A store with other books. -/
def withBooks (s : Store σ) (b : Books) : Store σ :=
  { s with
    config.consumeFuel := b.consumeFuel
    fuel := b.fuel
    interrupted := b.interrupted
    stats := b.stats
    depth := b.depth }

/-- Change the books of a store. -/
def rebook (h : Books → Books) (s : Store σ) : Store σ := s.withBooks (h s.books)

variable {h : Books → Books}

@[simp] theorem books_rebook (s : Store σ) : (s.rebook h).books = h s.books := rfl

theorem rebook_books (s : Store σ) : s.rebook (fun _ => s.books) = s := rfl

/-- **What commutes with all changes of the books leaves them as they are.** -/
theorem books_of_commutes {act : StoreM σ α} (hact : ∀ h, Commutes (rebook h) act) (s : Store σ) :
    (endState (act s)).books = s.books := by
  have hend := (hact fun _ => s.books).endState_eq s
  rw [s.rebook_books] at hend
  rw [hend]
  rfl

/-! ### Changing entities -/

theorem commutes_lift : ∀ r : Except Error α, Commutes (rebook h) (lift r : StoreM σ α)
  | .ok a => .pure a
  | .error e => .throw e

theorem commutes_outside : ∀ o : Option α, Commutes (rebook h) (outside o : StoreM σ α)
  | some a => .pure a
  | none => .throw _

theorem commutes_addFunc (f : FuncEntity σ) : Commutes (rebook h) (addFunc f) := .modifyGet fun _ => rfl

theorem commutes_addMemory (m : Memory) (owner : Option Nat) :
    Commutes (rebook h) (addMemory m owner : StoreM σ Nat) := .modifyGet fun _ => rfl

theorem commutes_addTable (t : Table) : Commutes (rebook h) (addTable t : StoreM σ Nat) := .modifyGet fun _ => rfl

theorem commutes_addGlobal (g : Global) : Commutes (rebook h) (addGlobal g : StoreM σ Nat) := .modifyGet fun _ => rfl

theorem commutes_onMemory {addr : Nat} {missing : Error} {toError : ε → Error} (act : EStateM ε Memory α) :
    Commutes (rebook h) (onMemory addr missing toError act : StoreM σ α) := by
  intro s
  have hs : (s.rebook h).memories = s.memories := rfl
  cases he : s.memories[addr]? with
  | none =>
    rw [onMemory_none he, onMemory_none (hs ▸ he)]
    rfl
  | some e =>
    rw [onMemory_some he, onMemory_some (hs ▸ he)]
    cases act e.memory <;> rfl

theorem commutes_onTable {addr : Nat} {missing : Error} {toError : ε → Error} (act : EStateM ε Table α) :
    Commutes (rebook h) (onTable addr missing toError act : StoreM σ α) := by
  intro s
  have hs : (s.rebook h).tables = s.tables := rfl
  cases he : s.tables[addr]? with
  | none =>
    rw [onTable_none he, onTable_none (hs ▸ he)]
    rfl
  | some t =>
    rw [onTable_some he, onTable_some (hs ▸ he)]
    cases act t <;> rfl

/-! ### Requests -/

theorem commutes_newMemory (limits : Limits) : Commutes (rebook h) (newMemory limits : StoreM σ _) := by
  refine .getBind (fun _ => rfl) fun s => ?_
  split
  · exact .throw _
  · exact .bind (commutes_addMemory _ _) fun _ => .pure _

theorem commutes_newTable (type : TableType) (init : Value) :
    Commutes (rebook h) (newTable type init : StoreM σ _) := by
  refine .getBind (fun _ => rfl) fun s => .bind (commutes_lift _) fun c => ?_
  split
  · exact .throw _
  · exact .bind (commutes_addTable _) fun _ => .pure _

theorem commutes_newGlobal (type : GlobalType) (init : Value) :
    Commutes (rebook h) (newGlobal type init : StoreM σ _) :=
  .getBind (fun _ => rfl) fun _ => .bind (commutes_lift _) fun _ => .bind (commutes_addGlobal _) fun _ => .pure _

theorem commutes_newFunc (f : HostFunc σ) : Commutes (rebook h) (newFunc f) :=
  .getBind (fun _ => rfl) fun _ => .bind (commutes_addFunc _) fun _ => .pure _

theorem commutes_readMemory (m : Handle .memory) (start length : Nat) :
    Commutes (rebook h) (readMemory m start length : StoreM σ _) := by
  refine .getBind (fun _ => rfl) fun s => .bind (commutes_lift _) fun m => ?_
  split
  · exact .pure _
  · exact .throw _

theorem commutes_writeMemory (m : Handle .memory) (start : Nat) (bytes : ByteArray) :
    Commutes (rebook h) (writeMemory m start bytes : StoreM σ _) :=
  .getBind (fun _ => rfl) fun _ => .bind (commutes_lift _) fun _ => commutes_onMemory _

theorem commutes_cellForTable (t : Handle .table) (v : Value) :
    Commutes (rebook h) (cellForTable t v : StoreM σ _) :=
  .getBind (fun _ => rfl) fun _ => .bind (commutes_lift _) fun _ => commutes_lift _

theorem commutes_growTable (t : Handle .table) (delta : Nat) (init : Value) :
    Commutes (rebook h) (growTable t delta init : StoreM σ _) := by
  refine .bind (commutes_cellForTable t init) fun c => .bind (commutes_onTable _) fun n => ?_
  split
  · exact .pure _
  · exact .throw _

theorem commutes_setGlobal (g : Handle .global) (v : Value) :
    Commutes (rebook h) (setGlobal g v : StoreM σ _) := by
  refine .getBind (fun _ => rfl) fun s => .bind (commutes_lift _) fun g => .ite ?_ (.throw _)
  exact .bind (commutes_lift _) fun c => .modify fun _ => rfl

/-- **Requests about entities do not notice the books.** -/
theorem commutes_perform : ∀ r : StoreRequest, r.onBooks = false → Commutes (rebook h) (perform r : StoreM σ r.Result)
  | .newMemory limits, _ => commutes_newMemory limits
  | .newTable type init, _ => commutes_newTable type init
  | .newGlobal type init, _ => commutes_newGlobal type init
  | .newExternref _, _ => .modifyGet fun _ => rfl
  | .readMemory m start length, _ => commutes_readMemory m start length
  | .writeMemory m start bytes, _ => commutes_writeMemory m start bytes
  | .pokeMemory .., _ => .getBind (fun _ => rfl) fun _ => .bind (commutes_lift _) fun _ => commutes_onMemory _
  | .growMemory .., _ => .getBind (fun _ => rfl) fun _ => .bind (commutes_lift _) fun _ => commutes_onMemory _
  | .getTable .., _ => .getBind (fun _ => rfl) fun _ => .bind (commutes_lift _) fun _ => .pure _
  | .setTable t _ v, _ => .bind (commutes_cellForTable t v) fun _ => commutes_onTable _
  | .growTable t delta init, _ => commutes_growTable t delta init
  | .getGlobal _, _ => .getBind (fun _ => rfl) fun _ => .bind (commutes_lift _) fun _ => .pure _
  | .setGlobal g v, _ => commutes_setGlobal g v
  | .externType _, _ => .getBind (fun _ => rfl) fun _ => commutes_lift _
  | .exported .., _ => .getBind (fun _ => rfl) fun _ => .pure _
  | .moduleName _, _ => .getBind (fun _ => rfl) fun _ => .pure _
  | .funcOfValue _, _ => .getBind (fun _ => rfl) fun _ => .pure _

/-! ### Instantiation -/

theorem commutes_constCell (funcs globals : Array Nat) (e : ConstExpr) :
    Commutes (rebook h) (constCell funcs globals e : StoreM σ Cell) :=
  .getBind (fun _ => rfl) fun _ => commutes_outside _

theorem commutes_claimMemory (place addr : Nat) : Commutes (rebook h) (claimMemory place addr : StoreM σ Unit) := by
  refine .getBind (fun _ => rfl) fun s => ?_
  split
  · exact .throw _
  · split
    · exact .throw _
    · exact .modify fun _ => rfl

theorem commutes_makeFuncs (m : Module) (place imported : Nat) :
    Commutes (rebook h) (makeFuncs m place imported : StoreM σ _) :=
  .mapM _ fun _ _ => .bind (commutes_outside _) fun _ => commutes_addFunc _

theorem commutes_makeTables (m : Module) : Commutes (rebook h) (makeTables m : StoreM σ _) := by
  refine .mapM _ fun type _ => ?_
  split
  · exact commutes_addTable _
  · exact .throw _

theorem commutes_makeMemories (m : Module) (place : Nat) :
    Commutes (rebook h) (makeMemories m place : StoreM σ _) := by
  refine .getBind (fun _ => rfl) fun s => .mapM _ fun limits _ => ?_
  split
  · exact commutes_addMemory _ _
  · exact .throw _

theorem commutes_makeGlobals (funcs : Array Nat) : ∀ (defs : List GlobalDef) (globals : Array Nat),
    Commutes (rebook h) (makeGlobals funcs defs globals : StoreM σ _)
  | [], _ => .pure _
  | _ :: defs, _ => .bind (commutes_constCell _ _ _) fun _ => .bind (commutes_addGlobal _) fun _ =>
      commutes_makeGlobals funcs defs _

theorem commutes_makeInstance (m : Module) (entities : List Extern) (place : Nat) :
    Commutes (rebook h) (makeInstance m entities place : StoreM σ Unit) :=
  .bind (.forM _ fun addr _ => commutes_claimMemory place addr) fun _ =>
  .bind (commutes_makeFuncs _ _ _) fun _ =>
  .bind (commutes_makeTables _) fun _ =>
  .bind (commutes_makeMemories _ _) fun _ =>
  .bind (commutes_makeGlobals _ _ _) fun _ =>
  .bind (.mapM _ fun _ _ => .map (.mapM _ fun _ _ => commutes_constCell _ _ _)) fun _ =>
  .getBind (fun _ => rfl) fun _ =>
  .bind (.mapM _ fun _ _ => commutes_outside _) fun _ =>
  .modify fun _ => rfl

theorem commutes_instanceAt (place : Nat) : Commutes (rebook h) (instanceAt place : StoreM σ _) :=
  .getBind (fun _ => rfl) fun _ => commutes_outside _

theorem commutes_applyElement (place : Nat) (segment : ElementSegment) (index : Nat) :
    Commutes (rebook h) (applyElement place segment index : StoreM σ Unit) := by
  unfold applyElement
  split
  · exact .pure _
  · exact .modify fun _ => rfl
  · exact .bind (commutes_instanceAt place) fun _ => .bind (commutes_outside _) fun _ =>
      .bind (commutes_outside _) fun _ => .bind (commutes_constCell _ _ _) fun _ =>
      .bind (commutes_onTable _) fun _ => .modify fun _ => rfl

theorem commutes_applyData (place : Nat) (segment : DataSegment) (index : Nat) :
    Commutes (rebook h) (applyData place segment index : StoreM σ Unit) := by
  unfold applyData
  split
  · exact .pure _
  · exact .bind (commutes_instanceAt place) fun _ => .bind (commutes_outside _) fun _ =>
      .bind (commutes_constCell _ _ _) fun _ => .bind (commutes_onMemory _) fun _ => .modify fun _ => rfl

theorem commutes_applySegments (m : Module) (place : Nat) :
    Commutes (rebook h) (applySegments m place : StoreM σ Unit) :=
  .bind (.forM _ fun _ _ => commutes_applyElement _ _ _) fun _ => .forM _ fun _ _ => commutes_applyData _ _ _

/-- **Instantiations do not notice the books.** -/
theorem commutes_instantiate (m : Module) (entities : List Extern) :
    Commutes (rebook h) (instantiate m entities : StoreM σ _) := by
  intro s
  have hcheck : (s.rebook h).checkImports m entities = s.checkImports m entities := rfl
  have hsize : (s.rebook h).instances.size = s.instances.size := rfl
  unfold instantiate
  dsimp only
  rw [hcheck, hsize]
  split
  · rfl
  generalize hbuild : (makeInstance m entities s.instances.size >>= fun _ => _) = build
  have hcommutes : Commutes (rebook h) build := by
    rw [← hbuild]
    refine .bind (commutes_makeInstance _ _ _) fun _ => .bind (commutes_applySegments _ _) fun _ => ?_
    split
    · exact .pure _
    · exact .bind (commutes_instanceAt _) fun _ => .bind (commutes_outside _) fun _ => .pure _
  rw [hcommutes s]
  cases build s <;> rfl

end Store

end WasmEngine
