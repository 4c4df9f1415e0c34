import WasmEngine.Proofs.Memory.Growth
import WasmEngine.Proofs.Store.Instantiate
import WasmEngine.Proofs.Table.Growth

/-!
# How a store evolves

Requests and instantiations do many things, but what they do to the functions, memories and tables of a store comes
down to few changes (`Store.Alters`): an operation on a memory or a table, a memory or a table or a function of a
module that is made, or a memory that gets another owner. Both go from one such change to the next, however far they
get (`Store.Evolves`). So whatever each of the changes keeps is kept by everything that is asked of a store.
-/

namespace WasmEngine

namespace Store

variable {σ α ε : Type} {cap : Nat} {s s' : Store σ}

/-- **A single change** of a store with a cap for its memories. -/
inductive Alters (cap : Nat) (s : Store σ) : Store σ → Prop
  | memory {addr : Nat} {e : MemoryEntry} (op : Memory.Operation) : s.memories[addr]? = some e →
    Alters cap s (s.setMemory addr (op.after e.memory))
  | table {addr : Nat} {t : Table} (op : Table.Operation) : s.tables[addr]? = some t →
    Alters cap s (s.setTableAt addr (op.after t))
  | newMemory {l : Limits} {m : Memory} (owner : Option Nat) : Memory.allocate l cap = .ok m →
    Alters cap s { s with memories := s.memories.push ⟨m, owner⟩ }
  | newTable {type : TableType} {c : Cell} {t : Table} : Table.allocate type c = .ok t →
    Alters cap s { s with tables := s.tables.push t }
  | newFunc (f : WasmFunc) : Alters cap s { s with funcs := s.funcs.push (.wasm f) }
  | owners (memories : Array MemoryEntry) : memories.map (·.memory) = s.memories.map (·.memory) →
    Alters cap s { s with memories }
  | beside {s' : Store σ} : s'.config.maxMemoryPages = s.config.maxMemoryPages → s'.funcs = s.funcs →
    s'.memories = s.memories → s'.tables = s.tables → Alters cap s s'

theorem Alters.cap_eq (h : s.Alters cap s') : s'.config.maxMemoryPages = s.config.maxMemoryPages := by
  cases h with
  | beside hconfig => exact hconfig
  | _ => rfl

/-- **A store goes from change to change**, if the cap is its own. -/
def Evolves (cap : Nat) (s s' : Store σ) : Prop :=
  s.config.maxMemoryPages = cap → Relation.ReflTransGen (Alters cap) s s'

namespace Evolves

theorem of_alters (h : s.Alters cap s') : s.Evolves cap s' := fun _ => .single h

/-- Whatever is about none of functions, memories and tables. -/
theorem of_eq (hconfig : s'.config.maxMemoryPages = s.config.maxMemoryPages) (hfuncs : s'.funcs = s.funcs)
    (hmemories : s'.memories = s.memories) (htables : s'.tables = s.tables) : s.Evolves cap s' :=
  .of_alters (.beside hconfig hfuncs hmemories htables)

/-- **What every change keeps** is kept while a store evolves. -/
theorem keeps {P : Store σ → Prop} (h : s.Evolves cap s') (hcap : s.config.maxMemoryPages = cap)
    (hP : ∀ {s s' : Store σ}, s.Alters cap s' → P s → P s') (hs : P s) : P s' := by
  have hchanges := h hcap
  clear h
  induction hchanges with
  | refl => exact hs
  | tail _ halters ih => exact hP halters ih

theorem cap_eq (h : s.Evolves cap s') (hcap : s.config.maxMemoryPages = cap) : s'.config.maxMemoryPages = cap :=
  h.keeps (P := (·.config.maxMemoryPages = cap)) hcap (fun halters hs => halters.cap_eq.trans hs) hcap

end Evolves

instance : IsPreorder (Store σ) (Evolves cap) where
  refl _ _ := .refl
  trans _ _ _ h h' hcap := (h hcap).trans (h' (h.cap_eq hcap))

/-- Looking at a store, of which the cap is known. -/
theorem evolves_getBind {k : Store σ → StoreM σ α} (h : ∀ s : Store σ, s.config.maxMemoryPages = cap →
    Keeps (Evolves cap) (k s)) : Keeps (Evolves cap) (MonadState.get >>= k) :=
  fun s hcap => h s hcap s hcap

/-! ### Parts of operations -/

theorem evolves_lift : ∀ r : Except Error α, Keeps (Evolves cap) (lift r : StoreM σ α)
  | .ok a => .pure a
  | .error e => .throw e

theorem evolves_addMemory {l : Limits} {m : Memory} (hm : Memory.allocate l cap = .ok m) (owner : Option Nat) :
    Keeps (Evolves cap) (addMemory m owner : StoreM σ Nat) :=
  .modifyGet fun _ => .of_alters (.newMemory owner hm)

theorem evolves_addTable {type : TableType} {c : Cell} {t : Table} (ht : Table.allocate type c = .ok t) :
    Keeps (Evolves cap) (addTable t : StoreM σ Nat) :=
  .modifyGet fun _ => .of_alters (.newTable ht)

theorem evolves_onMemory {addr : Nat} {missing : Error} {toError : ε → Error} {act : EStateM ε Memory α}
    (op : Memory.Operation) (hop : ∀ m, op.after m = endState (act m)) :
    Keeps (Evolves cap) (onMemory addr missing toError act : StoreM σ α) := by
  intro s
  cases he : s.memories[addr]? with
  | none =>
    rw [onMemory_none he]
    exact refl_of _ s
  | some e =>
    have hafter := hop e.memory
    have hevolves : Evolves cap s (s.setMemory addr (op.after e.memory)) := .of_alters (.memory op he)
    rw [hafter] at hevolves
    rw [onMemory_some he]
    cases hm : act e.memory <;> rw [hm] at hevolves <;> exact hevolves

theorem evolves_onTable {addr : Nat} {missing : Error} {toError : ε → Error} {act : EStateM ε Table α}
    (op : Table.Operation) (hop : ∀ t, op.after t = endState (act t)) :
    Keeps (Evolves cap) (onTable addr missing toError act : StoreM σ α) := by
  intro s
  cases ht : s.tables[addr]? with
  | none =>
    rw [onTable_none ht]
    exact refl_of _ s
  | some t =>
    have hafter := hop t
    have hevolves : Evolves cap s (s.setTableAt addr (op.after t)) := .of_alters (.table op ht)
    rw [hafter] at hevolves
    rw [onTable_some ht]
    cases hm : act t <;> rw [hm] at hevolves <;> exact hevolves

/-! ### Requests -/

theorem evolves_newMemory (limits : Limits) : Keeps (Evolves cap) (newMemory limits : StoreM σ _) := by
  refine evolves_getBind fun s hcap => ?_
  split
  · exact .throw _
  · next m hm => exact .bind (evolves_addMemory (hcap ▸ hm) none) fun _ => .pure _

theorem evolves_newTable (type : TableType) (init : Value) :
    Keeps (Evolves cap) (newTable type init : StoreM σ _) := by
  refine .getBind fun s => .bind (evolves_lift _) fun c => ?_
  split
  · exact .throw _
  · next t ht => exact .bind (evolves_addTable ht) fun _ => .pure _

theorem evolves_readMemory (h : Handle .memory) (start length : Nat) :
    Keeps (Evolves cap) (readMemory h start length : StoreM σ _) := by
  refine .getBind fun s => .bind (evolves_lift _) fun m => ?_
  split
  · exact .pure _
  · exact .throw _

theorem evolves_writeMemory (h : Handle .memory) (start : Nat) (bytes : ByteArray) :
    Keeps (Evolves cap) (writeMemory h start bytes : StoreM σ _) :=
  .getBind fun _ => .bind (evolves_lift _) fun _ => evolves_onMemory (.write start bytes) fun _ => rfl

theorem evolves_cellForTable (h : Handle .table) (v : Value) :
    Keeps (Evolves cap) (cellForTable h v : StoreM σ _) :=
  .getBind fun _ => .bind (evolves_lift _) fun _ => evolves_lift _

theorem evolves_growTable (h : Handle .table) (delta : Nat) (init : Value) :
    Keeps (Evolves cap) (growTable h delta init : StoreM σ _) := by
  refine .bind (evolves_cellForTable h init) fun c =>
    .bind (evolves_onTable (.grow delta c) fun _ => rfl) fun n => ?_
  split
  · exact .pure _
  · exact .throw _

theorem evolves_changeFuel (change : Nat → Nat) : Keeps (Evolves cap) (changeFuel change : StoreM σ _) := by
  refine .getBind fun s => ?_
  split
  · exact .modify fun _ => .of_eq rfl rfl rfl rfl
  · exact .throw _

/-- **Requests go from change to change.** -/
theorem evolves_perform : ∀ r : StoreRequest, Keeps (Evolves cap) (perform r : StoreM σ r.Result)
  | .newMemory limits => evolves_newMemory limits
  | .newTable type init => evolves_newTable type init
  | .newGlobal .. => .getBind fun _ => .bind (evolves_lift _) fun _ =>
      .bind (.modifyGet fun _ => .of_eq rfl rfl rfl rfl) fun _ => .pure _
  | .newExternref _ => .modifyGet fun _ => .of_eq rfl rfl rfl rfl
  | .readMemory h start length => evolves_readMemory h start length
  | .writeMemory h start bytes => evolves_writeMemory h start bytes
  | .pokeMemory _ start byte => .getBind fun _ => .bind (evolves_lift _) fun _ =>
      evolves_onMemory (.poke start byte) fun _ => rfl
  | .growMemory _ delta => .getBind fun _ => .bind (evolves_lift _) fun _ =>
      evolves_onMemory (.grow delta) fun _ => rfl
  | .getTable .. => .getBind fun _ => .bind (evolves_lift _) fun _ => .pure _
  | .setTable h index v => .bind (evolves_cellForTable h v) fun c => evolves_onTable (.set index c) fun _ => rfl
  | .growTable h delta init => evolves_growTable h delta init
  | .getGlobal _ => .getBind fun _ => .bind (evolves_lift _) fun _ => .pure _
  | .setGlobal _ _ => .getBind fun _ => .bind (evolves_lift _) fun _ =>
      .ite (.bind (evolves_lift _) fun _ => .modify fun _ => .of_eq rfl rfl rfl rfl) (.throw _)
  | .setFuel _ | .addFuel _ => evolves_changeFuel _
  | .resetStats | .interrupt | .resetInterrupt => .modify fun _ => .of_eq rfl rfl rfl rfl
  | .externType _ => .getBind fun _ => evolves_lift _
  | .exported .. => .getBind fun _ => .pure _
  | .moduleName _ => .getBind fun _ => .pure _
  | .funcOfValue _ => .getBind fun _ => .pure _

/-! ### Instantiation -/

theorem evolves_claimMemory (place addr : Nat) : Keeps (Evolves cap) (claimMemory place addr : StoreM σ Unit) := by
  refine .getBind fun s => ?_
  split
  · exact .throw _
  split
  · exact .throw _
  · refine .modify fun s => .of_alters (.owners _ (Array.ext_getElem? fun a => ?_))
    rw [Array.getElem?_map, Array.getElem?_modify, Array.getElem?_map]
    split <;> cases s.memories[a]? <;> rfl

theorem evolves_makeFuncs (m : Module) (place imported : Nat) :
    Keeps (Evolves cap) (makeFuncs m place imported : StoreM σ (List Nat)) :=
  .mapM _ fun _ _ => .bind (keeps_outside _) fun _ => .modifyGet fun _ => .of_alters (.newFunc _)

theorem evolves_makeTables (m : Module) : Keeps (Evolves cap) (makeTables m : StoreM σ (List Nat)) := by
  refine .mapM _ fun type _ => ?_
  split
  · next ht => exact evolves_addTable ht
  · exact .throw _

theorem evolves_makeMemories (m : Module) (place : Nat) :
    Keeps (Evolves cap) (makeMemories m place : StoreM σ (List Nat)) := by
  refine evolves_getBind fun s hcap => .mapM _ fun limits _ => ?_
  split
  · next hm => exact evolves_addMemory (hcap ▸ hm) _
  · exact .throw _

theorem evolves_makeGlobals (funcs : Array Nat) : ∀ (defs : List GlobalDef) (globals : Array Nat),
    Keeps (Evolves cap) (makeGlobals funcs defs globals : StoreM σ (Array Nat))
  | [], _ => .pure _
  | _ :: defs, _ => .bind (keeps_constCell _ _ _) fun _ => .bind (.modifyGet fun _ => .of_eq rfl rfl rfl rfl) fun _ =>
      evolves_makeGlobals funcs defs _

theorem evolves_makeInstance (m : Module) (entities : List Extern) (place : Nat) :
    Keeps (Evolves cap) (makeInstance m entities place : StoreM σ Unit) := by
  unfold makeInstance
  refine .bind (.forM _ fun _ _ => evolves_claimMemory _ _) fun _ => .bind (evolves_makeFuncs _ _ _) fun _ =>
    .bind (evolves_makeTables _) fun _ => .bind (evolves_makeMemories _ _) fun _ =>
    .bind (evolves_makeGlobals _ _ _) fun _ =>
    .bind (.mapM _ fun _ _ => .map (.mapM _ fun _ _ => keeps_constCell _ _ _)) fun _ =>
    .getBind fun _ => .bind (.mapM _ fun _ _ => keeps_outside _) fun _ => .modify fun _ => .of_eq rfl rfl rfl rfl

theorem evolves_applyElement (place : Nat) (segment : ElementSegment) (index : Nat) :
    Keeps (Evolves cap) (applyElement place segment index : StoreM σ Unit) := by
  unfold applyElement
  split
  · exact .pure _
  · exact .modify fun _ => .of_eq rfl rfl rfl rfl
  · exact .bind (keeps_instanceAt _) fun _ => .bind (keeps_outside _) fun _ =>
      .bind (keeps_outside _) fun _ => .bind (keeps_constCell _ _ _) fun _ =>
      .bind (evolves_onTable (.init _ _ _ _) fun _ => rfl) fun _ => .modify fun _ => .of_eq rfl rfl rfl rfl

theorem evolves_applyData (place : Nat) (segment : DataSegment) (index : Nat) :
    Keeps (Evolves cap) (applyData place segment index : StoreM σ Unit) := by
  unfold applyData
  split
  · exact .pure _
  · exact .bind (keeps_instanceAt _) fun _ => .bind (keeps_outside _) fun _ =>
      .bind (keeps_constCell _ _ _) fun _ => .bind (evolves_onMemory (.init _ _ _ _) fun _ => rfl) fun _ =>
      .modify fun _ => .of_eq rfl rfl rfl rfl

theorem alters_release (s : Store σ) (place : Nat) : s.Alters cap (s.release place) := by
  refine .owners _ (Array.ext_getElem? fun a => ?_)
  rw [Array.getElem?_map, Array.getElem?_map, Array.getElem?_map]
  cases s.memories[a]? with
  | none => rfl
  | some e =>
    rw [Option.map_some, Option.map_some, Option.map_some]
    split <;> rfl

/-- **Instantiating goes from change to change**, also if it fails. -/
theorem evolves_instantiate (m : Module) (entities : List Extern) :
    Keeps (Evolves cap) (instantiate m entities : StoreM σ (Option Nat)) := by
  intro s
  unfold instantiate
  split
  · exact refl_of _ s
  extract_lets place build
  have hbuild : Keeps (Evolves cap) build := by
    refine .bind (evolves_makeInstance m entities place) fun _ => .bind ?_ fun _ => ?_
    · exact .bind (.forM _ fun _ _ => evolves_applyElement _ _ _) fun _ => .forM _ fun _ _ => evolves_applyData _ _ _
    · split
      · exact .pure _
      · exact .bind (keeps_instanceAt _) fun _ => .bind (keeps_outside _) fun _ => .pure _
  have hs := hbuild s
  cases hr : build s with
  | ok start s' =>
    rw [hr] at hs
    exact hs
  | error e s' =>
    rw [hr] at hs
    exact trans_of (Evolves cap) hs (.of_alters (s'.alters_release place))

/-! ### What stays -/

/-- No change makes a host function. -/
theorem Alters.hosts {f : HostFunc σ} (h : s.Alters cap s') (hf : .host f ∈ s'.funcs) : .host f ∈ s.funcs := by
  cases h with
  | newFunc g => exact (Array.mem_push.mp hf).resolve_right nofun
  | beside _ hfuncs => exact hfuncs ▸ hf
  | _ => exact hf

theorem Evolves.hosts {f : HostFunc σ} (h : s.Evolves cap s') (hcap : s.config.maxMemoryPages = cap)
    (hf : .host f ∈ s'.funcs) : .host f ∈ s.funcs :=
  h.keeps (P := fun s'' => .host f ∈ s''.funcs → .host f ∈ s.funcs) hcap (fun halters hs h => hs (halters.hosts h))
    (fun h => h) hf

end Store

end WasmEngine
