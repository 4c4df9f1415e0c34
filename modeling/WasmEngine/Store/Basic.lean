import WasmEngine.Config
import WasmEngine.Global
import WasmEngine.Host.Program
import WasmEngine.Memory
import WasmEngine.Stats
import WasmEngine.Table

/-!
# Stores

A `Store` owns everything that exists while code runs: functions, memories, tables, globals, instances and
host objects, each in an array that only grows, so that an address once given out stays good.

Operations on a store that can fail are in `StoreM`: they give a result or an error, and the store as it is
afterwards in both cases.
-/

namespace WasmEngine

/-- A function that a module defines: its signature, the address of the instance that it belongs to, the
module, and its index in the module. -/
structure WasmFunc where
  type : FuncType
  instance_ : Nat
  module : Module
  index : Nat

/-- A function of a store. -/
inductive FuncEntity (σ : Type) where
  | wasm (func : WasmFunc)
  | host (func : HostFunc σ)

/-- The signature of a function. -/
def FuncEntity.type {σ : Type} : FuncEntity σ → FuncType
  | wasm f => f.type
  | host f => f.type

/-- A memory of a store, and the instance that has it to itself. -/
structure MemoryEntry where
  memory : Memory
  owner : Option Nat

/-- An instance of a module: the addresses behind its index spaces, its segments, which are emptied when
they are dropped, and its exports. -/
structure ModuleInstance where
  module : Module
  funcs : Array Nat
  tables : Array Nat
  memories : Array Nat
  globals : Array Nat
  elements : Array (Array Cell)
  data : Array ByteArray
  exports : List (String × Extern)

/-- A store. `state` is the embedder's own data and `externs` are the host objects behind references. Without
metering, there is no `fuel`. `depth` counts the WebAssembly frames that wait for host functions. -/
structure Store (σ : Type) where
  id : Nat
  config : Config
  state : σ
  funcs : Array (FuncEntity σ) := #[]
  memories : Array MemoryEntry := #[]
  tables : Array Table := #[]
  globals : Array Global := #[]
  instances : Array ModuleInstance := #[]
  externs : Array String := #[]
  interrupted : Bool := false
  fuel : Option Nat
  stats : Stats := {}
  depth : Nat := 0

/-- Operations on a store. -/
abbrev StoreM (σ : Type) := EStateM Error (Store σ)

namespace Store

variable {σ : Type}

/-- An empty store. With metering, it has no fuel to begin with. -/
def new (id : Nat) (config : Config) (state : σ) : Store σ where
  id
  config
  state
  fuel := if config.consumeFuel then some 0 else none

/-! ### Handles -/

/-- A handle belongs to the store. -/
def checkId (s : Store σ) (id : Nat) : Except Error Unit :=
  if id = s.id then .ok () else .error (.ofFault (.link .foreignHandle))

/-- What a handle refers to in one of the arrays of the store. -/
def resolve {α : Type} (s : Store σ) (id index : Nat) (entries : Array α) : Except Error α := do
  s.checkId id
  match entries[index]? with
  | some entry => return entry
  | none => throw (.ofFault (.lookup .deadHandle))

/-- The function of a handle. -/
def func (s : Store σ) (h : Handle .func) : Except Error (FuncEntity σ) :=
  s.resolve h.store h.index s.funcs

/-- The memory of a handle. -/
def memory (s : Store σ) (h : Handle .memory) : Except Error Memory :=
  return (← s.resolve h.store h.index s.memories).memory

/-- The table of a handle. -/
def table (s : Store σ) (h : Handle .table) : Except Error Table :=
  s.resolve h.store h.index s.tables

/-- The global of a handle. -/
def global (s : Store σ) (h : Handle .global) : Except Error Global :=
  s.resolve h.store h.index s.globals

/-- The type of an entity as it is. -/
def externType (s : Store σ) : Extern → Except Error ExternType
  | .func h => return .func (← s.func h).type
  | .table h => return .table (← s.table h).type
  | .memory h => return .memory (← s.memory h).limits
  | .global h => return .global (← s.global h).type

/-- The instance of a handle. -/
def instance? (s : Store σ) (h : InstanceHandle) : Option ModuleInstance :=
  if h.store = s.id then s.instances[h.index]? else none

/-- An export of an instance. -/
def exported? (s : Store σ) (h : InstanceHandle) (name : String) : Option Extern := do
  (← s.instance? h).exports.lookup name

/-- An export of an instance, or the fault that there is none. -/
def exported (s : Store σ) (h : InstanceHandle) (name : String) : Except Error Extern :=
  match s.exported? h name with
  | some e => .ok e
  | none => .error (.ofFault (.lookup (.unknownExport name)))

/-- The exported function of a name. -/
def exportedFunc (s : Store σ) (h : InstanceHandle) (name : String) :
    Except Error (Handle .func) := do
  match (← s.exported h name).func? with
  | some f => return f
  | none => throw (.ofFault (.lookup (.notFunction name)))

/-- A function at a signature, which has to be its own. -/
def typed (s : Store σ) (h : Handle .func) (requested : FuncType) : Except Error Unit := do
  let type := (← s.func h).type
  if type = requested then return () else throw (.ofFault (.value (.signature type requested)))

/-! ### References -/

/-- References in a value point into the store. -/
def owns (s : Store σ) : Value → Bool
  | .ref .funcref (some a) => a.toNat < s.funcs.size
  | .ref .externref (some a) => a.toNat < s.externs.size
  | _ => true

/-- The cell of a value that has a type and belongs to the store. -/
def toCell (s : Store σ) (v : Value) (type : ValueType) : Except Error Cell :=
  if v.type ≠ type then .error (.ofFault (.value (.mismatch type v.type)))
  else if s.owns v then .ok v.toCell
  else .error (.ofFault (.value .foreignReference))

/-- The function that a value refers to. -/
def funcOfValue? (s : Store σ) : Value → Option (Handle .func)
  | .ref .funcref (some a) => if a.toNat < s.funcs.size then some ⟨s.id, a.toNat⟩ else none
  | _ => none

/-- A function as a value. -/
def valueOfFunc (h : Handle .func) : Value :=
  .ref .funcref (some (BitVec.ofNat 32 h.index))

/-- The object behind a host reference. -/
def externObject? (s : Store σ) (addr : Nat) : Option String := s.externs[addr]?

/-- The greatest sizes that the memories have had, in pages. -/
def memoryPeaks (s : Store σ) : List Nat := s.memories.toList.map (·.memory.peak)

/-! ### Changing entities -/

/-- Add an entry at the end of an array. Gives its address. -/
def addFunc (f : FuncEntity σ) : StoreM σ Nat :=
  modifyGet fun s => (s.funcs.size, { s with funcs := s.funcs.push f })

/-- Add a memory. Gives its address. -/
def addMemory (m : Memory) (owner : Option Nat) : StoreM σ Nat :=
  modifyGet fun s => (s.memories.size, { s with memories := s.memories.push ⟨m, owner⟩ })

/-- Add a table. Gives its address. -/
def addTable (t : Table) : StoreM σ Nat :=
  modifyGet fun s => (s.tables.size, { s with tables := s.tables.push t })

/-- Add a global. Gives its address. -/
def addGlobal (g : Global) : StoreM σ Nat :=
  modifyGet fun s => (s.globals.size, { s with globals := s.globals.push g })

/-- The result of a fallible computation that leaves the store alone. -/
def lift {α : Type} : Except Error α → StoreM σ α
  | .ok a => pure a
  | .error e => throw e

/-- Fail with a runtime fault. -/
def failRuntime {α : Type} (fault : RuntimeFault) : StoreM σ α :=
  throw (.ofFault (.runtime fault))

/-- Run a computation on the memory at an address. While it runs, the memory is out of the store. -/
def onMemory {α ε : Type} (addr : Nat) (missing : Error) (toError : ε → Error)
    (act : EStateM ε Memory α) : StoreM σ α := fun s =>
  let memories := s.memories
  let s := { s with memories := #[] }
  if h : addr < memories.size then
    let (⟨memory, owner⟩, memories) := memories.swapAt addr ⟨⟨none, 0, ByteArray.empty, 0⟩, none⟩ h
    match act memory with
    | .ok a m => .ok a { s with memories := memories.setIfInBounds addr ⟨m, owner⟩ }
    | .error e m => .error (toError e) { s with memories := memories.setIfInBounds addr ⟨m, owner⟩ }
  else .error missing { s with memories }

/-- Run a computation on the table at an address. While it runs, the table is out of the store. -/
def onTable {α ε : Type} (addr : Nat) (missing : Error) (toError : ε → Error)
    (act : EStateM ε Table α) : StoreM σ α := fun s =>
  let tables := s.tables
  let s := { s with tables := #[] }
  if h : addr < tables.size then
    let (table, tables) := tables.swapAt addr ⟨.funcref, none, #[]⟩ h
    match act table with
    | .ok a t => .ok a { s with tables := tables.setIfInBounds addr t }
    | .error e t => .error (toError e) { s with tables := tables.setIfInBounds addr t }
  else .error missing { s with tables }

/-- Replace the cell of the global at an address, if there is one. -/
def setGlobalCell (addr : Nat) (c : Cell) (s : Store σ) : Store σ :=
  { s with globals := s.globals.modify addr ({ · with cell := c }) }

/-- Poll the interrupt flag: if it is set, clear it and trap. -/
def pollInterrupt : StoreM σ Unit := fun s =>
  if s.interrupted then .error (.ofCode .interrupted) { s with interrupted := false }
  else .ok () s

end Store

end WasmEngine
