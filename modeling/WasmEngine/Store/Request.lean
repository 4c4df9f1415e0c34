import WasmEngine.Store.Basic

/-!
# What can be asked of a store

The operations that the embedder has at hand, one by one, and `Store.perform`, which answers a request by
the operation it names. They check that handles are live and belong to the store, and that values have
their type and refer to nothing outside of it; what fails a check changes nothing.
-/

namespace WasmEngine

namespace Store

variable {σ : Type}

/-- The error of a handle that refers to nothing. -/
def deadHandle : Error := .ofFault (.lookup .deadHandle)

/-- The greatest amount of fuel. -/
def maxFuel : Nat := 0xFFFFFFFFFFFFFFFF

/-! ### Making entities -/

/-- Make a memory. -/
def newMemory (limits : Limits) : StoreM σ (Handle .memory) := do
  let s ← get
  match Memory.allocate limits s.config.maxMemoryPages with
  | .error fault => throw (.ofFault (.resource fault))
  | .ok m => return ⟨s.id, ← addMemory m none⟩

/-- Make a table of equal elements. -/
def newTable (type : TableType) (init : Value) : StoreM σ (Handle .table) := do
  let s ← get
  let c ← lift (s.toCell init (.ref type.element))
  match Table.allocate type c with
  | .error fault => throw (.ofFault (.resource fault))
  | .ok t => return ⟨s.id, ← addTable t⟩

/-- Make a global. -/
def newGlobal (type : GlobalType) (init : Value) : StoreM σ (Handle .global) := do
  let s ← get
  let c ← lift (s.toCell init type.value)
  return ⟨s.id, ← addGlobal ⟨type, c⟩⟩

/-- Make a host function. -/
def newFunc (f : HostFunc σ) : StoreM σ (Handle .func) := do
  let s ← get
  return ⟨s.id, ← addFunc (.host f)⟩

/-- Make a reference to a host object. -/
def newExternref (object : String) : StoreM σ Value :=
  modifyGet fun s => (.ref .externref (some (BitVec.ofNat 32 s.externs.size)),
    { s with externs := s.externs.push object })

/-! ### Memories -/

/-- Read bytes of a memory. -/
def readMemory (h : Handle .memory) (start length : Nat) : StoreM σ ByteArray := do
  let m ← lift ((← get).memory h)
  match m.read start length with
  | .ok bytes => return bytes
  | .error code => throw (.ofCode code)

/-- Write bytes to a memory. -/
def writeMemory (h : Handle .memory) (start : Nat) (bytes : ByteArray) : StoreM σ Unit := do
  lift ((← get).checkId h.store)
  onMemory h.index deadHandle .ofCode (Memory.write start bytes)

/-- Set a single byte of a memory. Past the end nothing happens. -/
def pokeMemory (h : Handle .memory) (start : Nat) (byte : UInt8) : StoreM σ Unit := do
  lift ((← get).checkId h.store)
  onMemory h.index deadHandle .ofCode fun m => .ok () (m.poke start byte)

/-- Grow a memory. Gives the size before. -/
def growMemory (h : Handle .memory) (delta : Nat) : StoreM σ Nat := do
  lift ((← get).checkId h.store)
  onMemory h.index deadHandle (fun fault => .ofFault (.resource fault)) (Memory.grow delta)

/-! ### Tables -/

/-- The element of a table, if there is one at the index. -/
def getTable (h : Handle .table) (index : Nat) : StoreM σ (Option Value) := do
  let t ← lift ((← get).table h)
  return t.cells[index]?.map (Value.ofCell (.ref t.element))

/-- The cell of a reference that fits a table. -/
def cellForTable (h : Handle .table) (v : Value) : StoreM σ Cell := do
  let s ← get
  let t ← lift (s.table h)
  lift (s.toCell v (.ref t.element))

/-- Replace an element of a table. -/
def setTable (h : Handle .table) (index : Nat) (v : Value) : StoreM σ Unit := do
  let c ← cellForTable h v
  onTable h.index deadHandle .ofCode (Table.set index c)

/-- Grow a table. Gives the size before. -/
def growTable (h : Handle .table) (delta : Nat) (init : Value) : StoreM σ Nat := do
  let c ← cellForTable h init
  match ← onTable h.index deadHandle .ofCode (Table.grow delta c) with
  | some n => return n
  | none => throw (.ofFault (.resource (.tableGrowth delta)))

/-! ### Globals -/

/-- The value of a global. -/
def getGlobal (h : Handle .global) : StoreM σ Value := do
  return (← lift ((← get).global h)).value

/-- Set the value of a writable global. -/
def setGlobal (h : Handle .global) (v : Value) : StoreM σ Unit := do
  let s ← get
  let g ← lift (s.global h)
  if g.type.mutable then
    let c ← lift (s.toCell v g.type.value)
    modify (setGlobalCell h.index c)
  else throw (.ofFault (.value .immutableGlobal))

/-! ### Fuel, statistics, interrupts -/

/-- Change the fuel of a store with metering. -/
def changeFuel (change : Nat → Nat) : StoreM σ Unit := do
  match (← get).fuel with
  | some n => modify fun s => { s with fuel := some (change n) }
  | none => failRuntime .fuelDisabled

/-- Set the fuel. -/
def setFuel (fuel : Nat) : StoreM σ Unit := changeFuel fun _ => fuel

/-- Add fuel, up to the greatest amount. -/
def addFuel (fuel : Nat) : StoreM σ Unit := changeFuel fun n => min (n + fuel) maxFuel

/-- Set all counters to zero. -/
def resetStats : StoreM σ Unit := modify fun s => { s with stats := {} }

/-- Ask the code that runs to stop, or withdraw that. -/
def setInterrupted (on : Bool) : StoreM σ Unit := modify fun s => { s with interrupted := on }

/-! ### Requests -/

/-- Answer a request. -/
def perform : (r : StoreRequest) → StoreM σ r.Result
  | .newMemory limits => newMemory limits
  | .newTable type init => newTable type init
  | .newGlobal type init => newGlobal type init
  | .newExternref object => newExternref object
  | .readMemory h start length => readMemory h start length
  | .writeMemory h start bytes => writeMemory h start bytes
  | .pokeMemory h start byte => pokeMemory h start byte
  | .growMemory h delta => growMemory h delta
  | .getTable h index => getTable h index
  | .setTable h index v => setTable h index v
  | .growTable h delta init => growTable h delta init
  | .getGlobal h => getGlobal h
  | .setGlobal h v => setGlobal h v
  | .setFuel fuel => setFuel fuel
  | .addFuel fuel => addFuel fuel
  | .resetStats => resetStats
  | .interrupt => setInterrupted true
  | .resetInterrupt => setInterrupted false
  | .externType e => do lift ((← get).externType e)
  | .exported h name => return (← get).exported? h name
  | .moduleName h => return ((← get).instance? h).bind (·.module.name?)
  | .funcOfValue v => return (← get).funcOfValue? v

end Store

end WasmEngine
