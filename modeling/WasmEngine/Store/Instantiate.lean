import WasmEngine.Store.Basic

/-!
# Instances of modules

To instantiate a module, its imports are checked, then its functions, tables, memories and globals are made,
then the active element segments and after them the active data segments are written. What remains is
the start function, which is for the caller to run.

An instance has its memories to itself. One whose instantiation fails gives them up again
(`Store.release`); its functions stay in the store, since tables may refer to them by then.
-/

namespace WasmEngine

/-- What is offered for an import fits what is asked for. -/
def ExternType.checkImport (name : ImportName) (asked offered : ExternType) :
    Except LinkFault Unit :=
  let limits (actual required : Limits) : Except LinkFault Unit :=
    if actual.fits required then .ok () else .error (.importType name (.limits actual required))
  match asked, offered with
  | .func expected, .func actual =>
    if expected = actual then .ok () else .error (.importType name (.func expected actual))
  | .table expected, .table actual =>
    if expected.element = actual.element then limits actual.limits expected.limits
    else .error (.importType name (.element expected.element actual.element))
  | .memory expected, .memory actual => limits actual expected
  | .global expected, .global actual =>
    if expected = actual then .ok () else .error (.importType name (.global expected actual))
  | _, _ => .error (.importKind name asked.kind offered.kind)

/-- The name under which an entity is imported. -/
def Import.name (i : Import) : ImportName := ⟨i.module, i.field⟩

namespace Store

variable {σ : Type}

/-- An entity of the store fits an import of a module. -/
def checkImport (s : Store σ) (m : Module) (i : Import) (e : Extern) : Except Error Unit := do
  s.checkId e.store
  match m.importType? i with
  | none => throw (.ofFault (.link (.importType i.name .unknownType)))
  | some asked =>
    let offered ← s.externType e
    match asked.checkImport i.name offered with
    | .ok () => return ()
    | .error fault => throw (.ofFault (.link fault))

/-- As many entities as imports, each of which fits. -/
def checkImports (s : Store σ) (m : Module) (entities : List Extern) : Except Error Unit :=
  if entities.length ≠ m.imports.length then
    throw (.ofFault (.link (.importCount m.imports.length entities.length)))
  else (m.imports.zip entities).forM fun (i, e) => s.checkImport m i e

/-! ### Initializers -/

/-- The value of an initializer, given the functions and globals of the instance so far. -/
def evalConst (s : Store σ) (funcs globals : Array Nat) : ConstExpr → Option Cell
  | .i32 w => some (Value.i32 w).toCell
  | .i64 w => some (Value.i64 w).toCell
  | .f32 w => some (Value.f32 w).toCell
  | .f64 w => some (Value.f64 w).toCell
  | .refNull t => some (Value.null t).toCell
  | .refFunc f => funcs[f]?.map fun addr => BitVec.ofNat 64 (addr + 1)
  | .globalGet g => do return (← s.globals[← globals[g]?]?).cell

/-- The fault of an index that the index spaces of the instance do not have. -/
def outside {α : Type} : Option α → StoreM σ α
  | some a => pure a
  | none => failRuntime .outsideIndexSpace

/-- The value of an initializer. -/
def constCell (funcs globals : Array Nat) (e : ConstExpr) : StoreM σ Cell := do
  outside ((← get).evalConst funcs globals e)

/-! ### Making the entities of a module -/

/-- Claim an imported memory for an instance. -/
def claimMemory (instance_ addr : Nat) : StoreM σ Unit := do
  match (← get).memories[addr]? with
  | none => failRuntime .outsideIndexSpace
  | some entry => match entry.owner with
    | some owner => throw (.ofFault (.link (.memoryOwned owner)))
    | none => modify fun s =>
      { s with memories := s.memories.modify addr ({ · with owner := some instance_ }) }

/-- Make the functions that a module defines. -/
def makeFuncs (m : Module) (instance_ imported : Nat) : StoreM σ (List Nat) :=
  (List.range m.code.size).mapM fun i => do
    let index := imported + i
    let type ← outside (m.funcType? index)
    addFunc (.wasm ⟨type, instance_, m, index⟩)

/-- Make the tables that a module defines, full of null references. -/
def makeTables (m : Module) : StoreM σ (List Nat) :=
  m.tables.mapM fun type => match Table.allocate type 0 with
    | .ok t => addTable t
    | .error fault => throw (.ofFault (.resource fault))

/-- Make the memories that a module defines. -/
def makeMemories (m : Module) (instance_ : Nat) : StoreM σ (List Nat) := do
  let cap := (← get).config.maxMemoryPages
  m.memories.mapM fun limits => match Memory.allocate limits cap with
    | .ok memory => addMemory memory (some instance_)
    | .error fault => throw (.ofFault (.resource fault))

/-- Make the globals that a module defines, with the values of their initializers, behind those that there
are. -/
def makeGlobals (funcs : Array Nat) : List GlobalDef → Array Nat → StoreM σ (Array Nat)
  | [], globals => return globals
  | g :: rest, globals => do
    let c ← constCell funcs globals g.init
    let addr ← addGlobal ⟨g.type, c⟩
    makeGlobals funcs rest (globals.push addr)

/-- The entity that an export hands out. -/
def exportedEntity (i : ModuleInstance) (id : Nat) (e : Export) : Option (String × Extern) :=
  let addrs := match e.kind with
    | .func => i.funcs
    | .table => i.tables
    | .memory => i.memories
    | .global => i.globals
  addrs[e.index]?.map fun addr => (e.name, .ofKind e.kind id addr)

/-- Make an instance with all its entities, and put it at the given place, the next one. -/
def makeInstance (m : Module) (entities : List Extern) (place : Nat) : StoreM σ Unit := do
  let memories := Extern.memoryAddrs entities
  memories.forM (claimMemory place)
  let imported := Extern.funcAddrs entities
  let funcs := (imported ++ (← makeFuncs m place imported.length)).toArray
  let tables := Extern.tableAddrs entities ++ (← makeTables m)
  let memories := memories ++ (← makeMemories m place)
  let globals ← makeGlobals funcs m.globals (Extern.globalAddrs entities).toArray
  let elements ← m.elements.mapM fun segment => return (← segment.items.mapM (constCell funcs globals)).toArray
  let bare : ModuleInstance := {
    module := m
    funcs
    tables := tables.toArray
    memories := memories.toArray
    globals
    elements := elements.toArray
    data := (m.data.map (·.bytes)).toArray
    exports := [] }
  let id := (← get).id
  let exports ← m.exports.mapM fun e => outside (exportedEntity bare id e)
  modify fun s => { s with instances := s.instances.push { bare with exports } }

/-! ### Writing segments -/

/-- The instance at an address. -/
def instanceAt (place : Nat) : StoreM σ ModuleInstance := do
  outside (← get).instances[place]?

/-- Change the instance at an address. -/
def modifyInstance (place : Nat) (change : ModuleInstance → ModuleInstance) (s : Store σ) :
    Store σ :=
  { s with instances := s.instances.modify place change }

/-- Empty an element segment of an instance. -/
def dropElement (place segment : Nat) (s : Store σ) : Store σ :=
  s.modifyInstance place fun i => { i with elements := i.elements.setIfInBounds segment #[] }

/-- Empty a data segment of an instance. -/
def dropData (place segment : Nat) (s : Store σ) : Store σ :=
  s.modifyInstance place fun i => { i with data := i.data.setIfInBounds segment ByteArray.empty }

/-- The error of an address that refers to nothing. -/
def outsideError : Error := .ofFault (.runtime .outsideIndexSpace)

/-- Write an active element segment to its table and empty it; empty a declarative one. -/
def applyElement (place : Nat) (segment : ElementSegment) (index : Nat) : StoreM σ Unit := do
  match segment.mode with
  | .passive => return ()
  | .declarative => modify (dropElement place index)
  | .active table offset =>
    let i ← instanceAt place
    let addr ← outside i.tables[table]?
    let items ← outside i.elements[index]?
    let start ← constCell i.funcs i.globals offset
    onTable addr outsideError .ofCode
      (Table.init (start.setWidth 32).toNat items 0 items.size)
    modify (dropElement place index)

/-- Write an active data segment to its memory and empty it. -/
def applyData (place : Nat) (segment : DataSegment) (index : Nat) : StoreM σ Unit := do
  match segment.mode with
  | .passive => return ()
  | .active memory offset =>
    let i ← instanceAt place
    let addr ← outside i.memories[memory]?
    let start ← constCell i.funcs i.globals offset
    onMemory addr outsideError .ofCode
      (Memory.init (start.setWidth 32).toNat segment.bytes 0 segment.bytes.size)
    modify (dropData place index)

/-- Write the active segments, all elements before all data. -/
def applySegments (m : Module) (place : Nat) : StoreM σ Unit := do
  m.elements.zipIdx.forM fun (segment, index) => applyElement place segment index
  m.data.zipIdx.forM fun (segment, index) => applyData place segment index

/-! ### Instantiation -/

/-- Give up the memories of an instance. -/
def release (place : Nat) (s : Store σ) : Store σ :=
  { s with memories := s.memories.map fun e =>
      if e.owner = some place then { e with owner := none } else e }

/-- Make an instance of a module and write its segments. Gives the address of the start function, if there is
one. An instance that fails gives up its memories. -/
def instantiate (m : Module) (entities : List Extern) : StoreM σ (Option Nat) := fun s =>
  match s.checkImports m entities with
  | .error e => .error e s
  | .ok () =>
    let place := s.instances.size
    let build : StoreM σ (Option Nat) := do
      makeInstance m entities place
      applySegments m place
      match m.start with
      | none => return none
      | some func => return some (← outside (← instanceAt place).funcs[func]?)
    match build s with
    | .ok start s => .ok start s
    | .error e s => .error e (s.release place)

end Store

end WasmEngine
