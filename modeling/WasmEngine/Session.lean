import WasmEngine.Host.Journal
import WasmEngine.Linker

/-!
# Sessions

A `Session` is what an embedder has at hand while trying things out: stores and linkers, modules, instances and
entities, each under a name. Its operations (`SessionM`) look names up and pass on to the library; what was
noted in a store's journal about messages of guests is collected for the whole session.

There is always a store and a linker to begin with, both named `main`.
-/

namespace WasmEngine

/-- A name that nothing of the kind was given. -/
structure UnknownName where
  name : String

/-- What an embedder has at hand. -/
structure Session where
  config : Config
  stores : List (String × Store Journal)
  linkers : List (String × Linker Journal) := [("main", {})]
  modules : List (String × Module) := []
  instances : List (String × InstanceHandle) := []
  entities : List (String × Extern) := []
  storeCount : Nat := 1
  messages : Array LogOperation := #[]
  records : Array String := #[]

/-- A session with its first store and its first linker. -/
def Session.new (config : Config) : Session where
  config
  stores := [("main", .new 0 config {})]

/-- Operations of a session. -/
abbrev SessionM := ExceptT Error (EStateM UnknownName Session)

/-- An entity kept under a name, or an export of an instance. -/
inductive Subject where
  | kept (name : String)
  | exported (instance_ name : String)

namespace Session

/-! ### Names -/

/-- What has a name. -/
def named {α : Type} (entries : List (String × α)) (name : String) : SessionM α :=
  match entries.lookup name with
  | some a => return a
  | none => throwThe UnknownName ⟨name⟩

/-- Give a name, also one that was given before. -/
def rename {α : Type} (name : String) (a : α) (entries : List (String × α)) : List (String × α) :=
  (name, a) :: entries.filter (·.1 ≠ name)

/-- Take what has a name out of a list. -/
def takeOut {α : Type} (name : String) : List (String × α) → Option α × List (String × α)
  | [] => (none, [])
  | (n, a) :: rest =>
    if n = name then (some a, rest)
    else
      let (found, rest) := takeOut name rest
      (found, (n, a) :: rest)

/-- The module of a name. -/
def module (name : String) : SessionM Module := do named (← get).modules name

/-- The instance of a name. -/
def instance_ (name : String) : SessionM InstanceHandle := do named (← get).instances name

/-- The entity kept under a name. -/
def entity (name : String) : SessionM Extern := do named (← get).entities name

/-- The linker of a name. -/
def linker (name : String) : SessionM (Linker Journal) := do named (← get).linkers name

/-- Keep an entity under a name. -/
def keep (name : String) (e : Extern) : SessionM Unit :=
  modify fun w => { w with entities := rename name e w.entities }

/-! ### Stores -/

/-- Make a store. -/
def newStore (name : String) : SessionM Unit :=
  modify fun w => { w with
    stores := rename name (.new w.storeCount w.config {}) w.stores
    storeCount := w.storeCount + 1 }

/-- Take the messages of guests out of a journal. -/
def drain (s : Store Journal) : Array LogOperation × Array String × Store Journal :=
  (s.state.messages, s.state.records,
    { s with state := { s.state with messages := #[], records := #[] } })

/-- Put a store back, with the messages of guests taken out of its journal. -/
def putBack (name : String) (s : Store Journal) (others : List (String × Store Journal))
    (w : Session) : Session :=
  let (messages, records, s) := drain s
  { w with
    stores := (name, s) :: others
    messages := w.messages ++ messages
    records := w.records ++ records }

/-- Act on a store. While that runs, the store is out of the session. -/
def onStore {α : Type} (name : String) (act : StoreM Journal α) : SessionM α := do
  let (found, others) ← modifyGet fun w => (takeOut name w.stores, { w with stores := [] })
  match found with
  | none => throwThe UnknownName ⟨name⟩
  | some s => match act s with
    | .ok a s =>
      modify (putBack name s others)
      return a
    | .error e s =>
      modify (putBack name s others)
      throw e

/-- Do in a store what ends with an outcome. -/
def complete (start : Store Journal → Machine Journal) : StoreM Journal (List Value) := do
  return (← Store.complete Machine.manySteps start).getD []

/-- Call a function. -/
def call (h : Handle .func) (args : List Value) : StoreM Journal (List Value) :=
  complete fun s => Machine.call s h args []

/-- Call a function at a signature of native types. -/
def callTyped (h : Handle .func) (type : FuncType) (args : List Value) :
    StoreM Journal (List Value) := do
  Store.lift ((← get).typed h type)
  match readValues type.params args with
  | .error fault => throw (.ofFault (.value fault))
  | .ok args => call h args

/-! ### Entities -/

/-- What a command is about. -/
def find (store : String) : Subject → SessionM Extern
  | .kept name => entity name
  | .exported i name => do
    let h ← instance_ i
    onStore store do Store.lift ((← get).exported h name)

/-- An entity of a given kind. -/
def ofKind {α : Type} : Option α → SessionM α
  | some h => return h
  | none => throwThe UnknownName ⟨"entity of another kind"⟩

/-- Act on a function. -/
def onFunc {α : Type} (store : String) (subject : Subject)
    (act : Handle .func → StoreM Journal α) : SessionM α := do
  let h ← ofKind (← find store subject).func?
  onStore store (act h)

/-- Act on a table. -/
def onTable {α : Type} (store : String) (subject : Subject)
    (act : Handle .table → StoreM Journal α) : SessionM α := do
  let h ← ofKind (← find store subject).table?
  onStore store (act h)

/-- Act on a memory. -/
def onMemory {α : Type} (store : String) (subject : Subject)
    (act : Handle .memory → StoreM Journal α) : SessionM α := do
  let h ← ofKind (← find store subject).memory?
  onStore store (act h)

/-- Act on a global. -/
def onGlobal {α : Type} (store : String) (subject : Subject)
    (act : Handle .global → StoreM Journal α) : SessionM α := do
  let h ← ofKind (← find store subject).global?
  onStore store (act h)

/-- The function of a call at a signature. An export that is no function is an error of its own. -/
def typedFunc (store : String) : Subject → SessionM (Handle .func)
  | .kept name => do ofKind (← entity name).func?
  | .exported i name => do
    let h ← instance_ i
    onStore store do Store.lift ((← get).exportedFunc h name)

/-- Make an entity and keep it. -/
def make (store name : String) (act : StoreM Journal Extern) : SessionM Unit := do
  keep name (← onStore store act)

/-! ### Modules, linkers, instances -/

/-- Compile a module. -/
def compile (name : String) (bytes : ByteArray) : SessionM Module := do
  match (← get).config.compile bytes with
  | .error e => throw e
  | .ok m =>
    modify fun w => { w with modules := rename name m w.modules }
    return m

/-- Make a linker. -/
def newLinker (name : String) : SessionM Unit :=
  modify fun w => { w with linkers := rename name {} w.linkers }

/-- Act on a linker. -/
def onLinker {α : Type} (name : String) (act : LinkerM Journal α) : SessionM α := do
  match act (← linker name) with
  | .ok a l =>
    modify fun w => { w with linkers := rename name l w.linkers }
    return a
  | .error e l =>
    modify fun w => { w with linkers := rename name l w.linkers }
    throw e

/-- Define all exports of an instance under the name of a module. -/
def linkInstance (linker store i module : String) : SessionM Unit := do
  let h ← instance_ i
  let s ← onStore store get
  onLinker linker (Linker.defineInstance s module h)

/-- Instantiate a module, and keep the instance if that succeeds. -/
def instantiate (store name : String) (start : Store Journal → Machine Journal) : SessionM Unit := do
  let h ← onStore store do
    let s ← get
    let _ ← complete start
    return { store := s.id, index := s.instances.size : InstanceHandle }
  modify fun w => { w with instances := rename name h w.instances }

/-! ### Journals -/

/-- The events of a store, which are then forgotten. -/
def takeEvents (store : String) : SessionM (Array String) :=
  onStore store <| modifyGet fun s =>
    (s.state.events, { s with state := { s.state with events := #[] } })

/-- The messages of guests, first those that were kept and then those of the log, which are then forgotten. -/
def takeLogs : SessionM (List String) :=
  modifyGet fun w => (w.messages.toList.map LogOperation.text ++ w.records.toList,
    { w with messages := #[], records := #[] })

end Session

end WasmEngine
