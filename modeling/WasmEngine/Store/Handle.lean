import WasmEngine.Types

/-!
# Handles

The embedder refers to what lives in a store by handles. A handle names its store, so one that is used with
another store is noticed.
-/

namespace WasmEngine

/-- Refers to an entity of one kind in a store. -/
structure Handle (kind : ExternKind) where
  store : Nat
  index : Nat
  deriving DecidableEq, Repr

/-- Refers to an instance of a module in a store. -/
structure InstanceHandle where
  store : Nat
  index : Nat
  deriving DecidableEq, Repr

/-- A handle together with its kind: what can be imported and exported. -/
inductive Extern where
  | func (handle : Handle .func)
  | table (handle : Handle .table)
  | memory (handle : Handle .memory)
  | global (handle : Handle .global)
  deriving DecidableEq, Repr

namespace Extern

/-- The kind of the entity. -/
def kind : Extern → ExternKind
  | func _ => .func
  | table _ => .table
  | memory _ => .memory
  | global _ => .global

/-- The store of the entity. -/
def store : Extern → Nat
  | func h => h.store
  | table h => h.store
  | memory h => h.store
  | global h => h.store

/-- The function, if the entity is one. -/
def func? : Extern → Option (Handle .func)
  | func h => some h
  | _ => none

/-- The table, if the entity is one. -/
def table? : Extern → Option (Handle .table)
  | table h => some h
  | _ => none

/-- The memory, if the entity is one. -/
def memory? : Extern → Option (Handle .memory)
  | memory h => some h
  | _ => none

/-- The global, if the entity is one. -/
def global? : Extern → Option (Handle .global)
  | global h => some h
  | _ => none

/-- The entity of a kind in a store. -/
def ofKind (kind : ExternKind) (store index : Nat) : Extern :=
  match kind with
  | .func => func ⟨store, index⟩
  | .table => table ⟨store, index⟩
  | .memory => memory ⟨store, index⟩
  | .global => global ⟨store, index⟩

/-- The addresses of the functions among entities. -/
def funcAddrs (entities : List Extern) : List Nat :=
  entities.filterMap fun e => e.func?.map (·.index)

/-- The addresses of the tables among entities. -/
def tableAddrs (entities : List Extern) : List Nat :=
  entities.filterMap fun e => e.table?.map (·.index)

/-- The addresses of the memories among entities. -/
def memoryAddrs (entities : List Extern) : List Nat :=
  entities.filterMap fun e => e.memory?.map (·.index)

/-- The addresses of the globals among entities. -/
def globalAddrs (entities : List Extern) : List Nat :=
  entities.filterMap fun e => e.global?.map (·.index)

end Extern

end WasmEngine
