import WasmEngine.Machine.Step

/-!
# Linkers

A `Linker` knows entities by two names, that of a module and that of a field, and finds for each import of a
module the one that was defined under the import's names.

A definition is an entity of some store, or a host function, which belongs to no store yet: each
instantiation that imports it makes a function of its own from it (`Definition.place`). All imports are
found and checked before the first such function is made (`Linker.resolve`).
-/

namespace WasmEngine

/-- The order of names, first by module and then by field. -/
def ImportName.before (n m : ImportName) : Bool :=
  n.module < m.module || (n.module == m.module && n.field < m.field)

/-- What is defined under a name. -/
inductive Definition (σ : Type) where
  | entity (e : Extern)
  | host (func : HostFunc σ)

/-- Definitions, in the order of their names. With `shadowing`, a name can be defined anew. -/
structure Linker (σ : Type) where
  definitions : List (ImportName × Definition σ) := []
  shadowing : Bool := false

/-- Operations on a linker. -/
abbrev LinkerM (σ : Type) := EStateM Error (Linker σ)

namespace Linker

variable {σ : Type}

/-- What is defined under a name. -/
def find? (l : Linker σ) (name : ImportName) : Option (Definition σ) :=
  l.definitions.lookup name

/-- Put a definition in its place, instead of the one that has its name. -/
def insert (name : ImportName) (d : Definition σ) :
    List (ImportName × Definition σ) → List (ImportName × Definition σ)
  | [] => [(name, d)]
  | (n, e) :: rest =>
    if name = n then (name, d) :: rest
    else if name.before n then (name, d) :: (n, e) :: rest
    else (n, e) :: insert name d rest

/-- Define a name. Without `shadowing`, it must not be defined yet. -/
def define (name : ImportName) (d : Definition σ) : LinkerM σ Unit := fun l =>
  if !l.shadowing && (l.find? name).isSome then
    .error (.ofFault (.link (.duplicateDefinition name))) l
  else .ok () { l with definitions := insert name d l.definitions }

/-- Define all exports of an instance under the name of a module, one after the other. -/
def defineInstance (s : Store σ) (module : String) (h : InstanceHandle) : LinkerM σ Unit := fun l =>
  match s.checkId h.store with
  | .error e => .error e l
  | .ok () =>
    let exports := (s.instance? h).elim [] (·.exports)
    (exports.forM fun (field, e) => define ⟨module, field⟩ (.entity e) : LinkerM σ Unit) l

/-- A host function fits an import, which has to be of a function with its very signature. -/
def checkHost (m : Module) (i : Import) (f : HostFunc σ) : Except LinkFault Unit :=
  match m.importType? i with
  | some (.func type) => if type = f.type then .ok () else .error (.hostType i.name f.type)
  | some _ => .error (.hostForOtherKind i.name f.type)
  | none => .error (.hostType i.name f.type)

/-- What is defined for an import, if it fits. -/
def resolveImport (l : Linker σ) (s : Store σ) (m : Module) (i : Import) :
    Except Error (Definition σ) := do
  match l.find? i.name with
  | none => throw (.ofFault (.link (.missingImport i.name)))
  | some (.entity e) =>
    s.checkImport m i e
    return .entity e
  | some (.host f) => match checkHost m i f with
    | .ok () => return .host f
    | .error fault => throw (.ofFault (.link fault))

/-- What is defined for the imports of a module, in their order. -/
def resolve (l : Linker σ) (s : Store σ) (m : Module) : Except Error (List (Definition σ)) :=
  m.imports.mapM (l.resolveImport s m)

end Linker

/-- The entity of a definition in a store. A host function is made into one. -/
def Definition.place {σ : Type} : Definition σ → StoreM σ Extern
  | .entity e => return e
  | .host f => return .func (← Store.newFunc f)

namespace Linker

variable {σ : Type}

/-- Instantiate a module with what is defined for its imports. -/
def instantiate (l : Linker σ) (s : Store σ) (m : Module) (waiting : List (Waiting σ)) : Machine σ :=
  match l.resolve s m with
  | .error e => ⟨s, .outcome (.error e), waiting⟩
  | .ok definitions => match (definitions.mapM Definition.place : StoreM σ (List Extern)) s with
    | .error e s => ⟨s, .outcome (.error e), waiting⟩
    | .ok entities s => Machine.instantiate s m entities waiting

end Linker

end WasmEngine
