import WasmEngine.Fault.Category
import WasmEngine.Trap
import WasmEngine.Types

/-!
# Faults at the embedder's side

What can go wrong between a program and the engine it embeds: imports that do not fit, values of the
wrong type, limits on resources, names and handles that refer to nothing, and what host functions
report. Each fault is a cause with a number and a wording. Constructors named `text` carry the
embedder's own words.
-/

namespace WasmEngine

/-- The two names under which an entity is imported. -/
structure ImportName where
  module : String
  field : String
  deriving DecidableEq, Repr

/-- Both names, joined by two colons. -/
def ImportName.text (n : ImportName) : String :=
  n.module ++ "::" ++ n.field

/-! ### Linking -/

/-- Why an entity of the right kind does not fit an import. -/
inductive ImportClash where
  | unknownType
  | limits (offered asked : Limits)
  | func (expected actual : FuncType)
  | element (expected actual : RefType)
  | global (expected actual : GlobalType)
  deriving DecidableEq, Repr

/-- How a clash with an import is worded. -/
def ImportClash.message : ImportClash → String
  | unknownType => "unknown type"
  | limits offered asked => s!"limits {offered.text} do not satisfy {asked.text}"
  | func expected actual => s!"expected {expected.text}, found {actual.text}"
  | element expected actual => s!"expected {expected.text} table, found {actual.text}"
  | global expected actual => s!"expected {expected.text}, found {actual.text}"

/-- What keeps a module from being linked. -/
inductive LinkFault where
  | text (message : String)
  | importCount (expected found : Nat)
  | missingImport (name : ImportName)
  | importKind (name : ImportName) (expected actual : ExternKind)
  | importType (name : ImportName) (clash : ImportClash)
  | hostForOtherKind (name : ImportName) (host : FuncType)
  | hostType (name : ImportName) (host : FuncType)
  | memoryOwned (owner : Nat)
  | foreignHandle
  | duplicateDefinition (name : ImportName)
  deriving DecidableEq, Repr

namespace LinkFault

/-- The number of the fault. -/
def number : LinkFault → Nat
  | text _ | importCount .. => 3000
  | missingImport _ => 3001
  | importKind .. | hostForOtherKind .. => 3002
  | importType .. | hostType .. => 3003
  | memoryOwned _ => 3004
  | foreignHandle => 3005
  | duplicateDefinition _ => 3006

/-- The fault in words. -/
def message : LinkFault → String
  | text m => m
  | importCount expected found => s!"expected {expected} imports, found {found}"
  | missingImport name => s!"unknown import: `{name.text}` has not been defined"
  | importKind name expected actual =>
    s!"incompatible import kind for `{name.text}`: expected {expected.text}, found {actual.text}"
  | importType name clash => s!"incompatible import type for `{name.text}`: {clash.message}"
  | hostForOtherKind name host | hostType name host =>
    s!"incompatible import type for `{name.text}`: host function is {host.text}"
  | memoryOwned owner => s!"memory is already owned by instance {owner}"
  | foreignHandle => "object used with a store it does not belong to"
  | duplicateDefinition name => s!"import `{name.text}` is already defined"

end LinkFault

/-! ### Values -/

/-- What is wrong with values handed over by the embedder or by a host function. -/
inductive ValueFault where
  | text (message : String)
  | count (given expected : Nat)
  | mismatch (expected found : ValueType)
  | argument (index : Nat) (expected found : ValueType)
  | foreignReference
  | signature (actual requested : FuncType)
  | resultCount (given expected : Nat)
  | result (index : Nat) (expected found : ValueType)
  | immutableGlobal
  deriving DecidableEq, Repr

namespace ValueFault

/-- The number of the fault. -/
def number : ValueFault → Nat
  | count .. => 5000
  | text _ | mismatch .. | argument .. | foreignReference | signature .. => 5001
  | resultCount .. => 5002
  | result .. => 5003
  | immutableGlobal => 5007

/-- The fault in words. -/
def message : ValueFault → String
  | text m => m
  | count given expected => s!"wrong number of values (given {given}, expected {expected})"
  | mismatch expected found => s!"type mismatch: expected {expected.text}, found {found.text}"
  | argument index expected found =>
    s!"argument {index} type mismatch: expected {expected.text}, found {found.text}"
  | foreignReference => "reference does not belong to this store"
  | signature actual requested =>
    s!"type mismatch: function is {actual.text}, requested {requested.text}"
  | resultCount given expected => s!"wrong number of results (given {given}, expected {expected})"
  | result index expected found =>
    s!"result {index} type mismatch: expected {expected.text}, found {found.text}"
  | immutableGlobal => "cannot set an immutable global"

end ValueFault

/-! ### Resources -/

/-- A limit that was reached. -/
inductive ResourceFault where
  | text (message : String)
  | memoryGrowth (delta size maximum : Nat)
  | tableGrowth (delta : Nat)
  | memorySize (pages limit : Nat)
  | tableSize (elements limit : Nat)
  deriving DecidableEq, Repr

namespace ResourceFault

/-- The number of the fault. -/
def number : ResourceFault → Nat
  | memoryGrowth .. => 5004
  | tableGrowth _ => 5005
  | text _ | memorySize .. | tableSize .. => 5009

/-- The fault in words. -/
def message : ResourceFault → String
  | text m => m
  | memoryGrowth delta size maximum =>
    s!"cannot grow memory by {delta} pages: size {size}, maximum {maximum}"
  | tableGrowth delta => s!"cannot grow table by {delta} elements"
  | memorySize pages limit => s!"memory of {pages} pages exceeds the limit of {limit} pages"
  | tableSize elements limit => s!"table of {elements} elements exceeds the limit of {limit}"

end ResourceFault

/-! ### Names and handles -/

/-- A name or a handle that refers to nothing of the right kind. -/
inductive LookupFault where
  | text (message : String)
  | unknownExport (name : String)
  | notFunction (name : String)
  | noMemory
  | deadHandle
  deriving DecidableEq, Repr

namespace LookupFault

/-- The number of the fault. -/
def number : LookupFault → Nat
  | text _ | unknownExport _ | notFunction _ | noMemory => 5006
  | deadHandle => 5008

/-- The fault in words. -/
def message : LookupFault → String
  | text m => m
  | unknownExport name => s!"unknown export `{name}`"
  | notFunction name => s!"export `{name}` is not a function"
  | noMemory => "caller has no memory"
  | deadHandle => "handle does not refer to a live object"

end LookupFault

/-! ### Everything else -/

/-- The entities that running code can fail to find. -/
inductive RuntimeEntity where
  | instance_
  | memory
  | table
  | global
  | func
  | funcAddress
  | type
  | element
  | data
  deriving DecidableEq, Repr

/-- The name of the entity in messages. -/
def RuntimeEntity.text : RuntimeEntity → String
  | instance_ => "instance"
  | memory => "memory"
  | table => "table"
  | global => "global"
  | func => "function"
  | funcAddress => "function address"
  | type => "type"
  | element => "element segment"
  | data => "data segment"

/-- A failure outside of WebAssembly code, and the states that running code cannot reach. -/
inductive RuntimeFault where
  | text (message : String)
  | unknownLogLevel (raw : Int)
  | invalidLogLevel (text : String)
  | notUtf8 (offset : Nat)
  | fuelDisabled
  | unknown (entity : RuntimeEntity) (index : Nat)
  | pastEnd
  | noBody (func : Nat)
  | missingArguments
  | outsideIndexSpace
  deriving DecidableEq, Repr

namespace RuntimeFault

/-- The number of the fault. -/
def number (_ : RuntimeFault) : Nat := 5010

/-- The fault in words. -/
def message : RuntimeFault → String
  | text m => m
  | unknownLogLevel raw => s!"unknown log level {raw}"
  | invalidLogLevel t => s!"invalid log level `{t}`"
  | notUtf8 offset => s!"string at {hexText offset} is not valid UTF-8"
  | fuelDisabled => "fuel consumption is not enabled in the engine configuration"
  | unknown entity index => s!"unknown {entity.text} {index}"
  | pastEnd => "execution ran past the end of a function"
  | noBody func => s!"function {func} has no body"
  | missingArguments => "missing call arguments"
  | outsideIndexSpace => "index outside of the instance's index space"

end RuntimeFault

end WasmEngine
