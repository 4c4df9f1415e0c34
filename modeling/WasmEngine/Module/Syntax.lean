import WasmEngine.Instruction.Basic

/-!
# The parts of a module

What the sections of a module declare, in the order in which they declare it. A `RawModule` is a module
as it was read: every section has its form, and nothing is known yet about types and indices. Entities of
one kind are numbered through, those that are imported before the module's own.
-/

namespace WasmEngine

/-- What an import asks for. A function's signature is given by its index. -/
inductive ImportType where
  | func (type : Nat)
  | table (type : TableType)
  | memory (limits : Limits)
  | global (type : GlobalType)
  deriving DecidableEq, Repr

namespace ImportType

/-- The kind of entity that is asked for. -/
def kind : ImportType → ExternKind
  | func _ => .func
  | table _ => .table
  | memory _ => .memory
  | global _ => .global

/-- The index of the signature, if a function is asked for. -/
def func? : ImportType → Option Nat
  | func t => some t
  | _ => none

/-- The type, if a table is asked for. -/
def table? : ImportType → Option TableType
  | table t => some t
  | _ => none

/-- The limits, if a memory is asked for. -/
def memory? : ImportType → Option Limits
  | memory l => some l
  | _ => none

/-- The type, if a global is asked for. -/
def global? : ImportType → Option GlobalType
  | global t => some t
  | _ => none

end ImportType

/-- An entity that the embedder has to supply. -/
structure Import where
  module : String
  field : String
  type : ImportType
  deriving DecidableEq, Repr

/-- An entity that the module hands out under a name. -/
structure Export where
  name : String
  kind : ExternKind
  index : Nat
  deriving DecidableEq, Repr

/-- An initializer: a constant, a function, or the value of an imported global. -/
inductive ConstExpr where
  | i32 (word : BitVec 32)
  | i64 (word : BitVec 64)
  | f32 (word : BitVec 32)
  | f64 (word : BitVec 64)
  | refNull (type : RefType)
  | refFunc (func : Nat)
  | globalGet (global : Nat)
  deriving DecidableEq, Repr

/-- The function that an initializer refers to. -/
def ConstExpr.refFunc? : ConstExpr → Option Nat
  | refFunc f => some f
  | _ => none

/-- A global that the module defines. -/
structure GlobalDef where
  type : GlobalType
  init : ConstExpr
  deriving DecidableEq, Repr

/-- What becomes of an element segment on instantiation: it is written to a table, kept for
`table.init`, or dropped because it only declares functions. -/
inductive ElementMode where
  | active (table : Nat) (offset : ConstExpr)
  | passive
  | declarative
  deriving DecidableEq, Repr

/-- References for a table. -/
structure ElementSegment where
  type : RefType
  items : List ConstExpr
  mode : ElementMode
  deriving DecidableEq, Repr

/-- What becomes of a data segment on instantiation: it is written to a memory, or kept for
`memory.init`. -/
inductive DataMode where
  | active (memory : Nat) (offset : ConstExpr)
  | passive
  deriving DecidableEq, Repr

/-- Bytes for a memory. -/
structure DataSegment where
  mode : DataMode
  bytes : ByteArray

/-- A section that the engine gives no meaning to: its name, the offset of what follows the name, and
that. -/
structure CustomSection where
  name : String
  offset : Nat
  data : ByteArray

/-- A function body: the types of its locals, one for each local, its instructions, each behind its
offset in the module, and the offset of the body itself. -/
structure FunctionBody where
  locals : List ValueType
  code : List (Nat × Instruction)
  offset : Nat
  deriving DecidableEq, Repr

/-- Names for reading traces. Those of functions are in ascending order of the function's index. -/
structure Names where
  module : Option String := none
  functions : List (Nat × String) := []
  deriving DecidableEq, Repr

namespace Names

/-- Put a name into a list in ascending order, over any earlier one for the same index. -/
def insertName (index : Nat) (name : String) : List (Nat × String) → List (Nat × String)
  | [] => [(index, name)]
  | (i, n) :: rest =>
    if index < i then (index, name) :: (i, n) :: rest
    else if index = i then (index, name) :: rest
    else (i, n) :: insertName index name rest

/-- The name of a function. -/
def func? (names : Names) (index : Nat) : Option String :=
  names.functions.lookup index

end Names

/-- A module as it was read. -/
structure RawModule where
  types : List FuncType := []
  imports : List Import := []
  functions : List Nat := []
  tables : List TableType := []
  memories : List Limits := []
  globals : List GlobalDef := []
  exports : List Export := []
  start : Option Nat := none
  elements : List ElementSegment := []
  dataCount : Option Nat := none
  bodies : List FunctionBody := []
  data : List DataSegment := []
  customs : List CustomSection := []
  names : Names := {}

namespace RawModule

/-- How many entities of a kind are imported. -/
def importedCount (m : RawModule) (kind : ExternKind) : Nat :=
  m.imports.countP (·.type.kind = kind)

/-! ### Index spaces, in which imports come first -/

/-- The indices of the signatures of all functions. -/
def funcSpace (m : RawModule) : List Nat :=
  m.imports.filterMap (·.type.func?) ++ m.functions

/-- The types of all tables. -/
def tableSpace (m : RawModule) : List TableType :=
  m.imports.filterMap (·.type.table?) ++ m.tables

/-- The limits of all memories. -/
def memorySpace (m : RawModule) : List Limits :=
  m.imports.filterMap (·.type.memory?) ++ m.memories

/-- The types of all globals. -/
def globalSpace (m : RawModule) : List GlobalType :=
  m.imports.filterMap (·.type.global?) ++ m.globals.map (·.type)

/-- The signature of a function. -/
def funcType? (m : RawModule) (func : Nat) : Option FuncType := do
  m.types[← m.funcSpace[func]?]?

/-- The type of what an import asks for. -/
def importType? (m : RawModule) (i : Import) : Option ExternType :=
  match i.type with
  | .func t => m.types[t]?.map .func
  | .table t => some (.table t)
  | .memory l => some (.memory l)
  | .global t => some (.global t)

/-- The type of an entity that can be exported. -/
def externType? (m : RawModule) (kind : ExternKind) (index : Nat) : Option ExternType :=
  match kind with
  | .func => (m.funcType? index).map .func
  | .table => m.tableSpace[index]?.map .table
  | .memory => m.memorySpace[index]?.map .memory
  | .global => m.globalSpace[index]?.map .global

/-- The type of an export. -/
def exportType? (m : RawModule) (e : Export) : Option ExternType :=
  m.externType? e.kind e.index

end RawModule

end WasmEngine
