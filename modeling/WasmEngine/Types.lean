/-!
# WebAssembly types

The types of values, functions, tables, memories and globals, and their texts. A memory type is its
limits; the type of an entity that can be imported or exported is an `ExternType`.

Import matching asks one question of limits: does what is offered fit what is asked for
(`Limits.fits`)? A module's own limits are checked against the bound of their index space
(`Limits.check`).
-/

namespace WasmEngine

/-- Bytes in one page of linear memory. -/
def pageSize : Nat := 65536

/-- The largest number of pages a linear memory can address. -/
def maxMemoryPages : Nat := 65536

/-- The largest number of elements a table may declare. -/
def maxTableSize : Nat := 0xFFFFFFFF

/-! ### Value types -/

/-- The two kinds of references. -/
inductive RefType where
  | funcref
  | externref
  deriving DecidableEq, Repr

/-- The types of values. -/
inductive ValueType where
  | i32
  | i64
  | f32
  | f64
  | ref (type : RefType)
  deriving DecidableEq, Repr

namespace RefType

/-- The name in the text format. -/
def text : RefType → String
  | funcref => "funcref"
  | externref => "externref"

/-- The byte that stands for the type in a module. -/
def byte : RefType → UInt8
  | funcref => 0x70
  | externref => 0x6F

/-- The reference type a byte stands for. -/
def ofByte? (b : UInt8) : Option RefType :=
  if b = 0x70 then some funcref else if b = 0x6F then some externref else none

end RefType

namespace ValueType

/-- The name in the text format. -/
def text : ValueType → String
  | i32 => "i32"
  | i64 => "i64"
  | f32 => "f32"
  | f64 => "f64"
  | ref t => t.text

/-- The byte that stands for the type in a module. -/
def byte : ValueType → UInt8
  | i32 => 0x7F
  | i64 => 0x7E
  | f32 => 0x7D
  | f64 => 0x7C
  | ref t => t.byte

/-- The value type a byte stands for. -/
def ofByte? (b : UInt8) : Option ValueType :=
  if b = 0x7F then some i32
  else if b = 0x7E then some i64
  else if b = 0x7D then some f32
  else if b = 0x7C then some f64
  else (RefType.ofByte? b).map ref

/-- The value type a name stands for. -/
def ofText? (s : String) : Option ValueType :=
  [i32, i64, f32, f64, ref .funcref, ref .externref].find? (·.text == s)

/-- Whether the type is a reference type. -/
def isRef : ValueType → Bool
  | ref _ => true
  | _ => false

/-- The reference type, if the type is one. -/
def ref? : ValueType → Option RefType
  | ref t => some t
  | _ => none

end ValueType

/-! ### Function types -/

/-- A signature: what a function takes and what it returns. -/
structure FuncType where
  params : List ValueType
  results : List ValueType
  deriving DecidableEq, Repr

/-- Types in brackets, separated by single blanks. -/
def ValueType.listText (types : List ValueType) : String :=
  "[" ++ " ".intercalate (types.map ValueType.text) ++ "]"

/-- A signature in the notation `[i32 i64] -> [f32]`. -/
def FuncType.text (t : FuncType) : String :=
  ValueType.listText t.params ++ " -> " ++ ValueType.listText t.results

/-! ### Limits, tables, memories, globals -/

/-- A size with an optional maximum, in pages for a memory and in elements for a table. -/
structure Limits where
  min : Nat
  max : Option Nat
  deriving DecidableEq, Repr

namespace Limits

/-- The minimum, then the maximum if there is one. -/
def text (l : Limits) : String :=
  match l.max with
  | some max => s!"{l.min} {max}"
  | none => s!"{l.min}"

/-- What is offered fits what is asked for: at least as large at the start, and never larger than
the maximum asked for. -/
def fits (offered asked : Limits) : Bool :=
  asked.min ≤ offered.min &&
    match offered.max, asked.max with
    | _, none => true
    | some actual, some bound => actual ≤ bound
    | none, some _ => false

end Limits

/-- A table holds references of one type. -/
structure TableType where
  element : RefType
  limits : Limits
  deriving DecidableEq, Repr

/-- The element type, then the limits. -/
def TableType.text (t : TableType) : String :=
  t.element.text ++ " " ++ t.limits.text

/-- A global holds a value of one type and may be writable. -/
structure GlobalType where
  value : ValueType
  mutable : Bool
  deriving DecidableEq, Repr

/-- The value type, marked if the global is writable. -/
def GlobalType.text (t : GlobalType) : String :=
  (if t.mutable then "mut " else "") ++ t.value.text

/-! ### Entities that cross module boundaries -/

/-- The four kinds of entities that can be imported and exported. -/
inductive ExternKind where
  | func
  | table
  | memory
  | global
  deriving DecidableEq, Repr

/-- The kind's name. -/
def ExternKind.text : ExternKind → String
  | func => "function"
  | table => "table"
  | memory => "memory"
  | global => "global"

/-- The kind a byte stands for in an import or export. -/
def ExternKind.ofByte? (b : UInt8) : Option ExternKind :=
  if b = 0 then some func
  else if b = 1 then some table
  else if b = 2 then some memory
  else if b = 3 then some global
  else none

/-- The type of an entity that can be imported and exported. -/
inductive ExternType where
  | func (type : FuncType)
  | table (type : TableType)
  | memory (limits : Limits)
  | global (type : GlobalType)
  deriving DecidableEq, Repr

namespace ExternType

/-- The kind of the entity. -/
def kind : ExternType → ExternKind
  | func _ => .func
  | table _ => .table
  | memory _ => .memory
  | global _ => .global

/-- The kind, then the type proper. -/
def text (t : ExternType) : String :=
  t.kind.text ++ " " ++
    match t with
    | func t => t.text
    | table t => t.text
    | memory l => l.text
    | global t => t.text

end ExternType

end WasmEngine
