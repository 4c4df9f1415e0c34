import WasmEngine.Fault.Category
import WasmEngine.Text.Quoted
import WasmEngine.Types

/-!
# Faults of validation

What makes a decoded module invalid, as causes with a number and a wording. The constructor named
`text` carries the embedder's own words.
-/

namespace WasmEngine

/-- The index spaces of a module that a reference can miss. -/
inductive IndexSpace where
  | type
  | func
  | localVar
  | global
  | table
  | memory
  | data
  | element
  deriving DecidableEq, Repr

/-- Where types were expected to agree and did not. -/
inductive TypeClash where
  | underflow
  | operand (expected found : ValueType)
  | reference (found : ValueType)
  | leftOver (count : Nat)
  | constant (actual expected : ValueType)
  | elementSegment (segment table : RefType)
  | indirectTable
  | selectReference
  | selectOperands (first second : ValueType)
  | tableCopy (source target : RefType)
  | tableInit (segment table : RefType)
  | branchArity
  | missingElse
  | notReference (type : ValueType)
  deriving DecidableEq, Repr

/-- How blocks can fail to nest. -/
inductive Nesting where
  | strayElse
  | afterEnd
  | missingEnd
  deriving DecidableEq, Repr

/-- What makes a decoded module invalid. -/
inductive ValidationFault where
  | text (message : String)
  | multipleTables
  | clash (clash : TypeClash)
  | unknownLabel (depth : Nat)
  | unknown (space : IndexSpace) (index : Nat)
  | sizeBound (what : String) (bound : Nat)
  | sizeOrder
  | immutableGlobal (index : Nat)
  | duplicateExport (name : String)
  | startType (type : FuncType)
  | alignment (given natural : Nat)
  | constantGlobal (index : Nat)
  | constantMutable
  | multipleMemories
  | undeclaredReference (func : Nat)
  | dataCountRequired
  | nesting (nesting : Nesting)
  | resultArity (type : FuncType)
  deriving DecidableEq, Repr

namespace IndexSpace

/-- The name of the entities in messages. -/
def text : IndexSpace → String
  | type => "type"
  | func => "function"
  | localVar => "local"
  | global => "global"
  | table => "table"
  | memory => "memory"
  | data => "data segment"
  | element => "elem segment"

/-- The number of a reference that misses. -/
def number : IndexSpace → Nat
  | type => 2003
  | func => 2004
  | localVar => 2005
  | global => 2006
  | table => 2007
  | memory => 2008
  | data => 2009
  | element => 2010

end IndexSpace

/-- How a clash of types is worded. -/
def TypeClash.message : TypeClash → String
  | underflow => "type mismatch: operand stack underflow"
  | operand expected found => s!"type mismatch: expected {expected.text}, found {found.text}"
  | reference found => s!"type mismatch: expected a reference, found {found.text}"
  | leftOver count => s!"type mismatch: {count} values remaining on the stack at end of block"
  | constant actual expected =>
    s!"type mismatch: constant expression has type {actual.text}, expected {expected.text}"
  | elementSegment segment table =>
    s!"type mismatch: element segment of {segment.text} for table of {table.text}"
  | indirectTable => "type mismatch: call_indirect requires a funcref table"
  | selectReference => "type mismatch: select without a type requires numeric operands"
  | selectOperands first second =>
    s!"type mismatch: select operands {first.text} and {second.text} differ"
  | tableCopy source target => s!"type mismatch: table.copy from {source.text} to {target.text}"
  | tableInit segment table => s!"type mismatch: table.init of {segment.text} into {table.text}"
  | branchArity => "type mismatch: br_table targets have inconsistent arity"
  | missingElse => "type mismatch: if without else must leave its parameters unchanged"
  | notReference type => s!"{type.text} is not a reference type"

/-- How a fault of nesting is worded. -/
def Nesting.message : Nesting → String
  | strayElse => "else without matching if"
  | afterEnd => "operators remaining after end of function"
  | missingEnd => "function body must end with END opcode"

namespace ValidationFault

/-- The number of the fault. -/
def number : ValidationFault → Nat
  | text _ | multipleTables => 2000
  | clash _ => 2001
  | unknownLabel _ => 2002
  | unknown space _ => space.number
  | sizeBound .. | sizeOrder => 2011
  | immutableGlobal _ => 2012
  | duplicateExport _ => 2013
  | startType _ => 2014
  | alignment .. => 2015
  | constantGlobal _ | constantMutable => 2016
  | multipleMemories => 2017
  | undeclaredReference _ => 2018
  | dataCountRequired => 2019
  | nesting _ => 2020
  | resultArity _ => 1015

/-- The fault in words. -/
def message : ValidationFault → String
  | text m => m
  | multipleTables => "multiple tables"
  | clash c => c.message
  | unknownLabel depth => s!"unknown label {depth}"
  | unknown space index => s!"unknown {space.text} {index}"
  | sizeBound what bound => s!"{what} size must be at most {bound}"
  | sizeOrder => "size minimum must not be greater than maximum"
  | immutableGlobal index => s!"global is immutable: cannot modify global {index}"
  | duplicateExport name => s!"duplicate export name {Text.Quoted.encode name}"
  | startType type => s!"start function must have type [] -> [], found {type.text}"
  | alignment given natural =>
    s!"alignment must not be larger than natural ({given} > {natural})"
  | constantGlobal index =>
    s!"unknown global {index}: constant expressions may only read imported globals"
  | constantMutable => "constant expression required: global is mutable"
  | multipleMemories => "multiple memories"
  | undeclaredReference func => s!"undeclared function reference {func}"
  | dataCountRequired => "data count section required"
  | nesting n => n.message
  | resultArity type => s!"invalid result arity: {type.text} requires multi-value"

end ValidationFault

end WasmEngine
