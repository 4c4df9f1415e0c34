import WasmEngine.Error
import WasmEngine.Features
import WasmEngine.Module.Syntax

/-!
# Contexts of validation

A `Context` is what a module declares as far as its code can refer to it: the index spaces, in which
imports come first, and the functions that code may take references to.

Looking up an index either gives what it stands for or the fault that there is no such thing. What an
instruction takes from the stack and puts back is its `Context.signature`, once all its indices are known
to be good; initializers have a single type (`Context.constType`).
-/

namespace WasmEngine

/-- Both bounds of limits are within the bound of their index space, and in order. -/
def Limits.check (l : Limits) (bound : Nat) (what : String) : Except ValidationFault Unit :=
  if bound < l.min || l.max.any (bound < ·) then .error (.sizeBound what bound)
  else if l.max.any (· < l.min) then .error .sizeOrder
  else .ok ()

/-- What the code of a module can refer to. `declared` are the functions that `ref.func` may name. -/
structure Context where
  types : List FuncType
  funcs : List Nat
  tables : List TableType
  memories : List Limits
  globals : List GlobalType
  importedGlobals : Nat
  elements : List RefType
  dataCount : Option Nat
  declared : List Nat
  features : Features
  deriving DecidableEq, Repr

namespace Context

/-- The functions that a module mentions outside of code: in initializers of globals, in exports and in
element segments. -/
def declaredBy (m : RawModule) : List Nat :=
  m.globals.filterMap (·.init.refFunc?) ++
  m.exports.filterMap (fun e => if e.kind = .func then some e.index else none) ++
  m.elements.flatMap (·.items.filterMap ConstExpr.refFunc?)

/-- The context that a module sets up. -/
def ofModule (m : RawModule) (features : Features) : Context where
  types := m.types
  funcs := m.funcSpace
  tables := m.tableSpace
  memories := m.memorySpace
  globals := m.globalSpace
  importedGlobals := m.importedCount .global
  elements := m.elements.map (·.type)
  dataCount := m.dataCount
  declared := declaredBy m
  features

/-! ### Looking up indices -/

/-- What an index space has at an index. -/
def lookUp {α : Type} (space : IndexSpace) (entries : List α) (index : Nat) :
    Except ValidationFault α :=
  match entries[index]? with
  | some entry => .ok entry
  | none => .error (.unknown space index)

/-- The signature at an index. -/
def type (c : Context) (index : Nat) : Except ValidationFault FuncType :=
  lookUp .type c.types index

/-- The signature of a function. -/
def func (c : Context) (index : Nat) : Except ValidationFault FuncType := do
  c.type (← lookUp .func c.funcs index)

/-- The type of a table. -/
def table (c : Context) (index : Nat) : Except ValidationFault TableType :=
  lookUp .table c.tables index

/-- The limits of a memory. -/
def memory (c : Context) (index : Nat) : Except ValidationFault Limits :=
  lookUp .memory c.memories index

/-- The type of a global. -/
def global (c : Context) (index : Nat) : Except ValidationFault GlobalType :=
  lookUp .global c.globals index

/-- The type of the references in an element segment. -/
def element (c : Context) (index : Nat) : Except ValidationFault RefType :=
  lookUp .element c.elements index

/-- There is a data segment of this index. Code is read before data, so the number of segments has to be
announced. -/
def data (c : Context) (index : Nat) : Except ValidationFault Unit :=
  match c.dataCount with
  | none => .error .dataCountRequired
  | some count => if index < count then .ok () else .error (.unknown .data index)

/-- The type of the elements of a table. -/
def tableElement (c : Context) (index : Nat) : Except ValidationFault RefType := do
  return (← c.table index).element

/-! ### Initializers -/

/-- The type of an initializer. It may read imported globals that never change. -/
def constType (c : Context) : ConstExpr → Except ValidationFault ValueType
  | .i32 _ => return .i32
  | .i64 _ => return .i64
  | .f32 _ => return .f32
  | .f64 _ => return .f64
  | .refNull t => return .ref t
  | .refFunc f => do
    let _ ← c.func f
    return .ref .funcref
  | .globalGet x =>
    if c.importedGlobals ≤ x then throw (.constantGlobal x)
    else do
      let type ← c.global x
      if type.mutable then throw .constantMutable else return type.value

/-- An initializer has the type it is used at. -/
def expectConst (c : Context) (expr : ConstExpr) (expected : ValueType) :
    Except ValidationFault Unit := do
  let actual ← c.constType expr
  if actual = expected then return () else throw (.clash (.constant actual expected))

/-! ### Instructions -/

/-- The signature of a block. -/
def blockType (c : Context) : BlockType → Except ValidationFault FuncType
  | .empty => return ⟨[], []⟩
  | .value t => return ⟨[], [t]⟩
  | .index i => c.type i

/-- A load or store promises no more than its natural alignment. -/
def alignment (given natural : Nat) : Except ValidationFault Unit :=
  if natural < given then throw (.alignment given natural) else return ()

/-- What an instruction takes from the stack, the deepest operand first, and what it puts there. `locals` are
the types of the parameters and locals of the function. Control instructions and those that take operands
of any type have no signature of their own; theirs is given as empty. -/
def signature (c : Context) (locals : List ValueType) :
    Instruction → Except ValidationFault FuncType
  | .call f => c.func f
  | .callIndirect type table => do
    let t ← c.table table
    if t.element ≠ .funcref then throw (.clash .indirectTable)
    else
      let type ← c.type type
      return ⟨type.params ++ [.i32], type.results⟩
  | .selectTyped t => return ⟨[t, t, .i32], [t]⟩
  | .localGet x => return ⟨[], [← lookUp .localVar locals x]⟩
  | .localSet x => return ⟨[← lookUp .localVar locals x], []⟩
  | .localTee x => do
    let t ← lookUp .localVar locals x
    return ⟨[t], [t]⟩
  | .globalGet x => return ⟨[], [(← c.global x).value]⟩
  | .globalSet x => do
    let t ← c.global x
    if t.mutable then return ⟨[t.value], []⟩ else throw (.immutableGlobal x)
  | .tableGet x => return ⟨[.i32], [.ref (← c.tableElement x)]⟩
  | .tableSet x => return ⟨[.i32, .ref (← c.tableElement x)], []⟩
  | .tableSize x => do
    let _ ← c.tableElement x
    return ⟨[], [.i32]⟩
  | .tableGrow x => return ⟨[.ref (← c.tableElement x), .i32], [.i32]⟩
  | .tableFill x => return ⟨[.i32, .ref (← c.tableElement x), .i32], []⟩
  | .tableCopy target source => do
    let t ← c.tableElement target
    let s ← c.tableElement source
    if t = s then return ⟨[.i32, .i32, .i32], []⟩ else throw (.clash (.tableCopy s t))
  | .tableInit element table => do
    let t ← c.tableElement table
    let e ← c.element element
    if t = e then return ⟨[.i32, .i32, .i32], []⟩ else throw (.clash (.tableInit e t))
  | .elemDrop x => do
    let _ ← c.element x
    return ⟨[], []⟩
  | .load op arg => do
    let _ ← c.memory 0
    alignment arg.align op.naturalAlign
    return ⟨[.i32], [op.type]⟩
  | .store op arg => do
    let _ ← c.memory 0
    alignment arg.align op.naturalAlign
    return ⟨[.i32, op.type], []⟩
  | .memorySize => do
    let _ ← c.memory 0
    return ⟨[], [.i32]⟩
  | .memoryGrow => do
    let _ ← c.memory 0
    return ⟨[.i32], [.i32]⟩
  | .memoryInit x => do
    let _ ← c.memory 0
    c.data x
    return ⟨[.i32, .i32, .i32], []⟩
  | .dataDrop x => do
    c.data x
    return ⟨[], []⟩
  | .memoryCopy | .memoryFill => do
    let _ ← c.memory 0
    return ⟨[.i32, .i32, .i32], []⟩
  | .i32Const _ => return ⟨[], [.i32]⟩
  | .i64Const _ => return ⟨[], [.i64]⟩
  | .f32Const _ => return ⟨[], [.f32]⟩
  | .f64Const _ => return ⟨[], [.f64]⟩
  | .refNull t => return ⟨[], [.ref t]⟩
  | .refFunc f => do
    let _ ← c.func f
    if c.declared.contains f then return ⟨[], [.ref .funcref]⟩ else throw (.undeclaredReference f)
  | .numeric op => return ⟨op.params, [op.result]⟩
  | .unreachable | .nop | .block _ | .loop _ | .if_ _ | .else_ | .end_ | .br _ | .brIf _ | .brTable ..
  | .return_ | .drop | .select | .refIsNull => return ⟨[], []⟩

end Context

end WasmEngine
