import Mathlib.Data.List.Forall2
import WasmEngine.Validation.Typing

/-!
# The typing rules of WebAssembly

Whether code is well typed is a matter of rules, not of a pass over its instructions. The rules here are those of
WebAssembly 2.0: every instruction takes operands from the stack and puts others there
(`CodeContext.Instr`), and code is typed by putting its parts one behind the other, on top of operands
that it leaves alone (`CodeContext.Code`).

Two things make the rules easier to state than to check. An instruction that never goes on has any operands at all
behind it. And an operand may be of unknown type, which fits whatever is expected (`Operand.Fits`): code that is not
reached has to be typed, too, but nothing has to be known of the operands that it never finds.
-/

namespace WasmEngine

/-! ### Operands -/

/-- An operand can be used where another is expected: it is of that type, or its type is unknown. -/
def Operand.Fits (o expected : Operand) : Prop := o = none ∨ o = expected

/-- Operands of these types, the last of which is on top. The topmost comes first. -/
def operandsOf (types : List ValueType) : List Operand := types.reverse.map some

/-! ### Contexts -/

/-- What code can refer to: what its module declares, the parameters and locals of its function, what the function
returns, and what branches to each label carry, the innermost label first. -/
structure CodeContext extends Context where
  locals : List ValueType
  returns : List ValueType
  labels : List (List ValueType)

namespace CodeContext

/-- The context of code within a block, whose label carries these types. -/
def within (C : CodeContext) (label : List ValueType) : CodeContext :=
  { C with labels := label :: C.labels }

/-- A function with a signature. -/
def HasFunc (C : CodeContext) (f : Nat) (ps rs : List ValueType) : Prop :=
  ∃ t, C.funcs[f]? = some t ∧ C.types[t]? = some ⟨ps, rs⟩

/-- A table with elements of a type. -/
def HasTable (C : CodeContext) (x : Nat) (type : RefType) : Prop :=
  ∃ limits, C.tables[x]? = some ⟨type, limits⟩

/-- A global with values of a type. -/
def HasGlobal (C : CodeContext) (x : Nat) (mutable : Bool) (type : ValueType) : Prop :=
  C.globals[x]? = some ⟨type, mutable⟩

/-- A first memory. -/
def HasMemory (C : CodeContext) : Prop := ∃ limits, C.memories[0]? = some limits

/-- A data segment. How many there are has to be announced before the code. -/
def HasData (C : CodeContext) (x : Nat) : Prop := ∃ count, C.dataCount = some count ∧ x < count

/-! ### Instructions -/

/-- **The instructions with one signature**: what they take, the deepest operand first, and what they put in its
place. -/
inductive Plain (C : CodeContext) : Instruction → List ValueType → List ValueType → Prop
  | nop : Plain C .nop [] []
  | call {f : Nat} {ps rs : List ValueType} : C.HasFunc f ps rs → Plain C (.call f) ps rs
  | callIndirect {x table : Nat} {ps rs : List ValueType} : C.HasTable table .funcref →
    C.types[x]? = some ⟨ps, rs⟩ → Plain C (.callIndirect x table) (ps ++ [.i32]) rs
  | selectTyped (t : ValueType) : Plain C (.selectTyped t) [t, t, .i32] [t]
  | localGet {x : Nat} {t : ValueType} : C.locals[x]? = some t → Plain C (.localGet x) [] [t]
  | localSet {x : Nat} {t : ValueType} : C.locals[x]? = some t → Plain C (.localSet x) [t] []
  | localTee {x : Nat} {t : ValueType} : C.locals[x]? = some t → Plain C (.localTee x) [t] [t]
  | globalGet {x : Nat} {mutable : Bool} {t : ValueType} : C.HasGlobal x mutable t →
    Plain C (.globalGet x) [] [t]
  | globalSet {x : Nat} {t : ValueType} : C.HasGlobal x true t → Plain C (.globalSet x) [t] []
  | tableGet {x : Nat} {r : RefType} : C.HasTable x r → Plain C (.tableGet x) [.i32] [.ref r]
  | tableSet {x : Nat} {r : RefType} : C.HasTable x r → Plain C (.tableSet x) [.i32, .ref r] []
  | tableSize {x : Nat} {r : RefType} : C.HasTable x r → Plain C (.tableSize x) [] [.i32]
  | tableGrow {x : Nat} {r : RefType} : C.HasTable x r → Plain C (.tableGrow x) [.ref r, .i32] [.i32]
  | tableFill {x : Nat} {r : RefType} : C.HasTable x r → Plain C (.tableFill x) [.i32, .ref r, .i32] []
  | tableCopy {target source : Nat} {r : RefType} : C.HasTable target r → C.HasTable source r →
    Plain C (.tableCopy target source) [.i32, .i32, .i32] []
  | tableInit {element table : Nat} {r : RefType} : C.HasTable table r → C.elements[element]? = some r →
    Plain C (.tableInit element table) [.i32, .i32, .i32] []
  | elemDrop {x : Nat} {r : RefType} : C.elements[x]? = some r → Plain C (.elemDrop x) [] []
  | load {op : LoadOp} {arg : MemArg} : C.HasMemory → arg.align ≤ op.naturalAlign →
    Plain C (.load op arg) [.i32] [op.type]
  | store {op : StoreOp} {arg : MemArg} : C.HasMemory → arg.align ≤ op.naturalAlign →
    Plain C (.store op arg) [.i32, op.type] []
  | memorySize : C.HasMemory → Plain C .memorySize [] [.i32]
  | memoryGrow : C.HasMemory → Plain C .memoryGrow [.i32] [.i32]
  | memoryInit {x : Nat} : C.HasMemory → C.HasData x → Plain C (.memoryInit x) [.i32, .i32, .i32] []
  | dataDrop {x : Nat} : C.HasData x → Plain C (.dataDrop x) [] []
  | memoryCopy : C.HasMemory → Plain C .memoryCopy [.i32, .i32, .i32] []
  | memoryFill : C.HasMemory → Plain C .memoryFill [.i32, .i32, .i32] []
  | i32Const (w : BitVec 32) : Plain C (.i32Const w) [] [.i32]
  | i64Const (w : BitVec 64) : Plain C (.i64Const w) [] [.i64]
  | f32Const (w : BitVec 32) : Plain C (.f32Const w) [] [.f32]
  | f64Const (w : BitVec 64) : Plain C (.f64Const w) [] [.f64]
  | refNull (r : RefType) : Plain C (.refNull r) [] [.ref r]
  | refFunc {f : Nat} {ps rs : List ValueType} : C.HasFunc f ps rs → f ∈ C.declared →
    Plain C (.refFunc f) [] [.ref .funcref]
  | numeric (op : NumericOp) : Plain C (.numeric op) op.params [op.result]

/-- **What a single instruction takes and gives**, the topmost operand first. -/
inductive Instr (C : CodeContext) : Instruction → List Operand → List Operand → Prop
  | plain {i : Instruction} {ps rs : List ValueType} : C.Plain i ps rs →
    Instr C i (operandsOf ps) (operandsOf rs)
  | drop (o : Operand) : Instr C .drop [o] []
  /-- The two operands are numbers of the same type. -/
  | select (o : Operand) : (∀ t, o = some t → t.isRef = false) → Instr C .select [some .i32, o, o] [o]
  | refIsNull (r : RefType) : Instr C .refIsNull [some (.ref r)] [some .i32]
  | unreachable (below behind : List Operand) : Instr C .unreachable below behind
  | br {l : Nat} {ts : List ValueType} (below behind : List Operand) : C.labels[l]? = some ts →
    Instr C (.br l) (operandsOf ts ++ below) behind
  | brIf {l : Nat} {ts : List ValueType} : C.labels[l]? = some ts →
    Instr C (.brIf l) (some .i32 :: operandsOf ts) (operandsOf ts)
  /-- The same operands fit each of the labels. They are not used up by any of them. -/
  | brTable {ls : List Nat} {d : Nat} {carried : List Operand} (below behind : List Operand) :
    (∀ l ∈ d :: ls, ∃ ts, C.labels[l]? = some ts ∧
      List.Forall₂ Operand.Fits carried (operandsOf ts)) →
    Instr C (.brTable ls d) (some .i32 :: carried ++ below) behind
  | return_ (below behind : List Operand) : Instr C .return_ (operandsOf C.returns ++ below) behind

/-! ### Code -/

/-- The signature of a block. -/
inductive Block (C : CodeContext) : BlockType → List ValueType → List ValueType → Prop
  | empty : Block C .empty [] []
  | value (t : ValueType) : Block C (.value t) [] [t]
  | index {x : Nat} {ps rs : List ValueType} : C.types[x]? = some ⟨ps, rs⟩ → Block C (.index x) ps rs

/-- **What code takes and gives.** Its blocks are complete, each with its `end`. -/
inductive Code : CodeContext → List Instruction → List Operand → List Operand → Prop
  | instr {C : CodeContext} {i : Instruction} {ins outs : List Operand} : C.Instr i ins outs →
    Code C [i] ins outs
  | block {C : CodeContext} {type : BlockType} {ps rs : List ValueType} {body : List Instruction} :
    C.Block type ps rs → Code (C.within rs) body (operandsOf ps) (operandsOf rs) →
    Code C (.block type :: body ++ [.end_]) (operandsOf ps) (operandsOf rs)
  | loop {C : CodeContext} {type : BlockType} {ps rs : List ValueType} {body : List Instruction} :
    C.Block type ps rs → Code (C.within ps) body (operandsOf ps) (operandsOf rs) →
    Code C (.loop type :: body ++ [.end_]) (operandsOf ps) (operandsOf rs)
  | if_ {C : CodeContext} {type : BlockType} {ps rs : List ValueType} {first second : List Instruction} :
    C.Block type ps rs → Code (C.within rs) first (operandsOf ps) (operandsOf rs) →
    Code (C.within rs) second (operandsOf ps) (operandsOf rs) →
    Code C (.if_ type :: first ++ .else_ :: second ++ [.end_]) (some .i32 :: operandsOf ps) (operandsOf rs)
  /-- Without a second arm, the operands stay as they are. -/
  | ifOnly {C : CodeContext} {type : BlockType} {ts : List ValueType} {first : List Instruction} :
    C.Block type ts ts → Code (C.within ts) first (operandsOf ts) (operandsOf ts) →
    Code C (.if_ type :: first ++ [.end_]) (some .i32 :: operandsOf ts) (operandsOf ts)
  | nil {C : CodeContext} (os : List Operand) : Code C [] os os
  | append {C : CodeContext} {is js : List Instruction} {ins mid outs : List Operand} :
    Code C is ins mid → Code C js mid outs → Code C (is ++ js) ins outs
  /-- Operands below are left alone. -/
  | frame {C : CodeContext} {is : List Instruction} {ins outs : List Operand} (below : List Operand) :
    Code C is ins outs → Code C is (ins ++ below) (outs ++ below)
  /-- Operands that are expected can be given as unknown, and unknown ones can be taken for others. -/
  | weaken {C : CodeContext} {is : List Instruction} {ins ins' outs outs' : List Operand} :
    List.Forall₂ Operand.Fits ins' ins → List.Forall₂ Operand.Fits outs outs' → Code C is ins outs →
    Code C is ins' outs'

end CodeContext

/-- The context of the body of a function with a signature and these locals: a branch out of the body carries what
the function returns. -/
def Context.body (c : Context) (type : FuncType) (locals : List ValueType) : CodeContext where
  toContext := c
  locals := type.params ++ locals
  returns := type.results
  labels := [type.results]

/-- **A body is well typed** if its code gives what the function returns. The `end` of the body comes last. -/
def Context.WellTyped (c : Context) (type : FuncType) (body : FunctionBody) : Prop :=
  ∃ code, body.code.map (·.2) = code ++ [.end_] ∧
    (c.body type body.locals).Code code [] (operandsOf type.results)

/-! ### Tables of labels -/

/-- What branches carry to the labels behind an instruction. -/
def Context.labelsBehind (c : Context) (labels : List (List ValueType)) : Instruction → List (List ValueType)
  | .block type | .if_ type => ((c.blockType type).toOption.elim [] (·.results)) :: labels
  | .loop type => ((c.blockType type).toOption.elim [] (·.params)) :: labels
  | .end_ => labels.tail
  | _ => labels

/-- **All labels of a table carry the same types**, in every table of the code. -/
def Context.UniformTables (c : Context) : List (List ValueType) → List Instruction → Prop
  | _, [] => True
  | labels, i :: rest =>
    (∀ ls d, i = .brTable ls d → ∀ l ∈ ls, labels[l]? = labels[d]?) ∧
      c.UniformTables (c.labelsBehind labels i) rest

end WasmEngine
