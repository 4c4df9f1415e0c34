import WasmEngine.Code.Op
import WasmEngine.Module.Syntax
import WasmEngine.Text.Hexadecimal

/-!
# The text of code

Instructions, initializers and ops, one after the other in the notation of listings: the mnemonic, then
the immediates. Constants of floating point are given by their bits, and a branch of executable code as
the op it goes to, the cells it keeps and the cells it drops.
-/

namespace WasmEngine

/-- An initializer. -/
def ConstExpr.text : ConstExpr → String
  | i32 w => s!"i32.const {w.toInt}"
  | i64 w => s!"i64.const {w.toInt}"
  | f32 w => s!"f32.const {wordText 8 w.toNat}"
  | f64 w => s!"f64.const {wordText 16 w.toNat}"
  | refNull t => s!"ref.null {t.text}"
  | refFunc f => s!"ref.func {f}"
  | globalGet g => s!"global.get {g}"

/-- An instruction that opens a block, with the block's signature. -/
def BlockType.text (mnemonic : String) : BlockType → String
  | empty => mnemonic
  | value t => s!"{mnemonic} {t.text}"
  | index i => s!"{mnemonic} type {i}"

/-- An op. -/
def PlainOp.text : PlainOp → String
  | drop => "drop"
  | select => "select"
  | localGet x => s!"local.get {x}"
  | localSet x => s!"local.set {x}"
  | localTee x => s!"local.tee {x}"
  | globalGet x => s!"global.get {x}"
  | globalSet x => s!"global.set {x}"
  | tableGet t => s!"table.get {t}"
  | tableSet t => s!"table.set {t}"
  | tableInit e t => s!"table.init elem={e} table={t}"
  | elemDrop e => s!"elem.drop {e}"
  | tableCopy t s => s!"table.copy dst={t} src={s}"
  | tableGrow t => s!"table.grow {t}"
  | tableSize t => s!"table.size {t}"
  | tableFill t => s!"table.fill {t}"
  | load op offset => s!"{op.text} offset={offset}"
  | store op offset => s!"{op.text} offset={offset}"
  | memorySize => "memory.size"
  | memoryGrow => "memory.grow"
  | memoryInit d => s!"memory.init {d}"
  | dataDrop d => s!"data.drop {d}"
  | memoryCopy => "memory.copy"
  | memoryFill => "memory.fill"
  | const c => s!"const {wordText 16 c.toNat}"
  | refIsNull => "ref.is_null"
  | refFunc f => s!"ref.func {f}"
  | numeric op => op.text

/-- The op a branch goes to, the cells it keeps and the cells it drops. -/
def BranchTarget.text (t : BranchTarget) : String :=
  s!"{t.pc}/{t.reshape.keep}/{t.reshape.drop}"

/-- An op. -/
def Op.text : Op → String
  | unreachable => "unreachable"
  | br t => s!"br {t.text}"
  | brIf t => s!"br_if {t.text}"
  | brUnless pc => s!"br_unless {pc}"
  | jump pc => s!"jump {pc}"
  | brTable targets default =>
    " ".intercalate ("br_table" :: (targets ++ [default]).map BranchTarget.text)
  | ret => "return"
  | call f => s!"call {f}"
  | callIndirect type table => s!"call_indirect type={type} table={table}"
  | plain op => op.text

/-- An instruction. -/
def Instruction.text : Instruction → String
  | unreachable => "unreachable"
  | nop => "nop"
  | block t => t.text "block"
  | loop t => t.text "loop"
  | if_ t => t.text "if"
  | else_ => "else"
  | end_ => "end"
  | br l => s!"br {l}"
  | brIf l => s!"br_if {l}"
  | brTable labels default =>
    " ".intercalate ("br_table" :: labels.map toString ++ [s!"default {default}"])
  | return_ => "return"
  | call f => s!"call {f}"
  | callIndirect type table => s!"call_indirect type={type} table={table}"
  | selectTyped t => s!"select {t.text}"
  | load op arg => s!"{op.text} align={arg.align} offset={arg.offset}"
  | store op arg => s!"{op.text} align={arg.align} offset={arg.offset}"
  | i32Const w => (ConstExpr.i32 w).text
  | i64Const w => (ConstExpr.i64 w).text
  | f32Const w => (ConstExpr.f32 w).text
  | f64Const w => (ConstExpr.f64 w).text
  | refNull t => (ConstExpr.refNull t).text
  | drop => PlainOp.drop.text
  | select => PlainOp.select.text
  | localGet x => (PlainOp.localGet x).text
  | localSet x => (PlainOp.localSet x).text
  | localTee x => (PlainOp.localTee x).text
  | globalGet x => (PlainOp.globalGet x).text
  | globalSet x => (PlainOp.globalSet x).text
  | tableGet t => (PlainOp.tableGet t).text
  | tableSet t => (PlainOp.tableSet t).text
  | tableInit e t => (PlainOp.tableInit e t).text
  | elemDrop e => (PlainOp.elemDrop e).text
  | tableCopy t s => (PlainOp.tableCopy t s).text
  | tableGrow t => (PlainOp.tableGrow t).text
  | tableSize t => (PlainOp.tableSize t).text
  | tableFill t => (PlainOp.tableFill t).text
  | memorySize => PlainOp.memorySize.text
  | memoryGrow => PlainOp.memoryGrow.text
  | memoryInit d => (PlainOp.memoryInit d).text
  | dataDrop d => (PlainOp.dataDrop d).text
  | memoryCopy => PlainOp.memoryCopy.text
  | memoryFill => PlainOp.memoryFill.text
  | refIsNull => PlainOp.refIsNull.text
  | refFunc f => (PlainOp.refFunc f).text
  | numeric op => op.text

end WasmEngine
