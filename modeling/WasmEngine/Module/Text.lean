import WasmEngine.Code.Text

/-!
# The text of modules

What a listing of a module shows of its imports, segments and locals.
-/

namespace WasmEngine

/-- What is imported. A function is given by the index of its type. -/
def ImportType.text : ImportType → String
  | func t => s!"function type {t}"
  | table t => s!"table {t.text}"
  | memory l => s!"memory {l.text}"
  | global t => s!"global {t.text}"

/-- Where an element segment goes. -/
def ElementMode.text : ElementMode → String
  | active table offset => s!"active {table} {offset.text}"
  | passive => "passive"
  | declarative => "declarative"

/-- Where a data segment goes. -/
def DataMode.text : DataMode → String
  | active memory offset => s!"active {memory} {offset.text}"
  | passive => "passive"

/-- Locals as runs of equal types, each with its length. -/
def localsText (types : List ValueType) : List String :=
  (types.splitBy (· = ·)).map fun run =>
    (run.head?.elim "" ValueType.text) ++ s!" x{run.length}"

end WasmEngine
