import WasmEngine.Value

/-!
# Globals

A `Global` is a cell with a type.
-/

namespace WasmEngine

/-- A global variable. -/
structure Global where
  type : GlobalType
  cell : Cell
  deriving DecidableEq, Repr

/-- The value of a global. -/
def Global.value (g : Global) : Value := .ofCell g.type.value g.cell

end WasmEngine
