import WasmEngine.Code.Op
import WasmEngine.Module.Syntax

/-!
# Modules

A `Module` is a module that was found to be valid, together with the executable form of its functions. It
is what can be instantiated.
-/

namespace WasmEngine

/-- A valid module. `code` has the executable bodies of the functions that the module defines, in their
order. -/
structure Module extends RawModule where
  code : Array CompiledBody

namespace Module

/-- The debug name of the module. -/
def name? (m : Module) : Option String := m.names.module

/-- The debug name of a function. -/
def funcName? (m : Module) (func : Nat) : Option String := m.names.func? func

/-- The executable body of a function, unless it is imported. -/
def body? (m : Module) (func : Nat) : Option CompiledBody :=
  let imported := m.importedCount .func
  if func < imported then none else m.code[func - imported]?

end Module

end WasmEngine
