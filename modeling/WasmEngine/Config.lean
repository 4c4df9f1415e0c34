import WasmEngine.Validation.Module

/-!
# Configuration

What an engine allows: the proposals that are on, the bounds of decoding, and the limits of running code.
A store keeps the configuration that it was made with.
-/

namespace WasmEngine

/-- The configuration of an engine. `maxCallDepth` bounds the number of active WebAssembly frames, `maxValueStack`
the number of cells on the operand stack, locals included. With `consumeFuel`, each op costs one unit of
fuel. -/
structure Config where
  features : Features := .all
  maxCallDepth : Nat := 10000
  maxValueStack : Nat := 0x100000
  consumeFuel : Bool := false
  maxMemoryPages : Nat := WasmEngine.maxMemoryPages
  decodeLimits : DecodeLimits := {}
  deriving DecidableEq, Repr

namespace Config

/-- Bound the size of every memory, as far as that is below the size a memory can have at all. -/
def withMaxMemoryPages (c : Config) (pages : Nat) : Config :=
  { c with maxMemoryPages := min pages WasmEngine.maxMemoryPages }

/-- Read a module and check it under the configuration. -/
def compile (c : Config) (bytes : ByteArray) : Except Error Module :=
  Module.ofBytes bytes c.features c.decodeLimits

end Config

end WasmEngine
