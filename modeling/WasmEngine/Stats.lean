/-!
# Statistics

What a store counts while code runs in it.
-/

namespace WasmEngine

/-- Counters of a store. -/
structure Stats where
  opsExecuted : Nat := 0
  functionCalls : Nat := 0
  hostCalls : Nat := 0
  peakOperandStack : Nat := 0
  peakCallDepth : Nat := 0
  deriving DecidableEq, Repr

namespace Stats

/-- Take note of the number of active frames and of the height of the operand stack. -/
def record (s : Stats) (depth cells : Nat) : Stats :=
  { s with
    peakCallDepth := max s.peakCallDepth depth
    peakOperandStack := max s.peakOperandStack cells }

/-- The counters, one a line. -/
def text (s : Stats) : String :=
  s!"ops executed:       {s.opsExecuted}\n" ++
  s!"function calls:     {s.functionCalls}\n" ++
  s!"host calls:         {s.hostCalls}\n" ++
  s!"peak operand stack: {s.peakOperandStack} cells\n" ++
  s!"peak call depth:    {s.peakCallDepth}"

end Stats

end WasmEngine
