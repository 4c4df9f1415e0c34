import WasmEngine.Text.Hexadecimal

/-!
# Traps

A trap ends a call at once. Its `TrapCode` says why, and its stack trace says where: one `TraceFrame`
for each WebAssembly frame that was active, the innermost first. The text of a trap is its cause
followed by that trace.
-/

namespace WasmEngine

/-- The causes of traps. -/
inductive TrapCode where
  | unreachable
  | memoryOutOfBounds
  | tableOutOfBounds
  | undefinedElement
  | uninitializedElement
  | indirectCallTypeMismatch
  | integerDivideByZero
  | integerOverflow
  | invalidConversion
  | stackOverflow
  | interrupted
  | outOfFuel
  | hostError
  deriving DecidableEq, Repr

namespace TrapCode

/-- The number a trap's cause is reported under. -/
def number : TrapCode → Nat
  | unreachable => 4000
  | memoryOutOfBounds => 4001
  | tableOutOfBounds => 4002
  | undefinedElement => 4003
  | uninitializedElement => 4004
  | indirectCallTypeMismatch => 4005
  | integerDivideByZero => 4006
  | integerOverflow => 4007
  | invalidConversion => 4008
  | stackOverflow => 4009
  | interrupted => 4010
  | outOfFuel => 4011
  | hostError => 4012

/-- The cause in words. -/
def message : TrapCode → String
  | unreachable => "unreachable executed"
  | memoryOutOfBounds => "out of bounds memory access"
  | tableOutOfBounds => "out of bounds table access"
  | undefinedElement => "undefined element"
  | uninitializedElement => "uninitialized element"
  | indirectCallTypeMismatch => "indirect call type mismatch"
  | integerDivideByZero => "integer divide by zero"
  | integerOverflow => "integer overflow"
  | invalidConversion => "invalid conversion to integer"
  | stackOverflow => "call stack exhausted"
  | interrupted => "interrupted"
  | outOfFuel => "all fuel consumed"
  | hostError => "host function error"

/-- All causes. -/
def all : List TrapCode :=
  [unreachable, memoryOutOfBounds, tableOutOfBounds, undefinedElement, uninitializedElement,
    indirectCallTypeMismatch, integerDivideByZero, integerOverflow, invalidConversion, stackOverflow,
    interrupted, outOfFuel, hostError]

/-- A short name for the cause. -/
def shortName : TrapCode → String
  | unreachable => "unreachable"
  | memoryOutOfBounds => "memory"
  | tableOutOfBounds => "table"
  | undefinedElement => "undefined"
  | uninitializedElement => "uninitialized"
  | indirectCallTypeMismatch => "signature"
  | integerDivideByZero => "div0"
  | integerOverflow => "overflow"
  | invalidConversion => "conversion"
  | stackOverflow => "stack"
  | interrupted => "interrupted"
  | outOfFuel => "fuel"
  | hostError => "host"

/-- The cause that has a short name. -/
def ofShortName? (s : String) : Option TrapCode := all.find? (·.shortName == s)

end TrapCode

/-- An active WebAssembly function in a stack trace: its index, its debug name and the offset in the
module of the instruction it was executing. -/
structure TraceFrame where
  func : Nat
  name : Option String
  offset : Nat
  deriving DecidableEq, Repr

/-- The function, its name in angle brackets if it has one, and the offset. -/
def TraceFrame.text (f : TraceFrame) : String :=
  let name := match f.name with
    | some name => s!" <{name}>"
    | none => ""
  s!"func[{f.func}]{name} @ {hexText f.offset}"

/-- The frames of a stack trace, one a line, numbered from `first` in a column of three. -/
def TraceFrame.listText (first : Nat) : List TraceFrame → String
  | [] => ""
  | f :: rest =>
    let number := toString first
    let blanks := String.ofList (List.replicate (3 - number.length) ' ')
    s!"\n  {blanks}{number}: {f.text}" ++ listText (first + 1) rest

end WasmEngine
