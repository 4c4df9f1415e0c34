import WasmEngine.Fault.Decode
import WasmEngine.Fault.Embedding
import WasmEngine.Fault.Validation

/-!
# Errors

An `Error` is a failure or a trap. A failure is a `Fault`, the cause, together with the place where it
was found, as far as that is known: an offset in the module's bytes and the index of a function. A
trap carries its stack trace instead, and, if a host function is to blame, that function's failure.

Outer calls add their frames to a trap on its way out (`Error.addFrames`); they leave failures alone.
-/

namespace WasmEngine

/-- What went wrong, if it is no trap. -/
inductive Fault where
  | decode (fault : DecodeFault)
  | validation (fault : ValidationFault)
  | link (fault : LinkFault)
  | value (fault : ValueFault)
  | resource (fault : ResourceFault)
  | lookup (fault : LookupFault)
  | runtime (fault : RuntimeFault)
  deriving DecidableEq, Repr

namespace Fault

/-- The stage that the fault belongs to. -/
def category : Fault → Category
  | decode f => f.category
  | validation _ => .validation
  | link _ => .link
  | value _ => .value
  | resource _ => .resource
  | lookup _ => .notFound
  | runtime _ => .runtime

/-- The number of the fault. -/
def number : Fault → Nat
  | decode f => f.number
  | validation f => f.number
  | link f => f.number
  | value f => f.number
  | resource f => f.number
  | lookup f => f.number
  | runtime f => f.number

/-- The fault in words. -/
def message : Fault → String
  | decode f => f.message
  | validation f => f.message
  | link f => f.message
  | value f => f.message
  | resource f => f.message
  | lookup f => f.message
  | runtime f => f.message

end Fault

/-- Where an error was found. -/
structure Place where
  offset : Option Nat := none
  func : Option Nat := none
  deriving DecidableEq, Repr

/-- The known parts of a place, each in parentheses. -/
def Place.text (p : Place) : String :=
  (match p.func with
    | some f => s!" (in function {f})"
    | none => "") ++
  (match p.offset with
    | some o => s!" (at offset {hexText o})"
    | none => "")

/-- A fault and where it was found. -/
structure Failure where
  fault : Fault
  place : Place := {}
  deriving DecidableEq, Repr

/-- Category and number of an error, each in brackets. -/
def errorHeading (category : Category) (number : Nat) : String :=
  s!"[{category.text}][E{number}]"

/-- The failure in full. -/
def Failure.display (f : Failure) : String :=
  s!"{errorHeading f.fault.category f.fault.number} {f.fault.message}{f.place.text}"

/-- A trap: its cause, its stack trace, and the failure of the host function that caused it. -/
structure Trap where
  code : TrapCode
  trace : List TraceFrame := []
  host : Option Failure := none
  deriving DecidableEq, Repr

/-- Cause, failure of the host and stack trace. -/
def Trap.text (t : Trap) : String :=
  "wasm trap: " ++ t.code.message ++
  (match t.host with
    | some h => ": " ++ h.fault.message
    | none => "") ++
  (if t.trace.isEmpty then "" else "\nwasm backtrace:" ++ TraceFrame.listText 0 t.trace)

/-- A failure or a trap. -/
inductive Error where
  | failure (failure : Failure)
  | trap (trap : Trap) (place : Place := {})
  deriving DecidableEq, Repr

namespace Error

/-- The trap of a cause, without frames. -/
def ofCode (code : TrapCode) : Error :=
  trap { code }

/-- The failure of a fault, without a place. -/
def ofFault (fault : Fault) : Error :=
  failure { fault }

/-- The failure of a decoder, at the offset where it was found. -/
def ofDecode (e : DecodeError) : Error :=
  failure { fault := .decode e.fault, place := { offset := some e.offset } }

/-- The trap raised when a host function fails. -/
def ofHostFailure (f : Failure) : Error :=
  trap { code := .hostError, host := some f }

/-- What a host function reports in words of its own. -/
def host (message : String) : Error :=
  ofFault (.runtime (.text message))

/-- The stage that the error belongs to. -/
def category : Error → Category
  | failure f => f.fault.category
  | trap .. => .trap

/-- The number of the error. -/
def number : Error → Nat
  | failure f => f.fault.number
  | trap t _ => t.code.number

/-- The error in words, without place and stack trace. -/
def message : Error → String
  | failure f => f.fault.message
  | trap t _ => t.code.message

/-- Where the error was found. -/
def place : Error → Place
  | failure f => f.place
  | trap _ p => p

/-- The error in full. The place of a trap is its stack trace. -/
def display : Error → String
  | failure f => f.display
  | trap t _ => s!"{errorHeading .trap t.code.number} {t.text}"

/-- The trap, if the error is one. -/
def trap? : Error → Option Trap
  | failure _ => none
  | trap t _ => some t

/-- Change the place. -/
def mapPlace (f : Place → Place) : Error → Error
  | failure e => failure { e with place := f e.place }
  | trap t p => trap t (f p)

/-- Record the offset. -/
def withOffset (offset : Nat) (e : Error) : Error :=
  e.mapPlace fun p => { p with offset := some offset }

/-- Record the offset unless one is known already. -/
def orOffset (offset : Nat) (e : Error) : Error :=
  e.mapPlace fun p => { p with offset := p.offset <|> some offset }

/-- Record the function. -/
def withFunc (func : Nat) (e : Error) : Error :=
  e.mapPlace fun p => { p with func := some func }

/-- Add outer frames to the stack trace of a trap. -/
def addFrames (frames : List TraceFrame) : Error → Error
  | failure f => failure f
  | trap t p => trap { t with trace := t.trace ++ frames } p

end Error

end WasmEngine
