import WasmEngine.Error
import WasmEngine.Value

/-!
# Values against signatures

The checks of values that cross the boundary of the engine: the arguments that the embedder hands over, the results
that a host function gives back, and values that are read at a signature of native types.
-/

namespace WasmEngine

/-- The first position at which a value does not have its type. -/
def firstMismatch (index : Nat) : List Value → List ValueType → Option (Nat × ValueType × ValueType)
  | v :: vs, t :: ts =>
    if v.type = t then firstMismatch (index + 1) vs ts else some (index, t, v.type)
  | _, _ => none

/-- Arguments fit parameters, in number and in type. -/
def checkArguments (args : List Value) (params : List ValueType) : Except ValueFault Unit :=
  if args.length ≠ params.length then .error (.count args.length params.length)
  else match firstMismatch 0 args params with
    | some (index, expected, found) => .error (.argument index expected found)
    | none => .ok ()

/-- Results fit a signature, in number and in type. -/
def checkResults (results : List Value) (expected : List ValueType) : Except ValueFault Unit :=
  if results.length ≠ expected.length then .error (.resultCount results.length expected.length)
  else match firstMismatch 0 results expected with
    | some (index, expected, found) => .error (.result index expected found)
    | none => .ok ()

/-- Values read at a list of native types, each of which stands for one value type. -/
def readValues (types : List ValueType) (vs : List Value) : Except ValueFault (List Value) :=
  if vs.length ≠ types.length then .error (.count vs.length types.length)
  else match firstMismatch 0 vs types with
    | some (_, expected, found) => .error (.mismatch expected found)
    | none => .ok vs

end WasmEngine
