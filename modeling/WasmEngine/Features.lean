/-!
# Features

The WebAssembly proposals that can be switched off one by one, and the set of those that are on.
-/

namespace WasmEngine

/-- The proposals beyond the first version of WebAssembly. -/
inductive Proposal where
  | multiValue
  | signExtension
  | saturatingFloatToInt
  | bulkMemory
  | referenceTypes
  deriving DecidableEq, Repr

/-- The proposal's name in messages. -/
def Proposal.text : Proposal → String
  | multiValue => "multi-value"
  | signExtension => "sign extension"
  | saturatingFloatToInt => "saturating float-to-int"
  | bulkMemory => "bulk memory"
  | referenceTypes => "reference types"

/-- Which proposals are on. -/
structure Features where
  multiValue : Bool := true
  signExtension : Bool := true
  saturatingFloatToInt : Bool := true
  bulkMemory : Bool := true
  referenceTypes : Bool := true
  deriving DecidableEq, Repr

namespace Features

/-- Every proposal is on. -/
def all : Features := {}

/-- No proposal is on: the first version of WebAssembly. -/
def mvp : Features := ⟨false, false, false, false, false⟩

/-- Whether a proposal is on. -/
def has (f : Features) : Proposal → Bool
  | .multiValue => f.multiValue
  | .signExtension => f.signExtension
  | .saturatingFloatToInt => f.saturatingFloatToInt
  | .bulkMemory => f.bulkMemory
  | .referenceTypes => f.referenceTypes

/-- Switch a proposal on or off. -/
def set (f : Features) (p : Proposal) (on : Bool) : Features :=
  match p with
  | .multiValue => { f with multiValue := on }
  | .signExtension => { f with signExtension := on }
  | .saturatingFloatToInt => { f with saturatingFloatToInt := on }
  | .bulkMemory => { f with bulkMemory := on }
  | .referenceTypes => { f with referenceTypes := on }

end Features

end WasmEngine
