import WasmEngine.CommandLine.ConfigValue
import WasmEngine.Config

/-!
# Settings

What a run of the command line is set to: limits of the engine, fuel, and time. They come from a configuration file
and from options, of which the options count more. A configuration file is a record of named values, in which
no other names may occur than the ones that mean something (`ConfigFile.ofValue?`).
-/

namespace WasmEngine.CommandLine

/-- The proposals that a configuration file switches on or off. -/
structure FeatureSwitches where
  multiValue : Option Bool := none
  signExtension : Option Bool := none
  saturatingFloatToInt : Option Bool := none
  bulkMemory : Option Bool := none
  referenceTypes : Option Bool := none
  deriving DecidableEq, Repr

/-- What a configuration file sets. -/
structure ConfigFile where
  maxCallDepth : Option Nat := none
  maxValueStack : Option Nat := none
  maxMemoryPages : Option Nat := none
  fuel : Option Nat := none
  timeout : Option Nat := none
  features : FeatureSwitches := {}
  deriving DecidableEq, Repr

/-- What is set by options. -/
structure Overrides where
  fuel : Option Nat := none
  timeout : Option Nat := none
  maxCallDepth : Option Nat := none
  deriving DecidableEq, Repr

/-- The settings of a run. The time is in milliseconds. -/
structure Settings where
  config : Config
  fuel : Option Nat
  timeout : Option Nat
  deriving DecidableEq, Repr

/-! ### Reading a configuration file -/

/-- The switches in a record, of which all are named in a list. -/
def FeatureSwitches.ofValue? (surplus : Bool) (v : ConfigValue) : Option FeatureSwitches := do
  let fields ← v.fields? surplus 5
    ["multi_value", "sign_extension", "saturating_float_to_int", "bulk_memory", "reference_types"]
  match ← fields.mapM (ConfigValue.optional ConfigValue.boolean?) with
  | [multiValue, signExtension, saturatingFloatToInt, bulkMemory, referenceTypes] =>
    return { multiValue, signExtension, saturatingFloatToInt, bulkMemory, referenceTypes }
  | _ => none

/-- What a configuration sets, which has to be a record. Without a value, it is empty. The switches can be
left out, in a list as well, but they cannot be absent. -/
def ConfigFile.ofValue? (surplus : Bool) : ConfigValue → Option ConfigFile
  | .absent => some {}
  | v => do
    let fields ← v.fields? surplus 5
      ["max_call_depth", "max_value_stack", "max_memory_pages", "fuel", "timeout_ms", "features"]
    let number (bound : Nat) := ConfigValue.optional (ConfigValue.natural? bound)
    match fields with
    | [maxCallDepth, maxValueStack, maxMemoryPages, fuel, timeout, features] => return {
        maxCallDepth := ← number 0x10000000000000000 maxCallDepth
        maxValueStack := ← number 0x10000000000000000 maxValueStack
        maxMemoryPages := ← number 0x100000000 maxMemoryPages
        fuel := ← number 0x10000000000000000 fuel
        timeout := ← number 0x10000000000000000 timeout
        features := ← features.elim (some {}) (FeatureSwitches.ofValue? surplus) }
    | _ => none

/-! ### Merging -/

/-- Switch those proposals that are mentioned. -/
def FeatureSwitches.apply (s : FeatureSwitches) (f : Features) : Features where
  multiValue := s.multiValue.getD f.multiValue
  signExtension := s.signExtension.getD f.signExtension
  saturatingFloatToInt := s.saturatingFloatToInt.getD f.saturatingFloatToInt
  bulkMemory := s.bulkMemory.getD f.bulkMemory
  referenceTypes := s.referenceTypes.getD f.referenceTypes

/-- The settings of a run. Where an option and the file disagree, the option counts. Metering is on if there
is an amount of fuel. -/
def ConfigFile.merge (file : ConfigFile) (overrides : Overrides) : Settings :=
  let defaults : Config := {}
  let fuel := overrides.fuel <|> file.fuel
  let config : Config := { defaults with
    features := file.features.apply defaults.features
    maxCallDepth := (overrides.maxCallDepth <|> file.maxCallDepth).getD defaults.maxCallDepth
    maxValueStack := file.maxValueStack.getD defaults.maxValueStack
    consumeFuel := fuel.isSome }
  { config := config.withMaxMemoryPages (file.maxMemoryPages.getD defaults.maxMemoryPages)
    fuel
    timeout := overrides.timeout <|> file.timeout }

end WasmEngine.CommandLine
