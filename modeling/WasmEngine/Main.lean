import WasmEngine.CommandLine.Run

/-!
# The command line

Reads files, drives machines with an eye on the time, and writes what a run ends with.
-/

namespace WasmEngine.CommandLine

/-- Why a file could not be read. Directories are opened like files, and only then there is nothing to read;
anything else of a wrong type stood in the way of the path. -/
def FileFault.ofIO : IO.Error → FileFault
  | .noFileOrDirectory .. => .notFound
  | .permissionDenied .. => .accessDenied
  | .inappropriateType _ 21 _ => .isDirectory
  | .inappropriateType .. => .notDirectory
  | .invalidArgument .. => .nameTooLong
  | e => .other (toString e)

/-- Read a file, if there is one to be read. -/
def readFile (path : String) : IO (Except FileFault ByteArray) := do
  try return .ok (← IO.FS.readBinFile path)
  catch e => return .error (.ofIO e)

/-- Drive a machine to its end. Once the time is over, ask its code to stop. -/
partial def driveUntil (deadline : Option Nat) (machine : Machine Unit) : IO (Machine Unit) := do
  let machine := machine.run 1000000
  if machine.outcome?.isSome then return machine
  else match deadline with
    | none => driveUntil none machine
    | some time =>
      if (← IO.monoMsNow) < time then driveUntil (some time) machine
      else
        let { store, control, waiting } := machine
        driveUntil none ⟨{ store with interrupted := true }, control, waiting⟩

end WasmEngine.CommandLine

open WasmEngine.CommandLine in
def main (words : List String) : IO UInt32 := do
  let start ← IO.monoMsNow
  let paths := match Options.parse words with
    | .ok o => o.module :: o.config.toList
    | .error _ => []
  let files ← paths.mapM fun path => return (path, ← readFile path)
  let file (path : String) := (files.lookup path).getD (.error .notFound)
  let output ← run words (fun timeout => driveUntil (timeout.map (start + ·))) file
  (← IO.getStdout).putStr output.stdout
  (← IO.getStderr).putStr output.stderr
  return UInt32.ofNat output.status
