import WasmEngine.Binary.Cursor
import WasmEngine.Module.Syntax

/-!
# The binary form of names

The custom section called `name` holds subsections, each a kind, a size and a payload. Of these the name
of the module and the names of its functions are read; all others are skipped.
-/

namespace WasmEngine.Decoder

/-- A number of pairs of index and name. Of two names for one index the later counts. -/
def nameMap : (pairs : Nat) → List (Nat × String) → Decoder (List (Nat × String))
  | 0, names => return names
  | pairs + 1, names => do
    let index ← u32
    let text ← name
    nameMap pairs (Names.insertName index text names)

/-- The payload of the subsection with the module's name. -/
def moduleName : Decoder String := do
  let text ← name
  finish "name subsection"
  return text

/-- The payload of the subsection with the names of functions. -/
def functionNames : Decoder (List (Nat × String)) := do
  let names ← nameMap (← count) []
  finish "name subsection"
  return names

/-- One subsection. -/
def nameSubsection (names : Names) : Decoder Names := do
  let kind ← byte
  let size ← u32
  if kind = 0 then
    let (text, _) ← within size moduleName
    return { names with module := some text }
  else if kind = 1 then
    let (functions, _) ← within size functionNames
    return { names with functions }
  else
    let _ ← split size
    return names

/-- Subsections up to the end of the window. Each takes at least two bytes, so no more of them follow than
`fuel`, the number of bytes. -/
def nameSubsections : (fuel : Nat) → Names → Decoder Names
  | 0, names => return names
  | fuel + 1, names => do
    if ← atEnd then return names
    nameSubsections fuel (← nameSubsection names)

/-- The payload of the section called `name`. -/
def nameSection : Decoder Names := do
  nameSubsections (← remaining) {}

end WasmEngine.Decoder
