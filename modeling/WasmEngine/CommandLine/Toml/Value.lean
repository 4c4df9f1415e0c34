import WasmEngine.CommandLine.Toml.Key
import WasmEngine.CommandLine.Toml.Scalar

/-!
# Values of TOML

Scalars, strings, arrays, and tables within one line. Arrays and such tables hold values again, to a limited
depth (`maxDepth`).
-/

namespace WasmEngine.CommandLine.Toml

/-- How deep values can lie within each other, and how many parts a key can have. -/
def maxDepth : Nat := 79

/-- Settings of which none lies in another, and none is there twice. -/
def areApart : List (List String × ConfigValue) → Bool
  | [] => true
  | (path, _) :: rest => rest.all (fun (other, _) =>
      !(path.isPrefixOf other || other.isPrefixOf path)) && areApart rest

/-- The entries that settings amount to. -/
def entriesOf (settings : List (List String × ConfigValue)) : List (String × ConfigValue) :=
  settings.foldl (fun entries (path, v) => ConfigValue.put v path entries) []

namespace Reader

/-- A string. -/
def string : Reader ConfigValue := do
  if ← skip "\"\"\"" then longString '"' true (← room)
  else if ← skip "'''" then longString '\'' false (← room)
  else if ← skip "\"" then discard (shortString '"' true (← room))
  else
    expect "'"
    discard (shortString '\'' false (← room))
  return .other

/-- The items of an array behind its opening bracket, with commas between them. A comma may also stand
behind the last one. -/
def items (item : Reader ConfigValue) : (room : Nat) → Reader (List ConfigValue)
  | 0 => failure
  | room + 1 => do
    gap
    if ← skip "]" then return []
    let v ← item
    gap
    if ← skip "," then return v :: (← items item room)
    expect "]"
    return [v]

/-- A key, an equals sign, and a value. -/
def setting (item : Reader ConfigValue) : Reader (List String × ConfigValue) := do
  let path ← key maxDepth
  expect "="
  blanks
  return (path, ← item)

/-- The settings of a table within one line up to its closing brace, with commas between them. There is at
least one. -/
def settings (item : Reader ConfigValue) : (room : Nat) → Reader (List (List String × ConfigValue))
  | 0 => failure
  | room + 1 => do
    let first ← setting item
    blanks
    if ← skip "," then return first :: (← settings item room)
    expect "\x7d"
    return [first]

/-- A table within one line, behind its opening brace. -/
def inlineTable (item : Reader ConfigValue) : Reader ConfigValue := do
  blanks
  if ← skip "\x7d" then return .table []
  let settings ← settings item (← room)
  if areApart settings then return .table (entriesOf settings) else failure

/-- A value that holds other values to a certain depth. -/
def valueTo : (depth : Nat) → Reader ConfigValue
  | 0 => string <|> scalar
  | depth + 1 => do
    match ← peek with
    | some '[' =>
      expect "["
      return .list (← items (valueTo depth) (← room))
    | some '\x7b' =>
      expect "\x7b"
      inlineTable (valueTo depth)
    | _ => string <|> scalar

/-- A value. -/
def value : Reader ConfigValue := valueTo maxDepth

end Reader

end WasmEngine.CommandLine.Toml
