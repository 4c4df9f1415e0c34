import WasmEngine.CommandLine.Toml.Value

/-!
# Configuration files

The text of a configuration file, in the TOML format. Each line is empty, opens a table, or sets a key.

Settings do not lie deeper than in a table of the file's table. A file that opens tables within tables, or arrays
of tables, sets something that does not exist, and is refused as a whole here.
-/

namespace WasmEngine.CommandLine.Toml

/-- What has been read of a file: the table that is open, all tables that were opened, and what was set, with
the whole path of each key. -/
structure Reading where
  table : List String := []
  opened : List String := []
  settings : List (List String × ConfigValue) := []

namespace Reading

/-- Open a table. It must not have been opened before, nor have been set by keys. -/
def openTable (r : Reading) (name : String) : Option Reading :=
  if r.opened.contains name || r.settings.any fun (path, _) => path.head? = some name then none
  else some { r with table := [name], opened := r.opened ++ [name] }

/-- Set a key. It must not be set already, and neither lie in nor contain what is. -/
def set (r : Reading) (key : List String) (v : ConfigValue) : Option Reading :=
  let settings := (r.table ++ key, v) :: r.settings
  if areApart settings then some { r with settings } else none

/-- What was set. -/
def value (r : Reading) : ConfigValue :=
  .table (entriesOf (r.opened.map (([·], .table [])) ++ r.settings.reverse))

end Reading

namespace Reader

/-- The line that opens a table, behind its opening bracket. -/
def header : Reader String := do
  match ← key maxDepth with
  | [name] =>
    expect "]"
    return name
  | _ => failure

/-- Read lines up to the end of the text. -/
def lines : (room : Nat) → Reading → Reader Reading
  | 0, _ => failure
  | room + 1, r => do
    blanks
    match ← peek with
    | none => return r
    | some c =>
      let r ← if c = '#' || c = '\n' || c = '\r' then pure r
        else if ← skip "[" then do
          let name ← header
          (r.openTable name : Option Reading)
        else do
          let (key, v) ← setting value
          (r.set key v : Option Reading)
      restOfLine
      lines room r

end Reader

/-- The table that the text of a configuration file stands for. -/
def parse? (s : String) : Option ConfigValue :=
  let cs := match s.toList with
    | '\uFEFF' :: rest => rest
    | cs => cs
  (Reader.lines (cs.length + 1) {} cs).map fun (r, _) => r.value

end WasmEngine.CommandLine.Toml
