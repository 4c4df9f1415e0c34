/-!
# Values of a configuration

What a configuration can be written in: numbers, truth values, lists and tables of them. A record with
named fields is given by a table, or by a list of its values in the order of the fields
(`ConfigValue.fields?`).
-/

namespace WasmEngine.CommandLine

/-- A value in a configuration. -/
inductive ConfigValue where
  | absent
  | integer (n : Int)
  | boolean (b : Bool)
  | list (items : List ConfigValue)
  | table (entries : List (String × ConfigValue))
  | other
  deriving Inhabited

namespace ConfigValue

/-- A natural number below a bound. -/
def natural? (bound : Nat) : ConfigValue → Option Nat
  | integer n => if 0 ≤ n ∧ n < bound then some n.toNat else none
  | _ => none

/-- A truth value. -/
def boolean? : ConfigValue → Option Bool
  | boolean b => some b
  | _ => none

/-- The values of a record's fields, in the order of their names. A table has no other names in it. A list
has at least the required number of values; more values than fields are an error unless a surplus is let
through. -/
def fields? (surplus : Bool) (required : Nat) (names : List String) :
    ConfigValue → Option (List (Option ConfigValue))
  | table entries =>
    if entries.all fun (name, _) => names.contains name then some (names.map (entries.lookup ·))
    else none
  | list items =>
    if required ≤ items.length && (surplus || items.length ≤ names.length) then
      some (names.zipIdx.map fun (_, i) => items[i]?)
    else none
  | _ => none

/-- A field that may be left out, read by `read?`. -/
def optional {α : Type} (read? : ConfigValue → Option α) : Option ConfigValue → Option (Option α)
  | none | some absent => some none
  | some v => (read? v).map some

/-- Set a value at a path of keys in the entries of a table, and make the tables on the way there. -/
def put (v : ConfigValue) :
    (path : List String) → List (String × ConfigValue) → List (String × ConfigValue)
  | [], entries => entries
  | [key], entries => entries ++ [(key, v)]
  | key :: path, entries => match entries.lookup key with
    | some (table inner) => entries.map fun (name, w) =>
      if name = key then (name, table (put v path inner)) else (name, w)
    | _ => entries ++ [(key, table (put v path []))]

end ConfigValue

end WasmEngine.CommandLine
