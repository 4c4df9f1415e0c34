import WasmEngine.CommandLine.Settings

/-!
# Options

The words of a command line: a module, the function to call with its arguments, and options. An option begins with
two hyphens; its value is the next word, or follows an equals sign. Behind a lone pair of hyphens there are no
options any more.

A word that begins with one hyphen is an argument if it is a negative number and the module has been named
(`isNumber`); no other argument may look like that.
-/

namespace WasmEngine.CommandLine

/-- The options that have a value. -/
inductive OptionName where
  | invoke
  | fuel
  | timeout
  | maxCallDepth
  | config
  | logFormat
  deriving DecidableEq, Repr

namespace OptionName

/-- The option as it is written, without hyphens. -/
def text : OptionName → String
  | invoke => "invoke"
  | fuel => "fuel"
  | timeout => "timeout-ms"
  | maxCallDepth => "max-call-depth"
  | config => "config"
  | logFormat => "log-format"

/-- All options that have a value. -/
def all : List OptionName := [invoke, fuel, timeout, maxCallDepth, config, logFormat]

/-- The option of a name. -/
def ofText? (s : String) : Option OptionName := all.find? (·.text == s)

end OptionName

/-- A natural number below `2 ^ 64` in base ten, which may have a plus sign. -/
def amount? (s : String) : Option Nat :=
  let digits := match s.toList with
    | '+' :: rest => rest
    | cs => cs
  if digits.isEmpty || !digits.all Char.isDigit then none
  else
    let n := digits.foldl (fun n c => 10 * n + (c.toNat - '0'.toNat)) 0
    if n < 0x10000000000000000 then some n else none

/-- Whether an option can have a value. -/
def OptionName.accepts (o : OptionName) (value : String) : Bool :=
  match o with
  | invoke => true
  | fuel | timeout | maxCallDepth => (amount? value).isSome
  | config => value ≠ ""
  | logFormat => ["pretty", "compact", "json"].contains value

/-- What a command line asks for. -/
structure Options where
  module : String
  arguments : List String := []
  invoke : Option String := none
  config : Option String := none
  overrides : Overrides := {}
  stats : Bool := false
  deriving DecidableEq, Repr

/-- Why a command line asks for no run. -/
inductive Refusal where
  | usage
  | help
  | version
  deriving DecidableEq, Repr

/-! ### Reading words -/

/-- The words read so far: the module, the other words that are no options, and the options. -/
structure Words where
  module : Option String := none
  arguments : List String := []
  values : List (OptionName × String) := []
  stats : Bool := false

/-- Digits, with at most one point behind the first of them, and perhaps an exponent: an `e` of either case
with digits and nothing else behind it. -/
def isNumber (cs : List Char) : Bool :=
  let isMark (c : Char) := c = 'e' || c = 'E'
  let mantissa := cs.takeWhile (!isMark ·)
  let exponent := cs.drop (mantissa.length + 1)
  let marked := mantissa.length < cs.length
  let whole := mantissa.takeWhile (· ≠ '.')
  let fraction := mantissa.drop (whole.length + 1)
  !whole.isEmpty && whole.all Char.isDigit && fraction.all Char.isDigit &&
    exponent.all Char.isDigit && (!marked || !exponent.isEmpty)

namespace Words

/-- Add a word that is no option. The first one names the module. -/
def addPlain (w : Words) (s : String) : Except Refusal Words :=
  match w.module with
  | some _ => .ok { w with arguments := w.arguments ++ [s] }
  | none => if s = "" then .error .usage else .ok { w with module := some s }

/-- Add the value of an option, which must not have one already. -/
def addValue (w : Words) (o : OptionName) (value : String) : Except Refusal Words :=
  if (w.values.lookup o).isSome || !o.accepts value then .error .usage
  else .ok { w with values := (o, value) :: w.values }

/-- Add a word that is no option, or the value of the option before it. -/
def add (w : Words) (pending : Option OptionName) (s : String) : Except Refusal Words :=
  match pending with
  | some o => w.addValue o s
  | none => w.addPlain s

/-- An option that has no value. -/
def flag (w : Words) (name : String) : Except Refusal Words :=
  if name = "stats" then if w.stats then .error .usage else .ok { w with stats := true }
  else if name = "help" then .error .help
  else if name = "version" then .error .version
  else .error .usage

/-- Letters behind one hyphen. -/
def letters (cs : List Char) : Refusal :=
  match cs with
  | 'h' :: _ => .help
  | 'V' :: _ => .version
  | _ => .usage

/-- Read words. `pending` is the option whose value comes next, and in `plain` words there are no options. -/
def read (plain : Bool) (pending : Option OptionName) (w : Words) :
    List String → Except Refusal Words
  | [] => if pending.isSome then .error .usage else .ok w
  | s :: rest =>
    if plain then do read true none (← w.addPlain s) rest
    else match s.toList with
      | ['-', '-'] => if pending.isSome then .error .usage else read true none w rest
      | '-' :: '-' :: long =>
        let name := String.ofList (long.takeWhile (· ≠ '='))
        if pending.isSome then .error .usage
        else match OptionName.ofText? name, long.dropWhile (· ≠ '=') with
          | some o, [] => read false (some o) w rest
          | some o, _ :: value => do read false none (← w.addValue o (String.ofList value)) rest
          | none, [] => do read false none (← w.flag name) rest
          | none, _ :: _ => .error .usage
      | '-' :: c :: short =>
        if w.module.isSome && isNumber (c :: short) then do
          read false none (← w.add pending s) rest
        else if pending.isSome then .error .usage
        else .error (letters (c :: short))
      | _ => do read false none (← w.add pending s) rest

end Words

/-- What a command line asks for. -/
def Options.parse (words : List String) : Except Refusal Options := do
  let w ← Words.read false none {} words
  let amount (o : OptionName) : Option Nat := (w.values.lookup o).bind amount?
  match w.module with
  | none => throw .usage
  | some module => return {
      module
      arguments := w.arguments
      invoke := w.values.lookup .invoke
      config := w.values.lookup .config
      overrides := {
        fuel := amount .fuel
        timeout := amount .timeout
        maxCallDepth := amount .maxCallDepth }
      stats := w.stats }

/-! ### Texts -/

/-- What is shown for a version. -/
def versionText : String := "kilnd 0.2.0\n"

/-- The rows of a table in two columns. -/
def columns (rows : List (String × String)) : String :=
  let width := (rows.map (·.1.length)).foldl Nat.max 0
  String.join (rows.map fun (left, right) =>
    left ++ String.ofList (List.replicate (width + 2 - left.length) ' ') ++ right ++ "\n")

/-- What is shown for help. -/
def helpText : String :=
  "Command-line runner for the Kiln WebAssembly engine\n\n" ++
  "Usage: kilnd [OPTIONS] <MODULE> [ARGS]...\n\n" ++
  "Arguments:\n" ++
  columns [
    ("  <MODULE>", "WebAssembly module, binary or text format (`.wat`)"),
    ("  [ARGS]...", "Arguments for the invoked function, parsed per its parameter types")] ++
  "\nOptions:\n" ++
  columns [
    ("      --invoke <NAME>", "Exported function to call"),
    ("      --fuel <FUEL>", "Run with the given amount of fuel, one unit per executed instruction"),
    ("      --timeout-ms <MS>", "Interrupt execution after this many milliseconds"),
    ("      --max-call-depth <N>", "Maximum nesting of WebAssembly calls"),
    ("      --config <FILE>", "TOML configuration file"),
    ("      --stats", "Print execution statistics to stderr"),
    ("      --log-format <LOG_FORMAT>",
      "Format of diagnostic output on stderr [env: RUST_LOG_FORMAT=] [default: pretty] " ++
      "[possible values: pretty, compact, json]"),
    ("  -h, --help", "Print help"),
    ("  -V, --version", "Print version")]

end WasmEngine.CommandLine
