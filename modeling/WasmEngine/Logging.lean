import WasmEngine.Host.Program

/-!
# Log messages of guests

A guest writes to the log of its embedder by the import `env.log`, which takes a level as a number and then the
position and the length of a message in the guest's memory. What the embedder gets is a `LogOperation`.
-/

namespace WasmEngine

/-- How severe a message is. -/
inductive LogLevel where
  | trace
  | debug
  | info
  | warn
  | error
  | critical
  deriving DecidableEq, Repr

namespace LogLevel

/-- All levels. The position of a level is the number by which a guest names it. -/
def all : List LogLevel := [trace, debug, info, warn, error, critical]

/-- The number of the level. -/
def number (l : LogLevel) : Nat := all.idxOf l

/-- The level that a guest names by a number. -/
def ofNumber? (raw : Int) : Option LogLevel :=
  if raw < 0 then none else all[raw.toNat]?

/-- The name of the level. -/
def text : LogLevel → String
  | trace => "trace"
  | debug => "debug"
  | info => "info"
  | warn => "warn"
  | error => "error"
  | critical => "critical"

/-- The names that a level is read from, in small letters. -/
def names : LogLevel → List String
  | warn => ["warn", "warning"]
  | error => ["error", "err"]
  | critical => ["critical", "fatal"]
  | l => [l.text]

/-- The level of a name, in letters of either case. -/
def ofText? (s : String) : Option LogLevel :=
  let name := s.map Char.toLower
  all.find? fun l => l.names.contains name

/-- The level of a name, or the fault that it names none. -/
def ofText (s : String) : Except RuntimeFault LogLevel :=
  match ofText? s with
  | some l => .ok l
  | none => .error (.invalidLogLevel s)

/-- The level's name in the embedder's own log, which has nothing above an error. -/
def recordName : LogLevel → String
  | trace => "TRACE"
  | debug => "DEBUG"
  | info => "INFO"
  | warn => "WARN"
  | error | critical => "ERROR"

/-- Whether the level is above a warning. -/
def isSevere (l : LogLevel) : Bool := warn.number < l.number

end LogLevel

/-- One message of a guest, with the name of the module that it comes from. -/
structure LogOperation where
  level : LogLevel
  message : String
  module : Option String
  deriving DecidableEq, Repr

/-- The message as it stands in the embedder's own log. -/
def LogOperation.record (op : LogOperation) : String :=
  s!"{op.level.recordName} [" ++ op.module.getD "wasm" ++ s!"] {op.message}"

namespace Logging

variable {σ : Type}

/-- The names under which guests import the log. -/
def importName : ImportName := ⟨"env", "log"⟩

/-- The signature of the log: level, position and length. -/
def type : FuncType := ⟨[.i32, .i32, .i32], []⟩

/-- Read a text from the memory of the caller. -/
def readText (start length : Nat) (next : String → HostProgram σ) : HostProgram σ :=
  .readMemory start length <| .orFail fun bytes => match String.fromUTF8? bytes with
    | some text => next text
    | none => .fail (.ofFault (.runtime (.notUtf8 start)))

/-- The name of the calling module. -/
def callerName (next : Option String → HostProgram σ) : HostProgram σ :=
  .caller fun
    | none => next none
    | some i => .operate (.moduleName i) <| .orFail next

/-- The log, which hands each message over to `handler`. -/
def hostFunc (handler : LogOperation → σ → σ) : HostFunc σ where
  type
  body
    | [.i32 level, .i32 start, .i32 length] => match LogLevel.ofNumber? level.toInt with
      | none => .fail (.ofFault (.runtime (.unknownLogLevel level.toInt)))
      | some level => readText start.toNat length.toNat fun message =>
        callerName fun module => .update (handler ⟨level, message, module⟩) (.return_ [])
    | _ => .fail (.ofFault (.value (.text "env.log expects three arguments")))

end Logging

end WasmEngine
