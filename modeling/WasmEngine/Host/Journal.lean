import WasmEngine.Logging
import WasmEngine.Text.Quoted
import WasmEngine.Value.Tagged

/-!
# Host functions that keep a journal

A `Journal` is embedder's data for a store in which host functions note what happens to them. A host function
made from a `HostAct` notes each of its calls with the arguments, and then does one thing: it returns
values, fails, works on the memory of its caller, or uses the caller's exports.
-/

namespace WasmEngine

/-- What was noted in a store: events, messages of guests as they came, and lines of the embedder's log. -/
structure Journal where
  events : Array String := #[]
  messages : Array LogOperation := #[]
  records : Array String := #[]

namespace Journal

/-- Note an event. -/
def note (event : String) (j : Journal) : Journal :=
  { j with events := j.events.push event }

/-- Keep the message of a guest. -/
def keep (op : LogOperation) (j : Journal) : Journal :=
  { j with messages := j.messages.push op }

/-- Write the message of a guest to the embedder's log. -/
def record (op : LogOperation) (j : Journal) : Journal :=
  { j with records := j.records.push op.record }

end Journal

/-- A message with its level and its module, if that has a name. -/
def LogOperation.text (op : LogOperation) : String :=
  s!"{op.level.text}|{Text.Quoted.encodeOption op.module}|{op.message}"

/-- The one thing that a host function does. -/
inductive HostAct where
  /-- Return these values. -/
  | give (values : List Value)
  /-- Return the arguments. -/
  | echo
  /-- Return the sum of those arguments that are 32-bit integers. -/
  | sum
  /-- Fail in these words. -/
  | fail (message : String)
  /-- Trap. -/
  | trap (code : TrapCode)
  /-- Note the bytes that the first two arguments delimit in the caller's memory. -/
  | read
  /-- Note the text that the first two arguments delimit in the caller's memory. -/
  | readText
  /-- Write bytes to the caller's memory, where the first argument says. -/
  | write (bytes : ByteArray)
  /-- Note the size of the caller's memory and the number of events. -/
  | memorySize
  /-- Call an export of the caller with the same arguments. If an error is to be caught, it is noted. -/
  | callExport (name : String) (catching : Bool)
  /-- Call the function that an argument refers to. -/
  | callReference (argument : Nat)
  /-- Grow a memory that the caller exports. -/
  | growExport (name : String) (delta : Nat)
  /-- Set a global that the caller exports. -/
  | setExport (name : String) (value : Value)
  /-- Ask the code that runs to stop. -/
  | interrupt
  /-- Add fuel. -/
  | addFuel (fuel : Nat)
  /-- Note whether there is a calling instance, and the name of its module. -/
  | describe

namespace HostAct

/-- Whether the act needs more of its caller than the memory. -/
def needsCaller : HostAct → Bool
  | callExport .. | callReference _ | growExport .. | setExport .. | interrupt | addFuel _
  | describe => true
  | _ => false

/-- Note an event, and go on. -/
def noting (event : String) (next : HostProgram Journal) : HostProgram Journal :=
  .update (Journal.note event) next

/-- A failure of the host, in words. -/
def failWith (message : String) : HostProgram Journal := .fail (.host message)

/-- Go on with an export of the caller. -/
def onExport {α : Type} (name : String) (pick : Extern → Option α) (next : α → HostProgram Journal) :
    HostProgram Journal :=
  let missing := failWith "no such export"
  .caller fun
    | none => missing
    | some i => .operate (.exported i name) <| .orFail fun e => (e.bind pick).elim missing next

/-- The word of an argument, zero if there is none of that type. -/
def wordAt (args : List Value) (index : Nat) : Nat :=
  match args[index]? with
  | some (.i32 w) => w.toNat
  | _ => 0

/-- The sum of those values that are 32-bit integers. -/
def sumOf (args : List Value) : BitVec 32 :=
  args.foldl (fun n v => match v with
    | .i32 w => n + w
    | _ => n) 0

/-- Return the default values for the results of a function. -/
def giveDefaults (f : Handle .func) : HostProgram Journal :=
  .operate (.externType (.func f)) <| .orFail fun
    | .func type => .return_ (type.results.map Value.zero)
    | _ => .return_ []

/-- Call a function, and note an error instead of failing with it. -/
def callCatching (label : String) (f : Handle .func) (args : List Value) : HostProgram Journal :=
  .call f args fun
    | .ok values => .return_ values
    | .error e => noting s!"{label} caught {e.message}" (giveDefaults f)

/-- A size that may be absent, as it stands in an event. -/
def sizeText : Option Nat → String
  | none => "None"
  | some n => s!"Some({n})"

/-- What the act does with the arguments of a call. -/
def perform (label : String) (args : List Value) : HostAct → HostProgram Journal
  | give values => .return_ values
  | echo => .return_ args
  | sum => .return_ [.i32 (sumOf args)]
  | fail message => failWith message
  | trap code => .fail (.ofCode code)
  | read => .readMemory (wordAt args 0) (wordAt args 1) <| .orFail fun bytes =>
    noting s!"{label} read {hexBytes bytes}" (.return_ [])
  | readText => Logging.readText (wordAt args 0) (wordAt args 1) fun t =>
    noting s!"{label} read {t}" (.return_ [])
  | write bytes => .writeMemory (wordAt args 0) bytes <| .orFail fun () => .return_ []
  | memorySize => .memorySize fun size => .inspect fun journal =>
    noting s!"{label} size {sizeText size} after {sizeText (some journal.events.size)} events" (.return_ [])
  | callExport name catching => onExport name Extern.func? fun f =>
    if catching then callCatching label f args else .call f args .finish
  | callReference argument => match args[argument]? with
    | none => failWith "no such export"
    | some v => .operate (.funcOfValue v) <| .orFail fun
      | none => failWith "null or foreign reference"
      | some f => .call f [] .finish
  | growExport name delta => onExport name Extern.memory? fun m =>
    .operate (.growMemory m delta) <| .orFail fun old => .return_ [.i32 (BitVec.ofNat 32 old)]
  | setExport name value => onExport name Extern.global? fun g =>
    .operate (.setGlobal g value) <| .orFail fun () => .return_ []
  | interrupt => .operate .interrupt <| .orFail fun () => .return_ []
  | addFuel fuel => .operate (.addFuel fuel) <| .orFail fun () => .return_ []
  | describe => .caller fun i => Logging.callerName fun module =>
    noting s!"{label} instance={i.isSome} module={Text.Quoted.encodeOption module}" (.return_ [])

/-- The host function that notes each call and then acts. One that gets no more than the memory of its
caller fails to act if that needs more. -/
def hostFunc (type : FuncType) (label : String) (memoryOnly : Bool) (act : HostAct) :
    HostFunc Journal where
  type
  body args := noting (label ++ "(" ++ ",".intercalate (args.map Value.tagged) ++ ")") <|
    if memoryOnly && act.needsCaller then failWith "act needs a Caller" else act.perform label args

end HostAct

end WasmEngine
