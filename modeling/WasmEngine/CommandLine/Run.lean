import WasmEngine.CommandLine.Argument
import WasmEngine.CommandLine.File
import WasmEngine.CommandLine.Options
import WasmEngine.CommandLine.Toml
import WasmEngine.Linker
import WasmEngine.Logging

/-!
# Runs of the command line

A run compiles a module, instantiates it, and calls one of its functions or lists them all. It ends with what it
writes to its two streams and with an exit status (`Output`).

Machines are driven by whoever runs this: `Options.run` is given a function that drives a machine to its end, which
may take note of time.
-/

namespace WasmEngine.CommandLine

/-- What a run ends with. -/
structure Output where
  status : Nat := 0
  stdout : String := ""
  stderr : String := ""
  deriving DecidableEq, Repr

/-- Why a run fails. -/
inductive RunFault where
  | readConfig (path : String) (fault : FileFault)
  | parseConfig (path : String)
  | parseModule (path : String) (fault : FileFault)
  | readModule (path : String) (fault : FileFault)
  | compile (path : String) (e : Error)
  | instantiate (e : Error)
  | noFunction (name : String)
  | arguments (fault : ArgumentFault)
  | argumentsWithoutFunction
  | invoke (name : String) (e : Error)
  | other (e : Error)

/-- An error in full, with the failure of the host behind it. -/
def errorReport (e : Error) : String :=
  match e.trap?.bind (·.host) with
  | some h => s!"{e.display}: {h.display}"
  | none => e.display

/-- The fault in words, from the outside in. -/
def RunFault.message : RunFault → String
  | readConfig path fault => s!"Failed to read config file: {path}: {fault.message}"
  | parseConfig path => s!"Failed to parse config file: {path}"
  | parseModule path fault =>
    s!"failed to parse {path}: failed to read from `{path}`: {fault.message}"
  | readModule path fault => s!"failed to read {path}: {fault.message}"
  | compile path e => s!"failed to compile {path}: {errorReport e}"
  | instantiate e => s!"failed to instantiate module: {errorReport e}"
  | noFunction name => s!"module has no exported function `{name}`"
  | arguments fault => fault.message
  | argumentsWithoutFunction => "arguments given without --invoke"
  | invoke name e => s!"failed to invoke `{name}`: {errorReport e}"
  | other e => errorReport e

/-- What is written for a refused command line. The words for a wrong one are left to the caller. -/
def Refusal.output : Refusal → Output
  | usage => { status := 2 }
  | help => { stdout := helpText }
  | version => { stdout := versionText }

/-- Lines, each with its end. -/
def textOfLines (lines : List String) : String := String.join (lines.map (· ++ "\n"))

/-- The settings of a run, given what the configuration file holds. -/
def Options.settings (o : Options) (config : String → Except FileFault ByteArray) :
    Except RunFault Settings := do
  match o.config with
  | none => return ConfigFile.merge {} o.overrides
  | some path => match config path with
    | .error fault => throw (.readConfig path fault)
    | .ok bytes => match String.fromUTF8? bytes with
      | none => throw (.readConfig path .notUtf8)
      | some text => match (Toml.parse? text).bind (ConfigFile.ofValue? true) with
        | none => throw (.parseConfig path)
        | some file => return file.merge o.overrides

/-- The module of a run. Files in text format are not read. -/
def Options.compile (o : Options) (settings : Settings) (file : String → Except FileFault ByteArray) :
    Except RunFault Module := do
  let isText := extension? o.module = some "wat"
  match file o.module with
  | .error fault =>
    if isText then throw (.parseModule o.module fault) else throw (.readModule o.module fault)
  | .ok bytes =>
    if isText then throw (.parseModule o.module (.other "the text format is not supported"))
    else match settings.config.compile bytes with
      | .ok m => return m
      | .error e => throw (.compile o.module e)

/-- A store for a run. The messages of guests are checked and go nowhere. -/
def Settings.store (s : Settings) : Store Unit :=
  { Store.new 0 s.config () with fuel := s.fuel }

/-- What a guest can import: the log. -/
def imports : Linker Unit where
  definitions := [(Logging.importName, .host (Logging.hostFunc fun _ u => u))]

/-- What is shown of an exported function. -/
def functionLine (s : Store Unit) (name : String) (e : Extern) : Option String := do
  match s.externType e with
  | .ok (.func type) => some s!"{name}: {type.text}"
  | _ => none

/-- The statistics of a run. -/
def statsLines (s : Store Unit) (fuel : Option Nat) : List String :=
  let consumed := match fuel, s.fuel with
    | some initial, some remaining =>
      let consumed := initial - remaining
      [s!"fuel consumed:      {consumed}"]
    | _, _ => []
  let peaks := s.memoryPeaks.zipIdx.map fun (pages, i) => s!"memory {i} peak:      {pages} pages"
  s.stats.text :: consumed ++ peaks

section Run

variable {m : Type → Type} [Monad m]

/-- The outcome of a machine that was driven to its end. -/
def outcomeOf (driven : Machine Unit) : Except Error (List Value) :=
  driven.outcome?.getD (.error (.ofCode .interrupted))

/-- Call an exported function. Gives the lines of its results. -/
def callExport (drive : Machine Unit → m (Machine Unit)) (s : Store Unit) (i : InstanceHandle)
    (name : String) (texts : List String) : ExceptT RunFault m (List String × Store Unit) := do
  match (s.exported? i name).bind (·.func?) with
  | none => throw (.noFunction name)
  | some h => match s.func h with
    | .error e => throw (.other e)
    | .ok f => match readArguments f.type texts with
      | .error fault => throw (.arguments fault)
      | .ok args =>
        let driven ← drive (Machine.call s h args [])
        match outcomeOf driven with
        | .error e => throw (.invoke name e)
        | .ok values => return (values.map Value.text, driven.store)

/-- Run what a command line asks for, given the files that it may name. -/
def Options.execute (o : Options) (drive : Option Nat → Machine Unit → m (Machine Unit))
    (file : String → Except FileFault ByteArray) : ExceptT RunFault m Output := do
  let settings ← ExceptT.mk (pure (o.settings file))
  let module ← ExceptT.mk (pure (o.compile settings file))
  let drive := drive settings.timeout
  let s := settings.store
  let i : InstanceHandle := ⟨s.id, s.instances.size⟩
  let driven ← drive (imports.instantiate s module [])
  match outcomeOf driven with
  | .error e => throw (.instantiate e)
  | .ok _ =>
    let s := driven.store
    let (lines, s) ← match o.invoke with
      | some name => callExport drive s i name o.arguments
      | none =>
        if o.arguments.isEmpty then
          let exports := (s.instance? i).elim [] (·.exports)
          pure (exports.filterMap fun (name, e) => functionLine s name e, s)
        else throw .argumentsWithoutFunction
    return {
      stdout := textOfLines lines
      stderr := if o.stats then textOfLines (statsLines s settings.fuel) else "" }

/-- Run a command line. -/
def run (words : List String) (drive : Option Nat → Machine Unit → m (Machine Unit))
    (file : String → Except FileFault ByteArray) : m Output := do
  match Options.parse words with
  | .error refusal => return refusal.output
  | .ok o => match ← (o.execute drive file).run with
    | .ok output => return output
    | .error fault => return { status := 1, stderr := s!"error: {fault.message}\n" }

end Run

/-- Run a command line without regard to time. -/
def runWith (files : List (String × ByteArray)) (words : List String) : Output :=
  Id.run (run words (fun _ machine => pure (machine.run Machine.manySteps)) (readFrom files))

end WasmEngine.CommandLine
