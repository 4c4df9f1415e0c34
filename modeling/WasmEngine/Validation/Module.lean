import WasmEngine.Binary.Module
import WasmEngine.Module.Basic
import WasmEngine.Validation.Lowering

/-!
# Validation of modules

`RawModule.validate` checks a module section by section, then the bodies of its functions, and gives the module
in the form that can be instantiated. `Module.ofBytes` reads and validates in one go.
-/

namespace WasmEngine

namespace Context

/-- Without multiple values, no signature has more than one result. -/
def checkTypes (c : Context) : Except ValidationFault Unit :=
  if c.features.multiValue then return ()
  else match c.types.find? (1 < ·.results.length) with
    | some type => throw (.resultArity type)
    | none => return ()

/-- What a table may declare. -/
def checkTable (t : TableType) : Except ValidationFault Unit :=
  t.limits.check maxTableSize "table"

/-- What a memory may declare. -/
def checkMemory (l : Limits) : Except ValidationFault Unit :=
  l.check maxMemoryPages "memory"

/-- The type of an import makes sense. -/
def checkImport (c : Context) (i : Import) : Except ValidationFault Unit :=
  match i.type with
  | .func t => do
    let _ ← c.type t
  | .table t => checkTable t
  | .memory l => checkMemory l
  | .global _ => return ()

/-- The signature of a function exists. -/
def checkFunction (c : Context) (type : Nat) : Except ValidationFault Unit := do
  let _ ← c.type type

/-- Only with reference types is there more than one table. -/
def checkTableCount (c : Context) : Except ValidationFault Unit :=
  if 1 < c.tables.length && !c.features.referenceTypes then throw .multipleTables else return ()

/-- There is at most one memory. -/
def checkMemoryCount (c : Context) : Except ValidationFault Unit :=
  if 1 < c.memories.length then throw .multipleMemories else return ()

/-- The initializer of a global has its type. -/
def checkGlobal (c : Context) (g : GlobalDef) : Except ValidationFault Unit :=
  c.expectConst g.init g.type.value

/-- There is something to export. -/
def checkExport (c : Context) (e : Export) : Except ValidationFault Unit := do
  match e.kind with
  | .func => let _ ← c.func e.index
  | .table => let _ ← c.table e.index
  | .memory => let _ ← c.memory e.index
  | .global => let _ ← c.global e.index

/-- Exports have different names and refer to something. `names` are those of earlier exports. -/
def checkExports (c : Context) : (names : List String) → List Export → Except ValidationFault Unit
  | _, [] => return ()
  | names, e :: rest =>
    if names.contains e.name then throw (.duplicateExport e.name)
    else do
      c.checkExport e
      c.checkExports (e.name :: names) rest

/-- The start function takes and returns nothing. -/
def checkStart (c : Context) (func : Nat) : Except ValidationFault Unit := do
  let type ← c.func func
  if type = ⟨[], []⟩ then return () else throw (.startType type)

/-- The references of an element segment have its type, and so has the table it is written to. -/
def checkElement (c : Context) (s : ElementSegment) : Except ValidationFault Unit := do
  s.items.forM fun item => c.expectConst item (.ref s.type)
  match s.mode with
  | .active table offset =>
    let t ← c.table table
    if t.element = s.type then c.expectConst offset .i32
    else throw (.clash (.elementSegment s.type t.element))
  | .passive | .declarative => return ()

/-- A data segment is written to a memory at an offset that is a number. -/
def checkData (c : Context) (s : DataSegment) : Except ValidationFault Unit :=
  match s.mode with
  | .active memory offset => do
    let _ ← c.memory memory
    c.expectConst offset .i32
  | .passive => return ()

/-- Everything outside of function bodies. -/
def checkDeclarations (c : Context) (m : RawModule) : Except ValidationFault Unit := do
  c.checkTypes
  m.imports.forM c.checkImport
  m.functions.forM c.checkFunction
  m.tables.forM checkTable
  c.checkTableCount
  m.memories.forM checkMemory
  c.checkMemoryCount
  m.globals.forM c.checkGlobal
  c.checkExports [] m.exports
  m.start.forM c.checkStart
  m.elements.forM c.checkElement
  m.data.forM c.checkData

end Context

/-- Check bodies of functions with consecutive indices and bring them into executable form. -/
def FunctionBody.compileAll (c : Context) : (func : Nat) → List FunctionBody →
    Except Error (List CompiledBody)
  | _, [] => return []
  | func, body :: rest => do
    let compiled ← body.compile c func
    return compiled :: (← compileAll c (func + 1) rest)

/-- Check a module under the given features and bring its functions into executable form. -/
def RawModule.validate (m : RawModule) (features : Features) : Except Error Module :=
  let c := Context.ofModule m features
  match c.checkDeclarations m with
  | .error fault => .error (.ofFault (.validation fault))
  | .ok () => do
    let code ← FunctionBody.compileAll c (m.importedCount .func) m.bodies
    return { m with code := code.toArray }

/-- Read a module and check it. -/
def Module.ofBytes (bytes : ByteArray) (features : Features) (limits : DecodeLimits) :
    Except Error Module :=
  match RawModule.ofBytes bytes features limits with
  | .error e => .error (.ofDecode e)
  | .ok m => m.validate features

end WasmEngine
