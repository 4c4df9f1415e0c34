import WasmEngine.Binary.Body
import WasmEngine.Binary.Names

/-!
# The binary form of modules

A module is a header of eight bytes and a sequence of sections, each an identifier, a size and a payload
of exactly that size. Custom sections stand anywhere; each of the others stands at most once, in the
order of `sectionRank?`. `RawModule.ofBytes` reads a module.

A section called `name` that cannot be read is as good as none.
-/

namespace WasmEngine

/-- The place of a section in the order of sections. The count of data segments stands before the code
although its identifier is the last. -/
def sectionRank? (id : UInt8) : Option Nat :=
  [1, 2, 3, 4, 5, 6, 7, 8, 9, 12, 10, 11].idxOf? id |>.map (· + 1)

/-- The bytes that every module starts with. -/
def magicBytes : List UInt8 := [0x00, 0x61, 0x73, 0x6D]

/-- The version of the format, which follows them. -/
def versionBytes : List UInt8 := [0x01, 0x00, 0x00, 0x00]

namespace Decoder

/-- A signature. -/
def funcType (features : Features) : Decoder FuncType := do
  let start ← position
  let form ← byte
  if form ≠ 0x60 then fail (.malformedByte .functionTypeForm form) start
  let params ← vector (valueTypeOf features)
  let results ← vector (valueTypeOf features)
  return { params, results }

/-- The type of a table. -/
def tableType (features : Features) : Decoder TableType := do
  let start ← position
  let element ← refType
  if element = .externref then require features .referenceTypes start
  return { element, limits := ← limits }

/-- The type of a global. -/
def globalType (features : Features) : Decoder GlobalType := do
  let value ← valueTypeOf features
  let start ← position
  let flag ← byte
  if flag = 0 then return { value, mutable := false }
  else if flag = 1 then return { value, mutable := true }
  else fail (.malformedByte .mutability flag) start

/-- An import: both names and what is asked for. -/
def importEntry (features : Features) : Decoder Import := do
  let module ← name
  let field ← name
  let start ← position
  let kind ← byte
  match ExternKind.ofByte? kind with
  | some .func => return { module, field, type := .func (← u32) }
  | some .table => return { module, field, type := .table (← tableType features) }
  | some .memory => return { module, field, type := .memory (← limits) }
  | some .global => return { module, field, type := .global (← globalType features) }
  | none => fail (.malformedByte .importKind kind) start

/-- A global with its initializer. -/
def globalDef (features : Features) : Decoder GlobalDef := do
  let type ← globalType features
  let init ← constExpr features
  return { type, init }

/-- An export: its name, kind and index. -/
def exportEntry : Decoder Export := do
  let text ← name
  let start ← position
  let byte ← byte
  match ExternKind.ofByte? byte with
  | some kind => return { name := text, kind, index := ← u32 }
  | none => fail (.malformedByte .exportKind byte) start

/-- How an element segment is used. The lowest flag sets the active ones apart; the next stands for a table
other than the first, or for a segment that only declares. -/
def elementMode (features : Features) (flags : Nat) : Decoder ElementMode := do
  if flags.testBit 0 then
    return if flags.testBit 1 then .declarative else .passive
  else if flags.testBit 1 then
    let table ← u32
    return .active table (← constExpr features)
  else return .active 0 (← constExpr features)

/-- The type of the references of an element segment, which the plainest segments leave out. -/
def elementType (features : Features) (flags : Nat) : Decoder RefType := do
  let start ← position
  if !flags.testBit 0 && !flags.testBit 1 then return .funcref
  else if flags.testBit 2 then
    let type ← refType
    if type = .externref then require features .referenceTypes start
    return type
  else
    let kind ← byte
    if kind ≠ 0 then fail (.malformedByte .elementKind kind) start
    return .funcref

/-- An element segment. Its highest flag says that the items are initializers and not just functions. -/
def elementSegment (features : Features) : Decoder ElementSegment := do
  let start ← position
  let flags ← u32
  if 7 < flags then fail (.elementSegmentKind flags) start
  if flags ≠ 0 && !features.referenceTypes then require features .bulkMemory start
  let mode ← elementMode features flags
  let type ← elementType features flags
  let items ← vector (if flags.testBit 2 then constExpr features else ConstExpr.refFunc <$> u32)
  return { type, items, mode }

/-- How a data segment is used. -/
def dataMode (features : Features) : Decoder DataMode := do
  let start ← position
  match ← u32 with
  | 0 => return .active 0 (← constExpr features)
  | 1 =>
    require features .bulkMemory start
    return .passive
  | 2 =>
    require features .bulkMemory start
    let memory ← u32
    return .active memory (← constExpr features)
  | flags => fail (.dataSegmentKind flags) start

/-- A data segment: its use, its length and its bytes. -/
def dataSegment (features : Features) : Decoder DataSegment := do
  let mode ← dataMode features
  let length ← u32
  return { mode, bytes := ← bytes length }

/-- A function body behind its size. -/
def sizedBody (features : Features) (limits : DecodeLimits) : Decoder FunctionBody := do
  let size ← u32
  let (body, _) ← within size (functionBody features limits)
  return body

/-- The bodies of as many functions as were declared. -/
def codeSection (features : Features) (limits : DecodeLimits) (declared : Nat) :
    Decoder (List FunctionBody) := do
  let n ← count
  if n ≠ declared then fail .bodyCount (← position)
  items (sizedBody features limits) n

/-- The payload of a custom section. The names of a section called `name` replace any read before. -/
def customSection (m : RawModule) : Decoder RawModule := do
  let text ← name
  let payload ← get
  let data ← bytes payload.remaining
  let m := { m with customs := m.customs ++ [{ name := text, offset := payload.pos, data }] }
  if text = "name" then
    match nameSection.run payload with
    | .ok names _ => return { m with names }
    | .error _ _ => return m
  else return m

/-- The payload of any other section. -/
def knownSection (features : Features) (limits : DecodeLimits) (id : UInt8) (m : RawModule) :
    Decoder RawModule := do
  match id with
  | 1 => return { m with types := ← vector (funcType features) }
  | 2 => return { m with imports := ← vector (importEntry features) }
  | 3 => return { m with functions := ← vector u32 }
  | 4 => return { m with tables := ← vector (tableType features) }
  | 5 => return { m with memories := ← vector Decoder.limits }
  | 6 => return { m with globals := ← vector (globalDef features) }
  | 7 => return { m with exports := ← vector exportEntry }
  | 8 => return { m with start := some (← u32) }
  | 9 => return { m with elements := ← vector (elementSegment features) }
  | 10 => return { m with bodies := ← codeSection features limits m.functions.length }
  | 11 => return { m with data := ← vector (dataSegment features) }
  | 12 => return { m with dataCount := some (← u32) }
  | _ => return m

/-- The payload of a section that is not custom, up to its end. -/
def wholeSection (features : Features) (limits : DecodeLimits) (id : UInt8) (m : RawModule) :
    Decoder RawModule := do
  let m ← knownSection features limits id m
  finish "section"
  return m

/-- One section, behind sections up to a place in the order. Results in the place that is reached. -/
def oneSection (features : Features) (limits : DecodeLimits) (rank : Nat) (m : RawModule) :
    Decoder (Nat × RawModule) := do
  let start ← position
  let id ← byte
  let sizeStart ← position
  let size ← u32
  if limits.maxSectionSize < size then fail (.sectionLimit size limits.maxSectionSize) sizeStart
  let rest ← remaining
  if rest < size then fail (.sectionExceeds size rest) sizeStart
  if id = 0 then
    let (m, _) ← within size (customSection m)
    return (rank, m)
  else
    match sectionRank? id with
    | none => fail (.sectionId id) start
    | some next =>
      if next ≤ rank then fail (.sectionOrder id) start
      let (m, _) ← within size (wholeSection features limits id m)
      return (next, m)

/-- Sections up to the end of the module. Each takes at least two bytes, so no more of them follow than
`fuel`, the number of bytes. -/
def sections (features : Features) (limits : DecodeLimits) :
    (fuel rank : Nat) → RawModule → Decoder RawModule
  | 0, _, m => return m
  | fuel + 1, rank, m => do
    if ← atEnd then return m
    let (rank, m) ← oneSection features limits rank m
    sections features limits fuel rank m

/-- Four bytes of the header. -/
def headerWord (expected : List UInt8) (fault : DecodeFault) : Decoder Unit := do
  let start ← position
  if (← remaining) < 4 then fail fault start
  if (← bytes 4).toList ≠ expected then fail fault start

/-- What the sections together have to agree on: as many bodies as functions, and as many data segments as
announced. -/
def agreement (m : RawModule) : Decoder Unit := do
  let stop ← position
  if m.functions.length ≠ m.bodies.length then fail .bodyCount stop
  match m.dataCount with
  | some n => if n ≠ m.data.length then fail .dataCount stop
  | none => return ()

/-- A module. -/
def module (features : Features) (limits : DecodeLimits) : Decoder RawModule := do
  headerWord magicBytes .magic
  headerWord versionBytes .version
  let m ← sections features limits (← remaining) 0 {}
  agreement m
  return m

end Decoder

/-- Read a module. -/
def RawModule.ofBytes (bytes : ByteArray) (features : Features) (limits : DecodeLimits) :
    Except DecodeError RawModule :=
  match (Decoder.module features limits).run (Cursor.ofBytes bytes) with
  | .ok m _ => .ok m
  | .error e _ => .error e

end WasmEngine
