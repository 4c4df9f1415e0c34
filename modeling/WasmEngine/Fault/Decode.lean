import WasmEngine.Features
import WasmEngine.Fault.Category
import WasmEngine.Trap

/-!
# Faults of decoding

What makes bytes no module, as causes with a number and a wording. The constructor named `text`
carries the embedder's own words.
-/

namespace WasmEngine

/-- Two lower case hexadecimal digits of a byte, with the mark `0x` in front. -/
def hexByteText (b : UInt8) : String :=
  "0x" ++ String.ofList [Nat.digitChar (b.toNat / 16), Nat.digitChar (b.toNat % 16)]

/-- The places where input can end too early. -/
inductive Shortage where
  | integer
  | window
  | vector (count : Nat)
  | body
  deriving DecidableEq, Repr

/-- The single bytes that have only a few valid values. -/
inductive ByteField where
  | functionTypeForm
  | importKind
  | mutability
  | exportKind
  | elementKind
  deriving DecidableEq, Repr

/-- Why an initializer is no constant expression. -/
inductive ConstantFault where
  | empty
  | opcode (byte : UInt8)
  | tooLong
  deriving DecidableEq, Repr

/-- What makes bytes no module. -/
inductive DecodeFault where
  | text (message : String)
  | malformedByte (field : ByteField) (byte : UInt8)
  | limitsFlag (byte : UInt8)
  | elementSegmentKind (flags : Nat)
  | dataSegmentKind (flags : Nat)
  | nonZeroByte
  | selectArity
  | blockType (index : Int)
  | magic
  | version
  | shortage (place : Shortage)
  | integerTooLong
  | sectionOrder (id : UInt8)
  | lengthExceeds (length remaining : Nat)
  | leftOver (what : String) (bytes : Nat)
  | sectionLimit (size limit : Nat)
  | sectionExceeds (size remaining : Nat)
  | utf8
  | sectionId (id : UInt8)
  | opcode (byte : UInt8)
  | longOpcode (sub : Nat)
  | valueType (byte : UInt8)
  | refType (byte : UInt8)
  | bodyCount
  | dataCount
  | tooManyLocals (limit : Nat)
  | disabled (proposal : Proposal)
  | integerTooLarge
  | constant (fault : ConstantFault)
  deriving DecidableEq, Repr

/-- The name of a field in messages. -/
def ByteField.text : ByteField → String
  | functionTypeForm => "function type form"
  | importKind => "import kind"
  | mutability => "mutability"
  | exportKind => "export kind"
  | elementKind => "element kind"

/-- How a shortage is worded. -/
def Shortage.message : Shortage → String
  | integer => "unexpected end of LEB128 integer"
  | window => "unexpected end of section or function"
  | vector count => s!"vector of {count} items exceeds remaining input"
  | body => "function body must end with END opcode"

/-- How a fault of a constant expression is worded. -/
def ConstantFault.message : ConstantFault → String
  | empty => "type mismatch: constant expression is empty"
  | opcode byte => s!"constant expression required, found opcode {hexByteText byte}"
  | tooLong => "constant expression must be a single instruction"

namespace DecodeFault

/-- A constant expression that is none counts as a validation error although it is found while
decoding. -/
def category : DecodeFault → Category
  | constant _ => .validation
  | _ => .decode

/-- The number of the fault. -/
def number : DecodeFault → Nat
  | text _ | malformedByte .. | limitsFlag _ | elementSegmentKind _ | dataSegmentKind _
  | nonZeroByte | selectArity | blockType _ => 1000
  | magic => 1001
  | version => 1002
  | shortage _ => 1003
  | integerTooLong => 1004
  | sectionOrder _ => 1005
  | lengthExceeds .. | leftOver .. => 1006
  | sectionLimit .. | sectionExceeds .. => 1007
  | utf8 => 1008
  | sectionId _ => 1009
  | opcode _ | longOpcode _ => 1010
  | valueType _ | refType _ => 1011
  | bodyCount => 1012
  | dataCount => 1013
  | tooManyLocals _ => 1014
  | disabled _ => 1015
  | integerTooLarge => 1016
  | constant _ => 2016

/-- The fault in words. -/
def message : DecodeFault → String
  | text m => m
  | malformedByte field byte => s!"malformed {field.text} {hexByteText byte}"
  | limitsFlag byte => s!"invalid limits flag {hexByteText byte}"
  | elementSegmentKind flags => s!"malformed elements segment kind {flags}"
  | dataSegmentKind flags => s!"malformed data segment kind {flags}"
  | nonZeroByte => "zero byte expected"
  | selectArity => "invalid result arity for typed select"
  | blockType index => s!"invalid block type {index}"
  | magic => "magic header not detected"
  | version => "unknown binary version"
  | shortage place => place.message
  | integerTooLong => "integer representation too long"
  | sectionOrder id => s!"unexpected section {id}: duplicate or out of order"
  | lengthExceeds length remaining =>
    s!"length {length} out of bounds, {remaining} bytes remaining"
  | leftOver what bytes => s!"{what} size mismatch: {bytes} unconsumed bytes"
  | sectionLimit size limit => s!"section size {size} exceeds limit of {limit} bytes"
  | sectionExceeds size remaining => s!"section size {size} exceeds the {remaining} remaining bytes"
  | utf8 => "malformed UTF-8 encoding"
  | sectionId id => s!"malformed section id {id}"
  | opcode byte => s!"illegal opcode {hexByteText byte}"
  | longOpcode sub => s!"illegal opcode 0xfc {sub}"
  | valueType byte => s!"invalid value type {hexByteText byte}"
  | refType byte => s!"invalid reference type {hexByteText byte}"
  | bodyCount => "function and code section have inconsistent lengths"
  | dataCount => "data count and data section have inconsistent lengths"
  | tooManyLocals limit => s!"too many locals: more than {limit}"
  | disabled proposal => s!"{proposal.text} support is not enabled"
  | integerTooLarge => "integer too large"
  | constant fault => fault.message

end DecodeFault

/-- A fault of decoding and the offset of the byte where it was found. -/
structure DecodeError where
  fault : DecodeFault
  offset : Nat
  deriving DecidableEq, Repr

end WasmEngine
