import WasmEngine.Fault.Decode

/-!
# LEB128 integers

An integer is written in groups of seven bits, the lowest first, and every byte but the last has its
high bit set. The reader is strict: an integer of `n` bits takes at most `n / 7` bytes, rounded up, and in the
last of them the bits beyond the width are zero, or copies of the sign.

Bytes are looked up by position, so the same reader serves a whole module and a window of it. A
failure names the position of the byte at fault.
-/

namespace WasmEngine

namespace Leb128

/-- The low seven bits of a byte. -/
def payload (b : UInt8) : Nat := b.toNat % 128

/-- Whether another byte follows. -/
def continues (b : UInt8) : Bool := 128 ≤ b.toNat

/-- The low seven bits of a byte as a signed number. -/
def signedPayload (b : UInt8) : Int :=
  if 64 ≤ payload b then (payload b : Int) - 128 else payload b

/-- Whether the payload of a last byte fits a width of unsigned bits. -/
def fitsUnsigned (width : Nat) (b : UInt8) : Bool := payload b < Nat.pow 2 width

/-- Whether the payload of a last byte fits a width of signed bits, the sign among them. -/
def fitsSigned (width : Nat) (b : UInt8) : Bool :=
  -(Nat.pow 2 (width - 1) : Int) ≤ signedPayload b && signedPayload b < Nat.pow 2 (width - 1)

/-- How many bytes an integer may take beyond the first. -/
def furtherBytes (width : Nat) : Nat := (width + 6) / 7 - 1

/-- An unsigned integer of `width` bits at a position, of at most one and `further` bytes: its value and
the number of bytes it takes. -/
def unsignedFrom (byteAt : Nat → Option UInt8) :
    (further width position : Nat) → Except DecodeError (Nat × Nat)
  | 0, width, position =>
    match byteAt position with
    | none => .error ⟨.shortage .integer, position⟩
    | some b =>
      if continues b then .error ⟨.integerTooLong, position⟩
      else if fitsUnsigned width b then .ok (payload b, 1)
      else .error ⟨.integerTooLarge, position⟩
  | further + 1, width, position =>
    match byteAt position with
    | none => .error ⟨.shortage .integer, position⟩
    | some b =>
      if continues b then
        match unsignedFrom byteAt further (width - 7) (position + 1) with
        | .ok (value, length) => .ok (payload b + 128 * value, length + 1)
        | .error e => .error e
      else .ok (payload b, 1)

/-- A signed integer of `width` bits at a position, of at most one and `further` bytes: its value and the
number of bytes it takes. -/
def signedFrom (byteAt : Nat → Option UInt8) :
    (further width position : Nat) → Except DecodeError (Int × Nat)
  | 0, width, position =>
    match byteAt position with
    | none => .error ⟨.shortage .integer, position⟩
    | some b =>
      if continues b then .error ⟨.integerTooLong, position⟩
      else if fitsSigned width b then .ok (signedPayload b, 1)
      else .error ⟨.integerTooLarge, position⟩
  | further + 1, width, position =>
    match byteAt position with
    | none => .error ⟨.shortage .integer, position⟩
    | some b =>
      if continues b then
        match signedFrom byteAt further (width - 7) (position + 1) with
        | .ok (value, length) => .ok (payload b + 128 * value, length + 1)
        | .error e => .error e
      else .ok (signedPayload b, 1)

/-- An unsigned integer of `width` bits at a position. -/
def unsigned (width : Nat) (byteAt : Nat → Option UInt8) (position : Nat) :
    Except DecodeError (Nat × Nat) :=
  unsignedFrom byteAt (furtherBytes width) width position

/-- A signed integer of `width` bits at a position. -/
def signed (width : Nat) (byteAt : Nat → Option UInt8) (position : Nat) :
    Except DecodeError (Int × Nat) :=
  signedFrom byteAt (furtherBytes width) width position

end Leb128

end WasmEngine
