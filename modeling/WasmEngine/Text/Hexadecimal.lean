/-!
# Hexadecimal texts

Numbers, words of a fixed width, and bytes in base 16, with lower case digits.
-/

namespace WasmEngine

/-- The lower case hexadecimal digits of a number, with the mark `0x` in front. -/
def hexText (n : Nat) : String :=
  "0x" ++ String.ofList (Nat.toDigits 16 n)

/-- A word in hexadecimal, with all its digits. -/
def wordText (digits n : Nat) : String :=
  let shown := Nat.toDigits 16 n
  String.ofList (List.replicate (digits - shown.length) '0' ++ shown)

/-- Bytes in hexadecimal, two digits for each. -/
def hexBytes (b : ByteArray) : String :=
  String.ofList <| b.toList.flatMap fun x => [Nat.digitChar (x.toNat / 16), Nat.digitChar (x.toNat % 16)]

/-- The number that a hexadecimal digit of either case stands for. -/
def hexDigit? (c : Char) : Option Nat :=
  if '0' ≤ c ∧ c ≤ '9' then some (c.toNat - '0'.toNat)
  else if 'a' ≤ c ∧ c ≤ 'f' then some (c.toNat - 'a'.toNat + 10)
  else if 'A' ≤ c ∧ c ≤ 'F' then some (c.toNat - 'A'.toNat + 10)
  else none

/-- The number that hexadecimal digits stand for. No digits stand for zero. -/
def ofHexDigits? (cs : List Char) : Option Nat :=
  cs.foldlM (fun n c => (hexDigit? c).map (n * 16 + ·)) 0

/-- The bytes that pairs of hexadecimal digits stand for, behind those of `read`. -/
def ofHexPairs? : List Char → (read : ByteArray) → Option ByteArray
  | [], read => some read
  | c :: d :: rest, read => do
    let byte := UInt8.ofNat ((← hexDigit? c) * 16 + (← hexDigit? d))
    ofHexPairs? rest (read.push byte)
  | [_], _ => none

/-- The bytes that a hexadecimal text stands for. -/
def ofHexBytes? (s : String) : Option ByteArray := ofHexPairs? s.toList ByteArray.empty

end WasmEngine
