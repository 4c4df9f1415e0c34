import WasmEngine.Text.Hexadecimal
import WasmEngine.Value

/-!
# Arguments of a call, as texts

The values that are passed to a function from the command line. Integers are written in base ten or, behind
`0x`, in base sixteen; both signed and unsigned integers of the width are understood, and mean the word that
they have in common. Floats are decimals, infinities or `nan`. A reference can only be null.
-/

namespace WasmEngine.CommandLine

/-- The natural number below `2 ^ 64` that digits of a base stand for, at least one of them, behind an optional
plus sign. -/
def natural? (base : Nat) (cs : List Char) : Option Nat := do
  let digits := match cs with
    | '+' :: rest => rest
    | _ => cs
  let step (n : Nat) (c : Char) : Option Nat := do
    let d ← hexDigit? c
    if d < base then some (n * base + d) else none
  let n ← if digits.isEmpty then none else digits.foldlM step 0
  if n < 0x10000000000000000 then some n else none

/-- A natural number in base ten, or in base sixteen behind a mark. -/
def magnitude? : List Char → Option Nat
  | '0' :: 'x' :: digits | '0' :: 'X' :: digits => natural? 16 digits
  | digits => natural? 10 digits

/-- A natural number below `2 ^ 64` as the signed one with the same word. -/
def signedOfWord (n : Nat) : Int :=
  if n < 0x8000000000000000 then n else n - 0x10000000000000000

/-- The signed integer of 64 bits that a text stands for. Without a sign, the text may also stand for an
unsigned one, which has the same word. -/
def integer? (s : String) : Option Int :=
  match s.toList with
  | '-' :: digits => (magnitude? digits).bind fun n =>
    if n ≤ 0x8000000000000000 then some (-(n : Int)) else none
  | digits => (magnitude? digits).map signedOfWord

/-- The word of 32 bits of an integer, signed or unsigned. -/
def narrow? (z : Int) : Option (BitVec 32) :=
  if -0x80000000 ≤ z ∧ z < 0x100000000 then some (BitVec.ofInt 32 z) else none

/-- The value of a type that a text stands for. -/
def value? (type : ValueType) (s : String) : Option Value :=
  match type with
  | .i32 => ((integer? s).bind narrow?).map Value.i32
  | .i64 => (integer? s).map fun z => .i64 (BitVec.ofInt 64 z)
  | .f32 => (FloatFormat.single.ofText? s).map fun n => .f32 (BitVec.ofNat 32 n)
  | .f64 => (FloatFormat.double.ofText? s).map fun n => .f64 (BitVec.ofNat 64 n)
  | .ref t => if s = "null" then some (.null t) else none

/-- What is wrong with the arguments of a call. -/
inductive ArgumentFault where
  | invalid (type : ValueType) (text : String)
  | count (func : FuncType) (given : Nat)
  deriving DecidableEq, Repr

/-- The fault in words. -/
def ArgumentFault.message : ArgumentFault → String
  | invalid type text => s!"invalid {type.text} argument `{text}`"
  | count func given =>
    let expected := func.params.length
    s!"function {func.text} expects {expected} arguments, got {given}"

/-- The value of a type that a text stands for, or the fault that it stands for none. -/
def readValue (type : ValueType) (s : String) : Except ArgumentFault Value :=
  match value? type s with
  | some v => .ok v
  | none => .error (.invalid type s)

/-- The values to call a function with. -/
def readArguments (func : FuncType) (texts : List String) : Except ArgumentFault (List Value) :=
  if texts.length ≠ func.params.length then .error (.count func texts.length)
  else (func.params.zip texts).mapM fun (type, s) => readValue type s

end WasmEngine.CommandLine
