import WasmEngine.Text.Hexadecimal
import WasmEngine.Value

/-!
# Values with their types

A value written with its type in front, as in `i32:-5`, `f32:7fc00000` or `funcref:null`. Floats are given by
their bits, so nothing about a value is lost.
-/

namespace WasmEngine.Value

/-- A value with its type in front. -/
def tagged : Value → String
  | i32 w => s!"i32:{w.toInt}"
  | i64 w => s!"i64:{w.toInt}"
  | f32 w => s!"f32:{wordText 8 w.toNat}"
  | f64 w => s!"f64:{wordText 16 w.toNat}"
  | ref t none => s!"{t.text}:null"
  | ref t (some a) => s!"{t.text}:{a.toNat}"

/-- The value of a type that a text stands for. -/
def ofUntagged? (type : ValueType) (s : String) : Option Value :=
  match type with
  | .i32 => s.toInt?.map fun n => i32 (BitVec.ofInt 32 n)
  | .i64 => s.toInt?.map fun n => i64 (BitVec.ofInt 64 n)
  | .f32 => (ofHexDigits? s.toList).map fun n => f32 (BitVec.ofNat 32 n)
  | .f64 => (ofHexDigits? s.toList).map fun n => f64 (BitVec.ofNat 64 n)
  | .ref t => if s = "null" then some (null t) else s.toNat?.map fun n => ref t (some (BitVec.ofNat 32 n))

/-- The value that is written with its type in front. -/
def ofTagged? (s : String) : Option Value :=
  match s.splitOn ":" with
  | [type, rest] => do ofUntagged? (← ValueType.ofText? type) rest
  | _ => none

end WasmEngine.Value
