import WasmEngine.Float.Arithmetic
import WasmEngine.Host.Program
import WasmEngine.Host.Signature

/-!
# Sample host functions

Small functions of values alone, to be called from guests in examples and tests. Their signatures cover
all value types and up to six parameters.
-/

namespace WasmEngine

/-- The host function that computes its results from its arguments and does nothing else. -/
def HostFunc.ofValues {σ : Type} (type : FuncType)
    (compute : List Value → Except Error (List Value)) : HostFunc σ where
  type
  body args := match readValues type.params args with
    | .ok args => .finish (compute args)
    | .error fault => .fail (.ofFault (.value fault))

/-- The sample functions. -/
inductive SampleFunc where
  /-- Does nothing. -/
  | nop
  /-- Gives 42. -/
  | answer
  /-- Twice the argument. -/
  | double
  /-- The sum of the arguments. -/
  | add
  /-- Both arguments, the second first, one added to the other. -/
  | swapAndCount
  /-- The first argument less one, and half of the second. -/
  | countAndHalve
  /-- The argument less one, and a failure at zero. -/
  | countDown
  /-- A failure that names the argument. -/
  | fail
  /-- The argument, a reference. -/
  | sameReference (type : RefType)
  /-- Three arguments of two types, the last one first. -/
  | reverseMixed
  /-- A number of arguments, the last one first. -/
  | reverse (count : Nat)
  deriving DecidableEq, Repr

namespace SampleFunc

/-- The signature of a sample function. -/
def type : SampleFunc → FuncType
  | nop => ⟨[], []⟩
  | answer => ⟨[], [.i32]⟩
  | double => ⟨[.i32], [.i32]⟩
  | add => ⟨[.i32, .i32], [.i32]⟩
  | swapAndCount => ⟨[.i64, .f32], [.f32, .i64]⟩
  | countAndHalve => ⟨[.i64, .f64], [.i64, .f64]⟩
  | countDown => ⟨[.i32], [.i32]⟩
  | fail => ⟨[.i32], []⟩
  | sameReference t => ⟨[.ref t], [.ref t]⟩
  | reverseMixed => ⟨[.i32, .i64, .i32], [.i32, .i64, .i32]⟩
  | reverse n => ⟨List.replicate n .i32, List.replicate n .i32⟩

/-- The sample functions by their names. -/
def named : List (String × SampleFunc) :=
  [("nop", nop), ("answer", answer), ("double", double), ("add", add), ("u64_f32", swapAndCount),
    ("i64_f64", countAndHalve), ("checked_dec", countDown), ("fail", fail),
    ("id_extern", sameReference .externref), ("id_func", sameReference .funcref),
    ("three", reverseMixed), ("four", reverse 4), ("five", reverse 5), ("six", reverse 6)]

/-- Half of a number. -/
def half (w : BitVec 64) : BitVec 64 :=
  let two := FloatFormat.double.ofInt 2
  BitVec.ofNat 64 (FloatFormat.double.div w.toNat two)

/-- What a sample function gives for arguments that fit its signature. Sums wrap around. -/
def compute : SampleFunc → List Value → Except Error (List Value)
  | answer, _ => .ok [.i32 42]
  | double, [.i32 x] => .ok [.i32 (x + x)]
  | add, [.i32 x, .i32 y] => .ok [.i32 (x + y)]
  | swapAndCount, [.i64 a, b] => .ok [b, .i64 (a + 1)]
  | countAndHalve, [.i64 a, .f64 b] => .ok [.i64 (a - 1), .f64 (half b)]
  | countDown, [.i32 x] => if x = 0 then .error (.host "underflow") else .ok [.i32 (x - 1)]
  | fail, [.i32 x] => .error (.host s!"failed with {x.toInt}")
  | sameReference _, args => .ok args
  | reverseMixed, args | reverse _, args => .ok args.reverse
  | _, _ => .ok []

/-- A sample function as a host function. -/
def hostFunc {σ : Type} (f : SampleFunc) : HostFunc σ := .ofValues f.type f.compute

end SampleFunc

end WasmEngine
