/-!
# Categories of errors

Every error belongs to the stage that finds it. The stage gives an error its category.
-/

namespace WasmEngine

/-- The stage an error belongs to. -/
inductive Category where
  | decode
  | validation
  | link
  | trap
  | value
  | resource
  | notFound
  | runtime
  deriving DecidableEq, Repr

namespace Category

/-- The category's name in messages. -/
def text : Category → String
  | decode => "decode"
  | validation => "validation"
  | link => "link"
  | trap => "trap"
  | value => "type"
  | resource => "resource"
  | notFound => "not-found"
  | runtime => "runtime"

/-- The category's number. -/
def number : Category → Nat
  | decode => 1
  | validation => 2
  | link => 3
  | trap => 4
  | value => 5
  | resource => 6
  | notFound => 7
  | runtime => 8

end Category

end WasmEngine
