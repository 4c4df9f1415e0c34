import WasmEngine.Fault.Embedding
import WasmEngine.Value

/-!
# Tables

A `Table` is an array of references, each in the form of a `Cell`. It can grow, never shrinks, and is read
and written only within its bounds: an access that would cross them traps and changes nothing.
-/

namespace WasmEngine

/-- The greatest number of elements of any table. -/
def maxTableElements : Nat := 10000000

/-- A table: the type of its references, its declared maximum and its elements. -/
structure Table where
  element : RefType
  max : Option Nat
  cells : Array Cell

namespace Table

/-- The number of elements. -/
def size (t : Table) : Nat := t.cells.size

/-- The type of the table as it is: its size and its declared maximum. -/
def type (t : Table) : TableType := ⟨t.element, t.size, t.max⟩

/-- A new table of equal elements. -/
def allocate (type : TableType) (init : Cell) : Except ResourceFault Table :=
  if maxTableElements < type.limits.min then
    .error (.tableSize type.limits.min maxTableElements)
  else .ok ⟨type.element, type.limits.max, Array.replicate type.limits.min init⟩

/-- Elements lie within the table. -/
def contains (t : Table) (start length : Nat) : Bool :=
  start + length ≤ t.size

/-- The number of elements that the table may grow to. -/
def bound (t : Table) : Nat :=
  match t.max with
  | some max => min max maxTableElements
  | none => maxTableElements

/-- Cells with others in place of those from a position on. -/
def setAll (start : Nat) : List Cell → Array Cell → Array Cell
  | [], cells => cells
  | c :: rest, cells => setAll (start + 1) rest (cells.setIfInBounds start c)

/-- Put elements at a position. -/
def put (t : Table) (start : Nat) (piece : Array Cell) : Table :=
  { t with cells := setAll start piece.toList t.cells }

/-! ### Reading -/

/-- The element at an index. -/
def get (t : Table) (index : Nat) : Except TrapCode Cell :=
  match t.cells[index]? with
  | some c => .ok c
  | none => .error .tableOutOfBounds

/-- Elements from an index on. -/
def slice (t : Table) (start length : Nat) : Except TrapCode (Array Cell) :=
  if t.contains start length then .ok (t.cells.extract start (start + length))
  else .error .tableOutOfBounds

/-! ### Writing

Each of these goes on from a table to a table. A trap leaves it as it was. -/

/-- What changes a table or traps. -/
abbrev Change := EStateM TrapCode Table

/-- Change the table if a condition on it holds, and trap otherwise. -/
def changeIf (condition : Table → Bool) (change : Table → Table) : Change Unit := fun t =>
  if condition t then .ok () (change t) else .error .tableOutOfBounds t

/-- Replace the element at an index. -/
def set (index : Nat) (c : Cell) : Change Unit :=
  changeIf (·.contains index 1) fun t => { t with cells := t.cells.setIfInBounds index c }

/-- Set elements to one value. -/
def fill (start : Nat) (c : Cell) (length : Nat) : Change Unit :=
  changeIf (·.contains start length) (·.put start (Array.replicate length c))

/-- Copy elements, as they are before the copy. -/
def copyWithin (target source length : Nat) : Change Unit :=
  changeIf (fun t => t.contains source length && t.contains target length)
    fun t => t.put target (t.cells.extract source (source + length))

/-- Copy elements from a segment or from another table. -/
def init (target : Nat) (items : Array Cell) (source length : Nat) : Change Unit :=
  changeIf (fun t => source + length ≤ items.size && t.contains target length)
    (·.put target (items.extract source (source + length)))

/-- Add equal elements. Gives the size before, or nothing if there is no room. -/
def grow (delta : Nat) (c : Cell) : EStateM TrapCode Table (Option Nat) := fun t =>
  let old := t.size
  if old + delta ≤ t.bound then
    .ok (some old) { t with cells := t.cells ++ Array.replicate delta c }
  else .ok none t

end Table

end WasmEngine
