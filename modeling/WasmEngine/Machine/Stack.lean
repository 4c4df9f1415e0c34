import WasmEngine.Code.Op

/-!
# The operand stack

One stack of untyped cells for all the frames of a call. The locals of a frame lie at its base, its operands
above them.

Code that was found valid never pops what is not there; taken for itself, a cell that is not there is
zero.
-/

namespace WasmEngine

/-- The operand stack, the top at the end. -/
structure Stack where
  cells : Array Cell := #[]
  deriving DecidableEq, Repr

namespace Stack

/-- The number of cells. -/
def height (s : Stack) : Nat := s.cells.size

/-- Put a cell on top. -/
def push (s : Stack) (c : Cell) : Stack := ⟨s.cells.push c⟩

/-- The topmost cell. -/
def top (s : Stack) : Cell := s.cells.back?.getD 0

/-- All but the topmost cell. -/
def pop (s : Stack) : Stack := ⟨s.cells.pop⟩

/-- The cell at a position from the bottom. -/
def get (s : Stack) (i : Nat) : Cell := s.cells[i]?.getD 0

/-- Replace the cell at a position from the bottom. -/
def set (s : Stack) (i : Nat) (c : Cell) : Stack := ⟨s.cells.setIfInBounds i c⟩

/-- Put zeros on top. -/
def pushZeros (s : Stack) (n : Nat) : Stack := ⟨s.cells ++ Array.replicate n 0⟩

/-- Keep the cells on top and drop those beneath them. If there are not that many cells, nothing is
dropped. -/
def reshape (s : Stack) (r : Reshape) : Stack :=
  if r.drop = 0 || s.height < r.keep + r.drop then s
  else
    let start := s.height - r.keep
    let kept := s.cells.extract start
    ⟨s.cells.shrink (start - r.drop) ++ kept⟩

/-- The cells from a position on, and the stack without them. -/
def splitAt (s : Stack) (start : Nat) : Stack × List Cell :=
  let above := (s.cells.extract start).toList
  (⟨s.cells.shrink start⟩, above)

end Stack

end WasmEngine
