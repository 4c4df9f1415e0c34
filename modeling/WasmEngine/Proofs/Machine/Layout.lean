import WasmEngine.Machine.Stack

/-!
# The layout of the operand stack

The stack is an array that grows at its end, while operands are thought of as a list that begins with the topmost
one. `Stack.of below ops` is the stack with operands on top of what lies below them, which is out of reach
of most ops; in a frame, what lies below ends with the locals. Each operation on the stack is stated for this
form, and never looks at more operands than it is given.
-/

namespace WasmEngine.Stack

/-- The stack that has operands, the topmost first, on top of other cells, the deepest first. -/
def of (below ops : List Cell) : Stack := ⟨(below ++ ops.reverse).toArray⟩

variable {below ops rest : List Cell}

theorem toList_of (below ops : List Cell) : (of below ops).cells.toList = below ++ ops.reverse := rfl

theorem eq_of_toList {s : Stack} (h : s.cells.toList = below ++ ops.reverse) : s = of below ops := by
  obtain ⟨cells⟩ := s
  rw [of, ← h]

theorem height_of (below ops : List Cell) : (of below ops).height = below.length + ops.length := by
  rw [height, ← Array.length_toList, toList_of, List.length_append, List.length_reverse]

/-- Operands can be counted to what lies below the others. -/
theorem of_append (below ops rest : List Cell) : of below (ops ++ rest) = of (below ++ rest.reverse) ops := by
  rw [of, of, List.reverse_append, List.append_assoc]

/-! ### Single cells -/

theorem push_of (c : Cell) : (of below ops).push c = of below (c :: ops) :=
  eq_of_toList (by rw [push, Array.toList_push, toList_of, List.reverse_cons, List.append_assoc])

theorem pop_of (c : Cell) : (of below (c :: ops)).pop = of below ops := by
  rw [← push_of, push, pop, Array.pop_push]

theorem top_of (c : Cell) : (of below (c :: ops)).top = c := by
  rw [← push_of, push, top, Array.back?_push]
  rfl

/-- Reading below the operands. -/
theorem get_of {i : Nat} {c : Cell} (h : below[i]? = some c) : (of below ops).get i = c := by
  rw [get, ← Array.getElem?_toList, toList_of,
    List.getElem?_append_left (List.getElem?_eq_some_iff.mp h).1, h]
  rfl

/-- Writing below the operands. -/
theorem set_of {i : Nat} (h : i < below.length) (c : Cell) :
    (of below ops).set i c = of (below.set i c) ops :=
  eq_of_toList (by rw [set, Array.toList_setIfInBounds, toList_of, List.set_append_left _ _ h])

/-! ### Many cells -/

theorem pushZeros_of (n : Nat) : (of below []).pushZeros n = of (below ++ List.replicate n 0) [] :=
  eq_of_toList (by
    rw [pushZeros, Array.toList_append, toList_of, Array.toList_replicate, List.reverse_nil,
      List.append_nil, List.append_nil])

theorem shrink_of (below ops rest : List Cell) :
    (of below (ops ++ rest)).cells.shrink (below.length + rest.length) = (of below rest).cells := by
  apply Array.toList_inj.mp
  rw [Array.toList_shrink, toList_of, toList_of, List.reverse_append, ← List.append_assoc,
    List.take_left' (by rw [List.length_append, List.length_reverse])]

theorem extract_of (below ops rest : List Cell) :
    ((of below (ops ++ rest)).cells.extract (below.length + rest.length)).toList = ops.reverse := by
  rw [Array.toList_extract, List.extract_eq_take_drop, toList_of, List.reverse_append, ← List.append_assoc,
    List.drop_left' (by rw [List.length_append, List.length_reverse]), List.take_of_length_le]
  rw [of, List.size_toArray]
  simp only [List.length_append, List.length_reverse]
  omega

/-- **A branch** takes along the operands on top and drops those beneath. -/
theorem reshape_of (below kept dropped rest : List Cell) :
    (of below (kept ++ (dropped ++ rest))).reshape ⟨kept.length, dropped.length⟩ = of below (kept ++ rest) := by
  have hheight := height_of below (kept ++ (dropped ++ rest))
  simp only [List.length_append] at hheight
  unfold reshape
  dsimp only
  cases dropped with
  | nil =>
    rw [List.nil_append]
    rfl
  | cons d dropped =>
    have hcut : ¬((d :: dropped).length = 0 ∨
        (of below (kept ++ (d :: dropped ++ rest))).height < kept.length + (d :: dropped).length) := by
      rw [List.length_cons] at *
      omega
    rw [if_neg (by simpa only [Bool.or_eq_true, decide_eq_true_eq] using hcut)]
    have hstart : (of below (kept ++ (d :: dropped ++ rest))).height - kept.length =
        below.length + (d :: dropped ++ rest).length := by
      rw [List.length_append]
      omega
    have hbase : below.length + (d :: dropped ++ rest).length - (d :: dropped).length =
        below.length + rest.length := by
      rw [List.length_append]
      omega
    rw [hstart, hbase]
    apply eq_of_toList
    rw [Array.toList_append, extract_of, ← List.append_assoc kept (d :: dropped) rest, shrink_of, toList_of,
      List.reverse_append, List.append_assoc]

/-- **Returning** leaves the operands on top, and nothing else, above a height. -/
theorem reshape_ret (below kept dropped : List Cell) :
    (of below (kept ++ dropped)).reshape
        ⟨kept.length, (of below (kept ++ dropped)).height - (below.length + kept.length)⟩ = of below kept := by
  have hdrop : (of below (kept ++ dropped)).height - (below.length + kept.length) = dropped.length := by
    rw [height_of, List.length_append]
    omega
  have hreshape := reshape_of below kept dropped []
  rw [List.append_nil, List.append_nil] at hreshape
  rw [hdrop, hreshape]

/-- The operands on top are taken away, the deepest first. -/
theorem splitAt_of (below ops rest : List Cell) :
    (of below (ops ++ rest)).splitAt (below.length + rest.length) = (of below rest, ops.reverse) := by
  rw [splitAt, shrink_of, extract_of]

/-- All operands are taken away, if there are as many. -/
theorem splitAt_args (below : List Cell) {ops : List Cell} {count : Nat} (h : ops.length = count) :
    ¬(of below ops).height < count ∧
      (of below ops).splitAt ((of below ops).height - count) = (of below [], ops.reverse) := by
  have hheight := height_of below ops
  have hall := splitAt_of below ops []
  rw [List.append_nil, List.length_nil, Nat.add_zero] at hall
  refine ⟨by omega, ?_⟩
  rw [hheight, ← h, Nat.add_sub_cancel, hall]

end WasmEngine.Stack
