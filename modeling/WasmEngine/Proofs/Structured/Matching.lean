import WasmEngine.Proofs.Machine.Frames
import WasmEngine.Proofs.Structured.Spots

/-!
# Frames of both forms

A frame of a body in executable form and a frame of the same body as it was read match if execution goes on at the
same place in both (`Frame.Matches`). The structured one may have to pass over the starts and ends of blocks first; it
then comes to rest where the other one is, and so both have the same line in a stack trace
(`Frame.Matches.trace`).
-/

namespace WasmEngine

variable {features : Features} {b : TypedBody} {f : Frame} {g : StructuredFrame} {operands : List Operand}

/-- **A label unwinds the stack** down to where its block begins, and carries along what is on top. -/
theorem Stack.unwind_of (below kept dropped rest : List Cell) :
    (of below (kept ++ (dropped ++ rest))).unwind (below.length + rest.length) kept.length =
      of below (kept ++ rest) := by
  have hheight : (of below (kept ++ (dropped ++ rest))).height - kept.length =
      below.length + (dropped ++ rest).length := by
    rw [height_of, List.length_append, List.length_append]
    omega
  apply eq_of_toList
  rw [unwind, Array.toList_append, hheight, extract_of, ← List.append_assoc kept dropped rest, shrink_of, toList_of,
    List.reverse_append, List.append_assoc]

/-- Returning unwinds the stack down to a height. -/
theorem Stack.unwind_ret (below kept dropped : List Cell) :
    (of below (kept ++ dropped)).unwind below.length kept.length = of below kept := by
  have hunwind := unwind_of below kept dropped []
  rwa [List.append_nil, List.append_nil] at hunwind

/-! ### Frames that match -/

/-- The offset of the end of a body. -/
def TypedBody.close (b : TypedBody) : Nat := (b.code.getLast?.map (·.offset)).getD 0

/-- **Two frames match** if execution goes on at the same place of the same body. -/
def Frame.Matches (f : Frame) (g : StructuredFrame) : Prop :=
  ∃ features b operands, TypedBody.Of b f.module features f.func f.body ∧ g.toScope = f.toScope ∧
    g.close = b.close ∧ b.Stops (f.base + b.locals.length) f.pc operands g.code g.labels

namespace TypedBody

variable {bottom pc : Nat} {code : List (Nat × Instruction)} {labels : List Label} {m : Module}

/-- It does not matter which typed body of the function one looks at. -/
theorem Stops.of_visits {b' : TypedBody} (h : b.Stops bottom pc operands code labels)
    (hresults : b'.results = b.results) (hcode : b'.code = b.code) (hvisits : ∀ {p : Spot}, b.Visits p → b'.Visits p) :
    b'.Stops bottom pc operands code labels := by
  cases h with
  | spot hv hlive hknown => exact .spot (hvisits hv) hlive hknown
  | exit =>
    rw [← hresults, ops, ← hcode]
    exact .exit

/-- **Where execution goes on, structured execution comes to rest.** -/
theorem Stops.settles (hcontext : b.context = m.context features) (h : b.Stops bottom pc operands code labels) :
    ∃ code' labels', StructuredFrame.settle m.toRawModule (bottom + operands.length) code labels = (code', labels') ∧
      b.Stops bottom pc operands code' labels' ∧ ∀ x ∈ code'.head?, x.2.width = 1 := by
  cases h with
  | spot hv hlive hknown => exact hv.settles hcontext hlive hknown
  | exit => exact ⟨[], [], rfl, .exit, nofun⟩

/-- The height of the stack does not matter for the code at which structured execution comes to rest. -/
theorem settle_code (m : RawModule) (height height' : Nat) (code : List (Nat × Instruction))
    (labels labels' : List Label) :
    (StructuredFrame.settle m height code labels).1 = (StructuredFrame.settle m height' code labels').1 := by
  induction code generalizing labels labels' with
  | nil => rfl
  | cons x rest ih =>
    obtain ⟨offset, i⟩ := x
    cases i with
    | nop | block | loop | end_ => exact ih _ _
    | _ => rfl

/-- The op at a place, and the offset of its instruction. -/
theorem Of.op {func : Nat} {body : CompiledBody} (h : b.Of m features func body) {op : Nat × Op}
    (hop : b.ops[pc]? = some op) : body.offsetOf pc = op.1 := by
  obtain ⟨_, source, -, -, -, -, -, rfl⟩ := h.source
  have hlt := (List.getElem?_eq_some_iff.mp hop).1
  change (((b.ops ++ [_]).map fun x : Nat × Op => x.1).toArray[pc]?).getD 0 = _
  rw [List.getElem?_toArray, List.getElem?_map, List.getElem?_append_left hlt, hop]
  rfl

theorem Of.close {func : Nat} {body : CompiledBody} (h : b.Of m features func body) :
    body.offsetOf b.ops.length = b.close := by
  obtain ⟨_, source, -, -, -, -, -, rfl⟩ := h.source
  change (((b.ops ++ [(b.close, Op.ret)]).map fun x : Nat × Op => x.1).toArray[b.ops.length]?).getD 0 = _
  rw [List.getElem?_toArray, List.getElem?_map, List.getElem?_append_right (Nat.le_refl _), Nat.sub_self]
  rfl

/-- **The offset of the op that comes next** is that of the instruction ahead, or that of the end of the body. -/
theorem Stops.offset {func : Nat} {body : CompiledBody} (hof : b.Of m features func body)
    (h : b.Stops bottom pc operands code labels) (hhead : ∀ x ∈ code.head?, x.2.width = 1) :
    body.offsetOf pc = (code.head?.map (·.1)).getD b.close := by
  cases h with
  | exit => exact hof.close
  | @spot p hv hlive hknown =>
    obtain ⟨t, code, pc, starts, heads⟩ := p
    cases code with
    | nil => nomatch hv.checks
    | cons x rest =>
      obtain ⟨op, ops, hops⟩ := TypedInstruction.lower_op pc starts x rest (hhead _ rfl)
      exact hof.op (hv.op hops)

end TypedBody

/-- **Frames that match have the same line in a stack trace.** -/
theorem Frame.Matches.trace (h : f.Matches g) : g.trace = f.trace := by
  obtain ⟨features, b, operands, hof, hscope, hclose, hstops⟩ := h
  obtain ⟨code, labels, hsettle, hstops, hhead⟩ := hstops.settles hof.context
  have hcode : (StructuredFrame.settle f.module.toRawModule 0 g.code g.labels).1 = code := by
    rw [TypedBody.settle_code _ _ _ _ _ g.labels, hsettle]
  have htrace : g.trace = ⟨g.func, g.module.funcName? g.func,
    ((StructuredFrame.settle g.module.toRawModule 0 g.code g.labels).1.head?.map (·.1)).getD g.close⟩ := rfl
  rw [htrace, hscope, hclose, hcode, ← hstops.offset hof hhead]
  rfl

end WasmEngine
