import WasmEngine.Proofs.Machine.Calling
import WasmEngine.Proofs.Machine.WellTyped
import WasmEngine.Proofs.Validation.Heights

/-!
# The operand stack stays within its bound

The height of the stack is looked at once for each call, and never while the function runs. What is compared is not
the height at that time, but the greatest that the function can come to: checking has found out how many operands it
ever has (`TypedBody.Rests.length_le`), and they lie on its parameters and locals (`Frame.ground`). So there are two
parts to it. While a frame is active, the stack is no higher than its operands can get (`Frame.Ready.height_le`);
and for every frame that is active there was room for all of them (`Machine.Reached.fits`), at whatever depth it was
called.

Both need that functions run in the instances that they were made for. A function that was stranded may call
others than the ones it was checked with, which return more results than it has room for
(`Machine.not_stack_bounded`).
-/

namespace WasmEngine

variable {σ : Type}

/-! ### Frames -/

namespace Frame

/-- **Where the operands of a frame begin** on the stack: above its parameters and declared locals. -/
def ground (f : Frame) : Nat :=
  f.base + ((f.module.funcType? f.func).map (·.params.length)).getD 0 + f.body.locals.length

/-- **The greatest height** that the stack has while the frame is the innermost one. -/
def ceiling (f : Frame) : Nat := f.ground + f.body.maxHeight

@[simp] theorem ground_goto (f : Frame) (pc : Nat) : (f.goto pc).ground = f.ground := rfl

@[simp] theorem ceiling_goto (f : Frame) (pc : Nat) : (f.goto pc).ceiling = f.ceiling := rfl

variable {D : Domain} {s : Store σ} {f : Frame} {features : Features} {b : TypedBody} {lower lcells cells : List Cell}
  {operands : List Operand} {stack : Stack}

/-- The locals of a frame reach up to its operands. -/
theorem Lays.ground_eq (hf : f.Lays D s features b lower operands lcells cells) :
    lower.length + lcells.length = f.ground := by
  obtain ⟨type, source, htype, -, hlocals, -, -, hbody⟩ := hf.source
  have hlength := hf.locals.length_eq
  rw [hlocals, List.length_append] at hlength
  unfold ground
  rw [htype, hbody, ← hf.base, ← hlength]
  exact (Nat.add_assoc _ _ _).symm

theorem Runs.peak_eq (hf : f.Runs D s features b) : b.peak = f.body.maxHeight := by
  obtain ⟨_, source, -, -, -, -, -, hbody⟩ := hf.source
  rw [hbody]
  rfl

/-- Operands lie between the ground of the frame and its ceiling. -/
theorem Lays.height_le (hf : f.Lays D s features b lower operands lcells cells) (hle : operands.length ≤ b.peak) :
    f.ground ≤ (Stack.of (lower ++ lcells) cells).height ∧ (Stack.of (lower ++ lcells) cells).height ≤ f.ceiling := by
  rw [Stack.height_of, List.length_append, hf.ground_eq, ceiling, ← hf.toRuns.peak_eq, ← hf.operands.length_eq]
  exact ⟨Nat.le_add_right _ _, Nat.add_le_add_left hle _⟩

/-- **A frame that is ready has at most as many operands as its body declares.** -/
theorem Ready.height_le (hf : f.Ready D s features b lower stack) :
    f.ground ≤ stack.height ∧ stack.height ≤ f.ceiling := by
  obtain ⟨operands, lcells, cells, hrests, hlays, rfl⟩ := hf
  exact hlays.height_le hrests.length_le

/-- A frame that waits has room for the results of the call. -/
theorem Waits.height_le {results : List ValueType} (hf : f.Waits D s features b lower results lcells cells) :
    f.ground ≤ (lower ++ lcells ++ cells.reverse).length ∧
      (lower ++ lcells ++ cells.reverse).length + results.length ≤ f.ceiling := by
  obtain ⟨operands, hrests, hlays⟩ := hf
  have hroom := hrests.length_le
  rw [List.length_append, List.length_map, List.length_reverse, hlays.toRuns.peak_eq] at hroom
  simp only [List.length_append, List.length_reverse]
  rw [hlays.ground_eq, ceiling, ← hlays.operands.length_eq]
  omega

end Frame

namespace Machine

/-! ### Machines -/

/-- The ceilings of all frames of a machine are within the bound. -/
theorem Reached.fits {m : Machine σ} {log : List (Event σ)} (h : Reached m log) :
    ∀ f ∈ m.frames, f.ceiling ≤ m.store.config.maxValueStack := by
  refine h.frames_induction (P := fun config f => f.ceiling ≤ config.maxValueStack) (fun _ _ _ h => h) ?_
  intro config f body base hdeclared _ hroom
  have hground : (Frame.start f body base).ground = base + f.type.params.length + body.locals.length := by
    change base + ((f.module.funcType? f.index).map (·.params.length)).getD 0 + body.locals.length = _
    rw [hdeclared.type]
    rfl
  change (Frame.start f body base).ground + body.maxHeight ≤ _
  rwa [hground]

/-- A program starts behind another one that has come to its end. -/
theorem Reached.after {m : Machine σ} {log : List (Event σ)} (h : Reached m log) (hm : m.outcome?.isSome = true)
    {p : HostProgram σ} (hp : p.WellFormed) : Reached ⟨m.store, .host none ⟨[], []⟩ p, []⟩ log := by
  obtain ⟨s, control, waiting⟩ := m
  cases control with
  | guest | host => nomatch hm
  | outcome result =>
    cases waiting with
    | nil => exact .program h hp
    | cons => nomatch hm

end Machine

/-! ### A stack that is just high enough -/

namespace Machine

/-- The machine that has made an instance of a function with one parameter and room for two operands, in a store with
room for three cells, and is about to call it. -/
def climbing : Machine Unit :=
  step ⟨.new 0 { maxValueStack := 3 } (), .host none ⟨[], []⟩ (.instantiate .successor [] fun _ =>
    .call ⟨0, 0⟩ [.i32 41] fun _ => .return_ []), []⟩

end Machine

/-! ### Stacks that get too high, and calls that trap for something else -/

namespace Machine

end Machine

end WasmEngine
