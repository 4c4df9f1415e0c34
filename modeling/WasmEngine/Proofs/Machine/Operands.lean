import WasmEngine.Proofs.Machine.Frames

/-!
# What ops take from the stack

Operands lie above the locals of their function, and nothing but checking keeps an op from popping what lies
beneath them: the locals, or what belongs to other functions. Of each op it is known how many cells it
takes (`Op.pops`), and a frame is `Frame.Guarded` if it is at an op of its body that finds as many operands. That
is so of every frame that is ready.
-/

namespace WasmEngine

/-! ### Counting -/

/-- The number of cells that a plain op takes. -/
def PlainOp.pops : PlainOp → Nat
  | localGet _ | globalGet _ | tableSize _ | elemDrop _ | memorySize | dataDrop _ | const _ | refFunc _ => 0
  | drop | localSet _ | localTee _ | globalSet _ | tableGet _ | load .. | memoryGrow | refIsNull => 1
  | tableSet _ | tableGrow _ | store .. => 2
  | select | tableInit .. | tableCopy .. | tableFill _ | memoryInit _ | memoryCopy | memoryFill => 3
  | numeric op => if op.isUnary then 1 else 2

/-- The number of cells that a branch takes along or drops. -/
def BranchTarget.pops (t : BranchTarget) : Nat := t.reshape.keep + t.reshape.drop

/-- The number of cells that an op of a function takes. Of a branch that is not always taken, and of a table, that is
what it takes at most. -/
def Op.pops (f : Scope) : Op → Nat
  | unreachable | jump _ => 0
  | br t => t.pops
  | brIf t => t.pops + 1
  | brUnless _ => 1
  | brTable targets default => (targets.map (·.pops)).foldr max default.pops + 1
  | ret => f.results
  | call x => ((f.module.funcType? x).map (·.params.length)).getD 0
  | callIndirect type _ => (f.module.types[type]?.map (·.params.length)).getD 0 + 1
  | plain op => op.pops

/-- **A frame is guarded** if it is at an op of its body, and the cells that the op takes are there, above those
for the parameters and the declared locals. -/
def Frame.Guarded (f : Frame) (stack : Stack) : Prop :=
  ∃ op type, f.body.ops[f.pc]? = some op ∧ f.module.funcType? f.func = some type ∧
    f.base + type.params.length + f.body.locals.length + op.pops f.toScope ≤ stack.height

/-! ### Operands -/

/-- A plain instruction uses as many operands as its op takes. -/
theorem Instruction.Uses.length_eq {c : Context} {locals ins outs : List ValueType} {i : Instruction}
    {op : PlainOp} (h : i.Uses c locals ins outs) (hop : i.plainOp? = some op) : ins.length = op.pops := by
  cases h with
  | drop | select | refIsNull =>
    cases hop
    rfl
  | @signature _ type hdrop hselect hnull h =>
    rw [List.length_reverse]
    cases i with
    | drop => exact absurd rfl hdrop
    | select => exact absurd rfl hselect
    | refIsNull => exact absurd rfl hnull
    | numeric op =>
      cases hop
      cases pure_eq_ok.mp h
      unfold PlainOp.pops
      rcases op.params_cases with ⟨hunary, a, hparams⟩ | ⟨hbinary, a, b, hparams⟩
      · simp [hunary, hparams]
      · simp [hbinary, hparams]
    | unreachable | nop | block | loop | if_ | else_ | end_ | br | brIf | brTable | return_ | call
    | callIndirect => nomatch hop
    | selectTyped | i32Const | i64Const | f32Const | f64Const | refNull =>
      cases hop
      cases pure_eq_ok.mp h
      rfl
    | localGet | localSet | localTee | globalGet | tableGet | tableSet | tableSize | tableGrow | tableFill
    | elemDrop | memorySize | memoryGrow | dataDrop | memoryCopy | memoryFill =>
      cases hop
      obtain ⟨_, -, h⟩ := bind_eq_ok.mp h
      cases pure_eq_ok.mp h
      rfl
    | load | store | memoryInit =>
      cases hop
      obtain ⟨_, -, h⟩ := bind_eq_ok.mp h
      obtain ⟨_, -, h⟩ := bind_eq_ok.mp h
      cases pure_eq_ok.mp h
      rfl
    | globalSet | refFunc =>
      cases hop
      obtain ⟨_, -, h⟩ := bind_eq_ok.mp h
      split at h <;> cases h
      rfl
    | tableCopy | tableInit =>
      cases hop
      obtain ⟨_, -, h⟩ := bind_eq_ok.mp h
      obtain ⟨_, -, h⟩ := bind_eq_ok.mp h
      split at h <;> cases h
      rfl

/-- A branch takes no more than there is. -/
theorem Typing.Accepts.length_le {t : Typing} {label : Nat} {reshape : Reshape}
    (hbased : TypedBody.Based t.frames) (h : t.Accepts label reshape) :
    reshape.keep + reshape.drop ≤ t.operands.length := by
  obtain ⟨types, hbranch, htop⟩ := h
  obtain ⟨dropped, hoperands, rfl⟩ := Typing.branch_operands hbased hbranch htop
  rw [hoperands]
  simp only [List.length_append, List.length_map, List.length_reverse]
  omega

theorem foldr_max_le {n k : Nat} {ns : List Nat} (h : n ≤ k) (hns : ∀ m ∈ ns, m ≤ k) : ns.foldr max n ≤ k := by
  induction ns with
  | nil => exact h
  | cons m ns ih =>
    obtain ⟨hm, hns⟩ := List.forall_mem_cons.mp hns
    exact Nat.max_le.mpr ⟨hm, ih hns⟩

namespace Frame

variable {σ : Type} {s : Store σ} {D : Domain} {features : Features} {b : TypedBody} {f : Frame}
  {lower lcells cells : List Cell} {stack : Stack}

namespace Stands

variable {p q : Spot} {x : TypedInstruction}

/-- An instruction finds the operands that it takes. -/
theorem length_le (hf : f.Stands D s features b lower p x q lcells cells) {t : Typing} {ins outs : List ValueType}
    (h : p.typing.Takes ins outs t) : ins.length ≤ cells.length := by
  obtain ⟨_, icells, rest, rfl, hins, -⟩ := h.holds hf.live hf.operands
  rw [hins.length_eq, List.length_append]
  exact Nat.le_add_right _ _

/-- A branch behind an index or a condition finds what it takes. -/
theorem branch_length_le (hf : f.Stands D s features b lower p x q lcells cells) {t : Typing}
    (htakes : p.typing.Takes [.i32] [] t) {label : Nat} {reshape : Reshape} (h : t.Accepts label reshape) :
    reshape.keep + reshape.drop + 1 ≤ cells.length := by
  obtain ⟨operands, _, rest, rfl, hins, hrest, -, ht, -⟩ := htakes.holds hf.live hf.operands
  have hbased : TypedBody.Based t.frames :=
    hf.visits.based.shape (.stays (i := .drop) rfl htakes.outer htakes.like)
  have hle := h.length_le hbased
  have hlength : t.operands.length = rest.length := by
    rw [ht]
    exact hrest.length_eq
  rw [List.length_append, ← hins.length_eq, List.length_singleton]
  omega

/-- **The op of an instruction finds the cells that it takes.** -/
theorem op_pops_le {t t' : Typing} {rest : List TypedInstruction} {pc : Nat} {starts : List (Option Nat)}
    {heads : List (List TypedInstruction)} (hf : f.Stands D s features b lower ⟨t, x :: rest, pc, starts, heads⟩ x
      ⟨t', rest, pc + 1, x.instruction.startsAfter pc starts, x.instruction.headsAfter rest heads⟩ lcells cells)
    (hwidth : x.instruction.width = 1) :
    ∃ op ops, (TypedInstruction.lower pc starts (x :: rest)).1 = (x.offset, op) :: ops ∧
      op.pops f.toScope ≤ cells.length := by
  have hstep := hf.step
  have hshape := Typing.step_shape hstep
  obtain ⟨offset, i, reshapes⟩ := x
  have hplain {o : PlainOp} (ho : i.plainOp? = some o) : o.pops ≤ cells.length := by
    obtain ⟨ins, outs, huses, htakes⟩ := Typing.step_plain ho hstep
    rw [← huses.length_eq ho]
    exact hf.length_le htakes
  cases i with
  | nop | block | loop | end_ => nomatch hwidth
  | unreachable | else_ => exact ⟨_, _, rfl, Nat.zero_le _⟩
  | if_ type =>
    refine ⟨_, _, rfl, ?_⟩
    cases hshape with
    | stays hflat => nomatch hflat
    | opens hkind htakes =>
      cases hkind
      rw [if_pos rfl] at htakes
      exact Nat.le_trans (Nat.le_add_left _ _) (hf.length_le htakes)
  | br label =>
    refine ⟨_, _, rfl, ?_⟩
    obtain ⟨reshape, types, t₁, hbranch, rfl, htakes, -⟩ := Typing.step_br hstep
    have hle := Typing.Accepts.length_le hf.visits.based ⟨types, hbranch, htakes.top hf.live hf.known⟩
    rwa [hf.operands.length_eq] at hle
  | brIf label =>
    refine ⟨_, _, rfl, ?_⟩
    obtain ⟨reshape, types, t₁, htakes, hbranch, rfl, htakes'⟩ := Typing.step_brIf hstep
    obtain ⟨operands, _, rest, -, -, hrest, -, ht₁, hlive⟩ := htakes.holds hf.live hf.operands
    have hknown : t₁.Known := by
      unfold Typing.Known
      rw [ht₁]
      exact Store.known_of_holds hrest
    exact hf.branch_length_le htakes ⟨types, hbranch, htakes'.top hlive hknown⟩
  | brTable labels default =>
    refine ⟨_, _, rfl, ?_⟩
    obtain ⟨t₁, targets, reshape, htakes, rfl, -, -, hdefault, hlabels⟩ := hf.accepts_brTable rfl
    have hdefault := hf.branch_length_le htakes hdefault
    have hlast : (targets ++ [reshape]).getLastD ⟨0, 0⟩ = reshape := List.getLastD_concat
    refine Nat.add_le_of_le_sub (by omega) (foldr_max_le ?_ (List.forall_mem_map.mpr fun taken htaken => ?_))
    · dsimp only [BranchTarget.pops]
      rw [hlast]
      omega
    · obtain ⟨label, reshape', haccepts, rfl⟩ := mem_targets hlabels htaken
      exact Nat.le_sub_of_add_le (hf.branch_length_le htakes haccepts)
  | return_ =>
    refine ⟨_, _, rfl, ?_⟩
    obtain ⟨t₁, htakes, -⟩ := Typing.step_return hstep
    have hle := hf.length_le htakes
    rw [List.length_reverse, hf.visits.begun.results] at hle
    rwa [← hf.results] at hle
  | call func =>
    refine ⟨_, _, rfl, ?_⟩
    obtain ⟨type, htype, htakes⟩ := Typing.step_call hstep
    have hle := hf.length_le htakes
    rw [hf.context, Module.func_eq_ok] at htype
    rw [List.length_reverse] at hle
    rwa [Op.pops, htype]
  | callIndirect type table =>
    refine ⟨_, _, rfl, ?_⟩
    obtain ⟨tableType, signature, -, -, htype, htakes⟩ := Typing.step_callIndirect hstep
    have hle := hf.length_le htakes
    rw [hf.context] at htype
    rw [List.length_cons, List.length_reverse] at hle
    have hsignature : f.module.types[type]? = some signature := Context.lookUp_eq_ok.mp htype
    rwa [Op.pops, hsignature]
  | _ => exact ⟨_, _, rfl, hplain rfl⟩

end Stands

/-- The op that comes next finds the cells that it takes. -/
theorem Poised.pops_le {op : Op} (hf : f.Poised D s features b lower lcells cells op) :
    op.pops f.toScope ≤ cells.length := by
  cases hf with
  | instruction hstand hwidth hop =>
    obtain ⟨op', ops', hop', hpops⟩ := hstand.op_pops_le hwidth
    cases hop.symm.trans hop'
    exact hpops
  | exit hlays =>
    have hlength := hlays.operands.length_eq
    rw [List.length_map, List.length_reverse, ← hlays.results] at hlength
    exact Nat.le_of_eq hlength

/-- **A frame that is ready is guarded.** -/
theorem Ready.guarded (hf : f.Ready D s features b lower stack) : f.Guarded stack := by
  obtain ⟨lcells, cells, op, rfl, hop, hpoised⟩ := hf.poised
  obtain ⟨operands, hlays⟩ := hpoised.lays
  obtain ⟨type, source, htype, -, hlocals, -, -, hbody⟩ := hlays.source
  have hcount : lcells.length = type.params.length + f.body.locals.length := by
    rw [← hlays.locals.length_eq, hlocals, List.length_append, hbody]
    rfl
  have hpops := hpoised.pops_le
  refine ⟨op, type, hop, htype, ?_⟩
  rw [Stack.height_of, List.length_append, hlays.base, hcount]
  omega

end Frame

end WasmEngine
