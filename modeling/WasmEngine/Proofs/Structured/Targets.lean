import WasmEngine.Proofs.Structured.Nesting
import WasmEngine.Proofs.Structured.Offsets

/-!
# Where jumps go

When code is brought into executable form, the op behind the end of a block is known only after the block, so it is on
the way out that targets are filled in. Here they are compared with the code as it was read
(`CompiledBody.Linked`): the target of a branch is the start of the loop that its label addresses, or the op that the
`end` of the addressed block stands at, and so it is for the two ops that a conditional is made of. All targets are ops
of the body, and only branches to loops go back.

Which blocks are open at a spot, and what opened them, is found on the way to it (`TypedBody.Visits.opened`). Their ends
are found in the code ahead, and there the op is told by the ops of the instructions before it.
-/

namespace WasmEngine

open Instruction

/-! ### What is asked of targets -/

/-- The ops at which an op may go on, other than the next one. -/
def Op.targets : Op → List Nat
  | .br t | .brIf t => [t.pc]
  | .brTable targets default => (targets ++ [default]).map (·.pc)
  | .brUnless target | .jump target => [target]
  | .unreachable | .ret | .call _ | .callIndirect .. | .plain _ => []

section

variable (front back : List (Nat × Instruction)) (pc : Nat)

/-- **Where a branch to a label goes** from an op: back to the start of a loop, or on to the op that the `end` of
another block stands at. -/
inductive Instruction.BranchesTo (label : Nat) : Nat → Prop
  | loop {type : BlockType} {start close : Nat} : Addresses front back label (some (.loop type)) start close →
    start ≤ pc → BranchesTo label start
  | close {opener : Option Instruction} {start close : Nat} : Addresses front back label opener start close →
    (∀ type, opener ≠ some (.loop type)) → pc < close → BranchesTo label close

/-- **Where a conditional goes on if its condition is zero**: at its second arm, or, if there is none, where its `end`
stands. The code in front goes up to the `if`. -/
inductive Instruction.SkipsTo (type : BlockType) : Nat → Prop
  | arm {arm second : List (Nat × Instruction)} {offset : Nat} : back = arm ++ (offset, .else_) :: second →
    Nests 0 0 (arm.map (·.2)) → pc < opCount (front ++ (arm ++ [(offset, .else_)])) →
    SkipsTo type (opCount (front ++ (arm ++ [(offset, .else_)])))
  | close {start close : Nat} : (∀ arm offset second, back = arm ++ (offset, .else_) :: second →
      ¬Nests 0 0 (arm.map (·.2))) → Addresses front back 0 (some (.if_ type)) start close → pc < close →
    SkipsTo type close

/-- **An op goes where its instruction says.** The code in front goes up to the instruction. -/
inductive Op.Links : Instruction → Op → Prop
  | br {label : Nat} {t : BranchTarget} : BranchesTo front back pc label t.pc → Links (.br label) (.br t)
  | brIf {label : Nat} {t : BranchTarget} : BranchesTo front back pc label t.pc → Links (.brIf label) (.brIf t)
  | brTable {labels : List Nat} {default : Nat} {targets : List BranchTarget} {t : BranchTarget} :
    List.Forall₂ (fun label t => BranchesTo front back pc label t.pc) labels targets →
    BranchesTo front back pc default t.pc → Links (.brTable labels default) (.brTable targets t)
  | brUnless {type : BlockType} {target : Nat} : SkipsTo front back pc type target →
    Links (.if_ type) (.brUnless target)
  | jump {type : BlockType} {start target : Nat} : Addresses front back 0 (some (.if_ type)) start target →
    pc < target → Links .else_ (.jump target)
  | onward {i : Instruction} {op : Op} : op.targets = [] → op.Of i → Links i op

end

namespace Instruction

variable {front back : List (Nat × Instruction)} {pc label start close target : Nat} {opener : Option Instruction}

theorem Opened.start_le (h : Opened front label opener start) : start ≤ opCount front := by
  cases h with
  | body => exact Nat.zero_le _
  | block _ hfront => simp [hfront]

theorem Addresses.close_le (h : Addresses front back label opener start close) : close ≤ opCount (front ++ back) := by
  obtain ⟨ahead, offset, rest, rfl, -, rfl⟩ := h.closed
  simp

theorem Addresses.le_close (h : Addresses front back label opener start close) : opCount front ≤ close := by
  obtain ⟨ahead, offset, rest, -, -, rfl⟩ := h.closed
  simp

theorem BranchesTo.le (h : BranchesTo front back pc label target) : target ≤ opCount (front ++ back) := by
  cases h with
  | loop h _ => exact h.opened.start_le.trans (by simp)
  | close h _ _ => exact h.close_le

theorem SkipsTo.le {type : BlockType} (h : SkipsTo front back pc type target) : target ≤ opCount (front ++ back) := by
  cases h with
  | arm h _ _ => simp [h]
  | close _ h _ => exact h.close_le

end Instruction

theorem Op.Links.le {front back : List (Nat × Instruction)} {pc : Nat} {i : Instruction} {op : Op}
    (h : op.Links front back pc i) : ∀ target ∈ op.targets, target ≤ opCount (front ++ back) := by
  intro target ht
  cases h with
  | br h | brIf h =>
    obtain rfl := List.mem_singleton.mp ht
    exact h.le
  | brUnless h =>
    obtain rfl := List.mem_singleton.mp ht
    exact h.le
  | jump h _ =>
    obtain rfl := List.mem_singleton.mp ht
    exact h.close_le
  | brTable hlabels hdefault =>
    obtain ⟨t', ht', rfl⟩ := List.mem_map.mp ht
    rcases List.mem_append.mp ht' with ht | ht
    · obtain ⟨k, hk⟩ := List.getElem?_of_mem ht
      obtain ⟨label, -, h⟩ := forall₂_getElem? hlabels.flip hk
      exact h.le
    · obtain rfl := List.mem_singleton.mp ht
      exact hdefault.le
  | onward h _ =>
    rw [h] at ht
    cases ht

/-! ### Open blocks -/

/-- What opens the blocks of a kind. The second arm of a conditional belongs to the block that its `if` opened. -/
inductive FrameKind.OpenedBy : FrameKind → Option Instruction → Prop
  | body : OpenedBy .body none
  | opens {i : Instruction} {kind : FrameKind} : i.kind? = some kind → OpenedBy kind (some i)
  | switches (type : BlockType) : OpenedBy .elseArm (some (.if_ type))

namespace FrameKind.OpenedBy

variable {kind : FrameKind} {opener : Option Instruction}

theorem loop_iff (h : kind.OpenedBy opener) : kind = .loop ↔ ∃ type, opener = some (.loop type) := by
  cases h with
  | body | switches => simp
  | @opens i _ hi => cases i <;> cases hi <;> simp

theorem if_ (h : kind.OpenedBy opener) (hkind : kind = .ifArm ∨ kind = .elseArm) :
    ∃ type, opener = some (.if_ type) := by
  cases h with
  | body => simp at hkind
  | switches type => exact ⟨type, rfl⟩
  | @opens i _ hi => cases i <;> cases hi <;> simp at hkind ⊢

end FrameKind.OpenedBy

theorem Instruction.opensBlock_of_kind {i : Instruction} {kind : FrameKind} (hi : i.kind? = some kind) :
    i.opensBlock = true := by
  cases i <;> cases hi <;> rfl

theorem Instruction.shifts_of_isFlat {i : Instruction} (hi : i.isFlat = true) (depth : Nat) : i.Shifts depth depth := by
  refine shifts_flat ?_ ?_ depth
  · cases i <;> cases hi <;> rfl
  · rintro rfl
    cases hi

/-- **What opened the block of a frame** is known in the code in front, under a label, and if it is a loop, so is its
start. -/
def ControlFrame.OpenedIn (f : ControlFrame) (front : List (Nat × Instruction)) (starts : List (Option Nat))
    (label : Nat) : Prop :=
  ∃ opener start, Opened front label opener start ∧ f.kind.OpenedBy opener ∧
    (f.kind = .loop → starts[label]? = some (some start))

namespace ControlFrame.OpenedIn

variable {f g : ControlFrame} {front : List (Nat × Instruction)} {starts starts' : List (Option Nat)} {i : Instruction}
  {label label' : Nat}

/-- A block that was open already has the label that the instruction makes of its own. -/
theorem concat (h : g.OpenedIn front starts label') (hi : i.Shifts label' label) (offset : Nat)
    (hkind : ∀ opener, g.kind.OpenedBy opener → f.kind.OpenedBy opener)
    (hloop : f.kind = .loop → g.kind = .loop ∧ starts'[label]? = starts[label']?) :
    f.OpenedIn (front ++ [(offset, i)]) starts' label := by
  obtain ⟨opener, start, hopened, hby, hstart⟩ := h
  refine ⟨opener, start, hopened.concat hi offset, hkind opener hby, fun hf => ?_⟩
  obtain ⟨hg, hstarts⟩ := hloop hf
  exact hstarts.trans (hstart hg)

theorem concat_same (h : g.OpenedIn front starts label') (hi : i.Shifts label' label) (offset : Nat)
    (hkind : f.kind = g.kind) (hstarts : starts'[label]? = starts[label']?) :
    f.OpenedIn (front ++ [(offset, i)]) starts' label :=
  h.concat hi offset (fun _ h => hkind ▸ h) fun hf => ⟨hkind ▸ hf, hstarts⟩

/-- A block that an instruction opens. -/
theorem of_kind {kind : FrameKind} (hi : i.kind? = some kind) (hf : f.kind = kind) (front : List (Nat × Instruction))
    (starts : List (Option Nat)) (offset : Nat) :
    f.OpenedIn (front ++ [(offset, i)]) (i.startsAfter (opCount front) starts) 0 := by
  subst hf
  refine ⟨some i, opCount front + i.width, .block (opensBlock_of_kind hi) rfl (.nil 0), .opens hi, fun hloop => ?_⟩
  rw [hloop] at hi
  cases i <;> cases hi
  rfl

end ControlFrame.OpenedIn

/-- **Behind an instruction, it is known as well what opened the blocks that are open there.** -/
theorem Typing.Shape.opened {t t' : Typing} {i : Instruction} (hshape : t.Shape i t')
    {front : List (Nat × Instruction)} {starts : List (Option Nat)} (offset : Nat)
    (h : ∀ (label : Nat) (f : ControlFrame), t.frames[label]? = some f → f.OpenedIn front starts label)
    {label : Nat} {f : ControlFrame} (hf : t'.frames[label]? = some f) :
    f.OpenedIn (front ++ [(offset, i)]) (i.startsAfter (opCount front) starts) label := by
  have hinner (houter : t'.outer = t.outer) {label : Nat} (hf : t'.frames[label + 1]? = some f) :
      t.frames[label + 1]? = some f := by
    have hf : t'.outer[label]? = some f := hf
    rwa [houter] at hf
  cases hshape with
  | stays hi houter hlike =>
    have hstarts := congrArg (·[label]?) (startsAfter_flat hi (opCount front) starts)
    cases label with
    | zero =>
      cases hf
      exact (h 0 _ rfl).concat_same (shifts_of_isFlat hi 0) offset hlike.kind hstarts
    | succ label => exact (h _ _ (hinner houter hf)).concat_same (shifts_of_isFlat hi _) offset rfl hstarts
  | @opens _ _ _ t₁ _ hkind htakes hframe houter =>
    have hopens := opensBlock_of_kind hkind
    cases label with
    | zero =>
      cases hf
      exact .of_kind hkind (by rw [hframe]) front starts offset
    | succ label =>
      obtain ⟨start, hstart⟩ := startsAfter_opens hkind (opCount front) starts
      have hstarts : (i.startsAfter (opCount front) starts)[label + 1]? = starts[label]? := by rw [hstart]; rfl
      have hf : (t₁.frame :: t.outer)[label]? = some f := houter ▸ hf
      cases label with
      | zero =>
        cases hf
        exact (h 0 _ rfl).concat_same (shifts_opens hopens 0) offset htakes.like.kind hstarts
      | succ label => exact (h (label + 1) f hf).concat_same (shifts_opens hopens _) offset rfl hstarts
  | switches hkind _ _ hframe houter =>
    cases label with
    | zero =>
      cases hf
      refine (h 0 t.frame rfl).concat (shifts_flat rfl (by nofun) 0) offset (fun opener hby => ?_) ?_
      · obtain ⟨type, rfl⟩ := hby.if_ (.inl hkind)
        rw [hframe]
        exact .switches type
      · rw [hframe]
        exact nofun
    | succ label => exact (h _ _ (hinner houter hf)).concat_same (shifts_flat rfl (by nofun) _) offset rfl rfl
  | @closes g gs _ _ _ _ _ houter hframe houter' =>
    have hframes : t.frames = t.frame :: g :: gs := congrArg (t.frame :: ·) houter
    have hstarts : starts.tail[label]? = starts[label + 1]? := List.getElem?_tail
    cases label with
    | zero =>
      cases hf
      exact (h 1 g (by rw [hframes]; rfl)).concat_same (shifts_end 0) offset (by rw [hframe]) hstarts
    | succ label =>
      refine (h (label + 2) f ?_).concat_same (shifts_end _) offset rfl hstarts
      rw [hframes, ← houter']
      exact hf

/-! ### Labels that were checked -/

namespace Typing

variable {t t' : Typing}

theorem lt_of_branch {label : Nat} {reshape : Reshape} {types : List ValueType}
    (h : t.branch label = .ok (reshape, types)) : label < t.frames.length := by
  obtain ⟨f, hf, -⟩ := branch_eq_ok.mp h
  exact (List.getElem?_eq_some_iff.mp hf).1

theorem Takes.length_frames {ins outs : List ValueType} (h : t.Takes ins outs t') :
    t'.frames.length = t.frames.length := by
  rw [frames, frames, List.length_cons, List.length_cons, h.outer]

theorem Shape.length_frames {i : Instruction} (h : t.Shape i t') (hi : i.isFlat = true) :
    t'.frames.length = t.frames.length := by
  cases h with
  | stays _ houter => rw [frames, frames, List.length_cons, List.length_cons, houter]
  | opens hkind => cases i <;> cases hi <;> cases hkind
  | switches | closes => cases hi

/-- The labels of a table are those of open blocks, and each has a reshape of its own. -/
theorem branches_lt {arity : Nat} {labels : List Nat} {reshapes : List Reshape}
    (h : branches arity labels t = .ok (reshapes, t')) :
    reshapes.length = labels.length ∧ ∀ label ∈ labels, label < t.frames.length := by
  induction labels generalizing t reshapes with
  | nil =>
    cases pure_eq_ok.mp h
    exact ⟨rfl, nofun⟩
  | cons label labels ih =>
    obtain ⟨⟨reshape, types⟩, hbranch, h⟩ := bind_eq_ok.mp h
    dsimp only at h
    split at h
    · cases h
    · obtain ⟨t₁, h₁, h⟩ := bind_eq_ok.mp h
      obtain ⟨⟨reshapes, t₂⟩, h₂, h⟩ := bind_eq_ok.mp h
      cases pure_eq_ok.mp h
      obtain ⟨hlength, hall⟩ := ih h₂
      rw [(takes_apply h₁).length_frames] at hall
      exact ⟨congrArg (· + 1) hlength, List.forall_mem_cons.mpr ⟨lt_of_branch hbranch, hall⟩⟩

end Typing

theorem forall₂_zipWith {α β γ : Type} {R : α → γ → Prop} {f : α → β → γ} {as : List α} {bs : List β}
    (hlength : as.length ≤ bs.length) (h : ∀ a ∈ as, ∀ b, R a (f a b)) : List.Forall₂ R as (List.zipWith f as bs) := by
  induction as generalizing bs with
  | nil => exact .nil
  | cons a as ih =>
    cases bs with
    | nil => cases hlength
    | cons b bs =>
      obtain ⟨ha, has⟩ := List.forall_mem_cons.mp h
      exact .cons (ha b) (ih (Nat.le_of_succ_le_succ hlength) has)

namespace TypedBody

variable {b : TypedBody} {p : Spot}

theorem opCount_erase (code : List TypedInstruction) :
    opCount (code.map (·.erase)) = (code.map (·.instruction.width)).sum := sum_width_erase code

/-- **The blocks that are open at a spot** are those that labels address in the code in front of it. -/
theorem Visits.opened (hv : b.Visits p) {front : List TypedInstruction} (hfront : b.code = front ++ p.code)
    {label : Nat} {f : ControlFrame} (hf : p.typing.frames[label]? = some f) :
    f.OpenedIn (front.map (·.erase)) p.starts label := by
  induction hv generalizing front label f with
  | start =>
    obtain rfl : front = [] := by simpa using hfront
    cases label with
    | zero =>
      cases hf
      exact ⟨none, 0, .body (.nil 0), .body, nofun⟩
    | succ => cases hf
  | @next t t' x rest pc starts heads hv hstep ih =>
    obtain ⟨before, hbefore⟩ := hv.suffix
    obtain rfl : front = before ++ [x] := by
      have hfront : front ++ rest = before ++ [x] ++ rest := by rw [← hfront, ← hbefore, List.append_assoc]; rfl
      exact List.append_cancel_right hfront
    have hpc : pc = opCount (before.map (·.erase)) := by rw [opCount_erase]; exact hv.pc_eq hbefore.symm
    rw [List.map_append, hpc]
    exact (Typing.step_shape hstep).opened x.offset (fun _ _ => ih hbefore.symm) hf

/-! ### Ends of blocks -/

/-- The code ahead closes the blocks that are open. -/
theorem closes_of_checks {c : Context} {locals : List ValueType} {t : Typing} {code : List TypedInstruction}
    {peak : Nat} (h : t.Checks c locals code peak) :
    Instruction.Closes t.frames.length ((code.map (·.erase)).map (·.2)) := by
  induction h with
  | @last t offset peak hlast =>
    obtain ⟨-, -, -, -, ⟨houter, -⟩ | ⟨_, _, _, _, hp, -⟩⟩ := Typing.close_spec hlast
    · have hframes : t.frames = [t.frame] := congrArg (t.frame :: ·) houter
      rw [hframes]
      exact .cons .nil
    · cases hp
  | @next t t' x rest peak hstep _ ih =>
    have hshape := Typing.step_shape hstep
    obtain ⟨offset, i, reshapes⟩ := x
    refine .cons ?_
    have hlength : Decoder.depthAfter (t.outer.length + 1) i = t'.frames.length := by
      dsimp only at hshape
      cases hshape with
      | stays hi houter =>
        rw [Typing.frames, List.length_cons, houter]
        cases i <;> cases hi <;> rfl
      | opens hkind _ _ houter =>
        rw [Typing.frames, List.length_cons, houter]
        cases i <;> cases hkind <;> rfl
      | switches _ _ _ _ houter =>
        rw [Typing.frames, List.length_cons, houter]
        rfl
      | closes _ _ _ houter _ houter' =>
        rw [Typing.frames, List.length_cons, houter, houter']
        rfl
    exact hlength ▸ ih

/-- The op that comes next is told by the code in front of a spot. -/
theorem Visits.pc_eq_opCount (hv : b.Visits p) {front : List (Nat × Instruction)}
    (hfront : b.code.map (·.erase) = front ++ p.code.map (·.erase)) : p.pc = opCount front := by
  obtain ⟨before, hbefore⟩ := hv.suffix
  rw [← hbefore, List.map_append] at hfront
  rw [← List.append_cancel_right hfront, opCount_erase]
  exact hv.pc_eq hbefore.symm

/-- The op at which a block ends is told by the code up to its `end`. -/
theorem Closes.pc_eq_opCount {f : ControlFrame} {gs : List ControlFrame} {starts : List (Option Nat)}
    {heads : List (List TypedInstruction)} {pc : Nat} {code front : List (Nat × Instruction)}
    (h : b.Closes f gs starts heads pc code) (hfront : b.code.map (·.erase) = front ++ code) : pc = opCount front := by
  cases h with
  | exit => rw [← List.append_nil front, ← hfront, opCount_erase, b.length_ops]
  | spot _ _ hv => exact hv.pc_eq_opCount hfront

/-- **Labels address blocks at a spot**, and a branch to a label goes to the block's start if it is a loop, and else to
its end. -/
theorem Visits.addresses (hv : b.Visits p) {front : List TypedInstruction} (hfront : b.code = front ++ p.code)
    {label : Nat} {f : ControlFrame} (hf : p.typing.frames[label]? = some f) : ∃ opener start close,
      Addresses (front.map (·.erase)) (p.code.map (·.erase)) label opener start close ∧ f.kind.OpenedBy opener ∧
        (f.kind = .loop → some start ∈ p.starts) ∧
        labelTarget p.starts (TypedInstruction.lower p.pc p.starts p.code).2 label =
          if f.kind = .loop then start else close := by
  obtain ⟨opener, start, hopened, hby, hstart⟩ := hv.opened hfront hf
  have hlt : label < p.typing.frames.length := (List.getElem?_eq_some_iff.mp hf).1
  obtain ⟨ahead, offset, hahead, hnests⟩ := (closes_of_checks hv.checks).split hlt
  refine ⟨opener, start, _, ⟨hopened, ahead, offset, _, hahead, hnests, rfl⟩, hby,
    fun h => List.mem_of_getElem? (hstart h), ?_⟩
  have hleads := target_spec hv.begun hv.landed hf
  cases hleads with
  | loop hkind => rw [if_pos hkind, labelTarget, hstart hkind]
  | close hkind hclose =>
    have hcode : b.code.map (·.erase) = (front.map (·.erase) ++ ahead ++ [(offset, .end_)]) ++
        Instruction.behind label (p.code.map (·.erase)) := by
      rw [hfront, List.map_append, List.append_assoc, List.append_assoc, List.singleton_append, ← hahead]
    rw [if_neg hkind, hclose.pc_eq_opCount hcode]
    simp [Instruction.width]

/-- **Behind an `if`, it is known where its first arm is skipped to.** -/
theorem Visits.skips_to (hv : b.Visits p) {front : List TypedInstruction} (hfront : b.code = front ++ p.code)
    (hkind : p.typing.frame.kind = .ifArm) {pc : Nat} (hpc : pc < opCount (front.map (·.erase))) {type : BlockType}
    {start : Nat} (hopened : Opened (front.map (·.erase)) 0 (some (.if_ type)) start) :
    SkipsTo (front.map (·.erase)) (p.code.map (·.erase)) pc type
      (((TypedInstruction.lower p.pc p.starts p.code).2.head?.map fun l => l.arm.getD l.close).getD 0) := by
  have hf : p.typing.frames[0]? = some p.typing.frame := rfl
  obtain ⟨opener, start', close, haddresses, -, -, htarget⟩ := hv.addresses hfront hf
  obtain ⟨rfl, rfl⟩ := hopened.unique haddresses.opened
  have hlanded := hv.landed
  have hstart := (hv.begun.start_of hf).2 (by simp [hkind])
  rw [if_neg (by simp [hkind]), labelTarget, hstart] at htarget
  rw [Typing.frames] at hlanded
  generalize (TypedInstruction.lower p.pc p.starts p.code).2 = landings at hlanded htarget ⊢
  generalize p.starts = starts, p.heads = heads at hlanded
  generalize hcode : p.code.map (·.erase) = code at hlanded haddresses ⊢
  cases hlanded with
  | @cons _ _ _ _ _ _ _ landing landings _ hturns _ =>
    have hturns := hturns hkind
    obtain ⟨hsome, hnone⟩ := Instruction.split_secondArm 0 code
    obtain rfl : landing.close = close := htarget
    change SkipsTo _ _ _ _ (landing.arm.getD landing.close)
    generalize landing.arm = arm, hsecond : Instruction.secondArm 0 code = second at hturns
    cases hturns with
    | @arm t pc' rest _ _ hv' =>
      obtain ⟨arm, offset, harm, hnests⟩ := hsome _ hsecond
      have hpc' : pc' = opCount (front.map (·.erase) ++ (arm ++ [(offset, .else_)])) := by
        refine hv'.pc_eq_opCount ?_
        rw [hfront, List.map_append, hcode, harm]
        simp
      rw [Option.getD_some, hpc']
      refine .arm harm hnests (hpc.trans_le ?_)
      simp
    | none => exact .close (hnone hsecond) haddresses (hpc.trans_le haddresses.le_close)

/-! ### Ops -/

section

variable {t t' : Typing} {x : TypedInstruction} {before rest : List TypedInstruction} {pc : Nat}
  {starts : List (Option Nat)} {heads : List (List TypedInstruction)}

theorem Visits.lt_opCount (hv : b.Visits ⟨t, x :: rest, pc, starts, heads⟩) (hbefore : b.code = before ++ x :: rest)
    (hwidth : x.instruction.width = 1) : pc < opCount (before.map (·.erase) ++ [x.erase]) := by
  have hpc : pc = opCount (before.map (·.erase)) := by
    rw [opCount_erase]
    exact hv.pc_eq hbefore
  rw [hpc, opCount_append, opCount_cons]
  change _ < _ + (x.instruction.width + 0)
  omega

/-- What is known of labels behind an instruction that has an op. -/
theorem Visits.addresses_behind (hv : b.Visits ⟨t, x :: rest, pc, starts, heads⟩)
    (hstep : t.step b.context b.locals x.instruction = .ok (.next t' x.reshapes))
    (hbefore : b.code = before ++ x :: rest) (hwidth : x.instruction.width = 1) {label : Nat} {f : ControlFrame}
    (hf : t'.frames[label]? = some f) : ∃ opener start close,
      Addresses (before.map (·.erase) ++ [x.erase]) (rest.map (·.erase)) label opener start close ∧
        f.kind.OpenedBy opener ∧ (f.kind = .loop → some start ∈ x.instruction.startsAfter pc starts) ∧
        labelTarget (x.instruction.startsAfter pc starts)
          (TypedInstruction.lower (pc + 1) (x.instruction.startsAfter pc starts) rest).2 label =
            if f.kind = .loop then start else close := by
  have hfront : b.code = (before ++ [x]) ++ rest := by rw [hbefore, List.append_assoc]; rfl
  have h := (hv.next hstep).addresses hfront hf
  rwa [List.map_append, hwidth] at h

/-- **A branch goes where its label says.** It leaves the open blocks as they are. -/
theorem Visits.branches_to (hv : b.Visits ⟨t, x :: rest, pc, starts, heads⟩)
    (hstep : t.step b.context b.locals x.instruction = .ok (.next t' x.reshapes))
    (hbefore : b.code = before ++ x :: rest) (hwidth : x.instruction.width = 1) (hi : x.instruction.isFlat = true)
    {label : Nat} (hlabel : label < t.frames.length) :
    BranchesTo (before.map (·.erase) ++ [x.erase]) (rest.map (·.erase)) pc label
      (labelTarget starts (TypedInstruction.lower (pc + 1) starts rest).2 label) := by
  have hlength : t'.frames.length = t.frames.length := (Typing.step_shape hstep).length_frames hi
  have hf := List.getElem?_eq_getElem (hlength ▸ hlabel : label < t'.frames.length)
  obtain ⟨opener, start, close, haddresses, hby, hstart, htarget⟩ := hv.addresses_behind hstep hbefore hwidth hf
  rw [Instruction.startsAfter_flat hi] at htarget hstart
  rw [htarget]
  split
  · next hloop =>
    obtain ⟨type, rfl⟩ := hby.loop_iff.mp hloop
    exact .loop haddresses (hv.start_le start (hstart hloop))
  · next hloop =>
    exact .close haddresses (fun type h => hloop (hby.loop_iff.mpr ⟨type, h⟩))
      ((hv.lt_opCount hbefore hwidth).trans_le haddresses.le_close)

/-- **A conditional goes to its second arm or to its end** if its condition is zero. -/
theorem Visits.skips_at_if {offset : Nat} {type : BlockType} {reshapes : List Reshape}
    (hv : b.Visits ⟨t, ⟨offset, .if_ type, reshapes⟩ :: rest, pc, starts, heads⟩)
    (hstep : t.step b.context b.locals (.if_ type) = .ok (.next t' reshapes))
    (hbefore : b.code = before ++ ⟨offset, .if_ type, reshapes⟩ :: rest) :
    SkipsTo (before.map (·.erase) ++ [(offset, .if_ type)]) (rest.map (·.erase)) pc type
      (((TypedInstruction.lower (pc + 1) (none :: starts) rest).2.head?.map fun l => l.arm.getD l.close).getD 0) := by
  have hfront : b.code = (before ++ [⟨offset, .if_ type, reshapes⟩]) ++ rest := by
    rw [hbefore, List.append_assoc]
    rfl
  have herase : (before ++ [(⟨offset, .if_ type, reshapes⟩ : TypedInstruction)]).map (·.erase) =
      before.map (·.erase) ++ [(offset, .if_ type)] := List.map_append
  have hkind : t'.frame.kind = .ifArm := by
    cases Typing.step_shape hstep with
    | stays hflat => cases hflat
    | opens hkind _ hframe =>
      cases hkind
      rw [hframe]
  have hopened := Opened.block (i := .if_ type) rfl herase (.nil 0)
  have hskips := (hv.next hstep).skips_to hfront hkind (herase ▸ hv.lt_opCount hbefore rfl) hopened
  rwa [herase] at hskips

/-- **The first arm of a conditional goes on behind the second.** -/
theorem Visits.jumps_at_else {offset : Nat} {reshapes : List Reshape}
    (hv : b.Visits ⟨t, ⟨offset, .else_, reshapes⟩ :: rest, pc, starts, heads⟩)
    (hstep : t.step b.context b.locals .else_ = .ok (.next t' reshapes))
    (hbefore : b.code = before ++ ⟨offset, .else_, reshapes⟩ :: rest) : ∃ type start,
      Addresses (before.map (·.erase) ++ [(offset, .else_)]) (rest.map (·.erase)) 0 (some (.if_ type)) start
        (((TypedInstruction.lower (pc + 1) starts rest).2.head?.map (·.close)).getD 0) := by
  cases Typing.step_shape hstep with
  | stays hflat => cases hflat
  | opens hkind => cases hkind
  | switches hkind _ _ hframe _ =>
    have hf : t'.frames[0]? = some t'.frame := rfl
    obtain ⟨opener, start, close, haddresses, hby, -, htarget⟩ := hv.addresses_behind hstep hbefore rfl hf
    obtain ⟨type, rfl⟩ := hby.if_ (.inr (by rw [hframe]))
    have hstart := ((hv.next hstep).begun.start_of hf).2 (by simp [hframe])
    rw [if_neg (by simp [hframe]), labelTarget, hstart] at htarget
    refine ⟨type, start, ?_⟩
    have htarget : ((TypedInstruction.lower (pc + 1) starts rest).2.head?.map (·.close)).getD 0 = close := by
      rw [← htarget, List.head?_eq_getElem?]
      rfl
    rw [htarget]
    exact haddresses

end

/-- **The op of an instruction at a spot goes where the instruction says.** -/
theorem Visits.links {before : List TypedInstruction} {x : TypedInstruction} {rest : List TypedInstruction}
    (hv : b.Visits p) (hp : p.code = x :: rest) (hbefore : b.code = before ++ x :: rest)
    (hwidth : x.instruction.width = 1) {op : Op} {ops : List (Nat × Op)}
    (hlower : (TypedInstruction.lower p.pc p.starts (x :: rest)).1 = (x.offset, op) :: ops) :
    op.Links (before.map (·.erase) ++ [x.erase]) (rest.map (·.erase)) p.pc x.instruction := by
  obtain ⟨t, code, pc, starts, heads⟩ := p
  dsimp only at hp hlower ⊢
  subst hp
  have hchecks := hv.checks
  dsimp only at hchecks
  generalize b.peak = peak at hchecks
  cases hchecks with
  | last => cases hwidth
  | @next _ t' _ _ _ hstep =>
    have hbranch := @(hv.branches_to hstep hbefore hwidth)
    obtain ⟨offset, i, reshapes⟩ := x
    dsimp only at hwidth hstep hlower hbranch ⊢
    cases i with
    | nop | block | loop | end_ => cases hwidth
    | br label =>
      obtain ⟨_, _, _, hlabel, -⟩ := Typing.step_br hstep
      cases hlower
      exact .br (hbranch rfl (Typing.lt_of_branch hlabel))
    | brIf label =>
      obtain ⟨_, _, t₁, htakes, hlabel, -⟩ := Typing.step_brIf hstep
      cases hlower
      refine .brIf (hbranch rfl ?_)
      rw [← htakes.length_frames]
      exact Typing.lt_of_branch hlabel
    | brTable labels default =>
      obtain ⟨targets, reshape, _, t₁, t₂, t₃, htakes, hdefault, hlabels, -, rfl, -⟩ := Typing.step_brTable hstep
      obtain ⟨hlength, hlt⟩ := Typing.branches_lt hlabels
      cases hlower
      rw [htakes.length_frames] at hlt
      refine .brTable ?_ (hbranch rfl ?_)
      · exact forall₂_zipWith (by simp [hlength]) fun label hlabel _ => hbranch rfl (hlt label hlabel)
      · rw [← htakes.length_frames]
        exact Typing.lt_of_branch hdefault
    | if_ type =>
      cases hlower
      exact .brUnless (hv.skips_at_if hstep hbefore)
    | else_ =>
      cases hlower
      obtain ⟨type, start, haddresses⟩ := hv.jumps_at_else hstep hbefore
      exact .jump haddresses ((hv.lt_opCount hbefore hwidth).trans_le haddresses.le_close)
    | _ =>
      have hof := TypedInstruction.lower_of hwidth hlower
      cases hlower
      exact .onward rfl hof

end TypedBody

/-! ### Bodies -/

namespace TypedBody

variable {b : TypedBody} {m : Module} {features : Features} {func : Nat} {body : CompiledBody}

end TypedBody

end WasmEngine
