import WasmEngine.Proofs.Validation.Spots

/-!
# Where execution rests

Running code goes on at a spot that can be reached, or at the return behind the code (`TypedBody.Stops`). For each
way to go on it is known what op comes next, what operands are on the stack, and what code and labels structured
execution has there. So the same lemmas serve both forms of a body: where the target of a branch is, the code that
its label asks for lies ahead (`TypedBody.Visits.target_stops`).

Ops do not stand for all instructions: what becomes no op (`nop`, the start of a block or a loop, and the end of a
block) is passed over, and leaves the operands as they are. So from each place where execution goes on it comes to
rest at the same op, at an instruction that has an op of its own, or at the return (`TypedBody.Rests`).
-/

namespace WasmEngine

/-! ### Operands of live code -/

namespace Typing

variable {t t' : Typing} {i : Instruction}

/-- All operands are known. -/
def Known (t : Typing) : Prop := ∀ o ∈ t.operands, o ≠ none

theorem operands_eq (t : Typing) : t.operands = t.frame.operands ++ t.outer.flatMap (·.operands) :=
  List.flatMap_cons

theorem Known.frame (h : t.Known) : ∀ o ∈ t.frame.operands, o ≠ none :=
  fun o ho => h o (by rw [operands_eq]; exact List.mem_append_left _ ho)

theorem Live.frame (h : t.Live) : t.frame.unreachable = false := h _ List.mem_cons_self

/-- Operands that are taken are on top. -/
theorem Takes.top {ins outs : List ValueType} (h : t.Takes ins outs t') (hlive : t.Live) (hknown : t.Known) :
    ins.map some <+: t.frame.operands := by
  obtain ⟨rest, hrest, -⟩ := h.operands hlive.frame hknown.frame
  exact ⟨rest, hrest.symm⟩

/-- **What becomes no op** keeps the operands, but for the frame that they are counted to. -/
theorem Shape.silent (h : t.Shape i t') (hi : i.width = 0) (hnop : i ≠ .nop) (hlive : t.Live)
    (hknown : t.Known) : t'.operands = t.operands ∧ t'.Live := by
  cases h with
  | stays hflat => cases i <;> simp_all [Instruction.width, Instruction.isFlat]
  | @opens _ kind type t₁ _ hkind htakes hframe houter =>
    have hif : kind ≠ .ifArm := by
      rintro rfl
      cases i <;> cases hkind
      nomatch hi
    rw [if_neg hif, List.nil_append] at htakes
    obtain ⟨rest, ht, ht₁⟩ := htakes.whole hlive hknown
    constructor
    · rw [operands_eq, hframe, houter, List.flatMap_cons, ← htakes.outer, ← operands_eq t₁, ht₁, ht]
      rfl
    · intro g hg
      rcases List.mem_cons.mp hg with rfl | hg
      · rw [hframe]
      · rw [houter, ← htakes.outer] at hg
        exact htakes.live hlive g hg
  | switches => nomatch hi
  | @closes g gs t₁ _ _ htakes hempty houter hframe houter' =>
    obtain ⟨rest, ht, ht₁⟩ := htakes.whole hlive hknown
    constructor
    · rw [operands_eq, hempty, List.nil_append, List.map_nil, List.nil_append, htakes.outer, houter,
        List.flatMap_cons] at ht₁
      rw [operands_eq, hframe, houter', ht, ← ht₁, List.append_assoc]
    · intro f hf
      have hg := hlive g (by rw [frames, houter]; exact List.mem_cons_of_mem _ List.mem_cons_self)
      rcases List.mem_cons.mp hf with rfl | hf
      · rw [hframe]
        exact hg
      · exact hlive f (by
          rw [frames, houter, ← houter']
          exact List.mem_cons_of_mem _ (List.mem_cons_of_mem _ hf))

/-- Nothing is done by `nop`. -/
theorem step_nop_eq {c : Context} {locals : List ValueType} {reshapes : List Reshape}
    (h : t.step c locals .nop = .ok (.next t' reshapes)) : t' = t := by
  obtain ⟨type, htype, h⟩ := bind_eq_ok.mp h
  cases pure_eq_ok.mp htype
  obtain ⟨t₁, h₁, h⟩ := bind_eq_ok.mp h
  cases pure_eq_ok.mp h
  obtain ⟨t₂, h₂, h₁⟩ := bind_eq_ok.mp h₁
  cases pure_eq_ok.mp h₁
  cases pure_eq_ok.mp h₂
  rfl

end Typing

/-! ### Labels -/

/-- The label of an open block, whose code starts at `head`. Operands lie above `bottom`. -/
def ControlFrame.label (bottom : Nat) (f : ControlFrame) (head : List TypedInstruction) : Label where
  loops := f.kind = .loop
  arity := f.labelTypes.length
  height := bottom + f.base
  continuation := if f.kind = .loop then head.map (·.erase) else Instruction.behind 0 (head.map (·.erase))

/-- The labels of open blocks. -/
def ControlFrame.labels (bottom : Nat) (frames : List ControlFrame) (heads : List (List TypedInstruction)) :
    List Label :=
  List.zipWith (label bottom) frames heads

theorem ControlFrame.Like.label {f g : ControlFrame} (h : f.Like g) (bottom : Nat) (head : List TypedInstruction) :
    g.label bottom head = f.label bottom head := by
  simp only [ControlFrame.label, h.kind, h.base, h.labelTypes]

theorem ControlFrame.Like.labels {f g : ControlFrame} (h : f.Like g) (bottom : Nat) (gs : List ControlFrame)
    (heads : List (List TypedInstruction)) :
    ControlFrame.labels bottom (g :: gs) heads = ControlFrame.labels bottom (f :: gs) heads := by
  cases heads with
  | nil => rfl
  | cons head heads => exact congrArg (· :: _) (h.label bottom head)

/-- The labels of the blocks that are open at a spot. -/
def Spot.labels (bottom : Nat) (p : Spot) : List Label := ControlFrame.labels bottom p.typing.frames p.heads

namespace TypedBody

variable {b : TypedBody} {p : Spot} {bottom : Nat}

/-! ### Going on -/

variable (b) in
/-- **Where execution goes on**: the op that comes next, the operands on the stack, which are all known, and the code
ahead with its labels. -/
inductive Stops (bottom : Nat) : Nat → List Operand → List (Nat × Instruction) → List Label → Prop
  | spot {p : Spot} : b.Visits p → p.typing.Live → p.typing.Known →
    Stops bottom p.pc p.typing.operands (p.code.map (·.erase)) (p.labels bottom)
  | exit : Stops bottom b.ops.length (b.results.reverse.map some) [] []

/-! ### Resting -/

variable (b) in
/-- **Where execution can rest**, with the operands that are on the stack: at a spot whose instruction has an op, or at
the return behind the code. -/
inductive Rests : Nat → List Operand → Prop
  | op {p : Spot} {x : TypedInstruction} {rest : List TypedInstruction} : b.Visits p → p.typing.Live →
    p.typing.Known → p.code = x :: rest → x.instruction.width = 1 → Rests p.pc p.typing.operands
  | exit : Rests b.ops.length (b.results.reverse.map some)

theorem width_le_one (i : Instruction) : i.width = 0 ∨ i.width = 1 := by
  cases i <;> first | exact .inl rfl | exact .inr rfl

/-- At the end of the code, the results are on the stack. -/
theorem Visits.exit (h : b.Visits p) (hlive : p.typing.Live) (hknown : p.typing.Known) {offset : Nat}
    {reshapes : List Reshape} {peak : Nat} (hcode : p.code = [⟨offset, .end_, reshapes⟩])
    (hlast : p.typing.step b.context b.locals .end_ = .ok (.closed peak)) :
    p.pc = b.ops.length ∧ p.typing.operands = b.results.reverse.map some := by
  obtain ⟨hle, hdrop⟩ := h.ops
  rw [hcode] at hdrop
  have hlength := congrArg List.length hdrop
  rw [List.length_drop] at hlength
  change b.ops.length - p.pc = 0 at hlength
  refine ⟨by omega, ?_⟩
  obtain ⟨-, t₁, htakes, hempty, ⟨houter, -⟩ | ⟨_, _, _, _, hp, -⟩⟩ := Typing.close_spec hlast
  · obtain ⟨rest, ht, ht₁⟩ := htakes.whole hlive hknown
    rw [Typing.operands_eq, hempty, htakes.outer, houter] at ht₁
    have hbegun := h.begun
    rw [Typing.frames, houter] at hbegun
    rw [hbegun.single_type] at ht
    rw [ht, ← show [] = rest from ht₁, List.append_nil]
  · cases hp

/-- **From each spot that can be reached one comes to rest** at the same op, with the same operands. -/
theorem Visits.rests (h : b.Visits p) (hlive : p.typing.Live) (hknown : p.typing.Known) :
    b.Rests p.pc p.typing.operands := by
  obtain ⟨t, code, pc, starts, heads⟩ := p
  have hchecks := h.checks
  dsimp only at hlive hknown hchecks ⊢
  generalize b.peak = peak at hchecks
  induction hchecks generalizing pc starts heads with
  | @last t offset peak hlast =>
    obtain ⟨hpc, hoperands⟩ := h.exit hlive hknown rfl hlast
    dsimp only at hpc hoperands
    rw [hpc, hoperands]
    exact .exit
  | @next t t' x rest peak hstep hrest ih =>
    rcases width_le_one x.instruction with hwidth | hwidth
    · have hv := h.next hstep
      have hshape := Typing.step_shape hstep
      rw [hwidth] at hv
      have hsame : t'.operands = t.operands ∧ t'.Live := by
        by_cases hnop : x.instruction = .nop
        · rw [hnop] at hstep
          rw [Typing.step_nop_eq hstep]
          exact ⟨rfl, hlive⟩
        · exact hshape.silent hwidth hnop hlive hknown
      have hknown' : t'.Known := by
        unfold Typing.Known
        rw [hsame.1]
        exact hknown
      rw [← hsame.1]
      exact ih _ _ _ hv hsame.2 hknown'
    · exact .op (p := ⟨t, x :: rest, pc, starts, heads⟩) h hlive hknown rfl hwidth

end TypedBody

/-! ### Branches -/

/-- **What a branch takes along and what it drops**, in code that can be reached: the types of its label are on top, and
what lies beneath them down to the operands of the blocks around the target is dropped. -/
theorem Typing.branch_operands {t : Typing} {label : Nat} {reshape : Reshape} {types : List ValueType}
    (hbased : TypedBody.Based t.frames) (h : t.branch label = .ok (reshape, types))
    (htop : types.reverse.map some <+: t.frame.operands) :
    ∃ dropped, t.operands = types.reverse.map some ++ (dropped ++
        (t.frames.drop (label + 1)).flatMap (·.operands)) ∧ reshape = ⟨types.length, dropped.length⟩ := by
  obtain ⟨f, hf, -, rfl⟩ := branch_eq_ok.mp h
  obtain ⟨top, htop⟩ := htop
  -- the blocks up to the target, and those around it
  have hsplit : t.frames.take (label + 1) ++ t.frames.drop (label + 1) = t.frames := List.take_append_drop _ _
  have hinner : t.frames.take (label + 1) = t.frame :: t.outer.take label := rfl
  have hbase : f.base = ((t.frames.drop (label + 1)).flatMap (·.operands)).length := by
    have hdrop := hbased.drop label
    rw [List.drop_eq_getElem_cons (List.getElem?_eq_some_iff.mp hf).1,
      (List.getElem?_eq_some_iff.mp hf).2] at hdrop
    exact hdrop.1
  refine ⟨top ++ (t.outer.take label).flatMap (·.operands), ?_, ?_⟩
  · rw [operands, ← hsplit, List.flatMap_append, hsplit, hinner, List.flatMap_cons, ← htop]
    simp only [List.append_assoc]
  · have hlength := congrArg List.length (operands_eq t)
    have houter : t.outer.take label ++ t.frames.drop (label + 1) = t.outer := List.take_append_drop _ _
    rw [← htop, ← houter, List.flatMap_append] at hlength
    simp only [List.length_append, List.length_map, List.length_reverse] at hlength ⊢
    rw [hbased.height, hlength, hbase]
    congr 1
    omega

/-- **A label accepts the operands** if a branch to it is possible, and finds what it takes along on top. -/
def Typing.Accepts (t : Typing) (label : Nat) (reshape : Reshape) : Prop :=
  ∃ types, t.branch label = .ok (reshape, types) ∧ types.reverse.map some <+: t.frame.operands

namespace TypedBody

variable {b : TypedBody} {p : Spot}

theorem Leads.like {frames : List ControlFrame} {starts : List (Option Nat)}
    {heads : List (List TypedInstruction)} {code : List (Nat × Instruction)} {label : Nat}
    {f g : ControlFrame} {pc : Nat} (hlike : f.Like g) (h : b.Leads frames starts heads code label f pc) :
    b.Leads frames starts heads code label g pc := by
  cases h with
  | loop hkind hhead hframe houter hv =>
    exact .loop (hlike.kind.trans hkind) hhead (hframe.trans hlike.entered.symm) houter hv
  | close hkind hclose => exact .close (hlike.kind ▸ hkind) (hclose.congr hlike.type)

/-- Execution can go on at a spot that has these operands and labels. -/
theorem Visits.stops {operands : List Operand} {labels : List Label} (hv : b.Visits p)
    (hoperands : p.typing.operands = operands) (hlabels : p.labels bottom = labels) (hlive : p.typing.Live)
    (hknown : ∀ o ∈ operands, o ≠ none) :
    b.Stops bottom p.pc operands (p.code.map (·.erase)) labels := by
  subst hoperands hlabels
  exact .spot hv hlive hknown

/-- **Where execution goes on, it comes to rest.** -/
theorem Stops.rests {pc : Nat} {operands : List Operand} {code : List (Nat × Instruction)} {labels : List Label}
    (h : b.Stops bottom pc operands code labels) : b.Rests pc operands := by
  cases h with
  | spot hv hlive hknown => exact hv.rests hlive hknown
  | exit => exact .exit

theorem known_append {types : List ValueType} {operands : List Operand} (h : ∀ o ∈ operands, o ≠ none) :
    ∀ o ∈ types.map some ++ operands, o ≠ none := by
  intro o ho
  rcases List.mem_append.mp ho with ho | ho
  · obtain ⟨_, -, rfl⟩ := List.mem_map.mp ho
    exact Option.some_ne_none _
  · exact h o ho

/-- **Where a block ends, execution can go on**, with its results on top of the operands of the blocks around it. -/
theorem Closes.stops {f : ControlFrame} {gs : List ControlFrame} {starts : List (Option Nat)}
    {heads : List (List TypedInstruction)} {pc : Nat} {code : List (Nat × Instruction)}
    (h : b.Closes f gs starts heads pc code) (hexit : gs = [] → f.type.results = b.results)
    (hlive : ∀ g ∈ gs, g.unreachable = false) (hknown : ∀ o ∈ gs.flatMap (·.operands), o ≠ none) :
    b.Stops bottom pc (f.type.results.reverse.map some ++ gs.flatMap (·.operands)) code
      (ControlFrame.labels bottom gs heads) := by
  cases h with
  | exit =>
    rw [hexit rfl, List.flatMap_nil, List.append_nil]
    exact .exit
  | @spot g gs t pc starts heads rest hframe houter hv =>
    obtain ⟨hg, hgs⟩ := List.forall_mem_cons.mp hlive
    have hlike : g.Like (g.given f.type.results) := ⟨rfl, rfl, rfl⟩
    refine hv.stops ?_ ?_ (List.forall_mem_cons.mpr ⟨by rw [hframe]; exact hg, houter ▸ hgs⟩)
      (known_append hknown)
    · rw [Typing.operands_eq, hframe, houter, List.flatMap_cons, ControlFrame.given, List.append_assoc]
    · rw [Spot.labels, Typing.frames, hframe, houter]
      exact hlike.labels bottom gs heads

/-- **Where a branch leads, execution can go on** as its label asks for, with what the branch carries on top of the
operands of the blocks around its target. -/
theorem Leads.stops {frames : List ControlFrame} {starts : List (Option Nat)}
    {heads : List (List TypedInstruction)} {code : List (Nat × Instruction)} {label : Nat}
    {f : ControlFrame} {pc : Nat} (bottom : Nat) (hbegun : b.Begun frames starts heads)
    (h : b.Leads frames starts heads code label f pc) (hf : frames[label]? = some f)
    (hbehind : ∀ head, heads[label]? = some head →
      Instruction.behind 0 (head.map (·.erase)) = Instruction.behind label code)
    (hlive : ∀ g ∈ frames.drop (label + 1), g.unreachable = false)
    (hknown : ∀ o ∈ (frames.drop (label + 1)).flatMap (·.operands), o ≠ none) :
    ∃ head, (ControlFrame.labels bottom frames heads).drop label =
        f.label bottom head :: (ControlFrame.labels bottom frames heads).drop (label + 1) ∧
      b.Stops bottom pc (f.labelTypes.reverse.map some ++ (frames.drop (label + 1)).flatMap (·.operands))
        (f.label bottom head).continuation
        (if f.kind = .loop then (ControlFrame.labels bottom frames heads).drop label
          else (ControlFrame.labels bottom frames heads).drop (label + 1)) := by
  have hframes : frames.drop label = f :: frames.drop (label + 1) := by
    rw [List.drop_eq_getElem_cons (List.getElem?_eq_some_iff.mp hf).1, (List.getElem?_eq_some_iff.mp hf).2]
  have hbegun' := hbegun.drop label (hframes ▸ List.cons_ne_nil _ _)
  rw [hframes] at hbegun'
  obtain ⟨_, _, head, _, -, hheads⟩ := hbegun'.cons_cons
  have hhead : heads[label]? = some head := by
    rw [← List.head?_drop, hheads]
    rfl
  have hheads : heads.drop label = head :: heads.drop (label + 1) := by
    rw [List.drop_eq_getElem_cons (List.getElem?_eq_some_iff.mp hhead).1,
      (List.getElem?_eq_some_iff.mp hhead).2]
  have hdrop (n : Nat) : (ControlFrame.labels bottom frames heads).drop n =
      ControlFrame.labels bottom (frames.drop n) (heads.drop n) := List.drop_zipWith
  have hlabels : ControlFrame.labels bottom (frames.drop label) (heads.drop label) =
      f.label bottom head :: ControlFrame.labels bottom (frames.drop (label + 1)) (heads.drop (label + 1)) := by
    rw [hframes, hheads]
    rfl
  rw [hdrop, hdrop]
  refine ⟨head, hlabels, ?_⟩
  cases h with
  | @loop t head' hkind hhead' hframe houter hv =>
    obtain rfl : head = head' := Option.some.inj (hhead.symm.trans hhead')
    have hlike : f.Like f.entered := ⟨rfl, rfl, rfl⟩
    rw [if_pos hkind, ControlFrame.label, ControlFrame.labelTypes, if_pos hkind, if_pos hkind]
    refine hv.stops ?_ ?_ (List.forall_mem_cons.mpr ⟨by rw [hframe]; rfl, houter ▸ hlive⟩)
      (known_append hknown)
    · rw [Typing.operands_eq, hframe, houter]
      rfl
    · rw [Spot.labels, Typing.frames, hframe, houter, hframes]
      exact hlike.labels bottom _ _
  | close hkind hclose =>
    rw [if_neg hkind, ControlFrame.label, ControlFrame.labelTypes, if_neg hkind, if_neg hkind, hbehind head hhead]
    refine hclose.stops (fun hnil => ?_) hlive hknown
    rw [hnil] at hbegun'
    rw [hbegun'.single_type]

/-- The end of an open block is found from its start as well as from any spot within it. -/
theorem Visits.behind_head (hv : b.Visits p) {label : Nat} {head : List TypedInstruction}
    (hhead : p.heads[label]? = some head) :
    Instruction.behind 0 (head.map (·.erase)) = Instruction.behind label (p.code.map (·.erase)) := by
  induction hv generalizing label with
  | start =>
    cases label with
    | zero =>
      cases hhead
      rfl
    | succ => nomatch hhead
  | @next t t' x rest pc starts heads hv hstep ih =>
    obtain ⟨offset, i, reshapes⟩ := x
    dsimp only at hhead ih ⊢
    cases i with
    | block | loop | if_ =>
      cases label with
      | zero =>
        cases hhead
        rfl
      | succ label => exact ih hhead
    | end_ =>
      have hhead : heads[label + 1]? = some head := by rwa [← List.getElem?_tail]
      exact ih hhead
    | _ => exact ih hhead

/-- **A branch of an instruction** leads where its target says, if the spot is the one behind the instruction, and the
branch is taken with other operands in the same blocks. -/
theorem Visits.leads (hv : b.Visits p) {t : Typing} (houter : p.typing.outer = t.outer)
    (hlike : t.frame.Like p.typing.frame) {label : Nat} {reshape : Reshape} {types : List ValueType}
    (hbranch : t.branch label = .ok (reshape, types)) : ∃ f, t.frames[label]? = some f ∧
      f.labelTypes = types ∧ b.Leads t.frames p.starts p.heads (p.code.map (·.erase)) label f
        (labelTarget p.starts (TypedInstruction.lower p.pc p.starts p.code).2 label) := by
  obtain ⟨f, hf, htypes, -⟩ := Typing.branch_eq_ok.mp hbranch
  have hdrop : p.typing.frames.drop (label + 1) = t.frames.drop (label + 1) :=
    congrArg (List.drop label) houter
  obtain ⟨g, hg, hfg⟩ : ∃ g, p.typing.frames[label]? = some g ∧ g.Like f := by
    cases label with
    | zero =>
      cases hf
      exact ⟨_, rfl, hlike.symm⟩
    | succ label =>
      have hf : t.outer[label]? = some f := hf
      exact ⟨f, by rw [← hf, ← houter]; rfl, .refl f⟩
  refine ⟨f, hf, htypes, ?_⟩
  have hleads := (target_spec hv.begun hv.landed hg).like hfg
  cases hleads with
  | loop hkind hhead hframe houter hv => exact .loop hkind hhead hframe (houter.trans hdrop) hv
  | close hkind hclose => exact .close hkind (hdrop ▸ hclose)

/-- **Where a branch of an instruction leads, execution can go on** as the label asks for. -/
theorem Visits.target_stops (bottom : Nat) (hv : b.Visits p) {t : Typing} (houter : p.typing.outer = t.outer)
    (hlike : t.frame.Like p.typing.frame) {label : Nat} {reshape : Reshape} {types : List ValueType}
    (hbranch : t.branch label = .ok (reshape, types)) (hlive : t.Live) (hknown : t.Known) :
    ∃ f head, t.frames[label]? = some f ∧ f.labelTypes = types ∧
      (p.labels bottom).drop label = f.label bottom head :: (p.labels bottom).drop (label + 1) ∧
      b.Stops bottom (labelTarget p.starts (TypedInstruction.lower p.pc p.starts p.code).2 label)
        (types.reverse.map some ++ (t.frames.drop (label + 1)).flatMap (·.operands))
        (f.label bottom head).continuation
        (if f.kind = .loop then (p.labels bottom).drop label else (p.labels bottom).drop (label + 1)) := by
  obtain ⟨f, hf, rfl, hleads⟩ := hv.leads houter hlike hbranch
  have hbegun := hv.begun
  have hlabels : p.labels bottom = ControlFrame.labels bottom t.frames p.heads := by
    rw [Spot.labels, Typing.frames, houter]
    exact hlike.labels bottom _ _
  rw [Typing.frames, houter] at hbegun
  have hknown' : ∀ o ∈ (t.frames.drop (label + 1)).flatMap (·.operands), o ≠ none := by
    intro o ho
    obtain ⟨g, hg, ho⟩ := List.mem_flatMap.mp ho
    exact hknown o (List.mem_flatMap.mpr ⟨g, List.mem_of_mem_drop hg, ho⟩)
  obtain ⟨head, hdrop, hstops⟩ := hleads.stops bottom (hbegun.like hlike.symm) hf (fun _ h => hv.behind_head h)
    (fun g hg => hlive g (List.mem_of_mem_drop hg)) hknown'
  rw [hlabels]
  exact ⟨f, head, hf, rfl, hdrop, hstops⟩

/-! ### Conditionals -/

/-- **Where a conditional is entered if its condition is zero**, execution can go on: at its second arm, or behind
its end. The spot is the one at the start of the first arm. -/
theorem Visits.skipped_stops (bottom : Nat) (hv : b.Visits p) (hkind : p.typing.frame.kind = .ifArm)
    (hgiven : p.typing.frame.operands = p.typing.frame.type.params.reverse.map some)
    (houter : p.typing.outer ≠ []) (hlive : p.typing.Live) (hknown : p.typing.Known) :
    ∃ code labels, b.Stops bottom (((TypedInstruction.lower p.pc p.starts p.code).2.head?.map
        fun l => l.arm.getD l.close).getD 0) p.typing.operands code labels ∧
      (∀ arm, Instruction.secondArm 0 (p.code.map (·.erase)) = some arm → code = arm ∧ labels = p.labels bottom) ∧
      (Instruction.secondArm 0 (p.code.map (·.erase)) = none →
        code = Instruction.behind 0 (p.code.map (·.erase)) ∧ labels = (p.labels bottom).tail) := by
  obtain ⟨⟨f, gs, peak⟩, code, pc, starts, heads⟩ := p
  have hlanded := hv.landed
  have hlive' : ∀ g ∈ gs, g.unreachable = false := fun g hg => hlive g (List.mem_cons_of_mem _ hg)
  have hknown' : ∀ o ∈ gs.flatMap (·.operands), o ≠ none := fun o ho =>
    hknown o (by rw [Typing.operands_eq]; exact List.mem_append_right _ ho)
  rw [Typing.operands_eq]
  dsimp only [Typing.frames] at hkind hgiven houter hlanded ⊢
  rw [hgiven]
  generalize (TypedInstruction.lower pc starts code).2 = landings at hlanded ⊢
  generalize hcode : code.map (·.erase) = erased at hlanded ⊢
  cases hlanded with
  | @cons _ _ _ start starts head heads landing landings hclose hturns _ =>
    have hturns := hturns hkind
    change ∃ code' labels, b.Stops bottom (landing.arm.getD landing.close) _ _ _ ∧ _
    generalize landing.arm = arm, Instruction.secondArm 0 erased = second at hturns ⊢
    cases hturns with
    | @arm t pc' rest hframe houter' hv' =>
      refine ⟨rest.map (·.erase), _, hv'.stops ?_ rfl
        (List.forall_mem_cons.mpr ⟨by rw [hframe]; rfl, houter' ▸ hlive'⟩) (known_append hknown'), ?_,
        fun h => by cases h⟩
      · rw [Typing.operands_eq, hframe, houter']
        rfl
      · intro arm harm
        cases harm
        have hlabel : t.frame.label bottom head = f.label bottom head := by
          rw [hframe]
          simp [ControlFrame.label, ControlFrame.labelTypes, ControlFrame.entered, hkind]
        refine ⟨rfl, ?_⟩
        rw [Spot.labels, Spot.labels, Typing.frames, Typing.frames, houter']
        exact congrArg (· :: ControlFrame.labels bottom gs heads) hlabel
    | none heq =>
      rw [heq]
      exact ⟨_, _, hclose.stops (fun hnil => absurd hnil houter) hlive' hknown',
        (fun _ h => by cases h), fun _ => ⟨rfl, rfl⟩⟩

/-- **Where the first arm of a conditional ends, execution can go on** behind the conditional. The spot is the one at
the start of the second arm. -/
theorem Visits.close_stops (bottom : Nat) (hv : b.Visits p) (houter : p.typing.outer ≠ [])
    (hlive : ∀ g ∈ p.typing.outer, g.unreachable = false)
    (hknown : ∀ o ∈ p.typing.outer.flatMap (·.operands), o ≠ none) :
    b.Stops bottom (((TypedInstruction.lower p.pc p.starts p.code).2.head?.map (·.close)).getD 0)
      (p.typing.frame.type.results.reverse.map some ++ p.typing.outer.flatMap (·.operands))
      (Instruction.behind 0 (p.code.map (·.erase))) (p.labels bottom).tail := by
  obtain ⟨⟨f, gs, peak⟩, code, pc, starts, heads⟩ := p
  have hlanded := hv.landed
  dsimp only [Typing.frames] at houter hlanded hlive hknown ⊢
  generalize (TypedInstruction.lower pc starts code).2 = landings at hlanded ⊢
  generalize hcode : code.map (·.erase) = erased at hlanded ⊢
  cases hlanded with
  | @cons _ _ _ start starts head heads landing landings hclose hturns _ =>
    exact hclose.stops (fun hnil => absurd hnil houter) hlive hknown

end TypedBody

end WasmEngine
