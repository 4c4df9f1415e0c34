import WasmEngine.Proofs.Agree
import WasmEngine.Proofs.Structured.Matching

/-!
# Ops do what instructions do

The op of a frame that is ready does what the instruction of a frame that matches it does: both go on with the same
stack in the same store, at places that match again, or make the same call, or return, or fail with the same
error (`Frame.Ready.exec_agrees`).

What makes the two agree about branches is what is known of the spot: the label lies as high on the stack as the
reshaping of the branch leaves it, its code is what the target of the branch stands for, and the branch goes
back exactly if it is to a loop.
-/

namespace WasmEngine

variable {σ : Type} {s s' : Store σ} {D : Domain} {features : Features} {b : TypedBody} {f : Frame}
  {g : StructuredFrame} {operands : List Operand} {lower lcells cells : List Cell} {stack : Stack}

/-- Where a conditional goes. -/
theorem StructuredFrame.run_if (g : StructuredFrame) (rest : List (Nat × Instruction)) (type : BlockType)
    {condition : Cell} {below ops : List Cell} :
    g.run rest (.if_ type) ⟨s, .of below (condition :: ops)⟩ =
      .ok (.go (if (condition.setWidth 32).toNat = 0 then
          match Instruction.secondArm 0 rest with
          | some arm => { g with
              code := arm
              labels := .block (g.module.blockType type) (Stack.of below ops).height rest :: g.labels }
          | none => g.goto (Instruction.behind 0 rest)
        else { g with
          code := rest
          labels := .block (g.module.blockType type) (Stack.of below ops).height rest :: g.labels }))
        ⟨s, .of below ops⟩ := by
  refine (estate_bind_of_ok (Exec.popNat_of condition)).trans ((estate_bind_of_ok rfl).trans ?_)
  by_cases hzero : (condition.setWidth 32).toNat = 0
  · rw [if_pos hzero, if_pos hzero]
    cases Instruction.secondArm 0 rest <;> rfl
  · rw [if_neg hzero, if_neg hzero]
    rfl

namespace Frame

/-! ### Ops and instructions, one by one -/

/-- What frames that match do next agrees. -/
inductive Agrees : Transfer Frame → Transfer StructuredFrame → Prop
  | go {f : Frame} {g : StructuredFrame} : f.Matches g → Agrees (.go f) (.go g)
  | call {f : Frame} {g : StructuredFrame} {addr : Nat} : f.Matches g →
    (f.goto (f.pc + 1)).Matches (g.goto g.code.tail) →
    Agrees (.call addr f) (.call addr g)
  | ret : Agrees .ret .ret

/-- **Two frames stand at the same spot**, in front of the same instruction. -/
structure Faces (D : Domain) (s : Store σ) (f : Frame) (g : StructuredFrame) (features : Features) (b : TypedBody)
    (lower : List Cell) (p : Spot) (x : TypedInstruction) (q : Spot) (lcells cells : List Cell) : Prop extends
    f.Stands D s features b lower p x q lcells cells where
  scope : g.toScope = f.toScope
  close : g.close = b.close
  code : g.code = p.code.map (·.erase)
  labels : g.labels = p.labels (lower ++ lcells).length
  ahead : p.code = x :: q.code
  starts : q.starts = x.instruction.startsAfter p.pc p.starts
  heads : q.heads = x.instruction.headsAfter q.code p.heads

open Exec

/-- What is done agrees, from here on. -/
abbrev AgreeAt (f : Frame) (flow : Exec σ Flow) (transfer : Exec σ (Transfer StructuredFrame)) (r : Running σ) : Prop :=
  Agree Eq (fun flow transfer => Agrees (f.transfer flow) transfer) (flow r) (transfer r)

theorem Lays.bottom (hf : f.Lays D s features b lower operands lcells cells) :
    (lower ++ lcells).length = f.base + b.locals.length := by
  rw [List.length_append, hf.base, hf.locals.length_eq]

namespace Faces

variable {p q : Spot} {x : TypedInstruction}

/-- Where both go on. -/
theorem goto (h : f.Faces D s g features b lower p x q lcells cells) {pc : Nat} {operands : List Operand}
    {code : List (Nat × Instruction)} {labels : List Label}
    (hstops : b.Stops (lower ++ lcells).length pc operands code labels) :
    (f.goto pc).Matches { g with code, labels } :=
  ⟨features, b, operands, h.toOf, h.scope, h.close, h.bottom ▸ hstops⟩

theorem matches_ (h : f.Faces D s g features b lower p x q lcells cells) : f.Matches g := by
  have hstops := h.goto (.spot h.visits h.live h.known)
  rw [← h.code, ← h.labels, ← h.pc] at hstops
  exact hstops

/-- Both go on behind an instruction that leaves the blocks as they are. -/
theorem labels_flat (h : f.Faces D s g features b lower p x q lcells cells) (hflat : x.instruction.isFlat = true) :
    q.starts = p.starts ∧ q.heads = p.heads ∧ q.labels (lower ++ lcells).length = g.labels := by
  have hshape := Typing.step_shape h.step
  have hheads : q.heads = p.heads := by rw [h.heads, Instruction.headsAfter_flat hflat]
  refine ⟨by rw [h.starts, Instruction.startsAfter_flat hflat], hheads, ?_⟩
  generalize x.instruction = i at hshape hflat
  cases hshape with
  | stays _ houter hlike =>
    rw [h.labels, Spot.labels, Spot.labels, hheads, Typing.frames, houter]
    exact hlike.labels _ _ _
  | opens hkind => cases i with
    | block | loop | if_ => cases hflat
    | _ => cases hkind
  | switches | closes => cases hflat

theorem next (h : f.Faces D s g features b lower p x q lcells cells) (hflat : x.instruction.isFlat = true)
    (hlive : q.typing.Live) (hknown : q.typing.Known) :
    (f.goto (f.pc + 1)).Matches (g.goto (q.code.map (·.erase))) := by
  have hstops := h.goto (.spot h.next_visits hlive hknown)
  rw [(h.labels_flat hflat).2.2, h.next_pc, ← h.pc] at hstops
  exact hstops

/-- Behind what an instruction takes, the operands are known. -/
theorem known_next (h : f.Faces D s g features b lower p x q lcells cells) {ins outs : List ValueType}
    (htakes : p.typing.Takes ins outs q.typing) : q.typing.Live ∧ q.typing.Known := by
  obtain ⟨operands, hp, hq⟩ := htakes.whole h.live h.known
  refine ⟨htakes.live h.live, ?_⟩
  unfold Typing.Known
  rw [hq]
  refine TypedBody.known_append fun o ho => h.known o ?_
  rw [hp]
  exact List.mem_append_right _ ho

theorem agree_plain (h : f.Faces D s g features b lower p x q lcells cells) {op : PlainOp}
    (hop : x.instruction.plainOp? = some op) (r : Running σ) :
    f.AgreeAt ((Op.plain op).exec f) (do op.exec g.toScope; return .go (g.goto (q.code.map (·.erase)))) r := by
  obtain ⟨ins, outs, -, htakes⟩ := Typing.step_plain hop h.step
  obtain ⟨hlive, hknown⟩ := h.known_next htakes
  have hflat : x.instruction.isFlat = true := by
    generalize x.instruction = i at hop
    cases i with
    | block | loop | if_ | else_ | end_ => nomatch hop
    | _ => rfl
  rw [h.scope]
  exact agree_bind fun _ _ _ => .ok (.go (h.next hflat hlive hknown)) rfl

/-- **The executable form goes back exactly if the label is that of a loop.** -/
theorem goes_back (h : f.Faces D s g features b lower p x q lcells cells) (hflat : x.instruction.isFlat = true)
    {t : Typing} (houter : q.typing.outer = t.outer) (hlike : t.frame.Like q.typing.frame) {label : Nat}
    {target : ControlFrame} (htarget : t.frames[label]? = some target) (reshape : Reshape) :
    (Stands.target q label reshape).pc ≤ f.pc ↔ target.kind = .loop := by
  obtain ⟨u, hu, hkind⟩ : ∃ u, q.typing.frames[label]? = some u ∧ u.kind = target.kind := by
    cases label with
    | zero =>
      cases htarget
      exact ⟨_, rfl, hlike.kind⟩
    | succ label => exact ⟨target, by rw [Typing.frames, houter]; exact htarget, rfl⟩
  -- the blocks that are open have started before the branch itself
  have hstarts (start : Nat) (hs : some start ∈ q.starts) : start < q.pc := by
    rw [(h.labels_flat hflat).1] at hs
    rw [h.next_pc]
    exact Nat.lt_succ_of_le (h.visits.start_le start hs)
  have hlt : (Stands.target q label reshape).pc ≤ f.pc ↔ (Stands.target q label reshape).pc < q.pc := by
    rw [h.next_pc, ← h.pc, Nat.lt_succ_iff]
  rw [hlt, ← hkind]
  exact h.next_visits.target_lt_iff hstarts hu

/-- **Taking a branch**, with operands `t` in the blocks around the next spot. -/
theorem agree_branch (h : f.Faces D s g features b lower p x q lcells cells) (hflat : x.instruction.isFlat = true)
    {t : Typing} (houter : q.typing.outer = t.outer) (hlike : t.frame.Like q.typing.frame)
    (hbased : TypedBody.Based t.frames) (hlive : t.Live) {rest : List Cell}
    (hcells : List.Forall₂ (s.Holds D) t.operands rest) {label : Nat} {reshape : Reshape}
    (haccepts : t.Accepts label reshape) :
    f.AgreeAt (branch f (Stands.target q label reshape)) (g.branch label) ⟨s, .of (lower ++ lcells) rest⟩ := by
  obtain ⟨types, hbranch, kept, dropped, below, rfl, hkeep, -, hbelow, hreshape⟩ := haccepts.holds hbased hcells
  obtain ⟨target, head, htarget, htypes, hdrop, hstops⟩ := h.next_visits.target_stops (lower ++ lcells).length houter
    hlike hbranch hlive (Store.known_of_holds hcells)
  have hback := h.goes_back hflat houter hlike htarget reshape
  rw [(h.labels_flat hflat).2.2] at hdrop hstops
  -- both leave the same stack
  have hheight : (target.label (lower ++ lcells).length head).height = (lower ++ lcells).length + below.length := by
    have hbase := hbased.drop label
    rw [List.drop_eq_getElem_cons (List.getElem?_eq_some_iff.mp htarget).1,
      (List.getElem?_eq_some_iff.mp htarget).2] at hbase
    rw [ControlFrame.label, hbase.1, hbelow.length_eq]
  have hunwind : (Stack.of (lower ++ lcells) (kept ++ (dropped ++ below))).unwind
      (target.label (lower ++ lcells).length head).height (target.label (lower ++ lcells).length head).arity =
        .of (lower ++ lcells) (kept ++ below) := by
    rw [hheight, ControlFrame.label, htypes, ← hkeep]
    exact Stack.unwind_of _ _ _ _
  have hflat : (changeStack (·.reshape (Stands.target q label reshape).reshape) : Exec σ Unit)
      ⟨s, .of (lower ++ lcells) (kept ++ (dropped ++ below))⟩ = .ok () ⟨s, .of (lower ++ lcells) (kept ++ below)⟩ :=
    congrArg (fun stack => EStateM.Result.ok () (Running.mk s stack)) (hreshape _)
  have hstructured : (changeStack (·.unwind (target.label (lower ++ lcells).length head).height
      (target.label (lower ++ lcells).length head).arity) : Exec σ Unit)
      ⟨s, .of (lower ++ lcells) (kept ++ (dropped ++ below))⟩ = .ok () ⟨s, .of (lower ++ lcells) (kept ++ below)⟩ :=
    congrArg (fun stack => EStateM.Result.ok () (Running.mk s stack)) hunwind
  have hgo := h.goto hstops
  unfold AgreeAt branch StructuredFrame.branch
  rw [hdrop] at hgo ⊢
  dsimp only
  rw [estate_bind_of_ok hflat, estate_bind_of_ok hstructured]
  by_cases hloop : target.kind = .loop
  · have hloops : (target.label (lower ++ lcells).length head).loops = true := decide_eq_true hloop
    rw [if_pos (hback.mpr hloop), if_pos hloops]
    rw [if_pos hloop] at hgo
    exact agree_bind fun _ _ _ => .ok (.go hgo) rfl
  · have hloops : ¬(target.label (lower ++ lcells).length head).loops = true := fun h => hloop (of_decide_eq_true h)
    rw [if_neg (fun hle => hloop (hback.mp hle)), if_neg hloops]
    rw [if_neg hloop] at hgo
    exact .ok (.go hgo) rfl

theorem agree_br (h : f.Faces D s g features b lower p x q lcells cells) {label : Nat}
    (hx : x.instruction = .br label) :
    f.AgreeAt ((Op.br (Stands.target q label (x.reshapes.headD ⟨0, 0⟩))).exec f) (g.branch label)
      ⟨s, .of (lower ++ lcells) cells⟩ := by
  have hstep := h.step
  rw [hx] at hstep
  obtain ⟨reshape, types, t₁, hbranch, hreshapes, htakes, hq⟩ := Typing.step_br hstep
  have hlike : t₁.frame.Like t₁.setUnreachable.frame := ⟨rfl, rfl, rfl⟩
  rw [hreshapes]
  refine h.agree_branch (by rw [hx]; rfl) (t := p.typing) ?_ ?_ h.visits.based h.live h.operands
    ⟨types, hbranch, htakes.top h.live h.known⟩
  · rw [← hq]
    exact htakes.outer
  · rw [← hq]
    exact htakes.like.trans hlike

theorem agree_brIf (h : f.Faces D s g features b lower p x q lcells cells) {label : Nat}
    (hx : x.instruction = .brIf label) :
    f.AgreeAt ((Op.brIf (Stands.target q label (x.reshapes.headD ⟨0, 0⟩))).exec f)
      (do if (← popNat) ≠ 0 then g.branch label else return .go (g.goto (q.code.map (·.erase))))
      ⟨s, .of (lower ++ lcells) cells⟩ := by
  have hstep := h.step
  rw [hx] at hstep
  have hflat : x.instruction.isFlat = true := by rw [hx]; rfl
  obtain ⟨reshape, types, t₁, htakes, hbranch, hreshapes, htakes'⟩ := Typing.step_brIf hstep
  obtain ⟨operands, _, rest, rfl, hins, hrest, -, ht₁, hlive⟩ := htakes.holds h.live h.operands
  obtain ⟨condition, rfl, -⟩ := fits_one hins
  have hcells : List.Forall₂ (s.Holds D) t₁.operands rest := by rwa [ht₁]
  have hknown : t₁.Known := Store.known_of_holds hcells
  have hbased : TypedBody.Based t₁.frames :=
    h.visits.based.shape (.stays (i := .drop) rfl htakes.outer htakes.like)
  obtain ⟨operands', hp, hq⟩ := htakes'.whole hlive hknown
  rw [hreshapes]
  refine agree_bind_of_ok (popNat_of condition) ?_
  split
  · exact h.agree_branch hflat htakes'.outer htakes'.like hbased hlive hcells
      ⟨types, hbranch, htakes'.top hlive hknown⟩
  · refine .ok (.go (h.next hflat (htakes'.live hlive) ?_)) rfl
    unfold Typing.Known
    rwa [hq, ← hp]

/-- The target that a table takes is that of the label it takes. -/
theorem getD_targets (leads : Nat → Reshape → BranchTarget) {P : Nat → Reshape → Prop} {labels : List Nat}
    {targets : List Reshape} {default : Nat} {reshape : Reshape} (hlabels : List.Forall₂ P labels targets)
    (hdefault : P default reshape) (index : Nat) :
    ∃ reshape', P (labels[index]?.getD default) reshape' ∧
      (List.zipWith leads labels (targets ++ [reshape]))[index]?.getD (leads default reshape) =
        leads (labels[index]?.getD default) reshape' := by
  induction hlabels generalizing index with
  | nil => exact ⟨reshape, hdefault, rfl⟩
  | cons hlabel _ ih => cases index with
    | zero => exact ⟨_, hlabel, rfl⟩
    | succ index => exact ih index

theorem agree_brTable (h : f.Faces D s g features b lower p x q lcells cells) {labels : List Nat} {default : Nat}
    (hx : x.instruction = .brTable labels default) :
    f.AgreeAt ((Op.brTable (List.zipWith (Stands.target q) labels x.reshapes)
        (Stands.target q default (x.reshapes.getLastD ⟨0, 0⟩))).exec f)
      (do let index ← popNat; g.branch (labels[index]?.getD default)) ⟨s, .of (lower ++ lcells) cells⟩ := by
  obtain ⟨t, targets, reshape, htakes, hreshapes, houter, hlike, hdefault, hlabels⟩ := h.accepts_brTable hx
  obtain ⟨operands, _, rest, rfl, hins, hrest, -, ht, hlive⟩ := htakes.holds h.live h.operands
  obtain ⟨index, rfl, -⟩ := fits_one hins
  have hcells : List.Forall₂ (s.Holds D) t.operands rest := by rwa [ht]
  have hbased : TypedBody.Based t.frames :=
    h.visits.based.shape (.stays (i := .drop) rfl htakes.outer htakes.like)
  rw [hreshapes, List.getLastD_concat]
  refine agree_bind_of_ok (popNat_of index) ?_
  obtain ⟨reshape', haccepts, htarget⟩ :=
    getD_targets (Stands.target q) hlabels hdefault (index.setWidth 32).toNat
  rw [htarget]
  exact h.agree_branch (by rw [hx]; rfl) houter hlike hbased hlive hcells haccepts

/-- The label of a conditional that is entered. -/
theorem labels_if (h : f.Faces D s g features b lower p x q lcells cells) {type : BlockType}
    (hx : x.instruction = .if_ type) (hkind : q.typing.frame.kind ≠ .loop) :
    q.labels (lower ++ lcells).length = .block (f.module.blockType type)
      ((lower ++ lcells).length + q.typing.operands.length) (q.code.map (·.erase)) :: g.labels := by
  have hv := h.visits
  have hlabels := h.labels
  have hahead := h.ahead
  have hheads := h.heads
  have hstep := h.step
  obtain ⟨t, code, pc, starts, heads⟩ := p
  obtain rfl : code = x :: q.code := hahead
  have hopens := hv.opens_labels h.context hstep (lower ++ lcells).length (.inr (.inr hx))
  rw [if_neg hkind] at hopens
  rw [Spot.labels, hheads, hx, hlabels]
  exact hopens

theorem agree_if (h : f.Faces D s g features b lower p x q lcells cells) {type : BlockType}
    (hx : x.instruction = .if_ type) :
    f.AgreeAt ((Op.brUnless (((TypedInstruction.lower q.pc q.starts q.code).2.head?.map
        fun l => l.arm.getD l.close).getD 0)).exec f) (g.run (q.code.map (·.erase)) (.if_ type))
      ⟨s, .of (lower ++ lcells) cells⟩ := by
  have hshape := Typing.step_shape h.step
  rw [hx] at hshape
  cases hshape with
  | stays hflat => nomatch hflat
  | @opens _ kind signature t₁ _ hkind htakes hframe houter =>
    cases hkind
    rw [if_pos rfl] at htakes
    obtain ⟨operands, _, rest, rfl, hins, hrest, -, ht₁, hlive⟩ := htakes.holds h.live h.operands
    obtain ⟨condition, pcells, -, hparams, rfl⟩ := List.forall₂_cons_left_iff.mp hins
    have hq : q.typing.operands = signature.params.reverse.map some ++ operands := by
      rw [Typing.operands_eq, hframe, houter, List.flatMap_cons, ← htakes.outer, ← Typing.operands_eq, ht₁]
      rfl
    have hlive : q.typing.Live := by
      refine List.forall_mem_cons.mpr ⟨by rw [hframe], ?_⟩
      rw [houter, ← htakes.outer]
      exact hlive
    have hoperands : List.Forall₂ (s.Holds D) q.typing.operands (pcells ++ rest) := by
      rw [hq]
      exact Store.holds_append (Store.holds_types.mpr hparams) hrest
    have hknown : q.typing.Known := Store.known_of_holds hoperands
    have hkind : q.typing.frame.kind = .ifArm := by rw [hframe]
    have hgiven : q.typing.frame.operands = q.typing.frame.type.params.reverse.map some := by rw [hframe]
    have hne : q.typing.outer ≠ [] := houter ▸ List.cons_ne_nil _ _
    -- the label is the one that is entered
    have hlabels := h.labels_if hx (hkind ▸ nofun)
    have hheight : (Stack.of (lower ++ lcells) (pcells ++ rest)).height =
        (lower ++ lcells).length + q.typing.operands.length := by
      rw [Stack.height_of, hoperands.length_eq]
    rw [← hheight, ← h.scope] at hlabels
    obtain ⟨code, labels, hstops, harm, hbehind⟩ :=
      h.next_visits.skipped_stops (lower ++ lcells).length hkind hgiven hne hlive hknown
    have hskip := h.goto hstops
    have henter := h.goto (.spot h.next_visits hlive hknown)
    rw [h.next_pc, ← h.pc, hlabels] at henter
    rw [hlabels] at harm hbehind
    rw [List.cons_append, AgreeAt, StructuredFrame.run_if, Op.exec, estate_bind_of_ok (popNat_of condition)]
    by_cases hzero : (condition.setWidth 32).toNat = 0
    · rw [if_pos hzero, if_pos hzero]
      cases hsecond : Instruction.secondArm 0 (q.code.map (·.erase)) with
      | some arm =>
        obtain ⟨rfl, rfl⟩ := harm arm hsecond
        exact .ok (.go hskip) rfl
      | none =>
        obtain ⟨rfl, rfl⟩ := hbehind hsecond
        exact .ok (.go hskip) rfl
    · rw [if_neg hzero, if_neg hzero]
      exact .ok (.go henter) rfl

theorem agree_else (h : f.Faces D s g features b lower p x q lcells cells) (hx : x.instruction = .else_) :
    f.AgreeAt ((Op.jump (((TypedInstruction.lower q.pc q.starts q.code).2.head?.map (·.close)).getD 0)).exec f)
      (g.run (q.code.map (·.erase)) .else_) ⟨s, .of (lower ++ lcells) cells⟩ := by
  have hshape := Typing.step_shape h.step
  rw [hx] at hshape
  cases hshape with
  | stays hflat => cases hflat
  | opens hkind => cases hkind
  | @switches t₁ _ hkind htakes hempty hframe houter =>
    have hnil : p.typing.outer ≠ [] := by
      intro hnil
      have hbegun := h.visits.begun
      rw [Typing.frames, hnil] at hbegun
      cases hkind.symm.trans hbegun.single.1
    have hstops := h.next_visits.close_stops (lower ++ lcells).length (by rwa [houter])
      (fun g hg => h.live g (List.mem_cons_of_mem _ (houter ▸ hg)))
      (fun o ho => h.known o (by rw [Typing.operands_eq]; exact List.mem_append_right _ (houter ▸ ho)))
    have htail : (q.labels (lower ++ lcells).length).tail = g.labels.tail := by
      rw [h.labels, Spot.labels, Spot.labels, Typing.frames, Typing.frames, houter, h.heads, hx]
      cases p.heads <;> rfl
    rw [htail] at hstops
    exact .ok (.go (h.goto hstops)) rfl

/-- **Calls**, with the frames that go on behind them. -/
theorem agree_callee (h : f.Faces D s g features b lower p x q lcells cells) (hflat : x.instruction.isFlat = true)
    {ins outs : List ValueType} (htakes : p.typing.Takes ins outs q.typing) (act : Exec σ Nat) (r : Running σ) :
    f.AgreeAt (do return .call (← act)) (do return .call (← act) g) r := by
  obtain ⟨hlive, hknown⟩ := h.known_next htakes
  have hcode : g.code.tail = q.code.map (·.erase) := by
    rw [h.code, h.ahead]
    rfl
  refine agree_bind fun addr r' _ => .ok (.call h.matches_ ?_) rfl
  rw [hcode]
  exact h.next hflat hlive hknown

theorem agree_call (h : f.Faces D s g features b lower p x q lcells cells) {func : Nat}
    (hx : x.instruction = .call func) :
    f.AgreeAt ((Op.call func).exec f) (g.run (q.code.map (·.erase)) (.call func)) ⟨s, .of (lower ++ lcells) cells⟩ := by
  have hstep := h.step
  rw [hx] at hstep
  obtain ⟨type, -, htakes⟩ := Typing.step_call hstep
  have hagree := h.agree_callee (by rw [hx]; rfl) htakes (funcAddr f.toScope func) ⟨s, .of (lower ++ lcells) cells⟩
  unfold StructuredFrame.run
  rw [h.scope]
  exact hagree

theorem agree_callIndirect (h : f.Faces D s g features b lower p x q lcells cells) {type table : Nat}
    (hx : x.instruction = .callIndirect type table) :
    f.AgreeAt ((Op.callIndirect type table).exec f) (g.run (q.code.map (·.erase)) (.callIndirect type table))
      ⟨s, .of (lower ++ lcells) cells⟩ := by
  have hstep := h.step
  rw [hx] at hstep
  obtain ⟨tableType, signature, -, -, -, htakes⟩ := Typing.step_callIndirect hstep
  have hagree := h.agree_callee (by rw [hx]; rfl) htakes (indirectCallee f.toScope type table)
    ⟨s, .of (lower ++ lcells) cells⟩
  unfold StructuredFrame.run
  rw [h.scope]
  exact hagree

end Faces

/-- **Returning**, with the results on top of other operands. -/
theorem Lays.agree_ret {rest : List Operand}
    (hf : f.Lays D s features b lower (b.results.reverse.map some ++ rest) lcells cells)
    (hscope : g.toScope = f.toScope) :
    f.AgreeAt (Op.ret.exec f) g.leave ⟨s, .of (lower ++ lcells) cells⟩ := by
  obtain ⟨rcells, dropped, -, hlength, hstack⟩ := hf.results_of
  have hreshape := Stack.reshape_ret lower rcells dropped
  have hunwind := Stack.unwind_ret lower rcells dropped
  rw [hlength, hf.base] at hreshape hunwind
  rw [← hscope] at hunwind
  have hflat : Op.ret.exec f ⟨s, .of lower (rcells ++ dropped)⟩ = .ok .ret
      ⟨{ s with stats := s.stats.record 0 (Stack.of lower (rcells ++ dropped)).height }, .of lower rcells⟩ :=
    congrArg (fun stack => EStateM.Result.ok Flow.ret (Running.mk _ stack)) hreshape
  have hstructured : g.leave ⟨s, .of lower (rcells ++ dropped)⟩ = .ok .ret
      ⟨{ s with stats := s.stats.record 0 (Stack.of lower (rcells ++ dropped)).height }, .of lower rcells⟩ :=
    congrArg (fun stack => EStateM.Result.ok Transfer.ret (Running.mk _ stack)) hunwind
  rw [AgreeAt, hstack, hflat, hstructured]
  exact .ok .ret rfl

theorem Faces.agree_return {p q : Spot} {x : TypedInstruction} (h : f.Faces D s g features b lower p x q lcells cells)
    (hx : x.instruction = .return_) :
    f.AgreeAt (Op.ret.exec f) g.leave ⟨s, .of (lower ++ lcells) cells⟩ := by
  have hstep := h.step
  rw [hx] at hstep
  obtain ⟨t₁, htakes, -⟩ := Typing.step_return hstep
  obtain ⟨operands, hp, -⟩ := htakes.whole h.live h.known
  rw [h.visits.begun.results] at hp
  exact Lays.agree_ret { h.toLays with operands := hp ▸ h.operands } h.scope

/-! ### All instructions -/

/-- **An op does what its instruction does.** -/
theorem Faces.op_agrees {t t' : Typing} {x : TypedInstruction} {rest : List TypedInstruction} {pc : Nat}
    {starts : List (Option Nat)} {heads : List (List TypedInstruction)}
    (h : f.Faces D s g features b lower ⟨t, x :: rest, pc, starts, heads⟩ x
      ⟨t', rest, pc + 1, x.instruction.startsAfter pc starts, x.instruction.headsAfter rest heads⟩ lcells cells)
    (hwidth : x.instruction.width = 1) :
    ∃ op ops, (TypedInstruction.lower pc starts (x :: rest)).1 = (x.offset, op) :: ops ∧
      f.AgreeAt (op.exec f) (g.run (rest.map (·.erase)) x.instruction) ⟨s, .of (lower ++ lcells) cells⟩ := by
  obtain ⟨offset, i, reshapes⟩ := x
  cases i with
  | nop | block | loop | end_ => nomatch hwidth
  | unreachable => exact ⟨_, _, rfl, (.error rfl)⟩
  | if_ type => exact ⟨_, _, rfl, h.agree_if rfl⟩
  | else_ => exact ⟨_, _, rfl, h.agree_else rfl⟩
  | br label => exact ⟨_, _, rfl, h.agree_br rfl⟩
  | brIf label => exact ⟨_, _, rfl, h.agree_brIf rfl⟩
  | brTable labels default => exact ⟨_, _, rfl, h.agree_brTable rfl⟩
  | return_ => exact ⟨_, _, rfl, h.agree_return rfl⟩
  | call func => exact ⟨_, _, rfl, h.agree_call rfl⟩
  | callIndirect type table => exact ⟨_, _, rfl, h.agree_callIndirect rfl⟩
  | _ => exact ⟨_, _, rfl, h.agree_plain rfl _⟩

/-- What a frame does that is at an op. -/
theorem Lays.exec_eq (hf : f.Lays D s features b lower operands lcells cells) {op : Op}
    (hop : f.body.ops[f.pc]? = some op) :
    f.exec ⟨s, stack⟩ = (onStore Store.charge >>= fun _ => op.exec f : Exec σ Flow) ⟨s, stack⟩ := by
  obtain ⟨i, -, -, hinstance⟩ := instanceOf_of hf.hosted
  unfold Frame.exec
  rw [estate_bind_of_ok (hinstance _), hop]

/-- What a structured frame does that comes to rest somewhere. -/
theorem Lays.structured_eq (hf : f.Lays D s features b lower operands lcells cells) (hscope : g.toScope = f.toScope)
    {code : List (Nat × Instruction)} {labels : List Label}
    (hsettle : StructuredFrame.settle g.module.toRawModule stack.height g.code g.labels = (code, labels)) :
    g.exec ⟨s, stack⟩ = (onStore Store.charge >>= fun _ => { g with code, labels }.front :
      Exec σ (Transfer StructuredFrame)) ⟨s, stack⟩ := by
  obtain ⟨i, -, -, hinstance⟩ := instanceOf_of hf.hosted
  rw [← hscope] at hinstance
  unfold StructuredFrame.exec
  rw [estate_bind_of_ok (hinstance _)]
  refine (estate_bind_of_ok rfl).trans ?_
  dsimp only
  rw [hsettle]

/-- What two frames do when the op that comes next is paid for. -/
theorem agree_charge {op : Op} {x : Exec σ (Transfer StructuredFrame)}
    (h : ∀ s' : Store σ, s.Extends s' → f.AgreeAt (op.exec f) x ⟨s', stack⟩) :
    f.AgreeAt (onStore Store.charge >>= fun _ => op.exec f) (onStore Store.charge >>= fun _ => x) ⟨s, stack⟩ := by
  refine agree_bind fun _ r' hr => ?_
  have hquiet := Store.keeps_charge s
  rw [onStore] at hr
  cases hcharge : Store.charge s with
  | ok _ s' =>
    rw [hcharge] at hr hquiet
    cases hr
    exact h s' hquiet.toExtends
  | error e s' =>
    rw [hcharge] at hr
    cases hr

/-- **Frames that match do the same.** -/
theorem Ready.exec_agrees (hf : f.Ready D s features b lower stack) (hm : f.Matches g) :
    Agree Eq Agrees ((f.transfer <$> f.exec : Exec σ (Transfer Frame)) ⟨s, stack⟩) (g.exec ⟨s, stack⟩) := by
  obtain ⟨operands, lcells, cells, hrests, hlays, rfl⟩ := hf
  obtain ⟨features', b', operands', hof, hscope, hclose, hstops⟩ := hm
  obtain ⟨hlocals, hresults, hcode, hvisits⟩ := hof.visits hlays.toOf
  have hstops : b.Stops (lower ++ lcells).length f.pc operands' g.code g.labels := by
    rw [hlays.bottom, hlocals]
    exact hstops.of_visits hresults hcode hvisits
  obtain rfl := hstops.rests.operands_eq hrests
  obtain ⟨code, labels, hsettle, hstops, hhead⟩ := hstops.settles hlays.context
  have hheight : (Stack.of (lower ++ lcells) cells).height = (lower ++ lcells).length + operands'.length := by
    rw [Stack.height_of, hlays.operands.length_eq]
  rw [← hheight, ← hscope] at hsettle
  refine Agree.map ?_
  rw [hlays.structured_eq hscope hsettle]
  generalize hpc : f.pc = pc at hstops
  cases hstops with
  | exit =>
    rw [hlays.exec_eq (hpc ▸ hlays.ret)]
    rw [← List.append_nil (b.results.reverse.map some)] at hlays
    exact agree_charge fun s' hext => (hlays.mono hext).agree_ret hscope
  | @spot p hv hlive hknown =>
    obtain ⟨t, code, pc, starts, heads⟩ := p
    cases code with
    | nil => nomatch hv.checks
    | cons x rest =>
      have hwidth := hhead _ rfl
      obtain ⟨t', hstand⟩ := hlays.stands hv hlive hwidth hpc
      have hfaces {s' : Store σ} (hext : s.Extends s') :
          f.Faces D s' { g with
            code := x.erase :: rest.map (·.erase)
            labels := Spot.labels (lower ++ lcells).length ⟨t, x :: rest, pc, starts, heads⟩ } features b lower _ x _
            lcells cells :=
        { hstand.mono hext with
          scope := hscope
          close := by rw [hclose, TypedBody.close, TypedBody.close, hcode]
          code := rfl, labels := rfl, ahead := rfl, starts := rfl, heads := rfl }
      obtain ⟨op, ops, hop, -⟩ := (hfaces (refl_of _ s)).op_agrees hwidth
      rw [hlays.exec_eq (hpc ▸ hlays.op (hv.op hop))]
      refine agree_charge fun s' hext => ?_
      obtain ⟨op', ops', hop', hagree⟩ := (hfaces hext).op_agrees hwidth
      cases hop.symm.trans hop'
      exact hagree

end Frame

end WasmEngine
