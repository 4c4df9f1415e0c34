import WasmEngine.Machine.Step
import WasmEngine.Proofs.Machine.PlainOps
import WasmEngine.Proofs.Validation.Bodies

/-!
# Frames of checked code

A frame of a body that was checked is `Frame.Ready` if it is where execution can rest, and has on the stack, from its
base on, locals of their types and exactly the operands that are known from checking. What it finds below its base
is none of its business, and stays as it is.

Each op of such a frame goes well or traps (`Frame.exec_sound`). It leaves the frame ready at another op, or
asks for a call with arguments of the right types, after which the frame can go on (`Frame.Waits`), or
returns, with nothing above its base but its results.
-/

namespace WasmEngine

variable {σ : Type} {s s' : Store σ} {D : Domain} {features : Features} {b : TypedBody} {f : Frame}
  {types ins outs : List ValueType} {operands : List Operand} {lower lcells cells : List Cell} {stack : Stack}

/-! ### Operands on the stack -/

namespace Store

/-- A cell is of the type of an operand, which is known. -/
def Holds (s : Store σ) (D : Domain) (o : Operand) (c : Cell) : Prop := ∃ type, o = some type ∧ s.FitsIn D type c

theorem holds_mono (h : Extends s s') (hc : List.Forall₂ (s.Holds D) operands cells) :
    List.Forall₂ (s'.Holds D) operands cells :=
  hc.imp fun _ _ ⟨type, ho, hfits⟩ => ⟨type, ho, hfits.mono h⟩

theorem holds_types : List.Forall₂ (s.Holds D) (types.map some) cells ↔ List.Forall₂ (s.FitsIn D) types cells := by
  rw [List.forall₂_map_left_iff]
  constructor <;> intro h <;> refine h.imp fun type c hc => ?_
  · obtain ⟨_, ho, hfits⟩ := hc
    cases ho
    exact hfits
  · exact ⟨type, rfl, hc⟩

theorem known_of_holds (h : List.Forall₂ (s.Holds D) operands cells) : ∀ o ∈ operands, o ≠ none := by
  induction h with
  | nil => exact fun o ho => absurd ho List.not_mem_nil
  | cons hc _ ih =>
    obtain ⟨_, rfl, -⟩ := hc
    exact List.forall_mem_cons.mpr ⟨Option.some_ne_none _, ih⟩

theorem holds_append {operands' : List Operand} {cells' : List Cell}
    (h : List.Forall₂ (s.Holds D) operands cells) (h' : List.Forall₂ (s.Holds D) operands' cells') :
    List.Forall₂ (s.Holds D) (operands ++ operands') (cells ++ cells') := List.rel_append h h'

/-- Operands on top of others. -/
theorem holds_split {top : List Operand} (h : List.Forall₂ (s.Holds D) (top ++ operands) cells) :
    ∃ tcells rest, cells = tcells ++ rest ∧ List.Forall₂ (s.Holds D) top tcells ∧
      List.Forall₂ (s.Holds D) operands rest := by
  induction top generalizing cells with
  | nil => exact ⟨[], cells, rfl, .nil, h⟩
  | cons o top ih =>
    obtain ⟨c, _, hc, h', rfl⟩ := List.forall₂_cons_left_iff.mp h
    obtain ⟨tcells, rest, rfl, htop, hrest⟩ := ih h'
    exact ⟨c :: tcells, rest, rfl, .cons hc htop, hrest⟩

theorem holds_split_types (h : List.Forall₂ (s.Holds D) (types.map some ++ operands) cells) :
    ∃ tcells rest, cells = tcells ++ rest ∧ List.Forall₂ (s.FitsIn D) types tcells ∧
      List.Forall₂ (s.Holds D) operands rest := by
  obtain ⟨tcells, rest, rfl, htop, hrest⟩ := holds_split h
  exact ⟨tcells, rest, rfl, holds_types.mp htop, hrest⟩

end Store

/-- **The operands that an instruction takes** are on the stack. -/
theorem Typing.Takes.holds {t t' : Typing} (h : t.Takes ins outs t') (hlive : t.Live)
    (hcells : List.Forall₂ (s.Holds D) t.operands cells) :
    ∃ operands icells rest, cells = icells ++ rest ∧ List.Forall₂ (s.FitsIn D) ins icells ∧
      List.Forall₂ (s.Holds D) operands rest ∧ t.operands = ins.map some ++ operands ∧
      t'.operands = outs.map some ++ operands ∧ t'.Live := by
  obtain ⟨operands, ht, ht'⟩ := h.whole hlive (Store.known_of_holds hcells)
  rw [ht] at hcells
  obtain ⟨icells, rest, rfl, hins, hrest⟩ := Store.holds_split_types hcells
  exact ⟨operands, icells, rest, rfl, hins, hrest, ht, ht', h.live hlive⟩

/-- **The cells at a branch**: those that the label asks for are on top, those that are dropped lie beneath, and those
of the blocks around the label's block stay. -/
theorem Typing.Accepts.holds {t : Typing} {label : Nat} {reshape : Reshape} (h : t.Accepts label reshape)
    (hbased : TypedBody.Based t.frames) (hcells : List.Forall₂ (s.Holds D) t.operands cells) :
    ∃ types, t.branch label = .ok (reshape, types) ∧ ∃ kept dropped below, cells = kept ++ (dropped ++ below) ∧
      kept.length = types.length ∧
      List.Forall₂ (s.Holds D) (types.reverse.map some ++ (t.frames.drop (label + 1)).flatMap (·.operands))
        (kept ++ below) ∧
      List.Forall₂ (s.Holds D) ((t.frames.drop (label + 1)).flatMap (·.operands)) below ∧
      ∀ bottom, (Stack.of bottom (kept ++ (dropped ++ below))).reshape reshape = .of bottom (kept ++ below) := by
  obtain ⟨types, hbranch, htop⟩ := h
  obtain ⟨dropped, hoperands, rfl⟩ := Typing.branch_operands hbased hbranch htop
  rw [hoperands] at hcells
  obtain ⟨kept, _, rfl, hkept, hcells⟩ := Store.holds_split_types hcells
  obtain ⟨dcells, below, rfl, hdropped, hbelow⟩ := Store.holds_split hcells
  have hkeep : kept.length = types.length := by rw [← hkept.length_eq, List.length_reverse]
  refine ⟨types, hbranch, kept, dcells, below, rfl, hkeep, ?_, hbelow, fun bottom => ?_⟩
  · exact Store.holds_append (Store.holds_types.mpr hkept) hbelow
  · rw [← hkeep, hdropped.length_eq]
    exact Stack.reshape_of _ _ _ _

/-- **An indirect call** finds a function of the signature that is expected, or traps. -/
theorem Exec.sound_indirectCallee {g : Scope} (hs : s.TypedIn D) (hg : g.Hosted D s) {type table : Nat}
    {tableType : TableType} {signature : FuncType}
    (htable : (g.module.context features).table table = .ok tableType) (helement : tableType.element = .funcref)
    (htype : (g.module.context features).type type = .ok signature) {below ops : List Cell} (index : Cell) :
    Sound D (indirectCallee g type table : Exec σ Nat) ⟨s, .of below (index :: ops)⟩
      fun callee s' stack => s = s' ∧ .of below ops = stack ∧
        ∃ e, s.funcs[callee]? = some e ∧ D.funcs callee ∧ e.type = signature := by
  obtain ⟨addr, tab, haddr, htab, hD, htabType⟩ := tableAddr_of hs hg htable
  refine .bind_of_ok (haddr _) <| .bind_of_ok (popNat_of index) <| .bind_of_ok (known_of htab _) ?_
  split
  · exact sound_trap hs _
  next c hc =>
  split
  · exact sound_trap hs _
  next callee hcallee =>
  have hfits : s.FitsIn D (.ref .funcref) c := by
    rw [← helement, ← htabType]
    unfold Table.get at hc
    split at hc <;> cases hc
    next hc => exact fits_table hs hD htab c (Array.mem_of_getElem? hc)
  have hlt : callee.toNat < s.funcs.size := hfits.fits.toRef_lt hcallee
  refine .bind_of_ok (known_of (Context.lookUp_eq_ok.mp htype) _) <| .of_get <|
    .bind_of_ok (known_of (Array.getElem?_eq_getElem hlt) _) ?_
  split
  · next he =>
    exact .of_ok rfl hs ⟨rfl, rfl, _, Array.getElem?_eq_getElem hlt, hfits.admits callee hcallee, he⟩
  · exact sound_trap hs _

namespace Frame

/-! ### Frames -/

/-- **A frame runs a body that was checked** in its module, and is at home. -/
structure Runs (D : Domain) (s : Store σ) (f : Frame) (features : Features) (b : TypedBody) : Prop extends
    b.Of f.module features f.func f.body where
  hosted : f.toScope.Hosted D s
  results : f.results = b.results.length

/-- **The cells of a frame**: locals from its base on, and operands above them. -/
structure Lays (D : Domain) (s : Store σ) (f : Frame) (features : Features) (b : TypedBody) (lower : List Cell)
    (operands : List Operand) (lcells cells : List Cell) : Prop extends f.Runs D s features b where
  base : lower.length = f.base
  locals : List.Forall₂ (s.FitsIn D) b.locals lcells
  operands : List.Forall₂ (s.Holds D) operands cells

/-- **A frame is ready** if it is where execution can rest, and its operands are on the stack. -/
def Ready (D : Domain) (s : Store σ) (f : Frame) (features : Features) (b : TypedBody) (lower : List Cell)
    (stack : Stack) : Prop :=
  ∃ operands lcells cells, b.Rests f.pc operands ∧ f.Lays D s features b lower operands lcells cells ∧
    stack = .of (lower ++ lcells) cells

/-- **A frame waits** for the results of a call if it is ready behind the call once they are on top of its
operands. -/
def Waits (D : Domain) (s : Store σ) (f : Frame) (features : Features) (b : TypedBody) (lower : List Cell)
    (results : List ValueType) (lcells cells : List Cell) : Prop :=
  ∃ operands, b.Rests (f.pc + 1) (results.reverse.map some ++ operands) ∧
    f.Lays D s features b lower operands lcells cells

theorem Runs.mono (h : s.Extends s') (hf : f.Runs D s features b) : f.Runs D s' features b :=
  { hf with hosted := hf.hosted.mono h }

theorem Lays.mono (h : s.Extends s') (hf : f.Lays D s features b lower operands lcells cells) :
    f.Lays D s' features b lower operands lcells cells where
  toRuns := hf.toRuns.mono h
  base := hf.base
  locals := hf.locals.imp fun _ _ hc => hc.mono h
  operands := Store.holds_mono h hf.operands

theorem Waits.mono (h : s.Extends s') (hf : f.Waits D s features b lower types lcells cells) :
    f.Waits D s' features b lower types lcells cells := by
  obtain ⟨operands, hrests, hlays⟩ := hf
  exact ⟨operands, hrests, hlays.mono h⟩

/-- The cells stay good when the frame goes elsewhere. -/
theorem Lays.goto (hf : f.Lays D s features b lower operands lcells cells) (pc : Nat) :
    (f.goto pc).Lays D s features b lower operands lcells cells :=
  { hf with checked := hf.checked, context := hf.context, source := hf.source, hosted := hf.hosted
            results := hf.results, base := hf.base }

/-- A frame that has got what it waited for. -/
theorem Waits.ready (hf : f.Waits D s features b lower types lcells cells) {rcells : List Cell}
    (hr : List.Forall₂ (s.FitsIn D) types.reverse rcells) :
    (f.goto (f.pc + 1)).Ready D s features b lower (.of (lower ++ lcells) (rcells ++ cells)) := by
  obtain ⟨operands, hrests, hlays⟩ := hf
  have hlays := hlays.goto (f.pc + 1)
  exact ⟨_, lcells, rcells ++ cells, hrests,
    { hlays with operands := Store.holds_append (Store.holds_types.mpr hr) hlays.operands }, rfl⟩

/-! ### Ops of a body -/

namespace Runs

theorem op (hf : f.Runs D s features b) {pc : Nat} {op : Nat × Op} (h : b.ops[pc]? = some op) :
    f.body.ops[pc]? = some op.2 := by
  obtain ⟨_, source, -, -, -, -, -, hbody⟩ := hf.source
  have hlt := (List.getElem?_eq_some_iff.mp h).1
  rw [hbody]
  change ((b.ops ++ [_]).map fun x : Nat × Op => x.2).toArray[pc]? = _
  rw [List.getElem?_toArray, List.getElem?_map, List.getElem?_append_left hlt, h]
  rfl

theorem ret (hf : f.Runs D s features b) : f.body.ops[b.ops.length]? = some .ret := by
  obtain ⟨_, source, -, -, -, -, -, hbody⟩ := hf.source
  rw [hbody]
  change ((b.ops ++ [_]).map fun x : Nat × Op => x.2).toArray[b.ops.length]? = _
  rw [List.getElem?_toArray, List.getElem?_map, List.getElem?_append_right (Nat.le_refl _), Nat.sub_self]
  rfl

end Runs

/-- **Where an op leads.** -/
def Goes (D : Domain) (s : Store σ) (f : Frame) (features : Features) (b : TypedBody) (lower : List Cell) :
    Flow → Stack → Prop
  | .next, stack => (f.goto (f.pc + 1)).Ready D s features b lower stack
  | .goto pc, stack => (f.goto pc).Ready D s features b lower stack
  | .call addr, stack => ∃ e lcells args cells, s.funcs[addr]? = some e ∧ D.funcs addr ∧
      List.Forall₂ (s.FitsIn D) e.type.params.reverse args ∧
      f.Waits D s features b lower e.type.results lcells cells ∧
      stack = .of (lower ++ lcells) (args ++ cells)
  | .ret, stack => ∃ rcells, List.Forall₂ (s.FitsIn D) b.results.reverse rcells ∧ stack = .of lower rcells

theorem Lays.ready (hf : f.Lays D s features b lower operands lcells cells) {pc : Nat}
    (h : b.Rests pc operands) : (f.goto pc).Ready D s features b lower (.of (lower ++ lcells) cells) :=
  ⟨operands, lcells, cells, h, hf.goto pc, rfl⟩

/-- A frame is ready at every spot that can be reached. -/
theorem Lays.ready_visits {p : Spot} (hf : f.Lays D s features b lower p.typing.operands lcells cells)
    (hv : b.Visits p) (hlive : p.typing.Live) :
    (f.goto p.pc).Ready D s features b lower (.of (lower ++ lcells) cells) :=
  hf.ready (hv.rests hlive (Store.known_of_holds hf.operands))

/-! ### Ops one by one

The frame stands at a spot that can be reached, and the instruction there is about to run. -/

open Exec

/-- **A frame stands at a spot**, where its instruction has an op and was checked. -/
structure Stands (D : Domain) (s : Store σ) (f : Frame) (features : Features) (b : TypedBody) (lower : List Cell)
    (p : Spot) (x : TypedInstruction) (q : Spot) (lcells cells : List Cell) : Prop extends
    f.Lays D s features b lower p.typing.operands lcells cells where
  visits : b.Visits p
  live : p.typing.Live
  pc : f.pc = p.pc
  step : p.typing.step b.context b.locals x.instruction = .ok (.next q.typing x.reshapes)
  next_visits : b.Visits q
  next_pc : q.pc = p.pc + 1

namespace Stands

variable {p q : Spot} {x : TypedInstruction}

theorem mono (h : s.Extends s') (hf : f.Stands D s features b lower p x q lcells cells) :
    f.Stands D s' features b lower p x q lcells cells :=
  { hf with toLays := hf.toLays.mono h }

theorem known (hf : f.Stands D s features b lower p x q lcells cells) : p.typing.Known :=
  Store.known_of_holds hf.operands

/-- The frame is ready at the next spot. -/
theorem next (hf : f.Stands D s features b lower p x q lcells cells) {lcells' cells' : List Cell}
    (h : f.Lays D s features b lower q.typing.operands lcells' cells') (hlive : q.typing.Live) :
    f.Goes D s features b lower .next (.of (lower ++ lcells') cells') := by
  have hpc : f.pc + 1 = q.pc := by rw [hf.next_pc, hf.pc]
  change (f.goto (f.pc + 1)).Ready D s features b lower _
  rw [hpc]
  exact h.ready_visits hf.next_visits hlive

/-- **Plain ops.** -/
theorem sound_plain (hs : s.TypedIn D) (hf : f.Stands D s features b lower p x q lcells cells) {op : PlainOp}
    (hop : x.instruction.plainOp? = some op) :
    Sound D ((Op.plain op).exec f) ⟨s, .of (lower ++ lcells) cells⟩
      fun flow s' => f.Goes D s' features b lower flow := by
  obtain ⟨ins, outs, huses, htakes⟩ := Typing.step_plain hop hf.step
  obtain ⟨operands, icells, rest, rfl, hins, hrest, -, hq, hlive⟩ := htakes.holds hf.live hf.operands
  rw [hf.context] at huses
  have hsound : Sound D (op.exec f.toScope) ⟨s, .of (lower ++ lcells) (icells ++ rest)⟩
      fun _ => Leaves D lower b.locals outs rest :=
    op.exec_sound hop huses hf.checked hs hf.hosted hf.base hf.locals hins
  refine .bind (hsound.quiet (op.keeps_exec f.toScope)) ?_
  rintro _ s' _ hs' ⟨hquiet, lcells', ocells, rfl, hlocals, houts⟩
  refine .of_ok rfl hs' (hf.mono hquiet.toExtends |>.next ?_ hlive)
  rw [hq]
  exact { hf.toRuns.mono hquiet.toExtends with
    base := hf.base, locals := hlocals
    operands := Store.holds_append (Store.holds_types.mpr houts) (Store.holds_mono hquiet.toExtends hrest) }

/-- Where a branch to a label leads, seen from the spot behind it. -/
def target (q : Spot) (label : Nat) (reshape : Reshape) : BranchTarget :=
  ⟨labelTarget q.starts (TypedInstruction.lower q.pc q.starts q.code).2 label, reshape⟩

/-- **Taking a branch**, with operands `t` in the blocks around the next spot. -/
theorem sound_branch (hs : s.TypedIn D) (hf : f.Stands D s features b lower p x q lcells cells) {t : Typing}
    (houter : q.typing.outer = t.outer) (hlike : t.frame.Like q.typing.frame)
    (hbased : TypedBody.Based t.frames) (hlive : t.Live) {rest : List Cell}
    (hcells : List.Forall₂ (s.Holds D) t.operands rest) {label : Nat} {reshape : Reshape}
    (haccepts : t.Accepts label reshape) :
    Sound D (branch f (target q label reshape)) ⟨s, .of (lower ++ lcells) rest⟩
      fun flow s' => f.Goes D s' features b lower flow := by
  obtain ⟨types, hbranch, kept, dropped, below, rfl, -, hcells', hbelow, hreshape⟩ :=
    haccepts.holds hbased hcells
  obtain ⟨_, _, -, -, -, hstops⟩ :=
    hf.next_visits.target_stops 0 houter hlike hbranch hlive (Store.known_of_holds hcells)
  have hready {s' : Store σ} (hext : s.Extends s') :
      f.Goes D s' features b lower (.goto (target q label reshape).pc) (.of (lower ++ lcells) (kept ++ below)) :=
    Lays.ready { hf.toLays.mono hext with operands := Store.holds_mono hext hcells' } hstops.rests
  unfold branch
  refine .bind_of_ok (show _ = EStateM.Result.ok () (Running.mk s _) from congrArg
    (fun stack => EStateM.Result.ok () (Running.mk s stack)) (hreshape _)) ?_
  dsimp only
  split
  · refine .bind (sound_pollInterrupt hs) ?_
    rintro _ s' _ hs' ⟨hq, rfl⟩
    exact .of_ok rfl hs' (hready hq.toExtends)
  · exact .of_ok rfl hs (hready (refl_of _ s))

theorem sound_br (hs : s.TypedIn D) (hf : f.Stands D s features b lower p x q lcells cells) {label : Nat}
    (hx : x.instruction = .br label) :
    Sound D ((Op.br (target q label (x.reshapes.headD ⟨0, 0⟩))).exec f) ⟨s, .of (lower ++ lcells) cells⟩
      fun flow s' => f.Goes D s' features b lower flow := by
  have hstep := hf.step
  rw [hx] at hstep
  obtain ⟨reshape, types, t₁, hbranch, hreshapes, htakes, hq⟩ := Typing.step_br hstep
  have hlike : t₁.frame.Like t₁.setUnreachable.frame := ⟨rfl, rfl, rfl⟩
  rw [hreshapes]
  refine hf.sound_branch hs (t := p.typing) ?_ ?_ hf.visits.based hf.live hf.operands
    ⟨types, hbranch, htakes.top hf.live hf.known⟩
  · rw [← hq]
    exact htakes.outer
  · rw [← hq]
    exact htakes.like.trans hlike

theorem sound_brIf (hs : s.TypedIn D) (hf : f.Stands D s features b lower p x q lcells cells) {label : Nat}
    (hx : x.instruction = .brIf label) :
    Sound D ((Op.brIf (target q label (x.reshapes.headD ⟨0, 0⟩))).exec f) ⟨s, .of (lower ++ lcells) cells⟩
      fun flow s' => f.Goes D s' features b lower flow := by
  have hstep := hf.step
  rw [hx] at hstep
  obtain ⟨reshape, types, t₁, htakes, hbranch, hreshapes, htakes'⟩ := Typing.step_brIf hstep
  obtain ⟨operands, _, rest, rfl, hins, hrest, -, ht₁, hlive⟩ := htakes.holds hf.live hf.operands
  obtain ⟨condition, rfl, -⟩ := fits_one hins
  have hcells : List.Forall₂ (s.Holds D) t₁.operands rest := by rwa [ht₁]
  have hknown : t₁.Known := Store.known_of_holds hcells
  have hbased : TypedBody.Based t₁.frames :=
    hf.visits.based.shape (.stays (i := .drop) rfl htakes.outer htakes.like)
  rw [hreshapes]
  refine .bind_of_ok (popNat_of condition) ?_
  split
  · exact hf.sound_branch hs htakes'.outer htakes'.like hbased hlive hcells
      ⟨types, hbranch, htakes'.top hlive hknown⟩
  · obtain ⟨operands', hp, hq⟩ := htakes'.whole hlive hknown
    refine .of_ok rfl hs (hf.next { hf.toLays with operands := ?_ } (htakes'.live hlive))
    rwa [hq, ← hp]

/-- Every target of a table is where a label leads. -/
theorem mem_targets {P : Nat → Reshape → Prop} {leads : Nat → Reshape → BranchTarget} {labels : List Nat}
    {targets : List Reshape} {reshape : Reshape} (hlabels : List.Forall₂ P labels targets) {t : BranchTarget}
    (h : t ∈ List.zipWith leads labels (targets ++ [reshape])) :
    ∃ label reshape', P label reshape' ∧ leads label reshape' = t := by
  obtain ⟨index, ht⟩ := List.getElem?_of_mem h
  obtain ⟨label, reshape', hlabel, hreshape', he⟩ := List.getElem?_zipWith_eq_some.mp ht
  obtain ⟨_, htarget, hP⟩ := forall₂_getElem? hlabels hlabel
  rw [List.getElem?_append_left (List.getElem?_eq_some_iff.mp htarget).1, htarget] at hreshape'
  cases hreshape'
  exact ⟨label, reshape', hP, he⟩

/-- **The labels of a table accept the operands** below the index. -/
theorem accepts_brTable (hf : f.Stands D s features b lower p x q lcells cells) {labels : List Nat} {default : Nat}
    (hx : x.instruction = .brTable labels default) : ∃ t targets reshape, p.typing.Takes [.i32] [] t ∧
      x.reshapes = targets ++ [reshape] ∧ q.typing.outer = t.outer ∧ t.frame.Like q.typing.frame ∧
      t.Accepts default reshape ∧ List.Forall₂ t.Accepts labels targets := by
  have hstep := hf.step
  rw [hx] at hstep
  obtain ⟨targets, reshape, types, t₁, t₂, t₃, htakes, hbranch, hbranches, htakes', hreshapes, hq⟩ :=
    Typing.step_brTable hstep
  obtain ⟨operands, _, rest, -, -, hrest, -, ht₁, hlive⟩ := htakes.holds hf.live hf.operands
  have hknown : t₁.Known := by
    unfold Typing.Known
    rw [ht₁]
    exact Store.known_of_holds hrest
  obtain ⟨houter, hlike, hunreachable, hlabels⟩ := Typing.branches_spec hbranches
  obtain ⟨hsame, hlabels⟩ := hlabels hlive.frame hknown.frame
  obtain ⟨top, htop, -⟩ := htakes'.operands (hunreachable.trans hlive.frame) (hsame ▸ hknown.frame)
  refine ⟨t₁, targets, reshape, htakes, hreshapes, ?_, ?_, ⟨types, hbranch, top, htop.symm.trans hsame⟩,
    hlabels.imp fun _ _ ⟨types', hb, _, htop⟩ => ⟨types', hb, htop⟩⟩
  · rw [← hq]
    exact htakes'.outer.trans houter
  · rw [← hq]
    exact hlike.trans (htakes'.like.trans ⟨rfl, rfl, rfl⟩)

theorem sound_brTable (hs : s.TypedIn D) (hf : f.Stands D s features b lower p x q lcells cells)
    {labels : List Nat} {default : Nat} (hx : x.instruction = .brTable labels default) :
    Sound D ((Op.brTable (List.zipWith (target q) labels x.reshapes)
        (target q default (x.reshapes.getLastD ⟨0, 0⟩))).exec f) ⟨s, .of (lower ++ lcells) cells⟩
      fun flow s' => f.Goes D s' features b lower flow := by
  obtain ⟨t, targets, reshape, htakes, hreshapes, houter, hlike, hdefault, hlabels⟩ := hf.accepts_brTable hx
  obtain ⟨operands, _, rest, rfl, hins, hrest, -, ht, hlive⟩ := htakes.holds hf.live hf.operands
  obtain ⟨index, rfl, -⟩ := fits_one hins
  have hcells : List.Forall₂ (s.Holds D) t.operands rest := by rwa [ht]
  have hbased : TypedBody.Based t.frames :=
    hf.visits.based.shape (.stays (i := .drop) rfl htakes.outer htakes.like)
  rw [hreshapes, List.getLastD_concat]
  refine .bind_of_ok (popNat_of index) ?_
  cases hget : (List.zipWith (target q) labels (targets ++ [reshape]))[(index.setWidth 32).toNat]? with
  | none => exact hf.sound_branch hs houter hlike hbased hlive hcells hdefault
  | some taken =>
    obtain ⟨label, reshape', haccepts, rfl⟩ := mem_targets hlabels (List.mem_of_getElem? hget)
    exact hf.sound_branch hs houter hlike hbased hlive hcells haccepts

theorem sound_if (hs : s.TypedIn D) (hf : f.Stands D s features b lower p x q lcells cells) {type : BlockType}
    (hx : x.instruction = .if_ type) :
    Sound D ((Op.brUnless (((TypedInstruction.lower q.pc q.starts q.code).2.head?.map
        fun l => l.arm.getD l.close).getD 0)).exec f) ⟨s, .of (lower ++ lcells) cells⟩
      fun flow s' => f.Goes D s' features b lower flow := by
  have hshape := Typing.step_shape hf.step
  rw [hx] at hshape
  cases hshape with
  | stays hflat => nomatch hflat
  | @opens _ kind type t₁ _ hkind htakes hframe houter =>
    cases hkind
    rw [if_pos rfl] at htakes
    obtain ⟨operands, _, rest, rfl, hins, hrest, -, ht₁, hlive⟩ := htakes.holds hf.live hf.operands
    obtain ⟨condition, pcells, -, hparams, rfl⟩ := List.forall₂_cons_left_iff.mp hins
    have hq : q.typing.operands = type.params.reverse.map some ++ operands := by
      rw [Typing.operands_eq, hframe, houter, List.flatMap_cons, ← htakes.outer, ← Typing.operands_eq, ht₁]
      rfl
    have hlive : q.typing.Live := by
      refine List.forall_mem_cons.mpr ⟨by rw [hframe], ?_⟩
      rw [houter, ← htakes.outer]
      exact hlive
    have hlays : f.Lays D s features b lower q.typing.operands lcells (pcells ++ rest) := by
      rw [hq]
      exact { hf.toLays with operands := Store.holds_append (Store.holds_types.mpr hparams) hrest }
    refine .bind_of_ok (popNat_of condition) ?_
    split
    · have hkind : q.typing.frame.kind = .ifArm := by rw [hframe]
      have hgiven : q.typing.frame.operands = q.typing.frame.type.params.reverse.map some := by rw [hframe]
      have hne : q.typing.outer ≠ [] := houter ▸ List.cons_ne_nil _ _
      obtain ⟨_, _, hstops, -⟩ :=
        hf.next_visits.skipped_stops 0 hkind hgiven hne hlive (Store.known_of_holds hlays.operands)
      exact .of_ok rfl hs (hlays.ready hstops.rests)
    · exact .of_ok rfl hs (hf.next hlays hlive)

theorem sound_else (hs : s.TypedIn D) (hf : f.Stands D s features b lower p x q lcells cells)
    (hx : x.instruction = .else_) :
    Sound D ((Op.jump (((TypedInstruction.lower q.pc q.starts q.code).2.head?.map (·.close)).getD 0)).exec f)
      ⟨s, .of (lower ++ lcells) cells⟩ fun flow s' => f.Goes D s' features b lower flow := by
  have hshape := Typing.step_shape hf.step
  rw [hx] at hshape
  cases hshape with
  | stays hflat => cases hflat
  | opens hkind => cases hkind
  | @switches t₁ _ hkind htakes hempty hframe houter =>
    obtain ⟨operands, hp, ht₁⟩ := htakes.whole hf.live hf.known
    rw [Typing.operands_eq, hempty, htakes.outer] at ht₁
    have hnil : p.typing.outer ≠ [] := by
      intro hnil
      have hbegun := hf.visits.begun
      rw [Typing.frames, hnil] at hbegun
      cases hkind.symm.trans hbegun.single.1
    refine .of_ok rfl hs (hf.toLays.ready ?_)
    have hstops := hf.next_visits.close_stops 0 (by rwa [houter])
      (fun g hg => hf.live g (List.mem_cons_of_mem _ (houter ▸ hg)))
      (fun o ho => hf.known o (by rw [Typing.operands_eq]; exact List.mem_append_right _ (houter ▸ ho)))
    rw [hframe, houter] at hstops
    rw [hp, ← show _ = operands from ht₁]
    exact hstops.rests

/-- The frame waits at a call for its results. -/
theorem waits (hf : f.Stands D s features b lower p x q lcells cells) {type : FuncType} {rest : List Cell}
    (hlive : q.typing.Live) (hq : q.typing.operands = type.results.reverse.map some ++ operands)
    (hknown : q.typing.Known) (hrest : List.Forall₂ (s.Holds D) operands rest) :
    f.Waits D s features b lower type.results lcells rest := by
  have hrests := hf.next_visits.rests hlive hknown
  rw [hf.next_pc, ← hf.pc, hq] at hrests
  exact ⟨operands, hrests, { hf.toLays with operands := hrest }⟩

theorem sound_call (hs : s.TypedIn D) (hf : f.Stands D s features b lower p x q lcells cells) {func : Nat}
    (hx : x.instruction = .call func) :
    Sound D ((Op.call func).exec f) ⟨s, .of (lower ++ lcells) cells⟩
      fun flow s' => f.Goes D s' features b lower flow := by
  have hstep := hf.step
  rw [hx] at hstep
  obtain ⟨type, htype, htakes⟩ := Typing.step_call hstep
  obtain ⟨operands, args, rest, rfl, hargs, hrest, -, hq, hlive⟩ := htakes.holds hf.live hf.operands
  rw [hf.context] at htype
  obtain ⟨addr, e, haddr, he, hD, rfl⟩ := funcAddr_of hs hf.hosted htype
  have hknown : q.typing.Known := by
    unfold Typing.Known
    rw [hq]
    exact TypedBody.known_append (Store.known_of_holds hrest)
  refine .bind_of_ok (haddr _) <| .of_ok rfl hs ⟨e, lcells, args, rest, he, hD, hargs, ?_, rfl⟩
  exact hf.waits hlive hq hknown hrest

theorem sound_callIndirect (hs : s.TypedIn D) (hf : f.Stands D s features b lower p x q lcells cells)
    {type table : Nat} (hx : x.instruction = .callIndirect type table) :
    Sound D ((Op.callIndirect type table).exec f) ⟨s, .of (lower ++ lcells) cells⟩
      fun flow s' => f.Goes D s' features b lower flow := by
  have hstep := hf.step
  rw [hx] at hstep
  obtain ⟨tableType, signature, htable, helement, htype, htakes⟩ := Typing.step_callIndirect hstep
  obtain ⟨operands, _, rest, rfl, hins, hrest, -, hq, hlive⟩ := htakes.holds hf.live hf.operands
  obtain ⟨index, args, -, hargs, rfl⟩ := List.forall₂_cons_left_iff.mp hins
  rw [hf.context] at htable htype
  have hknown : q.typing.Known := by
    unfold Typing.Known
    rw [hq]
    exact TypedBody.known_append (Store.known_of_holds hrest)
  refine .bind (sound_indirectCallee hs hf.hosted htable helement htype index) ?_
  rintro callee _ _ - ⟨rfl, rfl, e, he, hD, rfl⟩
  refine .of_ok rfl hs ⟨e, lcells, args, rest, he, hD, hargs, ?_, rfl⟩
  exact hf.waits hlive hq hknown hrest

end Stands

/-- The results are on top of everything else that the frame has on the stack. -/
theorem Lays.results_of {rest : List Operand}
    (hf : f.Lays D s features b lower (b.results.reverse.map some ++ rest) lcells cells) :
    ∃ rcells dropped, List.Forall₂ (s.FitsIn D) b.results.reverse rcells ∧ rcells.length = f.results ∧
      Stack.of (lower ++ lcells) cells = .of lower (rcells ++ dropped) := by
  obtain ⟨rcells, ocells, rfl, hresults, -⟩ := Store.holds_split_types hf.operands
  refine ⟨rcells, ocells ++ lcells.reverse, hresults, ?_, ?_⟩
  · rw [← hresults.length_eq, List.length_reverse, hf.results]
  · rw [← List.append_assoc, Stack.of_append lower (rcells ++ ocells), List.reverse_reverse]

/-- **Returning**, with the results on top of other operands. -/
theorem Lays.sound_ret {rest : List Operand} (hs : s.TypedIn D)
    (hf : f.Lays D s features b lower (b.results.reverse.map some ++ rest) lcells cells) :
    Sound D (Op.ret.exec f) ⟨s, .of (lower ++ lcells) cells⟩ fun flow s' => f.Goes D s' features b lower flow := by
  obtain ⟨rcells, dropped, hresults, hlength, hstack⟩ := hf.results_of
  have hreshape := Stack.reshape_ret lower rcells dropped
  rw [hlength, hf.base] at hreshape
  have hq : s.Quiet { s with stats := s.stats.record 0 (Stack.of lower (rcells ++ dropped)).height } :=
    .of_entities rfl rfl rfl rfl rfl rfl rfl rfl
  rw [hstack]
  refine .of_ok rfl (hs.of_quiet hq rfl rfl rfl) ⟨rcells, hresults.imp fun _ _ hc => hc.mono hq.toExtends, ?_⟩
  exact hreshape

theorem Stands.sound_return {p q : Spot} {x : TypedInstruction} (hs : s.TypedIn D)
    (hf : f.Stands D s features b lower p x q lcells cells) (hx : x.instruction = .return_) :
    Sound D (Op.ret.exec f) ⟨s, .of (lower ++ lcells) cells⟩ fun flow s' => f.Goes D s' features b lower flow := by
  have hstep := hf.step
  rw [hx] at hstep
  obtain ⟨t₁, htakes, -⟩ := Typing.step_return hstep
  obtain ⟨operands, hp, -⟩ := htakes.whole hf.live hf.known
  rw [hf.visits.begun.results] at hp
  exact Lays.sound_ret hs { hf.toLays with operands := hp ▸ hf.operands }

/-! ### All ops -/

/-- **The op of an instruction goes well or traps.** -/
theorem Stands.op_sound {t t' : Typing} {x : TypedInstruction} {rest : List TypedInstruction} {pc : Nat}
    {starts : List (Option Nat)} {heads : List (List TypedInstruction)} (hs : s.TypedIn D)
    (hf : f.Stands D s features b lower ⟨t, x :: rest, pc, starts, heads⟩ x
      ⟨t', rest, pc + 1, x.instruction.startsAfter pc starts, x.instruction.headsAfter rest heads⟩ lcells cells)
    (hwidth : x.instruction.width = 1) :
    ∃ op ops, (TypedInstruction.lower pc starts (x :: rest)).1 = (x.offset, op) :: ops ∧
      Sound D (op.exec f) ⟨s, .of (lower ++ lcells) cells⟩ fun flow s' => f.Goes D s' features b lower flow := by
  obtain ⟨offset, i, reshapes⟩ := x
  cases i with
  | nop | block | loop | end_ => nomatch hwidth
  | unreachable => exact ⟨_, _, rfl, sound_trap hs _⟩
  | if_ type => exact ⟨_, _, rfl, hf.sound_if hs rfl⟩
  | else_ => exact ⟨_, _, rfl, hf.sound_else hs rfl⟩
  | br label => exact ⟨_, _, rfl, hf.sound_br hs rfl⟩
  | brIf label => exact ⟨_, _, rfl, hf.sound_brIf hs rfl⟩
  | brTable labels default => exact ⟨_, _, rfl, hf.sound_brTable hs rfl⟩
  | return_ => exact ⟨_, _, rfl, hf.sound_return hs rfl⟩
  | call func => exact ⟨_, _, rfl, hf.sound_call hs rfl⟩
  | callIndirect type table => exact ⟨_, _, rfl, hf.sound_callIndirect hs rfl⟩
  | _ => exact ⟨_, _, rfl, hf.sound_plain hs rfl⟩

/-- Execution that rests at an instruction stands there. -/
theorem Lays.stands {t : Typing} {x : TypedInstruction} {rest : List TypedInstruction} {pc : Nat}
    {starts : List (Option Nat)} {heads : List (List TypedInstruction)}
    (hv : b.Visits ⟨t, x :: rest, pc, starts, heads⟩) (hlive : t.Live) (hwidth : x.instruction.width = 1)
    (hpc : f.pc = pc) (hf : f.Lays D s features b lower t.operands lcells cells) :
    ∃ t', f.Stands D s features b lower ⟨t, x :: rest, pc, starts, heads⟩ x
      ⟨t', rest, pc + 1, x.instruction.startsAfter pc starts, x.instruction.headsAfter rest heads⟩
      lcells cells := by
  cases hv.checks with
  | last => nomatch hwidth
  | @next _ t' _ _ _ hstep _ =>
    have hv' := hv.next hstep
    rw [hwidth] at hv'
    exact ⟨t', { hf with
      visits := hv, live := hlive, pc := hpc, step := hstep, next_visits := hv', next_pc := rfl }⟩

/-- **A frame is poised** to run an op: that of the instruction where it stands, or the return behind its code. -/
inductive Poised (D : Domain) (s : Store σ) (f : Frame) (features : Features) (b : TypedBody)
    (lower lcells cells : List Cell) : Op → Prop
  | instruction {t t' : Typing} {x : TypedInstruction} {rest : List TypedInstruction} {pc : Nat}
    {starts : List (Option Nat)} {heads : List (List TypedInstruction)} {op : Op} {ops : List (Nat × Op)} :
    f.Stands D s features b lower ⟨t, x :: rest, pc, starts, heads⟩ x
      ⟨t', rest, pc + 1, x.instruction.startsAfter pc starts, x.instruction.headsAfter rest heads⟩ lcells cells →
    x.instruction.width = 1 → (TypedInstruction.lower pc starts (x :: rest)).1 = (x.offset, op) :: ops →
    Poised D s f features b lower lcells cells op
  | exit : f.Lays D s features b lower (b.results.reverse.map some) lcells cells →
    Poised D s f features b lower lcells cells .ret

/-- A frame that is ready is poised to run the op that comes next. -/
theorem Ready.poised (hf : f.Ready D s features b lower stack) :
    ∃ lcells cells op, stack = .of (lower ++ lcells) cells ∧ f.body.ops[f.pc]? = some op ∧
      f.Poised D s features b lower lcells cells op := by
  obtain ⟨operands, lcells, cells, hrests, hlays, rfl⟩ := hf
  generalize hpc : f.pc = pc at hrests
  cases hrests with
  | @op p x rest hv hlive hknown hcode hwidth =>
    obtain ⟨t, code, pc, starts, heads⟩ := p
    obtain rfl : code = x :: rest := hcode
    obtain ⟨t', hstand⟩ := hlays.stands hv hlive hwidth hpc
    obtain ⟨op, ops, hop⟩ := TypedInstruction.lower_op pc starts x rest hwidth
    exact ⟨lcells, cells, op, rfl, hlays.op (hv.op hop), .instruction hstand hwidth hop⟩
  | exit => exact ⟨lcells, cells, .ret, rfl, hlays.ret, .exit hlays⟩

namespace Poised

variable {op : Op}

theorem mono (h : s.Extends s') (hf : f.Poised D s features b lower lcells cells op) :
    f.Poised D s' features b lower lcells cells op := by
  cases hf with
  | instruction hstand hwidth hop => exact .instruction (hstand.mono h) hwidth hop
  | exit hlays => exact .exit (hlays.mono h)

theorem lays (hf : f.Poised D s features b lower lcells cells op) :
    ∃ operands, f.Lays D s features b lower operands lcells cells := by
  cases hf with
  | instruction hstand => exact ⟨_, hstand.toLays⟩
  | exit hlays => exact ⟨_, hlays⟩

theorem hosted (hf : f.Poised D s features b lower lcells cells op) : f.toScope.Hosted D s :=
  let ⟨_, hlays⟩ := hf.lays
  hlays.hosted

theorem sound (hs : s.TypedIn D) (hf : f.Poised D s features b lower lcells cells op) :
    Sound D (op.exec f) ⟨s, .of (lower ++ lcells) cells⟩ fun flow s' => f.Goes D s' features b lower flow := by
  cases hf with
  | instruction hstand hwidth hop =>
    obtain ⟨op', ops', hop', hsound⟩ := hstand.op_sound hs hwidth
    cases hop.symm.trans hop'
    exact hsound
  | exit hlays =>
    rw [← List.append_nil (b.results.reverse.map some)] at hlays
    exact hlays.sound_ret hs

end Poised

/-- **A frame that is ready runs its op, which goes well or traps.** -/
theorem exec_sound (hs : s.TypedIn D) (hf : f.Ready D s features b lower stack) :
    Sound D f.exec ⟨s, stack⟩ fun flow s' => f.Goes D s' features b lower flow := by
  obtain ⟨lcells, cells, op, rfl, hop, hpoised⟩ := hf.poised
  obtain ⟨i, hi, hmodule, hinstance⟩ := instanceOf_of hpoised.hosted
  refine .bind_of_ok (hinstance _) ?_
  rw [hop]
  -- the op is paid for, and then it runs
  refine .bind (sound_charge hs) ?_
  rintro _ s' _ hs' ⟨hq, rfl⟩
  exact (hpoised.mono hq.toExtends).sound hs'

end Frame

end WasmEngine
