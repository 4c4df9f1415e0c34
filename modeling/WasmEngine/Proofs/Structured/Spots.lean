import WasmEngine.Proofs.Validation.Bodies

/-!
# Labels at the spots of a body

A spot that can be reached has the labels that structured execution has there. This is kept up by what becomes no
op, which structured execution passes over on its own (`TypedBody.Stops.settles`): a block that is opened lies as high
on the stack as checking said.

Whether a branch goes back or on can be told from the target as well as from the label: loops start before the
branch, and other blocks end behind it (`TypedBody.Visits.target_lt_iff`).
-/

namespace WasmEngine

/-! ### Signatures of blocks -/

theorem Module.blockType_eq {m : Module} {features : Features} {block : BlockType} {type : FuncType}
    (h : (m.context features).blockType block = .ok type) : m.blockType block = type := by
  cases block with
  | empty => exact pure_eq_ok.mp h
  | value => exact pure_eq_ok.mp h
  | index i =>
    have hget : m.types[i]? = some type := Context.lookUp_eq_ok.mp h
    rw [RawModule.blockType, hget, Option.getD_some]

namespace TypedBody

variable {b : TypedBody} {p : Spot} {bottom : Nat}

/-! ### Coming to rest -/

/-- A block that is opened gets the label that its frame has at the next spot. -/
theorem Visits.opens_labels {t t' : Typing} {x : TypedInstruction} {rest : List TypedInstruction} {pc : Nat}
    {starts : List (Option Nat)} {heads : List (List TypedInstruction)} {m : Module} {features : Features}
    (hv : b.Visits ⟨t, x :: rest, pc, starts, heads⟩) (hcontext : b.context = m.context features)
    (hstep : t.step b.context b.locals x.instruction = .ok (.next t' x.reshapes)) (bottom : Nat)
    {block : BlockType}
    (hi : x.instruction = .block block ∨ x.instruction = .loop block ∨ x.instruction = .if_ block) :
    ControlFrame.labels bottom t'.frames (rest :: heads) =
      (if t'.frame.kind = .loop then
          Label.loop (m.blockType block) (bottom + t'.operands.length) (rest.map (·.erase))
        else Label.block (m.blockType block) (bottom + t'.operands.length) (rest.map (·.erase))) ::
        ControlFrame.labels bottom t.frames heads := by
  have htype := Module.blockType_eq (hcontext ▸ Typing.step_blockType hi hstep)
  have hbased : Based t'.frames := (hv.next hstep).based
  have hshape := Typing.step_shape hstep
  generalize x.instruction = i at hi hshape
  cases hshape with
  | stays hflat => rcases hi with rfl | rfl | rfl <;> nomatch hflat
  | switches => rcases hi with hi | hi | hi <;> nomatch hi
  | closes => rcases hi with hi | hi | hi <;> nomatch hi
  | @opens _ kind type t₁ _ hkind htakes hframe houter =>
    have hparams : t'.frame.operands.length = (m.blockType block).params.length := by
      rw [htype, hframe, List.length_map, List.length_reverse]
    have hheight : bottom + t'.operands.length - (m.blockType block).params.length = bottom + t'.frame.base := by
      rw [← hbased.height, Typing.height, hparams]
      omega
    have houter' : ControlFrame.labels bottom t'.outer heads = ControlFrame.labels bottom t.frames heads := by
      rw [houter]
      exact htakes.like.labels bottom t.outer heads
    change t'.frame.label bottom rest :: ControlFrame.labels bottom t'.outer heads = _
    rw [houter', ControlFrame.label, ControlFrame.labelTypes]
    split
    · next hloop => rw [Label.loop, hheight, htype]; simp [hloop]
    · next hloop => rw [Label.block, hheight, htype]; simp [hloop]

/-- **From where execution goes on, structured execution comes to rest** as the executable form does: in front of an
instruction that has an op, or behind the code. -/
theorem Visits.settles {m : Module} {features : Features} (hcontext : b.context = m.context features)
    (hv : b.Visits p) (hlive : p.typing.Live) (hknown : p.typing.Known) :
    ∃ code labels, StructuredFrame.settle m.toRawModule (bottom + p.typing.operands.length)
        (p.code.map (·.erase)) (p.labels bottom) = (code, labels) ∧
      b.Stops bottom p.pc p.typing.operands code labels ∧ ∀ x ∈ code.head?, x.2.width = 1 := by
  obtain ⟨t, code, pc, starts, heads⟩ := p
  have hchecks := hv.checks
  dsimp only at hlive hknown hchecks ⊢
  generalize b.peak = peak at hchecks
  induction hchecks generalizing pc starts heads with
  | @last t offset peak hlast =>
    obtain ⟨hpc, hoperands⟩ := hv.exit hlive hknown rfl hlast
    dsimp only at hpc hoperands
    have hlabels : (Spot.labels bottom ⟨t, [⟨offset, .end_, []⟩], pc, starts, heads⟩).tail = [] := by
      obtain ⟨-, -, -, -, ⟨houter, -⟩ | ⟨_, _, _, _, hp, -⟩⟩ := Typing.close_spec hlast
      · rw [Spot.labels, Typing.frames, houter]
        cases heads <;> rfl
      · cases hp
    refine ⟨[], (Spot.labels bottom ⟨t, [⟨offset, .end_, []⟩], pc, starts, heads⟩).tail, rfl, ?_,
      fun _ hx => by cases hx⟩
    rw [hlabels, hoperands, hpc]
    exact .exit
  | @next t t' x rest peak hstep hrest ih =>
    rcases width_le_one x.instruction with hwidth | hwidth
    · have hv' := hv.next hstep
      have hshape := Typing.step_shape hstep
      rw [hwidth] at hv'
      have hsame : t'.operands = t.operands ∧ t'.Live := by
        by_cases hnop : x.instruction = .nop
        · rw [hnop] at hstep
          rw [Typing.step_nop_eq hstep]
          exact ⟨rfl, hlive⟩
        · exact hshape.silent hwidth hnop hlive hknown
      have hknown' : t'.Known := by
        unfold Typing.Known
        rw [hsame.1]
        exact hknown
      have hopens {block : BlockType} := @opens_labels _ _ _ _ _ _ _ _ _ _ hv hcontext hstep bottom block
      have ih := ih _ _ _ hv' hsame.2 hknown'
      rw [hsame.1] at ih hopens
      obtain ⟨offset, i, reshapes⟩ := x
      dsimp only at hshape hopens ih hwidth
      cases i with
      | nop =>
        cases Typing.step_nop_eq hstep
        exact ih
      | block block =>
        have hlabels := hopens (.inl rfl)
        cases hshape with
        | stays hflat => cases hflat
        | opens hkind _ hframe =>
          cases hkind
          rw [hframe, if_neg fun hloop => by cases hloop] at hlabels
          change ∃ code labels, StructuredFrame.settle _ _ _ (_ :: ControlFrame.labels bottom t.frames heads) = _ ∧ _
          rw [← hlabels]
          exact ih
      | loop block =>
        have hlabels := hopens (.inr (.inl rfl))
        cases hshape with
        | stays hflat => cases hflat
        | opens hkind _ hframe =>
          cases hkind
          rw [hframe, if_pos rfl] at hlabels
          change ∃ code labels, StructuredFrame.settle _ _ _ (_ :: ControlFrame.labels bottom t.frames heads) = _ ∧ _
          rw [← hlabels]
          exact ih
      | end_ =>
        cases hshape with
        | stays hflat => cases hflat
        | opens hkind => cases hkind
        | @closes g gs t₁ _ _ _ _ houter hframe houter' =>
          have hlike : g.Like t'.frame := by
            rw [hframe]
            exact ⟨rfl, rfl, rfl⟩
          have hlabels : ControlFrame.labels bottom t'.frames heads.tail =
              (ControlFrame.labels bottom t.frames heads).tail := by
            rw [Typing.frames, Typing.frames, houter', houter, hlike.labels]
            cases heads <;> rfl
          change ∃ code labels, StructuredFrame.settle _ _ _ (ControlFrame.labels bottom t.frames heads).tail = _ ∧ _
          rw [← hlabels]
          exact ih
      | _ => cases hwidth
    · refine ⟨_, _, ?_, .spot hv hlive hknown, ?_⟩
      · obtain ⟨offset, i, reshapes⟩ := x
        cases i <;> first | rfl | cases hwidth
      · intro y hy
        cases hy
        exact hwidth

/-- The operands are known from the op. -/
theorem Rests.operands_eq {pc : Nat} {operands operands' : List Operand} (h : b.Rests pc operands)
    (h' : b.Rests pc operands') : operands = operands' := by
  have hlt {p : Spot} {x : TypedInstruction} {rest : List TypedInstruction} (hv : b.Visits p)
      (hcode : p.code = x :: rest) (hwidth : x.instruction.width = 1) : p.pc ≠ b.ops.length := by
    have hsum := hv.sum_width
    rw [hcode, List.map_cons, List.sum_cons, hwidth] at hsum
    omega
  generalize hpc : pc = pc' at h'
  cases h with
  | op hv hlive hknown hcode hwidth =>
    cases h' with
    | op hv' _ _ hcode' hwidth' => rw [hv.eq_of_pc hv' hcode hcode' hwidth hwidth' hpc]
    | exit => exact absurd hpc (hlt hv hcode hwidth)
  | exit =>
    cases h' with
    | op hv' _ _ hcode' hwidth' => exact absurd hpc.symm (hlt hv' hcode' hwidth')
    | exit => rfl

/-! ### Forwards and back -/

theorem Begun.start_of {frames : List ControlFrame} {starts : List (Option Nat)}
    {heads : List (List TypedInstruction)} (h : b.Begun frames starts heads) {label : Nat} {f : ControlFrame}
    (hf : frames[label]? = some f) : (f.kind = .loop → ∃ pc, starts[label]? = some (some pc)) ∧
      (f.kind ≠ .loop → starts[label]? = some none) := by
  induction h generalizing label with
  | body hkind =>
    cases label with
    | zero =>
      cases hf
      exact ⟨fun hloop => (nomatch hkind.symm.trans hloop), fun _ => rfl⟩
    | succ => nomatch hf
  | loop hkind _ _ _ _ ih =>
    cases label with
    | zero =>
      cases hf
      exact ⟨fun _ => ⟨_, rfl⟩, fun hloop => absurd hkind hloop⟩
    | succ label => exact ih hf
  | block hkind _ _ ih =>
    cases label with
    | zero =>
      cases hf
      exact ⟨fun hloop => absurd hloop hkind, fun _ => rfl⟩
    | succ label => exact ih hf

/-- Blocks start before what is in them. -/
theorem Visits.start_le (hv : b.Visits p) : ∀ start, some start ∈ p.starts → start ≤ p.pc := by
  induction hv with
  | start => exact fun start hs => (nomatch List.mem_singleton.mp hs)
  | @next t t' x rest pc starts heads _ _ ih =>
    intro start hs
    have hle : some start ∈ starts → start ≤ pc + x.instruction.width := fun hs =>
      Nat.le_trans (ih start hs) (Nat.le_add_right _ _)
    obtain ⟨offset, i, reshapes⟩ := x
    dsimp only at hs hle ⊢
    cases i with
    | block | if_ => exact hle ((List.mem_cons.mp hs).resolve_left nofun)
    | loop =>
      rcases List.mem_cons.mp hs with hs | hs
      · cases hs
        exact Nat.le_add_right _ _
      · exact hle hs
    | end_ => exact hle (List.mem_of_mem_tail hs)
    | _ => exact hle hs

/-- Blocks end behind what is in them. -/
theorem Visits.le_close (hv : b.Visits p) :
    ∀ landing ∈ (TypedInstruction.lower p.pc p.starts p.code).2, p.pc ≤ landing.close := by
  obtain ⟨t, code, pc, starts, heads⟩ := p
  have hchecks := hv.checks
  dsimp only at hchecks ⊢
  generalize b.peak = peak at hchecks
  induction hchecks generalizing pc starts heads with
  | last => exact fun landing hl => by cases List.mem_singleton.mp hl; exact Nat.le_refl _
  | @next t t' x rest peak hstep hrest ih =>
    have hv' := hv.next hstep
    have ih := ih _ _ _ hv'
    have hlanded := hv'.landed
    have hshape := Typing.step_shape hstep
    obtain ⟨offset, i, reshapes⟩ := x
    dsimp only at ih hshape hlanded
    have hle {landing : Landing} (h : pc + i.width ≤ landing.close) : pc ≤ landing.close :=
      Nat.le_trans (Nat.le_add_right _ _) h
    cases hshape with
    | stays hi =>
      rw [TypedInstruction.lower_flat _ _ _ _ hi]
      rw [Instruction.startsAfter_flat hi] at ih
      exact fun landing hl => hle (ih landing hl)
    | opens hkind =>
      rw [TypedInstruction.lower_opens _ _ _ _ hkind]
      exact fun landing hl => hle (ih landing (List.mem_of_mem_tail hl))
    | switches =>
      intro landing hl
      change landing ∈ (⟨((TypedInstruction.lower (pc + 1) starts rest).2.head?.map (·.close)).getD 0,
        some (pc + 1)⟩ :: (TypedInstruction.lower (pc + 1) starts rest).2.tail : List Landing) at hl
      change b.Landed _ _ starts heads (TypedInstruction.lower (pc + 1) starts rest).2 at hlanded
      change ∀ landing ∈ (TypedInstruction.lower (pc + 1) starts rest).2, pc + 1 ≤ landing.close at ih
      generalize (TypedInstruction.lower (pc + 1) starts rest).2 = landings at hl hlanded ih
      cases hlanded with
      | @cons _ _ _ _ _ _ _ first landings =>
        rcases List.mem_cons.mp hl with rfl | hl
        · have hfirst := ih first List.mem_cons_self
          exact Nat.le_of_succ_le hfirst
        · exact hle (ih landing (List.mem_cons_of_mem _ hl))
    | closes =>
      intro landing hl
      rcases List.mem_cons.mp hl with rfl | hl
      · exact Nat.le_refl _
      · exact hle (ih landing hl)

theorem Landed.length_eq {code : List (Nat × Instruction)} {frames : List ControlFrame} {starts : List (Option Nat)}
    {heads : List (List TypedInstruction)} {landings : List Landing}
    (h : b.Landed code frames starts heads landings) : landings.length = frames.length := by
  induction h with
  | nil => rfl
  | cons _ _ _ ih => exact congrArg (· + 1) ih

/-- **A branch goes back exactly if it is to a loop.** The spot is the one behind it. -/
theorem Visits.target_lt_iff (hv : b.Visits p) (hs : ∀ start, some start ∈ p.starts → start < p.pc) {label : Nat}
    {f : ControlFrame} (hf : p.typing.frames[label]? = some f) :
    labelTarget p.starts (TypedInstruction.lower p.pc p.starts p.code).2 label < p.pc ↔ f.kind = .loop := by
  obtain ⟨hloop, hblock⟩ := hv.begun.start_of hf
  constructor
  · intro hlt
    by_contra hkind
    have hlt' : label < (TypedInstruction.lower p.pc p.starts p.code).2.length := by
      rw [hv.landed.length_eq]
      exact (List.getElem?_eq_some_iff.mp hf).1
    rw [labelTarget, hblock hkind, List.getElem?_eq_getElem hlt'] at hlt
    exact absurd hlt (Nat.not_lt.mpr (hv.le_close _ (List.getElem_mem hlt')))
  · intro hkind
    obtain ⟨start, hstart⟩ := hloop hkind
    rw [labelTarget, hstart]
    exact hs start (List.mem_of_getElem? hstart)

end TypedBody

end WasmEngine
