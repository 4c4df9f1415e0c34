import WasmEngine.Proofs.Validation.Instructions

/-!
# Code that was accepted

The checker goes through code in one pass and knows of the blocks that are open only what its frames say of them.
Read backwards, from the end of a block to its start, its pass is a derivation of the rules: whatever
operands are covered behind the block's code, there are some before it from which the rules lead to them
(`Typing.Derives`). So code that was accepted consists of such segments, one for each block or arm
(`Typing.Finishes.segment`), and the labels of its tables carry the same types (`Typing.Finishes.uniform`).
-/

namespace WasmEngine

open CodeContext

namespace Typing

variable {t t' t₁ : Typing} {c : Context} {locals types : List ValueType} {i : Instruction}
  {ds ds' : List Operand} {reshapes : List Reshape} {reshape : Reshape}

/-! ### Blocks -/

theorem covers_enter {kind : FrameKind} {type : FuncType} (h : t.enter kind type = .ok t') :
    ∃ g, t.frame.Like g ∧ t'.outer = g :: t.outer ∧ t'.frame.kind = kind ∧ t'.frame.type = type ∧
      (∀ ds, t'.frame.Covers ds ↔ ds = operandsOf type.params) ∧
      ∀ ds, t.frame.Covers (operandsOf type.params ++ ds) ↔ g.Covers ds := by
  obtain ⟨t₁, h₁, h⟩ := bind_eq_ok.mp h
  cases pure_eq_ok.mp h
  have htakes := takes_popAll h₁
  obtain ⟨houter, hframe⟩ := pushAll_spec type.params
    { t₁ with frame := ⟨kind, type, t₁.height, [], false⟩, outer := t₁.frame :: t₁.outer }
  refine ⟨t₁.frame, htakes.like, houter.trans (by rw [htakes.outer]), by rw [hframe], by rw [hframe],
    fun ds => ?_, fun ds => covers_popAll h₁⟩
  rw [hframe]
  exact covers_live (List.append_nil _) rfl

theorem enter_of_covers (kind : FrameKind) (type : FuncType) (h : t.frame.Covers (operandsOf type.params ++ ds)) :
    ∃ t', t.enter kind type = .ok t' := by
  obtain ⟨t₁, h₁⟩ := popAll_of_covers h
  exact ⟨_, bind_eq_ok.mpr ⟨t₁, h₁, rfl⟩⟩

theorem covers_checkResults (h : t.checkResults = .ok t') : t.frame.Covers (operandsOf t.frame.type.results) := by
  obtain ⟨t₁, h₁, h⟩ := bind_eq_ok.mp h
  split at h
  · next hempty =>
    rw [← List.append_nil (operandsOf _), covers_popAll h₁, ← List.isEmpty_iff.mp hempty]
    exact t₁.frame.covers_operands
  · nomatch h

theorem checkResults_of_covers (h : t.frame.Covers (operandsOf t.frame.type.results)) :
    ∃ t', t.checkResults = .ok t' := by
  rw [← List.append_nil (operandsOf _)] at h
  obtain ⟨t₁, h₁⟩ := popAll_of_covers h
  have hempty : t₁.frame.operands = [] := by
    have hc := (covers_popAll h₁).mp h
    unfold ControlFrame.Covers at hc
    generalize t₁.frame.operands = os at hc
    cases hc
    rfl
  exact ⟨t₁, bind_eq_ok.mpr ⟨t₁, h₁, if_pos (List.isEmpty_iff.mpr hempty)⟩⟩

/-- What is left of an inner block for the one around it. -/
theorem covers_behind {g : ControlFrame} {types : List ValueType} :
    ControlFrame.Covers { g with operands := types.reverse.map some ++ g.operands } ds ↔
      ∃ ds', ds = operandsOf types ++ ds' ∧ g.Covers ds' :=
  ControlFrame.covers_known

theorem close_of_covers (h : t.frame.Covers (operandsOf t.frame.type.results))
    (hif : t.frame.kind = .ifArm → t.frame.type.params = t.frame.type.results) :
    ∃ progress, t.close = .ok progress := by
  obtain ⟨t₁, h₁⟩ := checkResults_of_covers h
  obtain ⟨htakes, -⟩ := takes_checkResults h₁
  unfold close
  rw [h₁]
  simp only [bind, Except.bind]
  rw [htakes.like.kind, htakes.like.type, if_neg (not_and_not_right.mpr hif)]
  split <;> exact ⟨_, rfl⟩

theorem switch_of_covers (h : t.frame.Covers (operandsOf t.frame.type.results)) (hif : t.frame.kind = .ifArm) :
    ∃ t', t.switch = .ok t' := by
  obtain ⟨t₁, h₁⟩ := checkResults_of_covers h
  unfold switch
  rw [if_neg (not_not.mpr hif), h₁]
  exact ⟨_, rfl⟩

/-- The second arm of a conditional starts like the first one did. -/
theorem covers_switch (h : t.switch = .ok t') : t.frame.Covers (operandsOf t.frame.type.results) ∧
    t.frame.kind = .ifArm ∧ t'.outer = t.outer ∧ t'.frame.kind = .elseArm ∧ t'.frame.type = t.frame.type ∧
    ∀ ds, t'.frame.Covers ds ↔ ds = operandsOf t.frame.type.params := by
  have hresults : t.frame.Covers (operandsOf t.frame.type.results) := by
    unfold switch at h
    split at h
    · nomatch h
    · obtain ⟨t₁, h₁, -⟩ := bind_eq_ok.mp h
      exact covers_checkResults h₁
  cases shape_switch h with
  | stays hflat => nomatch hflat
  | opens hkind => nomatch hkind
  | switches hif htakes hempty hframe houter =>
    refine ⟨hresults, hif, houter, by rw [hframe], by rw [hframe], fun ds => ?_⟩
    exact covers_live (by rw [hframe]; rfl) (by rw [hframe])

/-! ### Runs of the checker -/

/-- **The checker gets through the code** to the end of the body. -/
inductive Finishes (c : Context) (locals : List ValueType) : Typing → List Instruction → Prop
  | close {t : Typing} {peak : Nat} : t.step c locals .end_ = .ok (.closed peak) → Finishes c locals t [.end_]
  | next {t t' : Typing} {i : Instruction} {rest : List Instruction} {reshapes : List Reshape} :
    t.step c locals i = .ok (.next t' reshapes) → Finishes c locals t' rest → Finishes c locals t (i :: rest)

theorem run_iff (last : Nat) {code : List (Nat × Instruction)} :
    (∃ r, run c locals last t code = .ok r) ↔ t.Finishes c locals (code.map (·.2)) := by
  induction code generalizing t last with
  | nil => exact ⟨fun ⟨_, h⟩ => (nomatch h), fun h => (nomatch h)⟩
  | cons x code ih =>
    obtain ⟨offset, i⟩ := x
    rw [List.map_cons]
    unfold run
    constructor
    · rintro ⟨r, h⟩
      split at h
      · nomatch h
      · next hstep =>
        obtain ⟨⟨typed, peak⟩, hrun, -⟩ := bind_eq_ok.mp h
        exact .next hstep ((ih _).mp ⟨_, hrun⟩)
      · next hstep =>
        cases step_closed hstep
        cases code with
        | nil => exact .close hstep
        | cons => nomatch h
    · intro h
      generalize hcode : code.map (·.2) = rest at h
      cases h with
      | close hstep =>
        rw [hstep, List.map_eq_nil_iff.mp hcode]
        exact ⟨_, rfl⟩
      | next hstep hrest =>
        rw [hstep]
        obtain ⟨⟨typed, peak⟩, hrun⟩ := (ih _).mpr (hcode ▸ hrest)
        exact ⟨_, bind_eq_ok.mpr ⟨_, hrun, rfl⟩⟩

/-- Code leads from a state of the checker to another one within the same block, and does so by the rules. -/
structure Derives (c : Context) (locals : List ValueType) (t : Typing) (code : List Instruction) (t' : Typing) :
    Prop where
  outer : t'.outer = t.outer
  like : t.frame.Like t'.frame
  code : ∀ ds', t'.frame.Covers ds' → ∃ ds, t.frame.Covers ds ∧ (t.context c locals).Code code ds ds'

theorem Derives.refl (t : Typing) : t.Derives c locals [] t :=
  ⟨rfl, .refl _, fun ds h => ⟨ds, h, .nil ds⟩⟩

theorem Derives.trans {t₂ : Typing} {is js : List Instruction} (h : t.Derives c locals is t₁)
    (h' : t₁.Derives c locals js t₂) : t.Derives c locals (is ++ js) t₂ where
  outer := h'.outer.trans h.outer
  like := h.like.trans h'.like
  code ds' hds' := by
    obtain ⟨mid, hmid, hjs⟩ := h'.code ds' hds'
    obtain ⟨ds, hds, his⟩ := h.code mid hmid
    rw [context_stays h.outer h.like] at hjs
    exact ⟨ds, hds, .append his hjs⟩

theorem Derives.of_step (hi : i.isFlat = true) (h : t.step c locals i = .ok (.next t' reshapes)) :
    t.Derives c locals [i] t' := by
  have hstays : t'.outer = t.outer ∧ t.frame.Like t'.frame := by
    cases step_shape h with
    | stays _ houter hlike => exact ⟨houter, hlike⟩
    | opens hkind => cases i with
      | block | loop | if_ => nomatch hi
      | _ => nomatch hkind
    | switches => nomatch hi
    | closes => nomatch hi
  exact ⟨hstays.1, hstays.2, fun ds' hds' => step_sound hi h hds'⟩

/-- At the end of a block, its results are what is left for the code behind. -/
theorem Finishes.behind_end {rest : List Instruction} (h : t.Finishes c locals (.end_ :: rest)) :
    t.frame.Covers (operandsOf t.frame.type.results) ∧
      (t.frame.kind = .ifArm → t.frame.type.params = t.frame.type.results) ∧
      (t.outer = [] ∧ rest = [] ∨ ∃ (g : ControlFrame) (gs : List ControlFrame) (t' : Typing), t.outer = g :: gs ∧
        t'.Finishes c locals rest ∧
        t'.outer = gs ∧ t'.frame = { g with
          operands := t.frame.type.results.reverse.map some ++ g.operands }) := by
  have hresults {progress : Progress} (h : t.step c locals .end_ = .ok progress) :
      t.frame.Covers (operandsOf t.frame.type.results) := by
    obtain ⟨t₁, h₁, -⟩ := bind_eq_ok.mp h
    exact covers_checkResults h₁
  cases h with
  | close hstep =>
    obtain ⟨hif, t₁, -, -, ⟨houter, -⟩ | ⟨g, gs, t', -, hnext, -⟩⟩ := close_spec hstep
    · exact ⟨hresults hstep, hif, .inl ⟨houter, rfl⟩⟩
    · nomatch hnext
  | next hstep hrest =>
    obtain ⟨hif, t₁, -, -, ⟨-, hclosed⟩ | ⟨g, gs, t', houter, hnext, hframe, houter'⟩⟩ := close_spec hstep
    · nomatch hclosed
    · cases hnext
      exact ⟨hresults hstep, hif, .inr ⟨g, gs, _, houter, hrest, houter', hframe⟩⟩

/-- At an `else`, the second arm starts like the first one did. -/
theorem Finishes.behind_else {rest : List Instruction} (h : t.Finishes c locals (.else_ :: rest)) :
    t.frame.kind = .ifArm ∧ t.frame.Covers (operandsOf t.frame.type.results) ∧
      ∃ t' : Typing, t'.Finishes c locals rest ∧ t'.outer = t.outer ∧ t'.frame.kind = .elseArm ∧
        t'.frame.type = t.frame.type ∧ ∀ ds, t'.frame.Covers ds ↔ ds = operandsOf t.frame.type.params := by
  cases h with
  | next hstep hrest =>
    obtain ⟨t', hswitch, h⟩ := bind_eq_ok.mp hstep
    cases pure_eq_ok.mp h
    obtain ⟨hresults, hif, houter, hkind, htype, hcovers⟩ := covers_switch hswitch
    exact ⟨hif, hresults, _, hrest, houter, hkind, htype, hcovers⟩

/-- **A block that was entered**: what is below waits for its results. -/
structure Entered (t : Typing) (kind : FrameKind) (ps rs : List ValueType) (g : ControlFrame) (t' : Typing) :
    Prop where
  like : t.frame.Like g
  outer : t'.outer = g :: t.outer
  kind : t'.frame.kind = kind
  type : t'.frame.type = ⟨ps, rs⟩
  covers : ∀ ds, t'.frame.Covers ds ↔ ds = operandsOf ps

section

variable {kind : FrameKind} {ps rs : List ValueType} {g : ControlFrame} {t₂ t₃ : Typing}
  {body rest : List Instruction}

theorem Entered.of_enter (h : t.enter kind ⟨ps, rs⟩ = .ok t₂) :
    ∃ g, t.Entered kind ps rs g t₂ ∧ ∀ ds, t.frame.Covers (operandsOf ps ++ ds) ↔ g.Covers ds := by
  obtain ⟨g, hlike, houter, hkind, htype, hcovers, hbelow⟩ := covers_enter h
  exact ⟨g, ⟨hlike, houter, hkind, htype, hcovers⟩, hbelow⟩

/-- The code of a block gives its results. -/
theorem Entered.code (he : t.Entered kind ps rs g t₂) (hd : t₂.Derives c locals body t₃)
    (hresults : t₃.frame.Covers (operandsOf t₃.frame.type.results)) :
    ((t.context c locals).within (if kind = .loop then ps else rs)).Code body (operandsOf ps)
      (operandsOf rs) := by
  obtain ⟨ds, hds, hcode⟩ := hd.code _ hresults
  rw [(he.covers ds).mp hds, context_opens he.outer he.like, hd.like.type, ControlFrame.labelTypes, he.kind,
    he.type] at hcode
  exact hcode

/-- What is behind the block goes on with its results. -/
theorem Entered.close (he : t.Entered kind ps rs g t₂) (hd : t₂.Derives c locals body t₃)
    (h : t₃.Finishes c locals (.end_ :: rest)) : t₃.frame.Covers (operandsOf t₃.frame.type.results) ∧
      (kind = .ifArm → ps = rs) ∧ ∃ t₄ : Typing, t₄.Finishes c locals rest ∧ t₄.outer = t.outer ∧
        t.frame.Like t₄.frame ∧
        ∀ ds', t₄.frame.Covers ds' ↔ ∃ ds, ds' = operandsOf rs ++ ds ∧ g.Covers ds := by
  obtain ⟨hresults, hif, ⟨hnone, -⟩ | ⟨g', gs, t₄, houter, hrest, houter', hframe⟩⟩ := h.behind_end
  · rw [hd.outer, he.outer] at hnone
    nomatch hnone
  · rw [hd.outer, he.outer] at houter
    cases houter
    rw [hd.like.kind, hd.like.type, he.kind, he.type] at hif
    refine ⟨hresults, hif, t₄, hrest, houter', ?_, fun ds' => ?_⟩
    · rw [hframe]
      exact ⟨he.like.kind, he.like.type, he.like.base⟩
    · rw [hframe, hd.like.type, he.type]
      exact covers_behind

/-- Code that is well typed up to the `else` or the `end` of its block, and accepted from there on. -/
def Segmented (c : Context) (locals : List ValueType) (t : Typing) (code : List Instruction) : Prop :=
  ∃ arm rest t', t.Derives c locals arm t' ∧
    (code = arm ++ .end_ :: rest ∧ t'.Finishes c locals (.end_ :: rest) ∨
      code = arm ++ .else_ :: rest ∧ t'.Finishes c locals (.else_ :: rest))

theorem Derives.segmented {front code : List Instruction} (hd : t.Derives c locals front t₂)
    (h : t₂.Segmented c locals code) : t.Segmented c locals (front ++ code) := by
  obtain ⟨arm, rest, t', hd', hends⟩ := h
  refine ⟨front ++ arm, rest, t', hd.trans hd', ?_⟩
  rw [List.append_assoc, List.append_assoc, List.append_cancel_left_eq, List.append_cancel_left_eq]
  exact hends

/-- The code of a block or of a loop with the code behind it, if both are segments. -/
theorem Entered.segmented {i : Instruction} {code : List Instruction} (he : t.Entered kind ps rs g t₂)
    (hbelow : ∀ ds, t.frame.Covers (operandsOf ps ++ ds) ↔ g.Covers ds) (hkind : kind ≠ .ifArm)
    (hcode : ∀ body, ((t.context c locals).within (if kind = .loop then ps else rs)).Code body (operandsOf ps)
      (operandsOf rs) → (t.context c locals).Code (i :: body ++ [.end_]) (operandsOf ps) (operandsOf rs))
    (hinner : t₂.Segmented c locals code)
    (hbehind : ∀ {t₄ : Typing} {rest : List Instruction}, rest.length < code.length →
      t₄.Finishes c locals rest → t₄.Segmented c locals rest) : t.Segmented c locals (i :: code) := by
  obtain ⟨body, rest, t₃, hd, ⟨rfl, hend⟩ | ⟨rfl, helse⟩⟩ := hinner
  · obtain ⟨hresults, -, t₄, hf, houter, hlike, hcovers⟩ := he.close hd hend
    have hwhole : t.Derives c locals (i :: body ++ [.end_]) t₄ := by
      refine ⟨houter, hlike, fun ds' hds' => ?_⟩
      obtain ⟨ds, rfl, hg⟩ := (hcovers ds').mp hds'
      exact ⟨_, (hbelow ds).mpr hg, .frame ds (hcode body (he.code hd hresults))⟩
    have hrest := hwhole.segmented (hbehind (by simp; omega) hf)
    rwa [List.append_assoc, List.cons_append] at hrest
  · exact absurd (helse.behind_else.1.symm.trans (hd.like.kind.trans he.kind)) hkind.symm

/-- The same for a conditional, with one arm or with two. -/
theorem Entered.segmented_if {type : BlockType} {t₀ : Typing} {code : List Instruction}
    (h₀ : t.expect .i32 = .ok t₀) (he : t₀.Entered .ifArm ps rs g t₂)
    (hbelow : ∀ ds, t₀.frame.Covers (operandsOf ps ++ ds) ↔ g.Covers ds)
    (htype : (t.context c locals).Block type ps rs) (hinner : t₂.Segmented c locals code)
    (hbehind : ∀ {t₄ : Typing} {rest : List Instruction}, rest.length < code.length →
      t₄.Finishes c locals rest → t₄.Segmented c locals rest) : t.Segmented c locals (.if_ type :: code) := by
  have hsame : t₀.context c locals = t.context c locals :=
    context_stays (takes_expect h₀).outer (takes_expect h₀).like
  -- what is covered behind the conditional, from what there was before it
  have hwhole {t₄ : Typing} {is : List Instruction} (houter : t₄.outer = t₀.outer) (hlike : t₀.frame.Like t₄.frame)
      (hcovers : ∀ ds', t₄.frame.Covers ds' ↔ ∃ ds, ds' = operandsOf rs ++ ds ∧ g.Covers ds)
      (hcode : (t.context c locals).Code is (some .i32 :: operandsOf ps) (operandsOf rs)) :
      t.Derives c locals is t₄ := by
    refine ⟨houter.trans (takes_expect h₀).outer, (takes_expect h₀).like.trans hlike, fun ds' hds' => ?_⟩
    obtain ⟨ds, rfl, hg⟩ := (hcovers ds').mp hds'
    exact ⟨_, (covers_expect h₀).mpr ((hbelow ds).mpr hg), .frame ds hcode⟩
  obtain ⟨first, rest, t₃, hd, ⟨rfl, hend⟩ | ⟨rfl, helse⟩⟩ := hinner
  · obtain ⟨hresults, hif, t₄, hf, houter, hlike, hcovers⟩ := he.close hd hend
    have hfirst := he.code hd hresults
    cases hif rfl
    have hrest := (hwhole houter hlike hcovers (.ifOnly htype (hsame ▸ hfirst))).segmented (hbehind (by simp; omega) hf)
    rwa [List.append_assoc, List.cons_append] at hrest
  · obtain ⟨hif, hresults, t₅, hf, houter, hkind, htypes, hcovers⟩ := helse.behind_else
    have hfirst := he.code hd hresults
    -- the second arm starts like the first one
    have he' : t₀.Entered .elseArm ps rs g t₅ := {
      like := he.like
      outer := houter.trans (hd.outer.trans he.outer)
      kind := hkind
      type := htypes.trans (hd.like.type.trans he.type)
      covers := by rwa [hd.like.type, he.type] at hcovers }
    obtain ⟨second, rest', t₆, hd', ⟨rfl, hend⟩ | ⟨rfl, helse'⟩⟩ := hbehind (by simp; omega) hf
    · obtain ⟨hresults', -, t₄, hf', houter', hlike', hcovers'⟩ := he'.close hd' hend
      have hsecond := he'.code hd' hresults'
      have hrest := (hwhole houter' hlike' hcovers'
        (.if_ htype (hsame ▸ hfirst) (hsame ▸ hsecond))).segmented (hbehind (by simp; omega) hf')
      simpa using hrest
    · exact absurd (helse'.behind_else.1.symm.trans (hd'.like.kind.trans he'.kind)) nofun

end

/-- **The code of a block** that was accepted is well typed up to its `else` or `end`. -/
theorem Finishes.segment {code : List Instruction} (h : t.Finishes c locals code) : t.Segmented c locals code := by
  -- blocks within the code are segments of their own, so the induction is on the length of the code
  induction hn : code.length using Nat.strongRecOn generalizing t code with
  | _ n ih =>
  have ih {t : Typing} {code : List Instruction} (hlt : code.length < n) (h : t.Finishes c locals code) :
      t.Segmented c locals code := ih _ hlt h rfl
  cases h with
  | close hstep => exact ⟨[], [], t, .refl t, .inl ⟨rfl, .close hstep⟩⟩
  | @next _ t₁ i rest reshapes hstep hrest =>
    have hlt : rest.length < n := by
      rw [← hn]
      exact Nat.lt_succ_self _
    have hbehind {t₄ : Typing} {rest' : List Instruction} (hlt' : rest'.length < rest.length)
        (h : t₄.Finishes c locals rest') : t₄.Segmented c locals rest' := ih (Nat.lt_trans hlt' hlt) h
    cases i with
    | end_ => exact ⟨[], rest, t, .refl t, .inl ⟨rfl, .next hstep hrest⟩⟩
    | else_ => exact ⟨[], rest, t, .refl t, .inr ⟨rfl, .next hstep hrest⟩⟩
    | block type =>
      obtain ⟨⟨ps, rs⟩, htype, hstep⟩ := bind_eq_ok.mp hstep
      obtain ⟨t', henter, hstep⟩ := bind_eq_ok.mp hstep
      cases pure_eq_ok.mp hstep
      obtain ⟨g, he, hbelow⟩ := Entered.of_enter henter
      exact he.segmented hbelow nofun (fun body => .block (block_eq_ok.mp htype)) (ih hlt hrest) hbehind
    | loop type =>
      obtain ⟨⟨ps, rs⟩, htype, hstep⟩ := bind_eq_ok.mp hstep
      obtain ⟨t', henter, hstep⟩ := bind_eq_ok.mp hstep
      cases pure_eq_ok.mp hstep
      obtain ⟨g, he, hbelow⟩ := Entered.of_enter henter
      exact he.segmented hbelow nofun (fun body => .loop (block_eq_ok.mp htype)) (ih hlt hrest) hbehind
    | if_ type =>
      obtain ⟨t₀, h₀, hstep⟩ := bind_eq_ok.mp hstep
      obtain ⟨⟨ps, rs⟩, htype, hstep⟩ := bind_eq_ok.mp hstep
      obtain ⟨t', henter, hstep⟩ := bind_eq_ok.mp hstep
      cases pure_eq_ok.mp hstep
      obtain ⟨g, he, hbelow⟩ := Entered.of_enter henter
      exact he.segmented_if h₀ hbelow (block_eq_ok.mp htype) (ih hlt hrest) hbehind
    | _ => exact (Derives.of_step rfl hstep).segmented (ih hlt hrest)

/-- The labels behind an instruction. -/
theorem labels_step (h : t.step c locals i = .ok (.next t' reshapes)) :
    (t'.context c locals).labels = c.labelsBehind (t.context c locals).labels i := by
  have hopens {kind : FrameKind} {type : BlockType} {signature : FuncType}
      (hi : i = .block type ∨ i = .loop type ∨ i = .if_ type) (hkind : t'.frame.kind = kind)
      (houter : ∃ g, t'.outer = g :: t.outer ∧ t.frame.Like g) (hsignature : c.blockType type = .ok signature) :
      (t'.context c locals).labels = (if kind = .loop then signature.params else signature.results) ::
        (t.context c locals).labels := by
    obtain ⟨g, houter, hlike⟩ := houter
    have htype := step_blockType hi h
    cases hsignature.symm.trans htype
    rw [context_opens houter hlike, ← hkind]
    rfl
  cases step_shape h with
  | stays hflat houter hlike =>
    rw [context_stays houter hlike]
    cases i <;> first | rfl | nomatch hflat
  | @opens _ kind signature t₁ _ hkind htakes hframe houter =>
    have houter' : ∃ g, t'.outer = g :: t.outer ∧ t.frame.Like g := ⟨_, houter, htakes.like⟩
    have hkind' : t'.frame.kind = kind := by rw [hframe]
    cases i with
    | block type =>
      cases hkind
      have hs := step_blockType (.inl rfl) h
      rw [hopens (.inl rfl) hkind' houter' hs, Context.labelsBehind, hs]
      rfl
    | loop type =>
      cases hkind
      have hs := step_blockType (.inr (.inl rfl)) h
      rw [hopens (.inr (.inl rfl)) hkind' houter' hs, Context.labelsBehind, hs]
      rfl
    | if_ type =>
      cases hkind
      have hs := step_blockType (.inr (.inr rfl)) h
      rw [hopens (.inr (.inr rfl)) hkind' houter' hs, Context.labelsBehind, hs]
      rfl
    | _ => nomatch hkind
  | switches hif htakes hempty hframe houter =>
    change t'.frame.labelTypes :: t'.outer.map _ = t.frame.labelTypes :: t.outer.map _
    rw [houter, hframe, ControlFrame.labelTypes, ControlFrame.labelTypes, hif]
    rfl
  | @closes g gs t₁ _ hif htakes hempty houter hframe houter' =>
    change t'.frame.labelTypes :: t'.outer.map _ = t.outer.map _
    rw [houter, houter', hframe]
    rfl

/-- **Tables that were accepted are uniform.** -/
theorem Finishes.uniform {code : List Instruction} (h : t.Finishes c locals code) :
    c.UniformTables (t.context c locals).labels code := by
  induction h with
  | close => exact ⟨nofun, trivial⟩
  | @next t t' i rest reshapes hstep hrest ih =>
    refine ⟨?_, labels_step hstep ▸ ih⟩
    rintro ls d rfl l hl
    obtain ⟨t₁, h₁, h⟩ := bind_eq_ok.mp hstep
    obtain ⟨⟨reshape, types⟩, hbranch, h⟩ := bind_eq_ok.mp h
    obtain ⟨⟨rs, t₂⟩, h₂, h⟩ := bind_eq_ok.mp h
    obtain ⟨t₃, h₃, -⟩ := bind_eq_ok.mp h
    have hsame : t₁.context c locals = t.context c locals :=
      context_stays (takes_expect h₁).outer (takes_expect h₁).like
    rw [← hsame, (branches_uniform h₂ h₃).1 l hl, labels_of_branch hbranch]

end Typing

end WasmEngine
