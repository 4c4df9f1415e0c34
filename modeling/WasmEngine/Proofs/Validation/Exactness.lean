import WasmEngine.Proofs.Validation.Regions

/-!
# The checker and the rules

A derivation says which operands there are at each place of the code, and the checker, whose state covers them, finds
everything it looks for (`CodeContext.Code.passes`). Conversely, what the checker accepted is well typed
(`Typing.Finishes.segment`).

The two meet but for one instruction. A table of labels is checked by taking the operands of each label from the stack
and putting them back, by which operands of unknown type become known. So tables with labels of different types are
refused, which the rules allow where nothing is known of the operands (`FunctionBody.compile_iff`).
-/

namespace WasmEngine

open CodeContext

namespace Typing

variable {t t₂ t₃ : Typing} {c : Context} {locals ps rs : List ValueType} {kind : FrameKind} {g : ControlFrame}
  {i : Instruction} {body rest : List Instruction}

/-- The code of a block is checked within its label. -/
theorem Entered.within (he : t.Entered kind ps rs g t₂) : t₂.context c locals =
    (t.context c locals).within (if kind = .loop then ps else rs) := by
  rw [context_opens he.outer he.like, ControlFrame.labelTypes, he.kind, he.type]

/-- The first arm of a conditional is entered where there are its condition and its parameters. -/
theorem enter_if_of_covers {type : BlockType} {ds : List Operand} (htype : (t.context c locals).Block type ps rs)
    (h : t.frame.Covers (some .i32 :: operandsOf ps ++ ds)) :
    ∃ (t₀ t₂ : Typing) (g : ControlFrame), t.Takes [.i32] [] t₀ ∧ t₀.Entered .ifArm ps rs g t₂ ∧ g.Covers ds ∧
      t.step c locals (.if_ type) = .ok (.next t₂ []) := by
  obtain ⟨t₀, h₀⟩ := expect_of_covers h
  have h := (covers_expect h₀).mp h
  obtain ⟨t₂, henter⟩ := enter_of_covers .ifArm ⟨ps, rs⟩ h
  obtain ⟨g, he, hbelow⟩ := Entered.of_enter henter
  exact ⟨t₀, t₂, g, takes_expect h₀, he, (hbelow ds).mp h, bind_eq_ok.mpr ⟨t₀, h₀,
    bind_eq_ok.mpr ⟨_, block_eq_ok.mpr htype, bind_eq_ok.mpr ⟨t₂, henter, rfl⟩⟩⟩⟩

/-- A block whose results are there is left. -/
theorem Entered.leave (c : Context) (locals : List ValueType) (he : t.Entered kind ps rs g t₂)
    (houter : t₃.outer = t₂.outer) (hlike : t₂.frame.Like t₃.frame)
    (h : t₃.frame.Covers (operandsOf rs)) (hif : kind = .ifArm → ps = rs) :
    ∃ t₄, t₃.step c locals .end_ = .ok (.next t₄ []) ∧ t₄.outer = t.outer ∧ t.frame.Like t₄.frame ∧
      ∀ ds', t₄.frame.Covers ds' ↔ ∃ ds, ds' = operandsOf rs ++ ds ∧ g.Covers ds := by
  have htype := hlike.type.trans he.type
  have hclose : ∃ progress, t₃.close = .ok progress := by
    refine close_of_covers (by rwa [htype]) fun hkind => ?_
    rw [htype]
    exact hif (he.kind.symm.trans (hlike.kind.symm.trans hkind))
  obtain ⟨progress, hclose⟩ := hclose
  obtain ⟨-, t₁, -, -, ⟨hnone, -⟩ | ⟨g', gs, t₄, houter₃, rfl, hframe, houter₄⟩⟩ := close_spec hclose
  · rw [houter, he.outer] at hnone
    nomatch hnone
  · rw [houter, he.outer] at houter₃
    cases houter₃
    refine ⟨t₄, hclose, houter₄, ?_, fun ds' => ?_⟩
    · rw [hframe]
      exact ⟨he.like.kind, he.like.type, he.like.base⟩
    · rw [hframe, htype]
      exact covers_behind

/-- What code does that is typed, from a state of the checker on: it leads to another state, and the checker finishes
from the one if it does so from the other. -/
def Passes (c : Context) (locals : List ValueType) (t : Typing) (code : List Instruction) (outs : List Operand) :
    Prop :=
  ∀ rest, c.UniformTables (t.context c locals).labels (code ++ rest) →
    ∃ t' : Typing, t'.outer = t.outer ∧ t.frame.Like t'.frame ∧ t'.frame.Covers outs ∧
      c.UniformTables (t.context c locals).labels rest ∧
      (t'.Finishes c locals rest → t.Finishes c locals (code ++ rest))

/-- What the rest of a block does, with its `end`: it leads out of the block, to a state behind `t` with the results
of the block. -/
def Leaves (c : Context) (locals : List ValueType) (t₂ : Typing) (arm : List Instruction) (rs : List ValueType)
    (g : ControlFrame) (t : Typing) : Prop :=
  ∀ rest, c.UniformTables (t₂.context c locals).labels (arm ++ rest) →
    ∃ t' : Typing, t'.outer = t.outer ∧ t.frame.Like t'.frame ∧
      (∀ ds, g.Covers ds → t'.frame.Covers (operandsOf rs ++ ds)) ∧
      c.UniformTables (t.context c locals).labels rest ∧
      (t'.Finishes c locals rest → t₂.Finishes c locals (arm ++ rest))

theorem Entered.leaves (he : t.Entered kind ps rs g t₂) (hif : kind = .ifArm → ps = rs)
    (hbody : t₂.Passes c locals body (operandsOf rs)) : t₂.Leaves c locals (body ++ [.end_]) rs g t := by
  intro rest huniform
  rw [List.append_assoc] at huniform ⊢
  obtain ⟨t₃, houter, hlike, hc, hu, hf⟩ := hbody _ huniform
  obtain ⟨t₄, hstep, houter', hlike', hc'⟩ := he.leave c locals houter hlike hc hif
  refine ⟨t₄, houter', hlike', fun ds hds => (hc' _).mpr ⟨ds, rfl, hds⟩, ?_, fun h => hf (.next hstep h)⟩
  have hrest := hu.2
  rwa [context_opens he.outer he.like] at hrest

/-- From the first arm of a conditional, the second one is entered at the `else`. -/
theorem Entered.leaves_if {arm : List Instruction} (he : t.Entered .ifArm ps rs g t₂)
    (hfirst : t₂.Passes c locals body (operandsOf rs))
    (hsecond : ∀ {t₃ : Typing}, t.Entered .elseArm ps rs g t₃ → t₃.Leaves c locals arm rs g t) :
    t₂.Leaves c locals (body ++ .else_ :: arm) rs g t := by
  intro rest huniform
  rw [List.append_assoc] at huniform ⊢
  obtain ⟨t₃, houter, hlike, hc, hu, hf⟩ := hfirst _ huniform
  have htype := hlike.type.trans he.type
  obtain ⟨t₄, hswitch⟩ := switch_of_covers (by rwa [htype]) (hlike.kind.trans he.kind)
  obtain ⟨-, -, houter', hkind', htype', hc'⟩ := covers_switch hswitch
  have he' : t.Entered .elseArm ps rs g t₄ := {
    like := he.like
    outer := houter'.trans (houter.trans he.outer)
    kind := hkind'
    type := htype'.trans htype
    covers := by rwa [htype] at hc' }
  have hstep : t₃.step c locals .else_ = .ok (.next t₄ []) := bind_eq_ok.mpr ⟨t₄, hswitch, rfl⟩
  have hu' := hu.2
  rw [← context_stays houter hlike, ← labels_step hstep] at hu'
  obtain ⟨t₅, houter₅, hlike₅, hc₅, hu₅, hf₅⟩ := hsecond he' rest hu'
  exact ⟨t₅, houter₅, hlike₅, hc₅, hu₅, fun h => hf (.next hstep (hf₅ h))⟩

/-- A block with all its code, from the instruction that opens it. What that pops first may be a condition. -/
theorem Leaves.passes {t₀ : Typing} {arm : List Instruction} {ds : List Operand}
    (h : t₂.Leaves c locals arm rs g t₀) (houter : t₀.outer = t.outer) (hlike : t.frame.Like t₀.frame)
    (hstep : t.step c locals i = .ok (.next t₂ [])) (hg : g.Covers ds) :
    t.Passes c locals (i :: arm) (operandsOf rs ++ ds) := by
  intro rest huniform
  have hu := huniform.2
  rw [← labels_step hstep] at hu
  obtain ⟨t', houter', hlike', hc, hu', hf⟩ := h rest hu
  refine ⟨t', houter'.trans houter, hlike.trans hlike', hc ds hg, ?_, fun h => .next hstep (hf h)⟩
  rwa [context_stays houter hlike] at hu'

end Typing

/-- **What is well typed is accepted**, from any state that covers the operands, if tables are uniform. -/
theorem CodeContext.Code.passes {C : CodeContext} {is : List Instruction} {ins outs : List Operand}
    (h : C.Code is ins outs) {c : Context} {locals : List ValueType} {t : Typing} (ds : List Operand)
    (hcontext : t.context c locals = C) (hcovers : t.frame.Covers (ins ++ ds)) :
    t.Passes c locals is (outs ++ ds) := by
  induction h generalizing t ds with
  | instr hi =>
    intro rest huniform
    subst hcontext
    obtain ⟨t', reshapes, hflat, hstep, hc⟩ := Typing.step_of_instr hi huniform.1 hcovers
    have hd := Typing.Derives.of_step hflat hstep
    refine ⟨t', hd.outer, hd.like, hc, ?_, .next hstep⟩
    have hrest := huniform.2
    rwa [← Typing.labels_step hstep, Typing.context_stays hd.outer hd.like] at hrest
  | nil os => exact fun rest huniform => ⟨t, rfl, .refl _, hcovers, huniform, fun h => h⟩
  | append _ _ ih ih' =>
    intro rest huniform
    rw [List.append_assoc] at huniform ⊢
    obtain ⟨t₁, houter, hlike, hc, hu, hf⟩ := ih ds hcontext hcovers _ huniform
    have hsame : t₁.context c locals = t.context c locals := Typing.context_stays houter hlike
    obtain ⟨t₂, houter', hlike', hc', hu', hf'⟩ := ih' ds (hsame.trans hcontext) hc rest (hsame ▸ hu)
    exact ⟨t₂, houter'.trans houter, hlike.trans hlike', hc', hsame ▸ hu', fun h => hf (hf' h)⟩
  | frame below _ ih =>
    rw [List.append_assoc] at hcovers ⊢
    exact ih _ hcontext hcovers
  | weaken hins houts _ ih =>
    intro rest huniform
    have hc := hcovers.mono (List.rel_append hins (Operand.all_fit ds))
    obtain ⟨t', houter, hlike, hc', hrest⟩ := ih ds hcontext hc rest huniform
    exact ⟨t', houter, hlike, hc'.mono (List.rel_append houts (Operand.all_fit ds)), hrest⟩
  | @block C type ps rs body htype _ ih =>
    subst hcontext
    obtain ⟨t₂, henter⟩ := Typing.enter_of_covers .block ⟨ps, rs⟩ hcovers
    obtain ⟨g, he, hbelow⟩ := Typing.Entered.of_enter henter
    have hstep : t.step c locals (.block type) = .ok (.next t₂ []) :=
      bind_eq_ok.mpr ⟨_, block_eq_ok.mpr htype, bind_eq_ok.mpr ⟨t₂, henter, rfl⟩⟩
    have hbody := ih [] he.within ((he.covers _).mpr (List.append_nil _))
    rw [List.append_nil] at hbody
    exact (he.leaves nofun hbody).passes rfl (.refl _) hstep ((hbelow ds).mp hcovers)
  | @loop C type ps rs body htype _ ih =>
    subst hcontext
    obtain ⟨t₂, henter⟩ := Typing.enter_of_covers .loop ⟨ps, rs⟩ hcovers
    obtain ⟨g, he, hbelow⟩ := Typing.Entered.of_enter henter
    have hstep : t.step c locals (.loop type) = .ok (.next t₂ []) :=
      bind_eq_ok.mpr ⟨_, block_eq_ok.mpr htype, bind_eq_ok.mpr ⟨t₂, henter, rfl⟩⟩
    have hbody := ih [] he.within ((he.covers _).mpr (List.append_nil _))
    rw [List.append_nil] at hbody
    exact (he.leaves nofun hbody).passes rfl (.refl _) hstep ((hbelow ds).mp hcovers)
  | @if_ C type ps rs first second htype _ _ ih ih' =>
    subst hcontext
    obtain ⟨t₀, t₂, g, h₀, he, hg, hstep⟩ := Typing.enter_if_of_covers htype hcovers
    rw [← Typing.context_stays h₀.outer h₀.like] at ih ih'
    have hfirst := ih [] he.within ((he.covers _).mpr (List.append_nil _))
    rw [List.append_nil] at hfirst
    have hleaves := he.leaves_if hfirst fun he' => by
      have hsecond := ih' [] he'.within ((he'.covers _).mpr (List.append_nil _))
      rw [List.append_nil] at hsecond
      exact he'.leaves nofun hsecond
    rw [List.append_assoc]
    exact hleaves.passes h₀.outer h₀.like hstep hg
  | @ifOnly C type ts first htype _ ih =>
    subst hcontext
    obtain ⟨t₀, t₂, g, h₀, he, hg, hstep⟩ := Typing.enter_if_of_covers htype hcovers
    rw [← Typing.context_stays h₀.outer h₀.like] at ih
    have hfirst := ih [] he.within ((he.covers _).mpr (List.append_nil _))
    rw [List.append_nil] at hfirst
    exact (he.leaves (fun _ => rfl) hfirst).passes h₀.outer h₀.like hstep hg

/-! ### The checker and the rules -/

/-- **Exactness.** The checker accepts a body exactly if it is well typed and, besides, all labels of each of its tables
carry the same types. -/
theorem FunctionBody.compile_iff {c : Context} {func : Nat} {body : FunctionBody} :
    (∃ compiled, body.compile c func = .ok compiled) ↔
      ∃ type, c.func func = .ok type ∧ c.WellTyped type body ∧
        c.UniformTables [type.results] (body.code.map (·.2)) := by
  have haccepts {type : FuncType} (htype : c.func func = .ok type) :
      (∃ compiled, body.compile c func = .ok compiled) ↔
        (Typing.start type.results).Finishes c (type.params ++ body.locals) (body.code.map (·.2)) := by
    refine Iff.trans ?_ (Typing.run_iff body.offset)
    unfold FunctionBody.compile
    rw [htype]
    dsimp only
    cases Typing.run c (type.params ++ body.locals) body.offset (.start type.results) body.code with
    | error e => simp
    | ok r => simp
  have hcontext (type : FuncType) : (Typing.start type.results).context c (type.params ++ body.locals) =
      c.body type body.locals := rfl
  have hstart (type : FuncType) {ds : List Operand} : (Typing.start type.results).frame.Covers ds ↔
      ds = operandsOf [] := Typing.covers_live rfl rfl
  constructor
  · rintro ⟨compiled, h⟩
    cases htype : c.func func with
    | error fault =>
      unfold FunctionBody.compile at h
      rw [htype] at h
      nomatch h
    | ok type =>
      have hf := (haccepts htype).mp ⟨compiled, h⟩
      obtain ⟨code, rest, t', hd, ⟨hcode, hend⟩ | ⟨-, helse⟩⟩ := hf.segment
      · -- there is nothing behind the `end` of the outermost block
        obtain ⟨hresults, -, ⟨-, rfl⟩ | ⟨g, gs, -, houter, -⟩⟩ := hend.behind_end
        · obtain ⟨ds, hds, hderiv⟩ := hd.code _ hresults
          obtain rfl : ds = [] := (hstart type).mp hds
          rw [hd.like.type] at hderiv
          exact ⟨type, rfl, ⟨code, hcode, hderiv⟩, hf.uniform⟩
        · nomatch hd.outer.symm.trans houter
      · nomatch hd.like.kind.symm.trans helse.behind_else.1
  · rintro ⟨type, htype, ⟨code, hcode, hderiv⟩, huniform⟩
    rw [haccepts htype, hcode]
    rw [hcode] at huniform
    have hpasses := hderiv.passes [] (hcontext type) ((hstart type).mpr rfl)
    rw [List.append_nil] at hpasses
    obtain ⟨t', houter, hlike, hc, -, hf⟩ := hpasses [.end_] huniform
    refine hf ?_
    have hresults : t'.frame.type.results = type.results := by rw [hlike.type]; rfl
    rw [← hresults] at hc
    obtain ⟨progress, hclose⟩ := Typing.close_of_covers hc fun hkind => (nomatch hlike.kind.symm.trans hkind)
    obtain ⟨-, t₁, -, -, ⟨-, rfl⟩ | ⟨g, gs, -, hopen, -⟩⟩ := Typing.close_spec hclose
    · exact .close hclose
    · nomatch houter.symm.trans hopen

/-- A body that is not reached, in a function that gives an integer of 32 bits: a table of labels that carry numbers
of 64 bits and of 32 bits, then a constant. -/
def FunctionBody.unreachedTable : FunctionBody where
  locals := []
  offset := 0
  code := [.block (.value .i64), .unreachable, .brTable [0] 1, .end_, .drop, .i32Const 0, .end_].map (0, ·)

/-- The context of a module with nothing but that function. -/
def Context.oneFunc : Context :=
  ⟨[⟨[], [.i32]⟩], [0], [], [], [], 0, [], none, [], .all⟩

/-- **The rules allow more**: where nothing is known of the operands, the labels of a table may differ. -/
theorem FunctionBody.unreachedTable_refused :
    Context.oneFunc.func 0 = .ok ⟨[], [.i32]⟩ ∧ Context.oneFunc.WellTyped ⟨[], [.i32]⟩ unreachedTable ∧
      ¬ ∃ compiled, unreachedTable.compile Context.oneFunc 0 = .ok compiled := by
  refine ⟨rfl, ?_, fun h => ?_⟩
  · refine ⟨[.block (.value .i64), .unreachable, .brTable [0] 1, .end_, .drop, .i32Const 0], rfl, ?_⟩
    set C := Context.oneFunc.body ⟨[], [.i32]⟩ []
    -- whatever the labels carry, an unknown operand fits
    have hlabels : ∀ l ∈ [1, 0], ∃ ts, (C.within [.i64]).labels[l]? = some ts ∧
        List.Forall₂ Operand.Fits [none] (operandsOf ts) := by
      rintro l hl
      rcases List.mem_pair.mp hl with rfl | rfl
      · exact ⟨[.i32], rfl, .cons (.inl rfl) .nil⟩
      · exact ⟨[.i64], rfl, .cons (.inl rfl) .nil⟩
    have hunreachable : (C.within [.i64]).Code [.unreachable] [] [some .i32, none] := .instr (.unreachable [] _)
    have hbody : (C.within [.i64]).Code ([.unreachable] ++ [.brTable [0] 1]) [] [some .i64] :=
      .append hunreachable (.instr (.brTable [] _ hlabels))
    have hblock : C.Code (.block (.value .i64) :: [.unreachable, .brTable [0] 1] ++ [.end_]) [] [some .i64] :=
      .block (.value .i64) hbody
    have hbehind : C.Code [.drop, .i32Const 0] [some .i64] [some .i32] :=
      .append (.instr (.drop _)) (.instr (.plain (.i32Const 0)))
    exact .append hblock hbehind
  · obtain ⟨type, htype, -, huniform⟩ := FunctionBody.compile_iff.mp h
    obtain rfl : type = ⟨[], [.i32]⟩ := (Except.ok.inj htype).symm
    -- the third instruction is the table
    have htable := huniform.2.2.1 [0] 1 rfl 0 (List.mem_singleton.mpr rfl)
    nomatch htable

end WasmEngine
