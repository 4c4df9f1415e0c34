import WasmEngine.Proofs.Validation.Rests

/-!
# How high the operands go

Checking takes note of the greatest height whenever an operand is pushed, and at no other time. This is enough:
everything else that an instruction does to the stack takes operands away, or leaves a block and goes back to
operands that were there when it was entered. So what has to be kept up is that the operands of *every* open block,
and not only those of the innermost, stay below the peak (`Typing.Contained`).

At the end of a body its results are taken into account as well, since a return puts them there without pushing. So
wherever execution rests, there are at most as many operands as the body declares (`TypedBody.Rests.length_le`).
-/

namespace WasmEngine

namespace Typing

variable {t t' t₁ t₂ : Typing}

/-- **The operands of all open blocks lie below the peak.** -/
def Contained (t : Typing) : Prop := ∀ f ∈ t.frames, f.base + f.operands.length ≤ t.peak

/-- **The peak does not fall**, and what lies below it still does. -/
structure Rises (t t' : Typing) : Prop where
  peak : t.peak ≤ t'.peak
  contained : t.Contained → t'.Contained

instance : IsPreorder Typing Rises where
  refl _ := ⟨Nat.le_refl _, id⟩
  trans _ _ _ h h' := ⟨Nat.le_trans h.peak h'.peak, fun hc => h'.contained (h.contained hc)⟩

theorem Contained.height_le (h : t.Contained) : t.height ≤ t.peak := h _ List.mem_cons_self

/-! ### Operands -/

/-- Another innermost block that goes no higher. -/
theorem rises_frame {f : ControlFrame} (h : f.base + f.operands.length ≤ t.height) : Rises t { t with frame := f } where
  peak := Nat.le_refl _
  contained hc := List.forall_mem_cons.mpr
    ⟨Nat.le_trans h hc.height_le, fun g hg => hc g (List.mem_cons_of_mem _ hg)⟩

theorem rises_push (o : Operand) (t : Typing) : Rises t (t.push o) where
  peak := Nat.le_max_left _ _
  contained hc := List.forall_mem_cons.mpr
    ⟨Nat.le_max_right _ _, fun g hg => Nat.le_trans (hc g (List.mem_cons_of_mem _ hg)) (Nat.le_max_left _ _)⟩

theorem rises_pushAll (types : List ValueType) (t : Typing) : Rises t (t.pushAll types) := by
  induction types generalizing t with
  | nil => exact refl_of Rises t
  | cons type types ih => exact trans_of Rises (rises_push (some type) t) (ih _)

theorem rises_pop {o : Operand} (h : t.pop = .ok (o, t')) : Rises t t' := by
  unfold pop at h
  split at h
  · next p rest hp =>
    cases h
    refine rises_frame ?_
    rw [height, hp, List.length_cons]
    exact Nat.le_succ _
  · split at h
    · cases h
      exact refl_of Rises t
    · cases h

theorem rises_expect {type : ValueType} (h : t.expect type = .ok t') : Rises t t' := by
  obtain ⟨⟨o, t₁⟩, hpop, h⟩ := bind_eq_ok.mp h
  have hrises := rises_pop hpop
  dsimp only at h
  split at h
  · cases pure_eq_ok.mp h
    exact hrises
  · split at h
    · cases pure_eq_ok.mp h
      exact hrises
    · nomatch h

theorem rises_popAll {types : List ValueType} (h : t.popAll types = .ok t') : Rises t t' := by
  induction types generalizing t' with
  | nil =>
    cases pure_eq_ok.mp h
    exact refl_of Rises t
  | cons type types ih =>
    unfold popAll at h
    rw [List.foldrM_cons] at h
    obtain ⟨t₁, h₁, h⟩ := bind_eq_ok.mp h
    exact trans_of Rises (ih h₁) (rises_expect h)

theorem rises_apply {type : FuncType} (h : t.apply type = .ok t') : Rises t t' := by
  obtain ⟨t₁, h₁, h⟩ := bind_eq_ok.mp h
  cases pure_eq_ok.mp h
  exact trans_of Rises (rises_popAll h₁) (rises_pushAll _ t₁)

theorem rises_setUnreachable (t : Typing) : Rises t t.setUnreachable :=
  rises_frame (Nat.le_add_right _ _)

/-- Operands are taken, and nothing comes behind. -/
theorem rises_leave {types : List ValueType} (h : t.popAll types = .ok t') : Rises t t'.setUnreachable :=
  trans_of Rises (rises_popAll h) (rises_setUnreachable t')

theorem rises_branches {arity : Nat} {labels : List Nat} {reshapes : List Reshape}
    (h : branches arity labels t = .ok (reshapes, t')) : Rises t t' := by
  induction labels generalizing t reshapes with
  | nil =>
    cases pure_eq_ok.mp h
    exact refl_of Rises _
  | cons label labels ih =>
    obtain ⟨⟨reshape, types⟩, -, h⟩ := bind_eq_ok.mp h
    dsimp only at h
    split at h
    · nomatch h
    obtain ⟨t₁, h₁, h⟩ := bind_eq_ok.mp h
    obtain ⟨⟨reshapes, t₂⟩, h₂, h⟩ := bind_eq_ok.mp h
    cases pure_eq_ok.mp h
    exact trans_of Rises (rises_apply h₁) (ih h₂)

/-! ### Blocks -/

theorem rises_enter {kind : FrameKind} {type : FuncType} (h : t.enter kind type = .ok t') : Rises t t' := by
  obtain ⟨t₁, h₁, h⟩ := bind_eq_ok.mp h
  cases pure_eq_ok.mp h
  refine trans_of Rises (trans_of Rises (rises_popAll h₁) ?_) (rises_pushAll type.params _)
  exact ⟨Nat.le_refl _, fun hc => List.forall_mem_cons.mpr ⟨hc.height_le, hc⟩⟩

theorem rises_checkResults (h : t.checkResults = .ok t') : Rises t t' := by
  obtain ⟨t₁, h₁, h⟩ := bind_eq_ok.mp h
  split at h
  · cases pure_eq_ok.mp h
    exact rises_popAll h₁
  · nomatch h

theorem rises_switch (h : t.switch = .ok t') : Rises t t' := by
  unfold switch at h
  split at h
  · nomatch h
  obtain ⟨t₁, h₁, h⟩ := bind_eq_ok.mp h
  cases pure_eq_ok.mp h
  refine trans_of Rises (trans_of Rises (rises_checkResults h₁) ?_) (rises_pushAll _ _)
  exact rises_frame (Nat.le_refl _)

/-- **At its end, a body is as high as it ever was**, and has room for its results. -/
theorem close_peak {progress : Progress} (h : t.close = .ok progress) :
    (∀ peak, progress = .closed peak → t.peak ≤ peak ∧ t.frame.type.results.length ≤ peak) ∧
      ∀ t' reshapes, progress = .next t' reshapes → Rises t t' := by
  obtain ⟨t₁, h₁, h⟩ := bind_eq_ok.mp h
  have hrises := rises_checkResults h₁
  obtain ⟨htakes, -⟩ := takes_checkResults h₁
  dsimp only at h
  split at h
  · nomatch h
  split at h
  · cases pure_eq_ok.mp h
    refine ⟨fun peak hp => ?_, nofun⟩
    cases hp
    rw [htakes.like.type]
    exact ⟨Nat.le_trans hrises.peak (Nat.le_max_left _ _), Nat.le_max_right _ _⟩
  · next g gs houter =>
    cases pure_eq_ok.mp h
    refine ⟨nofun, fun t' reshapes hp => ?_⟩
    cases hp
    refine trans_of Rises (trans_of Rises hrises ?_) (rises_pushAll _ _)
    -- the block around was open all the time
    exact ⟨Nat.le_refl _, fun hc f hf => hc f (List.mem_cons_of_mem _ (houter ▸ hf))⟩

/-! ### Instructions -/

theorem rises_select (h : t.select = .ok t') : Rises t t' := by
  obtain ⟨t₁, h₁, h⟩ := bind_eq_ok.mp h
  obtain ⟨⟨first, t₂⟩, h₂, h⟩ := bind_eq_ok.mp h
  obtain ⟨⟨second, t₃⟩, h₃, h⟩ := bind_eq_ok.mp h
  have hrises : Rises t t₃ := trans_of Rises (rises_expect h₁) (trans_of Rises (rises_pop h₂) (rises_pop h₃))
  dsimp only at h
  split at h
  · nomatch h
  split at h
  · split at h
    · cases pure_eq_ok.mp h
      exact trans_of Rises hrises (rises_push _ t₃)
    · nomatch h
  · cases pure_eq_ok.mp h
    exact trans_of Rises hrises (rises_push _ t₃)
  · cases pure_eq_ok.mp h
    exact trans_of Rises hrises (rises_push _ t₃)

theorem rises_refIsNull (h : t.refIsNull = .ok t') : Rises t t' := by
  obtain ⟨⟨o, t₁⟩, h₁, h⟩ := bind_eq_ok.mp h
  have hrises := rises_pop h₁
  dsimp only at h
  split at h
  · cases pure_eq_ok.mp h
    exact trans_of Rises hrises (rises_push _ t₁)
  · cases pure_eq_ok.mp h
    exact trans_of Rises hrises (rises_push _ t₁)
  · nomatch h

/-- **No instruction lets the peak fall**, or goes above it. -/
theorem rises_step {c : Context} {locals : List ValueType} {i : Instruction} {reshapes : List Reshape}
    (h : t.step c locals i = .ok (.next t' reshapes)) : Rises t t' := by
  cases i with
  | unreachable =>
    cases pure_eq_ok.mp h
    exact rises_setUnreachable t
  | block type | loop type =>
    obtain ⟨signature, -, h⟩ := bind_eq_ok.mp h
    obtain ⟨t₁, h₁, h⟩ := bind_eq_ok.mp h
    cases pure_eq_ok.mp h
    exact rises_enter h₁
  | if_ type =>
    obtain ⟨t₀, h₀, h⟩ := bind_eq_ok.mp h
    obtain ⟨signature, -, h⟩ := bind_eq_ok.mp h
    obtain ⟨t₁, h₁, h⟩ := bind_eq_ok.mp h
    cases pure_eq_ok.mp h
    exact trans_of Rises (rises_expect h₀) (rises_enter h₁)
  | else_ =>
    obtain ⟨t₁, h₁, h⟩ := bind_eq_ok.mp h
    cases pure_eq_ok.mp h
    exact rises_switch h₁
  | end_ => exact (close_peak h).2 _ _ rfl
  | br label =>
    obtain ⟨⟨reshape, types⟩, -, h⟩ := bind_eq_ok.mp h
    obtain ⟨t₁, h₁, h⟩ := bind_eq_ok.mp h
    cases pure_eq_ok.mp h
    exact rises_leave h₁
  | brIf label =>
    obtain ⟨t₁, h₁, h⟩ := bind_eq_ok.mp h
    obtain ⟨⟨reshape, types⟩, -, h⟩ := bind_eq_ok.mp h
    obtain ⟨t₂, h₂, h⟩ := bind_eq_ok.mp h
    cases pure_eq_ok.mp h
    exact trans_of Rises (rises_expect h₁) (rises_apply h₂)
  | brTable labels default =>
    obtain ⟨t₁, h₁, h⟩ := bind_eq_ok.mp h
    obtain ⟨⟨reshape, types⟩, -, h⟩ := bind_eq_ok.mp h
    obtain ⟨⟨targets, t₂⟩, h₂, h⟩ := bind_eq_ok.mp h
    obtain ⟨t₃, h₃, h⟩ := bind_eq_ok.mp h
    cases pure_eq_ok.mp h
    exact trans_of Rises (rises_expect h₁) (trans_of Rises (rises_branches h₂) (rises_leave h₃))
  | return_ =>
    obtain ⟨t₁, h₁, h⟩ := bind_eq_ok.mp h
    cases pure_eq_ok.mp h
    exact rises_leave h₁
  | drop =>
    obtain ⟨⟨o, t₁⟩, h₁, h⟩ := bind_eq_ok.mp h
    cases pure_eq_ok.mp h
    exact rises_pop h₁
  | select =>
    obtain ⟨t₁, h₁, h⟩ := bind_eq_ok.mp h
    cases pure_eq_ok.mp h
    exact rises_select h₁
  | refIsNull =>
    obtain ⟨t₁, h₁, h⟩ := bind_eq_ok.mp h
    cases pure_eq_ok.mp h
    exact rises_refIsNull h₁
  | _ =>
    obtain ⟨type, -, h⟩ := bind_eq_ok.mp h
    obtain ⟨t₁, h₁, h⟩ := bind_eq_ok.mp h
    cases pure_eq_ok.mp h
    exact rises_apply h₁

/-- **The peak of a body is above that of every typing in it.** -/
theorem Checks.peak_le {c : Context} {locals : List ValueType} {code : List TypedInstruction} {peak : Nat}
    (h : t.Checks c locals code peak) : t.peak ≤ peak := by
  induction h with
  | last hlast => exact ((close_peak hlast).1 _ rfl).1
  | next hstep _ ih => exact Nat.le_trans (rises_step hstep).peak ih

end Typing

namespace TypedBody

variable {b : TypedBody} {p : Spot}

theorem Visits.contained (h : b.Visits p) : p.typing.Contained := by
  induction h with
  | start => exact List.forall_mem_singleton.mpr (Nat.le_refl _)
  | next _ hstep ih => exact (Typing.rises_step hstep).contained ih

/-- **Nowhere in a body are there more operands than it declares.** -/
theorem Visits.length_le (h : b.Visits p) : p.typing.operands.length ≤ b.peak := by
  rw [← h.based.height]
  exact Nat.le_trans h.contained.height_le h.checks.peak_le

/-- The body declares room for its results, which are those of the block that is left at the end of the code. -/
theorem Visits.results_length_le (h : b.Visits p) : b.results.length ≤ b.peak := by
  obtain ⟨t, code, pc, starts, heads⟩ := p
  have hchecks := h.checks
  dsimp only at hchecks
  generalize b.peak = peak at hchecks ⊢
  induction hchecks generalizing pc starts heads with
  | @last t offset peak hlast =>
    have hbegun := h.begun
    obtain ⟨-, t₁, -, -, ⟨houter, -⟩ | ⟨_, _, _, _, hp, -⟩⟩ := Typing.close_spec hlast
    · rw [Typing.frames, houter] at hbegun
      have hroom := ((Typing.close_peak hlast).1 _ rfl).2
      rwa [hbegun.single_type] at hroom
    · cases hp
  | next hstep _ ih => exact ih _ _ _ (h.next hstep)

/-- **Wherever execution rests, there are at most as many operands as the body declares.** -/
theorem Rests.length_le {pc : Nat} {operands : List Operand} (h : b.Rests pc operands) : operands.length ≤ b.peak := by
  cases h with
  | op hv => exact hv.length_le
  | exit =>
    rw [List.length_map, List.length_reverse]
    exact Visits.start.results_length_le

end TypedBody

end WasmEngine
