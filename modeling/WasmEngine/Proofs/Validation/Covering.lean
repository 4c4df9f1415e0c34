import WasmEngine.Proofs.Validation.Effects
import WasmEngine.Proofs.Validation.TypingRules

/-!
# Operands that the checker knows

The checker keeps less than the typing rules speak of: of the operands behind an instruction that never goes on
it knows nothing, and adds what it finds out later. So a state of the checker stands for many lists of operands, those
that it covers (`ControlFrame.Covers`).

What the checker does to its state can then be said without its state. It pops an operand exactly if one is covered, and
what is covered behind that is what was covered below; and so for all that it is put together from.
-/

namespace WasmEngine

/-! ### Operands that fit -/

namespace Operand

instance : IsPreorder Operand Fits where
  refl _ := .inr rfl
  trans _ _ _ h h' := by
    rcases h with rfl | rfl
    · exact .inl rfl
    · exact h'

theorem fits_some {t : ValueType} {o : Operand} : Operand.Fits (some t) o ↔ o = some t :=
  ⟨fun h => h.elim nofun Eq.symm, fun h => .inr h.symm⟩

theorem all_fit (os : List Operand) : List.Forall₂ Fits os os :=
  List.forall₂_same.mpr fun o _ => refl_of Fits o

end Operand

theorem operandsOf_cons (t : ValueType) (ts : List ValueType) :
    operandsOf (t :: ts) = operandsOf ts ++ [some t] := by
  simp [operandsOf]

theorem length_operandsOf (ts : List ValueType) : (operandsOf ts).length = ts.length := by
  simp [operandsOf]

theorem operandsOf_inj {ts us : List ValueType} (h : operandsOf ts = operandsOf us) : ts = us := by
  have hmap := List.map_injective_iff.mpr (fun _ _ => Option.some.inj) h
  exact List.reverse_injective hmap

/-- **Operands that are covered** by those that the checker knows, the topmost first: each of these fits, and if
more may come, there can be any below. -/
inductive Operand.Cover (more : Bool) : List Operand → List Operand → Prop
  | rest {ds : List Operand} : (more = false → ds = []) → Cover more [] ds
  | cons {o d : Operand} {os ds : List Operand} : o.Fits d → Cover more os ds → Cover more (o :: os) (d :: ds)

/-- Operands that there may be on the stack of an open block. -/
def ControlFrame.Covers (f : ControlFrame) (ds : List Operand) : Prop :=
  Operand.Cover f.unreachable f.operands ds

namespace ControlFrame

variable {f : ControlFrame} {ds ds' : List Operand}

theorem covers_operands (f : ControlFrame) : f.Covers f.operands := by
  unfold Covers
  induction f.operands with
  | nil => exact .rest fun _ => rfl
  | cons o os ih => exact .cons (refl_of _ o) ih

/-- What may be used instead is covered, too. -/
theorem Covers.mono (h : f.Covers ds) (hfit : List.Forall₂ Operand.Fits ds ds') : f.Covers ds' := by
  unfold Covers at h ⊢
  generalize f.operands = os at h ⊢
  induction h generalizing ds' with
  | rest hmore =>
    refine .rest fun hlive => ?_
    rw [hmore hlive] at hfit
    exact List.forall₂_nil_left_iff.mp hfit
  | cons ho _ ih =>
    cases hfit with
    | cons hd hfit => exact .cons (trans_of _ ho hd) (ih hfit)

/-- Operands of known types cover nothing else. -/
theorem covers_known {more : Bool} {types : List ValueType} {os : List Operand} :
    Operand.Cover more (types.map some ++ os) ds ↔ ∃ ds', ds = types.map some ++ ds' ∧
      Operand.Cover more os ds' := by
  induction types generalizing ds with
  | nil => simp
  | cons t types ih =>
    rw [List.map_cons, List.cons_append]
    constructor
    · intro h
      cases h with
      | cons ho h =>
        obtain ⟨ds', rfl, hrest⟩ := ih.mp h
        rw [Operand.fits_some.mp ho]
        exact ⟨ds', rfl, hrest⟩
    · rintro ⟨ds', rfl, h⟩
      exact .cons (refl_of _ _) (ih.mpr ⟨ds', rfl, h⟩)

end ControlFrame

namespace Typing

variable {t t' t₁ : Typing} {ds : List Operand} {types : List ValueType}

/-! ### Popping and pushing -/

theorem covers_pop {o d : Operand} (h : t.pop = .ok (o, t')) :
    t.frame.Covers (d :: ds) ↔ o.Fits d ∧ t'.frame.Covers ds := by
  unfold pop at h
  unfold ControlFrame.Covers
  split at h
  · next p rest hp =>
    cases h
    rw [hp]
    refine ⟨fun h => ?_, fun h => .cons h.1 h.2⟩
    cases h with
    | cons ho h => exact ⟨ho, h⟩
  · next hp =>
    split at h
    · next hu =>
      cases h
      rw [hp, hu]
      exact ⟨fun _ => ⟨.inl rfl, .rest nofun⟩, fun _ => .rest nofun⟩
    · nomatch h

theorem pop_of_covers {d : Operand} (h : t.frame.Covers (d :: ds)) : ∃ o t', t.pop = .ok (o, t') := by
  unfold ControlFrame.Covers at h
  unfold pop
  cases ho : t.frame.operands with
  | cons o rest => exact ⟨_, _, rfl⟩
  | nil =>
    rw [ho] at h
    cases h with
    | rest hmore =>
      cases hu : t.frame.unreachable with
      | true => exact ⟨_, _, rfl⟩
      | false => nomatch hmore hu

theorem covers_expect {type : ValueType} (h : t.expect type = .ok t') :
    t.frame.Covers (some type :: ds) ↔ t'.frame.Covers ds := by
  obtain ⟨⟨o, t₁⟩, hpop, h⟩ := bind_eq_ok.mp h
  rw [covers_pop hpop]
  dsimp only at h
  split at h
  · cases pure_eq_ok.mp h
    exact and_iff_right (.inl rfl)
  · split at h
    · next hfound =>
      cases pure_eq_ok.mp h
      exact and_iff_right (.inr (congrArg some hfound))
    · nomatch h

theorem expect_of_covers {type : ValueType} (h : t.frame.Covers (some type :: ds)) :
    ∃ t', t.expect type = .ok t' := by
  obtain ⟨o, t₁, hpop⟩ := pop_of_covers h
  have ho := ((covers_pop hpop).mp h).1
  unfold expect
  rw [hpop]
  rcases ho with rfl | rfl
  · exact ⟨t₁, rfl⟩
  · exact ⟨t₁, if_pos rfl⟩

theorem covers_popAll (h : t.popAll types = .ok t') :
    t.frame.Covers (operandsOf types ++ ds) ↔ t'.frame.Covers ds := by
  induction types generalizing t' ds with
  | nil =>
    cases pure_eq_ok.mp h
    rfl
  | cons type types ih =>
    unfold popAll at h
    rw [List.foldrM_cons] at h
    obtain ⟨t₁, h₁, h⟩ := bind_eq_ok.mp h
    rw [operandsOf_cons, List.append_assoc, List.singleton_append, ih h₁, covers_expect h]

theorem popAll_of_covers (h : t.frame.Covers (operandsOf types ++ ds)) : ∃ t', t.popAll types = .ok t' := by
  induction types generalizing ds with
  | nil => exact ⟨t, rfl⟩
  | cons type types ih =>
    rw [operandsOf_cons, List.append_assoc, List.singleton_append] at h
    obtain ⟨t₁, h₁⟩ := ih h
    obtain ⟨t', h'⟩ := expect_of_covers ((covers_popAll h₁).mp h)
    refine ⟨t', ?_⟩
    unfold popAll
    rw [List.foldrM_cons]
    exact bind_eq_ok.mpr ⟨t₁, h₁, h'⟩

theorem covers_push {o : Operand} : (t.push o).frame.Covers ds ↔
    ∃ d ds', ds = d :: ds' ∧ o.Fits d ∧ t.frame.Covers ds' := by
  constructor
  · intro h
    cases h with
    | cons ho h => exact ⟨_, _, rfl, ho, h⟩
  · rintro ⟨d, ds', rfl, ho, h⟩
    exact .cons ho h

theorem covers_pushAll : (t.pushAll types).frame.Covers ds ↔
    ∃ ds', ds = operandsOf types ++ ds' ∧ t.frame.Covers ds' := by
  obtain ⟨-, hframe⟩ := pushAll_spec types t
  rw [hframe]
  exact ControlFrame.covers_known

theorem covers_apply {type : FuncType} (h : t.apply type = .ok t') :
    t'.frame.Covers ds ↔ ∃ ds', ds = operandsOf type.results ++ ds' ∧
      t.frame.Covers (operandsOf type.params ++ ds') := by
  obtain ⟨t₁, h₁, h⟩ := bind_eq_ok.mp h
  cases pure_eq_ok.mp h
  rw [covers_pushAll]
  simp only [covers_popAll h₁]

theorem apply_of_covers (type : FuncType) (h : t.frame.Covers (operandsOf type.params ++ ds)) :
    ∃ t', t.apply type = .ok t' := by
  obtain ⟨t₁, h₁⟩ := popAll_of_covers h
  exact ⟨_, bind_eq_ok.mpr ⟨t₁, h₁, rfl⟩⟩

/-- Behind an instruction that never goes on, everything is covered. -/
theorem covers_setUnreachable (ds : List Operand) : t.setUnreachable.frame.Covers ds := .rest nofun

/-- A frame that is known to be reached covers its operands only. -/
theorem covers_live {f : ControlFrame} (hf : f.operands = operandsOf types) (hlive : f.unreachable = false) :
    f.Covers ds ↔ ds = operandsOf types := by
  have hcover : f.Covers ds ↔ Operand.Cover false (types.reverse.map some ++ []) ds := by
    rw [ControlFrame.Covers, hf, hlive, List.append_nil]
    rfl
  rw [hcover, ControlFrame.covers_known]
  constructor
  · rintro ⟨ds', rfl, hrest⟩
    cases hrest with
    | rest hmore => rw [hmore rfl, List.append_nil, operandsOf]
  · rintro rfl
    exact ⟨[], (List.append_nil _).symm, .rest fun _ => rfl⟩

end Typing

end WasmEngine
