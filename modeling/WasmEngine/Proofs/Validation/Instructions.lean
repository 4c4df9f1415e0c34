import WasmEngine.Proofs.Module.Valid
import WasmEngine.Proofs.Validation.Covering

/-!
# One instruction, checked and typed

A rule says of a single instruction which operands it takes and gives. The checker does the same to its state, and the
two agree on every instruction within the straight line of the code.

What the checker did is an instance of a rule: whatever operands are covered behind the instruction, there are some
before it from which the rule leads to them (`Typing.step_sound`). And where a rule applies to operands that are
covered, the checker goes on and covers what the rule gives (`Typing.step_of_instr`). In that direction, the labels
of a table have to carry the same types.
-/

namespace WasmEngine

/-! ### Signatures -/

/-- The instructions that have one signature. -/
def Instruction.isPlain : Instruction → Bool
  | .unreachable | .block _ | .loop _ | .if_ _ | .else_ | .end_ | .br _ | .brIf _ | .brTable .. | .return_
  | .drop | .select | .refIsNull => false
  | _ => true

namespace CodeContext

variable {C : CodeContext} {i : Instruction} {ps rs : List ValueType}

theorem tableElement_eq_ok {x : Nat} {r : RefType} : C.tableElement x = .ok r ↔ C.HasTable x r := by
  unfold Context.tableElement Context.table HasTable
  simp only [bind_eq_ok, pure_eq_ok, Context.lookUp_eq_ok]
  constructor
  · rintro ⟨⟨element, limits⟩, ht, rfl⟩
    exact ⟨limits, ht⟩
  · rintro ⟨limits, ht⟩
    exact ⟨_, ht, rfl⟩

theorem data_eq_ok {x : Nat} : C.data x = .ok () ↔ C.HasData x := by
  unfold Context.data HasData
  cases C.dataCount <;> simp

theorem alignment_eq_ok {given natural : Nat} : Context.alignment given natural = .ok () ↔ given ≤ natural := by
  unfold Context.alignment
  split <;> simp [pure_eq_ok, throw_eq_ok] <;> omega

theorem global_eq_ok {x : Nat} {type : GlobalType} :
    C.global x = .ok type ↔ C.HasGlobal x type.mutable type.value := Context.lookUp_eq_ok

theorem Plain.signature (h : C.Plain i ps rs) : C.toContext.signature C.locals i = .ok ⟨ps, rs⟩ := by
  have memory (h : C.HasMemory) : ∃ limits, C.toContext.memory 0 = .ok limits := by
    obtain ⟨limits, h⟩ := h
    exact ⟨limits, Context.lookUp_eq_ok.mpr h⟩
  cases h with
  | nop | selectTyped | i32Const | i64Const | f32Const | f64Const | refNull | numeric => rfl
  | call hf => exact Context.func_eq_ok.mpr hf
  | callIndirect ht hx =>
    obtain ⟨limits, ht⟩ := ht
    exact bind_eq_ok.mpr ⟨_, Context.lookUp_eq_ok.mpr ht,
      bind_eq_ok.mpr ⟨_, Context.lookUp_eq_ok.mpr hx, rfl⟩⟩
  | localGet hx | localSet hx | localTee hx => exact bind_eq_ok.mpr ⟨_, Context.lookUp_eq_ok.mpr hx, rfl⟩
  | globalGet hx | globalSet hx => exact bind_eq_ok.mpr ⟨_, Context.lookUp_eq_ok.mpr hx, rfl⟩
  | tableGet ht | tableSet ht | tableSize ht | tableGrow ht | tableFill ht =>
    exact bind_eq_ok.mpr ⟨_, tableElement_eq_ok.mpr ht, rfl⟩
  | tableCopy ht hs =>
    exact bind_eq_ok.mpr ⟨_, tableElement_eq_ok.mpr ht,
      bind_eq_ok.mpr ⟨_, tableElement_eq_ok.mpr hs, if_pos rfl⟩⟩
  | tableInit ht he =>
    exact bind_eq_ok.mpr ⟨_, tableElement_eq_ok.mpr ht,
      bind_eq_ok.mpr ⟨_, Context.lookUp_eq_ok.mpr he, if_pos rfl⟩⟩
  | elemDrop he => exact bind_eq_ok.mpr ⟨_, Context.lookUp_eq_ok.mpr he, rfl⟩
  | load hm ha | store hm ha =>
    obtain ⟨limits, hm⟩ := memory hm
    exact bind_eq_ok.mpr ⟨_, hm, bind_eq_ok.mpr ⟨(), alignment_eq_ok.mpr ha, rfl⟩⟩
  | memorySize hm | memoryGrow hm | memoryCopy hm | memoryFill hm =>
    obtain ⟨limits, hm⟩ := memory hm
    exact bind_eq_ok.mpr ⟨_, hm, rfl⟩
  | memoryInit hm hx =>
    obtain ⟨limits, hm⟩ := memory hm
    exact bind_eq_ok.mpr ⟨_, hm, bind_eq_ok.mpr ⟨(), data_eq_ok.mpr hx, rfl⟩⟩
  | dataDrop hx => exact bind_eq_ok.mpr ⟨(), data_eq_ok.mpr hx, rfl⟩
  | refFunc hf hd =>
    exact bind_eq_ok.mpr ⟨_, Context.func_eq_ok.mpr hf, if_pos (List.contains_iff_mem.mpr hd)⟩

theorem plain_of_signature {type : FuncType} (hi : i.isPlain = true)
    (h : C.toContext.signature C.locals i = .ok type) : C.Plain i type.params type.results := by
  have memory {limits : Limits} (h : C.toContext.memory 0 = .ok limits) : C.HasMemory :=
    ⟨limits, Context.lookUp_eq_ok.mp h⟩
  cases i with
  | unreachable | block | loop | if_ | else_ | end_ | br | brIf | brTable | return_ | drop | select
  | refIsNull => nomatch hi
  | nop | selectTyped | i32Const | i64Const | f32Const | f64Const | refNull | numeric =>
    cases pure_eq_ok.mp h
    constructor
  | call f => exact .call (Context.func_eq_ok.mp h)
  | callIndirect x table =>
    obtain ⟨⟨element, limits⟩, ht, h⟩ := bind_eq_ok.mp h
    split at h
    · nomatch h
    next he =>
    obtain ⟨signature, hx, h⟩ := bind_eq_ok.mp h
    cases pure_eq_ok.mp h
    cases Decidable.not_not.mp he
    exact .callIndirect ⟨limits, Context.lookUp_eq_ok.mp ht⟩ (Context.lookUp_eq_ok.mp hx)
  | localGet x | localSet x | localTee x =>
    obtain ⟨t, ht, h⟩ := bind_eq_ok.mp h
    cases pure_eq_ok.mp h
    constructor
    exact Context.lookUp_eq_ok.mp ht
  | globalGet x =>
    obtain ⟨t, ht, h⟩ := bind_eq_ok.mp h
    cases pure_eq_ok.mp h
    exact .globalGet (global_eq_ok.mp ht)
  | globalSet x =>
    obtain ⟨⟨value, mutable⟩, ht, h⟩ := bind_eq_ok.mp h
    split at h
    · next hm =>
      cases pure_eq_ok.mp h
      cases hm
      exact .globalSet (global_eq_ok.mp ht)
    · nomatch h
  | tableGet x | tableSet x | tableSize x | tableGrow x | tableFill x =>
    obtain ⟨r, hr, h⟩ := bind_eq_ok.mp h
    cases pure_eq_ok.mp h
    constructor
    exact tableElement_eq_ok.mp hr
  | tableCopy target source =>
    obtain ⟨r, hr, h⟩ := bind_eq_ok.mp h
    obtain ⟨r', hr', h⟩ := bind_eq_ok.mp h
    split at h
    · next he =>
      cases pure_eq_ok.mp h
      exact .tableCopy (tableElement_eq_ok.mp hr) (he ▸ tableElement_eq_ok.mp hr')
    · nomatch h
  | tableInit element table =>
    obtain ⟨r, hr, h⟩ := bind_eq_ok.mp h
    obtain ⟨r', hr', h⟩ := bind_eq_ok.mp h
    split at h
    · next he =>
      cases pure_eq_ok.mp h
      exact .tableInit (tableElement_eq_ok.mp hr) (he ▸ Context.lookUp_eq_ok.mp hr')
    · nomatch h
  | elemDrop x =>
    obtain ⟨r, hr, h⟩ := bind_eq_ok.mp h
    cases pure_eq_ok.mp h
    exact .elemDrop (Context.lookUp_eq_ok.mp hr)
  | load op arg | store op arg =>
    obtain ⟨limits, hm, h⟩ := bind_eq_ok.mp h
    obtain ⟨⟨⟩, ha, h⟩ := bind_eq_ok.mp h
    cases pure_eq_ok.mp h
    constructor
    · exact memory hm
    · exact alignment_eq_ok.mp ha
  | memorySize | memoryGrow | memoryCopy | memoryFill =>
    obtain ⟨limits, hm, h⟩ := bind_eq_ok.mp h
    cases pure_eq_ok.mp h
    constructor
    exact memory hm
  | memoryInit x =>
    obtain ⟨limits, hm, h⟩ := bind_eq_ok.mp h
    obtain ⟨⟨⟩, hx, h⟩ := bind_eq_ok.mp h
    cases pure_eq_ok.mp h
    exact .memoryInit (memory hm) (data_eq_ok.mp hx)
  | dataDrop x =>
    obtain ⟨⟨⟩, hx, h⟩ := bind_eq_ok.mp h
    cases pure_eq_ok.mp h
    exact .dataDrop (data_eq_ok.mp hx)
  | refFunc f =>
    obtain ⟨⟨ps, rs⟩, hf, h⟩ := bind_eq_ok.mp h
    split at h
    · next hd =>
      cases pure_eq_ok.mp h
      exact .refFunc (Context.func_eq_ok.mp hf) (List.contains_iff_mem.mp hd)
    · nomatch h

theorem block_eq_ok {type : BlockType} : C.blockType type = .ok ⟨ps, rs⟩ ↔ C.Block type ps rs := by
  constructor
  · intro h
    cases type with
    | empty | value =>
      cases pure_eq_ok.mp h
      constructor
    | index x => exact .index (Context.lookUp_eq_ok.mp h)
  · intro h
    cases h with
    | empty | value => rfl
    | index hx => exact Context.lookUp_eq_ok.mpr hx
end CodeContext

open CodeContext

namespace Typing

variable {t t' t₁ : Typing} {c : Context} {locals types : List ValueType} {i : Instruction}
  {ds ds' : List Operand} {reshapes : List Reshape} {reshape : Reshape}

/-! ### Contexts -/

/-- The context of the code at a state of the checker. -/
def context (c : Context) (locals : List ValueType) (t : Typing) : CodeContext where
  toContext := c
  locals := locals
  returns := t.results
  labels := t.frames.map (·.labelTypes)

theorem context_stays (houter : t'.outer = t.outer) (hlike : t.frame.Like t'.frame) :
    t'.context c locals = t.context c locals := by
  have hresults : t'.results = t.results := by
    unfold results
    rw [houter]
    cases t.outer with
    | nil => exact congrArg FuncType.results hlike.type
    | cons => rfl
  unfold context frames
  rw [hresults, houter, List.map_cons, List.map_cons, hlike.labelTypes]

theorem context_opens {g : ControlFrame} (houter : t'.outer = g :: t.outer) (hlike : t.frame.Like g) :
    t'.context c locals = (t.context c locals).within t'.frame.labelTypes := by
  have hresults : t'.results = t.results := by
    unfold results
    rw [houter]
    cases t.outer with
    | nil => exact congrArg FuncType.results hlike.type
    | cons => rfl
  unfold context within frames
  rw [hresults, houter]
  simp only [List.map_cons, hlike.labelTypes]

theorem labels_of_branch {label : Nat} (h : t.branch label = .ok (reshape, types)) :
    (t.context c locals).labels[label]? = some types := by
  obtain ⟨f, hf, rfl, -⟩ := branch_eq_ok.mp h
  change (t.frames.map _)[label]? = _
  rw [List.getElem?_map, hf]
  rfl

theorem branch_of_labels {label : Nat} (h : (t.context c locals).labels[label]? = some types) :
    ∃ reshape, t.branch label = .ok (reshape, types) := by
  change (t.frames.map _)[label]? = _ at h
  rw [List.getElem?_map] at h
  obtain ⟨f, hf, rfl⟩ := Option.map_eq_some_iff.mp h
  exact ⟨_, branch_eq_ok.mpr ⟨f, hf, rfl, rfl⟩⟩

/-! ### What was accepted is well typed -/

/-- The checker sees that instructions with one signature have it. -/
theorem step_of_isPlain (hi : i.isPlain = true) :
    t.step c locals i = (do return .next (← t.apply (← c.signature locals i)) []) := by
  cases i <;> cases hi <;> rfl

theorem select_eq_ok (h : t.select = .ok t') : ∃ t₁ t₂ t₃ first second o,
    t.expect .i32 = .ok t₁ ∧ t₁.pop = .ok (first, t₂) ∧ t₂.pop = .ok (second, t₃) ∧
      first.Fits o ∧ second.Fits o ∧ (∀ a, o = some a → a.isRef = false) ∧ t' = t₃.push o := by
  obtain ⟨t₁, h₁, h⟩ := bind_eq_ok.mp h
  obtain ⟨⟨first, t₂⟩, h₂, h⟩ := bind_eq_ok.mp h
  obtain ⟨⟨second, t₃⟩, h₃, h⟩ := bind_eq_ok.mp h
  dsimp only at h
  split at h
  · nomatch h
  next href =>
  simp only [Bool.or_eq_true, not_or, Bool.not_eq_true] at href
  cases first with
  | none =>
    cases pure_eq_ok.mp h
    refine ⟨t₁, t₂, t₃, none, second, second, h₁, h₂, h₃, .inl rfl, .inr rfl, fun a ha => ?_, rfl⟩
    rw [ha] at href
    exact href.2
  | some a =>
    have hnumber : ∀ a', some a = some a' → a'.isRef = false := by
      rintro _ ⟨⟩
      exact href.1
    refine ⟨t₁, t₂, t₃, some a, second, some a, h₁, h₂, h₃, .inr rfl, ?_⟩
    cases second with
    | none =>
      cases pure_eq_ok.mp h
      exact ⟨.inl rfl, hnumber, rfl⟩
    | some b =>
      dsimp only at h
      split at h
      · next hab =>
        cases pure_eq_ok.mp h
        exact ⟨.inr (congrArg some hab.symm), hnumber, rfl⟩
      · nomatch h

/-- **The labels of a table that was accepted** carry the same types as the default, since each puts its own in the
place of the operands. -/
theorem branches_uniform {labels : List Nat} {t₂ t₃ : Typing}
    (h : branches types.length labels t = .ok (reshapes, t₂)) (h₃ : t₂.popAll types = .ok t₃) :
    (∀ l ∈ labels, (t.context c locals).labels[l]? = some types) ∧
      ∀ ds, t₃.frame.Covers ds → t.frame.Covers (operandsOf types ++ ds) := by
  induction labels generalizing t reshapes with
  | nil =>
    cases pure_eq_ok.mp h
    exact ⟨fun _ hl => absurd hl List.not_mem_nil, fun ds => (covers_popAll h₃).mpr⟩
  | cons l labels ih =>
    obtain ⟨⟨reshape, types'⟩, hbranch, h⟩ := bind_eq_ok.mp h
    dsimp only at h
    split at h
    · nomatch h
    next hlength =>
    obtain ⟨t₁, h₁, h⟩ := bind_eq_ok.mp h
    obtain ⟨⟨reshapes, t₂⟩, h₂, h⟩ := bind_eq_ok.mp h
    cases pure_eq_ok.mp h
    obtain ⟨hlabels, hcovers⟩ := ih h₂
    have hstays : t₁.context c locals = t.context c locals :=
      context_stays (takes_apply h₁).outer (takes_apply h₁).like
    -- the operands of this label are found again by those that come behind it
    have hback (ds : List Operand) (hds : t₃.frame.Covers ds) : types' = types ∧
        t.frame.Covers (operandsOf types ++ ds) := by
      obtain ⟨ds', hsame, ht⟩ := (covers_apply h₁).mp (hcovers ds hds)
      obtain ⟨htypes, rfl⟩ := List.append_inj hsame (by
        rw [length_operandsOf, length_operandsOf, Decidable.not_not.mp hlength])
      rw [htypes]
      exact ⟨(operandsOf_inj htypes).symm, ht⟩
    refine ⟨List.forall_mem_cons.mpr ⟨?_, fun l hl => hstays ▸ hlabels l hl⟩, fun ds hds => (hback ds hds).2⟩
    rw [labels_of_branch hbranch, (hback _ t₃.frame.covers_operands).1]

/-- **A step that was accepted is well typed**: whatever is covered behind it comes by the rules from something that is
covered before it. -/
theorem step_sound (hi : i.isFlat = true) (h : t.step c locals i = .ok (.next t' reshapes))
    (hds : t'.frame.Covers ds') : ∃ ds, t.frame.Covers ds ∧ (t.context c locals).Code [i] ds ds' := by
  have hplain (hi : i.isPlain = true) : ∃ ds, t.frame.Covers ds ∧ (t.context c locals).Code [i] ds ds' := by
    rw [step_of_isPlain hi] at h
    obtain ⟨type, htype, h⟩ := bind_eq_ok.mp h
    obtain ⟨t₁, h₁, h⟩ := bind_eq_ok.mp h
    cases pure_eq_ok.mp h
    obtain ⟨ds, rfl, ht⟩ := (covers_apply h₁).mp hds
    exact ⟨_, ht, .frame ds (.instr (.plain (plain_of_signature (C := t.context c locals) hi htype)))⟩
  cases i with
  | block | loop | if_ | else_ | end_ => nomatch hi
  | unreachable => exact ⟨_, t.frame.covers_operands, .instr (.unreachable _ _)⟩
  | br l =>
    obtain ⟨⟨reshape, types⟩, hbranch, h⟩ := bind_eq_ok.mp h
    obtain ⟨t₁, h₁, h⟩ := bind_eq_ok.mp h
    exact ⟨_, (covers_popAll h₁).mpr t₁.frame.covers_operands, .instr (.br _ _ (labels_of_branch hbranch))⟩
  | brIf l =>
    obtain ⟨t₀, h₀, h⟩ := bind_eq_ok.mp h
    obtain ⟨⟨reshape, types⟩, hbranch, h⟩ := bind_eq_ok.mp h
    obtain ⟨t₁, h₁, h⟩ := bind_eq_ok.mp h
    cases pure_eq_ok.mp h
    obtain ⟨ds, rfl, ht⟩ := (covers_apply h₁).mp hds
    have hlabel : (t₀.context c locals).labels[_]? = some types := labels_of_branch hbranch
    rw [context_stays (takes_expect h₀).outer (takes_expect h₀).like] at hlabel
    exact ⟨_, (covers_expect h₀).mpr ht, .frame ds (.instr (.brIf hlabel))⟩
  | brTable ls d =>
    obtain ⟨t₀, h₀, h⟩ := bind_eq_ok.mp h
    obtain ⟨⟨reshape, types⟩, hbranch, h⟩ := bind_eq_ok.mp h
    obtain ⟨⟨rs, t₂⟩, h₂, h⟩ := bind_eq_ok.mp h
    obtain ⟨t₃, h₃, h⟩ := bind_eq_ok.mp h
    obtain ⟨hlabels, hcovers⟩ : (∀ l ∈ ls, (t₀.context c locals).labels[l]? = some types) ∧ _ :=
      branches_uniform h₂ h₃
    have hlabel : (t₀.context c locals).labels[_]? = some types := labels_of_branch hbranch
    rw [context_stays (takes_expect h₀).outer (takes_expect h₀).like] at hlabel hlabels
    refine ⟨_, (covers_expect h₀).mpr (hcovers _ t₃.frame.covers_operands), .instr (.brTable _ _ ?_)⟩
    exact List.forall_mem_cons.mpr ⟨⟨types, hlabel, Operand.all_fit _⟩,
      fun l hl => ⟨types, hlabels l hl, Operand.all_fit _⟩⟩
  | return_ =>
    obtain ⟨t₁, h₁, h⟩ := bind_eq_ok.mp h
    exact ⟨_, (covers_popAll h₁).mpr t₁.frame.covers_operands,
      .instr (.return_ (C := t.context c locals) _ _)⟩
  | drop =>
    obtain ⟨⟨o, t₁⟩, h₁, h⟩ := bind_eq_ok.mp h
    cases pure_eq_ok.mp h
    exact ⟨o :: ds', (covers_pop h₁).mpr ⟨refl_of _ o, hds⟩, .frame ds' (.instr (.drop o))⟩
  | select =>
    obtain ⟨u, hu, h⟩ := bind_eq_ok.mp h
    cases pure_eq_ok.mp h
    obtain ⟨t₁, t₂, t₃, first, second, o, h₁, h₂, h₃, hfirst, hsecond, href, rfl⟩ := select_eq_ok hu
    obtain ⟨d, ds, rfl, hd, ht⟩ := covers_push.mp hds
    refine ⟨some .i32 :: o :: o :: ds, (covers_expect h₁).mpr ((covers_pop h₂).mpr ⟨hfirst, (covers_pop h₃).mpr
      ⟨hsecond, ht⟩⟩), ?_⟩
    exact .weaken (Operand.all_fit _) (.cons hd (Operand.all_fit ds)) (.frame ds (.instr (.select o href)))
  | refIsNull =>
    obtain ⟨u, hu, h⟩ := bind_eq_ok.mp h
    cases pure_eq_ok.mp h
    obtain ⟨⟨o, t₁⟩, h₁, h⟩ := bind_eq_ok.mp hu
    have hback {r : RefType} (ho : o.Fits (some (.ref r))) (h : t' = t₁.push (some .i32)) :
        ∃ ds, t.frame.Covers ds ∧ (t.context c locals).Code [.refIsNull] ds ds' := by
      rw [h] at hds
      obtain ⟨d, ds, rfl, hd, ht⟩ := covers_push.mp hds
      cases Operand.fits_some.mp hd
      exact ⟨_, (covers_pop h₁).mpr ⟨ho, ht⟩, .frame ds (.instr (.refIsNull r))⟩
    dsimp only at h
    split at h
    · next r => exact hback (.inr rfl) (pure_eq_ok.mp h).symm
    · exact hback (r := .funcref) (.inl rfl) (pure_eq_ok.mp h).symm
    · nomatch h
  | _ => exact hplain rfl

/-! ### What is well typed is accepted -/

theorem select_of_covers {o : Operand} (href : ∀ a, o = some a → a.isRef = false)
    (h : t.frame.Covers (some .i32 :: o :: o :: ds)) : ∃ t', t.select = .ok t' ∧ t'.frame.Covers (o :: ds) := by
  obtain ⟨t₁, h₁⟩ := expect_of_covers h
  have hc₁ := (covers_expect h₁).mp h
  obtain ⟨first, t₂, h₂⟩ := pop_of_covers hc₁
  obtain ⟨hfirst, hc₂⟩ := (covers_pop h₂).mp hc₁
  obtain ⟨second, t₃, h₃⟩ := pop_of_covers hc₂
  obtain ⟨hsecond, hc₃⟩ := (covers_pop h₃).mp hc₂
  have hnumber {p : Operand} (hp : p.Fits o) : p.any (·.isRef) = false := by
    rcases hp with rfl | rfl
    · rfl
    · cases p with
      | none => rfl
      | some a => exact href a rfl
  have hpush {p : Operand} (hp : p.Fits o) : (t₃.push p).frame.Covers (o :: ds) :=
    covers_push.mpr ⟨o, ds, rfl, hp, hc₃⟩
  unfold select
  simp only [h₁, h₂, h₃, bind, Except.bind, hnumber hfirst, hnumber hsecond, Bool.or_self]
  -- what is pushed is one of the two, and if both are known they are the same
  cases first with
  | none => exact ⟨_, rfl, hpush hsecond⟩
  | some a => cases second with
    | none => exact ⟨_, rfl, hpush hfirst⟩
    | some b =>
      have hab : a = b := by
        rw [Operand.fits_some] at hfirst hsecond
        exact Option.some.inj (hfirst.symm.trans hsecond)
      exact ⟨_, if_pos hab, hpush hfirst⟩

/-- A table whose labels all carry the types of the default accepts operands of these types. -/
theorem branches_of_covers {labels : List Nat}
    (hlabels : ∀ l ∈ labels, (t.context c locals).labels[l]? = some types)
    (h : t.frame.Covers (operandsOf types ++ ds)) : ∃ reshapes t',
      branches types.length labels t = .ok (reshapes, t') ∧ t'.frame.Covers (operandsOf types ++ ds) := by
  induction labels generalizing t with
  | nil => exact ⟨[], t, rfl, h⟩
  | cons l labels ih =>
    obtain ⟨reshape, hbranch⟩ := branch_of_labels (hlabels l List.mem_cons_self)
    obtain ⟨t₁, h₁⟩ := apply_of_covers ⟨types, types⟩ h
    have hc₁ := (covers_apply h₁).mpr ⟨ds, rfl, h⟩
    have hstays : t₁.context c locals = t.context c locals :=
      context_stays (takes_apply h₁).outer (takes_apply h₁).like
    obtain ⟨reshapes, t', h', hc'⟩ :=
      ih (fun l hl => hstays ▸ hlabels l (List.mem_cons_of_mem _ hl)) hc₁
    refine ⟨reshape :: reshapes, t', ?_, hc'⟩
    unfold branches
    refine bind_eq_ok.mpr ⟨_, hbranch, ?_⟩
    dsimp only
    rw [if_neg (not_not.mpr rfl)]
    exact bind_eq_ok.mpr ⟨t₁, h₁, bind_eq_ok.mpr ⟨_, h', rfl⟩⟩

/-- **What is well typed is accepted**, as far as single instructions go, if the labels of a table all carry the same
types. -/
theorem step_of_instr {ins outs : List Operand} (hi : (t.context c locals).Instr i ins outs)
    (huniform : ∀ ls d, i = .brTable ls d →
      ∀ l ∈ ls, (t.context c locals).labels[l]? = (t.context c locals).labels[d]?)
    (h : t.frame.Covers (ins ++ ds)) : ∃ t' reshapes, i.isFlat = true ∧
      t.step c locals i = .ok (.next t' reshapes) ∧ t'.frame.Covers (outs ++ ds) := by
  cases hi with
  | @plain i ps rs hp =>
    have hflat : i.isFlat = true ∧ i.isPlain = true := by cases hp <;> exact ⟨rfl, rfl⟩
    obtain ⟨t', h'⟩ := apply_of_covers ⟨ps, rs⟩ h
    refine ⟨t', [], hflat.1, ?_, (covers_apply h').mpr ⟨ds, rfl, h⟩⟩
    rw [step_of_isPlain hflat.2]
    exact bind_eq_ok.mpr ⟨_, hp.signature, bind_eq_ok.mpr ⟨t', h', rfl⟩⟩
  | drop o =>
    obtain ⟨p, t', h'⟩ := pop_of_covers h
    exact ⟨t', [], rfl, bind_eq_ok.mpr ⟨_, h', rfl⟩, ((covers_pop h').mp h).2⟩
  | select o href =>
    obtain ⟨t', h', hc⟩ := select_of_covers href h
    exact ⟨t', [], rfl, bind_eq_ok.mpr ⟨_, h', rfl⟩, hc⟩
  | refIsNull r =>
    obtain ⟨p, t₁, h₁⟩ := pop_of_covers h
    obtain ⟨hp, hc₁⟩ := (covers_pop h₁).mp h
    refine ⟨t₁.push (some .i32), [], rfl, bind_eq_ok.mpr ⟨_, bind_eq_ok.mpr ⟨_, h₁, ?_⟩, rfl⟩,
      covers_push.mpr ⟨_, _, rfl, refl_of _ _, hc₁⟩⟩
    rcases hp with rfl | rfl <;> rfl
  | unreachable below behind => exact ⟨_, [], rfl, rfl, covers_setUnreachable _⟩
  | br below behind hl =>
    rw [List.append_assoc] at h
    obtain ⟨reshape, hbranch⟩ := branch_of_labels hl
    obtain ⟨t₁, h₁⟩ := popAll_of_covers h
    exact ⟨_, _, rfl, bind_eq_ok.mpr ⟨_, hbranch, bind_eq_ok.mpr ⟨t₁, h₁, rfl⟩⟩, covers_setUnreachable _⟩
  | @brIf l ts hl =>
    obtain ⟨t₁, h₁⟩ := expect_of_covers h
    have hc₁ := (covers_expect h₁).mp h
    rw [← context_stays (takes_expect h₁).outer (takes_expect h₁).like] at hl
    obtain ⟨reshape, hbranch⟩ := branch_of_labels hl
    obtain ⟨t', h'⟩ := apply_of_covers ⟨ts, ts⟩ hc₁
    exact ⟨t', _, rfl, bind_eq_ok.mpr ⟨_, h₁, bind_eq_ok.mpr ⟨_, hbranch, bind_eq_ok.mpr ⟨t', h', rfl⟩⟩⟩,
      (covers_apply h').mpr ⟨ds, rfl, hc₁⟩⟩
  | @brTable ls d carried below behind hl =>
    obtain ⟨ts, hd, hcarried⟩ := hl d List.mem_cons_self
    have hall : ∀ l ∈ ls, (t.context c locals).labels[l]? = some ts := fun l hl =>
      (huniform ls d rfl l hl).trans hd
    -- the operands are as good as those of the default label
    have h' : t.frame.Covers (some .i32 :: (operandsOf ts ++ (below ++ ds))) := by
      refine h.mono ?_
      rw [List.cons_append, List.cons_append, List.append_assoc]
      exact .cons (refl_of _ _) (List.rel_append hcarried (Operand.all_fit _))
    obtain ⟨t₁, h₁⟩ := expect_of_covers h'
    have hc₁ := (covers_expect h₁).mp h'
    rw [← context_stays (takes_expect h₁).outer (takes_expect h₁).like] at hd hall
    obtain ⟨reshape, hbranch⟩ := branch_of_labels hd
    obtain ⟨reshapes, t₂, h₂, hc₂⟩ := branches_of_covers hall hc₁
    obtain ⟨t₃, h₃⟩ := popAll_of_covers hc₂
    exact ⟨_, _, rfl, bind_eq_ok.mpr ⟨_, h₁, bind_eq_ok.mpr ⟨_, hbranch, bind_eq_ok.mpr ⟨_, h₂,
      bind_eq_ok.mpr ⟨t₃, h₃, rfl⟩⟩⟩⟩, covers_setUnreachable _⟩
  | return_ below behind =>
    rw [List.append_assoc] at h
    obtain ⟨t₁, h₁⟩ := popAll_of_covers h
    exact ⟨_, [], rfl, bind_eq_ok.mpr ⟨t₁, h₁, rfl⟩, covers_setUnreachable _⟩

end Typing

end WasmEngine
