import WasmEngine.Proofs.Checks
import WasmEngine.Validation.Lowering

/-!
# What instructions do to the types on the stack

Checking an instruction takes operands from the innermost block and puts others there (`Typing.Takes`), or opens
a block, or closes one. In code that can be reached, where all operands are known, the types are exactly
those that the instruction asks for; in code that cannot, nothing is said about them.

For each kind of instruction there is a lemma that takes `Typing.step` apart. What matters to the places
where blocks start and end is only which blocks are open: that is `Typing.Shape`.
-/

namespace WasmEngine

/-- Two states of the same open block. -/
structure ControlFrame.Like (f f' : ControlFrame) : Prop where
  kind : f'.kind = f.kind
  type : f'.type = f.type
  base : f'.base = f.base

theorem ControlFrame.Like.refl (f : ControlFrame) : f.Like f := ⟨rfl, rfl, rfl⟩

theorem ControlFrame.Like.symm {f g : ControlFrame} (h : f.Like g) : g.Like f :=
  ⟨h.kind.symm, h.type.symm, h.base.symm⟩

theorem ControlFrame.Like.trans {f g h : ControlFrame} (hfg : f.Like g) (hgh : g.Like h) : f.Like h :=
  ⟨hgh.kind.trans hfg.kind, hgh.type.trans hfg.type, hgh.base.trans hfg.base⟩

theorem ControlFrame.Like.labelTypes {f g : ControlFrame} (h : f.Like g) :
    g.labelTypes = f.labelTypes := by
  rw [ControlFrame.labelTypes, h.kind, h.type, ControlFrame.labelTypes]

namespace Typing

variable {t t' t₁ t₂ : Typing} {ins ins' outs outs' : List ValueType}

/-- The open blocks, the innermost first. -/
def frames (t : Typing) : List ControlFrame := t.frame :: t.outer

/-- All operands, the topmost first. -/
def operands (t : Typing) : List Operand := t.frames.flatMap (·.operands)

/-- The code can be reached: no open block goes on behind an instruction that never does. -/
def Live (t : Typing) : Prop := ∀ f ∈ t.frames, f.unreachable = false

/-- **Operands are taken and others put in their place**, the topmost first. That is exactly so if the code can
be reached and all operands are known. -/
structure Takes (t : Typing) (ins outs : List ValueType) (t' : Typing) : Prop where
  outer : t'.outer = t.outer
  like : t.frame.Like t'.frame
  unreachable : t'.frame.unreachable = t.frame.unreachable
  operands : t.frame.unreachable = false → (∀ o ∈ t.frame.operands, o ≠ none) →
    ∃ rest, t.frame.operands = ins.map some ++ rest ∧ t'.frame.operands = outs.map some ++ rest

namespace Takes

theorem refl (t : Typing) : t.Takes [] [] t := ⟨rfl, .refl _, rfl, fun _ _ => ⟨_, rfl, rfl⟩⟩

/-- Behind operands that are taken, others are. -/
theorem then_take (h : t.Takes ins [] t₁) (h' : t₁.Takes ins' outs t') : t.Takes (ins ++ ins') outs t' where
  outer := h'.outer.trans h.outer
  like := h.like.trans h'.like
  unreachable := h'.unreachable.trans h.unreachable
  operands hlive hknown := by
    obtain ⟨rest, ht, ht₁⟩ := h.operands hlive hknown
    rw [List.map_nil, List.nil_append] at ht₁
    have hknown₁ : ∀ o ∈ t₁.frame.operands, o ≠ none := fun o ho =>
      hknown o (by rw [ht]; exact List.mem_append_right _ (ht₁ ▸ ho))
    obtain ⟨rest', ht₁', ht'⟩ := h'.operands (h.unreachable.trans hlive) hknown₁
    refine ⟨rest', ?_, ht'⟩
    rw [ht, ← ht₁, ht₁', List.map_append, List.append_assoc]

/-- On operands that were put there, others are. -/
theorem then_put (h : t.Takes ins outs t₁) (h' : t₁.Takes [] outs' t') : t.Takes ins (outs' ++ outs) t' where
  outer := h'.outer.trans h.outer
  like := h.like.trans h'.like
  unreachable := h'.unreachable.trans h.unreachable
  operands hlive hknown := by
    obtain ⟨rest, ht, ht₁⟩ := h.operands hlive hknown
    have hknown₁ : ∀ o ∈ t₁.frame.operands, o ≠ none := by
      intro o ho
      rw [ht₁] at ho
      rcases List.mem_append.mp ho with ho | ho
      · obtain ⟨_, -, rfl⟩ := List.mem_map.mp ho
        exact Option.some_ne_none _
      · exact hknown o (by rw [ht]; exact List.mem_append_right _ ho)
    obtain ⟨rest', ht₁', ht'⟩ := h'.operands (h.unreachable.trans hlive) hknown₁
    rw [List.map_nil, List.nil_append] at ht₁'
    exact ⟨rest, ht, by rw [ht', ← ht₁', ht₁, List.map_append, List.append_assoc]⟩

/-- The same for the operands of all blocks. -/
theorem whole (h : t.Takes ins outs t') (hlive : t.Live) (hknown : ∀ o ∈ t.operands, o ≠ none) :
    ∃ rest, t.operands = ins.map some ++ rest ∧ t'.operands = outs.map some ++ rest := by
  obtain ⟨rest, ht, ht'⟩ := h.operands (hlive _ List.mem_cons_self) fun o ho =>
    hknown o (List.mem_flatMap.mpr ⟨_, List.mem_cons_self, ho⟩)
  refine ⟨rest ++ t.outer.flatMap (·.operands), ?_, ?_⟩
  · rw [Typing.operands, frames, List.flatMap_cons, ht, List.append_assoc]
  · rw [Typing.operands, frames, List.flatMap_cons, ht', h.outer, List.append_assoc]

theorem live (h : t.Takes ins outs t') (hlive : t.Live) : t'.Live := by
  intro f hf
  rcases List.mem_cons.mp hf with rfl | hf
  · exact h.unreachable.trans (hlive _ List.mem_cons_self)
  · exact hlive f (List.mem_cons_of_mem _ (h.outer ▸ hf))

end Takes

/-! ### Popping and pushing -/

theorem takes_pop {o : Operand} (h : t.pop = .ok (o, t')) :
    ∃ a, t.Takes [a] [] t' ∧ (t.frame.unreachable = false → (∀ o ∈ t.frame.operands, o ≠ none) →
      o = some a) := by
  unfold pop at h
  split at h
  · next p rest hp =>
    cases h
    cases o with
    | some a =>
      refine ⟨a, ⟨rfl, ⟨rfl, rfl, rfl⟩, rfl, fun _ _ => ⟨rest, hp, rfl⟩⟩, fun _ _ => rfl⟩
    | none =>
      have habsurd (hknown : ∀ o ∈ t.frame.operands, o ≠ none) : False :=
        hknown none (hp ▸ List.mem_cons_self) rfl
      exact ⟨.i32, ⟨rfl, ⟨rfl, rfl, rfl⟩, rfl, fun _ hk => (habsurd hk).elim⟩,
        fun _ hk => (habsurd hk).elim⟩
  · split at h
    · next hu =>
      cases h
      have habsurd (hlive : t.frame.unreachable = false) : False := by
        rw [hlive] at hu
        nomatch hu
      exact ⟨.i32, ⟨rfl, .refl _, rfl, fun hl => (habsurd hl).elim⟩, fun hl => (habsurd hl).elim⟩
    · nomatch h

theorem takes_expect {type : ValueType} (h : t.expect type = .ok t') : t.Takes [type] [] t' := by
  obtain ⟨⟨o, t₁⟩, hpop, h⟩ := bind_eq_ok.mp h
  obtain ⟨a, htakes, ho⟩ := takes_pop hpop
  dsimp only at h
  split at h
  · cases pure_eq_ok.mp h
    exact { htakes with operands := fun hl hk => nomatch ho hl hk }
  · split at h
    · next hfound =>
      cases pure_eq_ok.mp h
      refine { htakes with operands := fun hl hk => ?_ }
      obtain rfl : a = type := by
        rw [← hfound]
        exact (Option.some.inj (ho hl hk)).symm
      exact htakes.operands hl hk
    · nomatch h

theorem takes_popAll {types : List ValueType} (h : t.popAll types = .ok t') :
    t.Takes types.reverse [] t' := by
  induction types generalizing t' with
  | nil =>
    cases pure_eq_ok.mp h
    exact .refl t
  | cons type types ih =>
    unfold popAll at h
    rw [List.foldrM_cons] at h
    obtain ⟨t₁, h₁, h⟩ := bind_eq_ok.mp h
    rw [List.reverse_cons]
    exact (ih h₁).then_take (takes_expect h)

theorem takes_push (type : ValueType) (t : Typing) : t.Takes [] [type] (t.push (some type)) :=
  ⟨rfl, ⟨rfl, rfl, rfl⟩, rfl, fun _ _ => ⟨_, rfl, rfl⟩⟩

theorem pushAll_spec (types : List ValueType) (t : Typing) :
    (t.pushAll types).outer = t.outer ∧ (t.pushAll types).frame =
      { t.frame with operands := types.reverse.map some ++ t.frame.operands } := by
  induction types generalizing t with
  | nil => exact ⟨rfl, rfl⟩
  | cons type types ih =>
    obtain ⟨houter, hframe⟩ := ih (t.push (some type))
    refine ⟨houter, hframe.trans ?_⟩
    rw [List.reverse_cons, List.map_append, List.append_assoc]
    rfl

theorem takes_pushAll (types : List ValueType) (t : Typing) :
    t.Takes [] types.reverse (t.pushAll types) := by
  obtain ⟨houter, hframe⟩ := pushAll_spec types t
  exact ⟨houter, by rw [hframe]; exact ⟨rfl, rfl, rfl⟩, by rw [hframe],
    fun _ _ => ⟨t.frame.operands, rfl, by rw [hframe]⟩⟩

theorem takes_apply {type : FuncType} (h : t.apply type = .ok t') :
    t.Takes type.params.reverse type.results.reverse t' := by
  obtain ⟨t₁, h₁, h⟩ := bind_eq_ok.mp h
  cases pure_eq_ok.mp h
  have hput := (takes_popAll h₁).then_put (takes_pushAll type.results t₁)
  rwa [List.append_nil] at hput

/-! ### Branches -/

theorem branch_eq_ok {label : Nat} {reshape : Reshape} {types : List ValueType} :
    t.branch label = .ok (reshape, types) ↔ ∃ f, t.frames[label]? = some f ∧ f.labelTypes = types ∧
      reshape = ⟨types.length, t.height - (f.base + types.length)⟩ := by
  unfold branch frames
  split
  · next hf => simp [hf]
  · next f hf =>
    rw [hf]
    constructor
    · intro h
      cases h
      exact ⟨f, rfl, rfl, rfl⟩
    · rintro ⟨g, hg, rfl, rfl⟩
      cases hg
      rfl

/-- A branch depends on the open blocks and on the height of the stack. -/
theorem branch_congr (houter : t'.outer = t.outer) (hlike : t.frame.Like t'.frame)
    (hlength : t'.frame.operands.length = t.frame.operands.length) (label : Nat) :
    t'.branch label = t.branch label := by
  have hheight : t'.height = t.height := by rw [height, hlike.base, hlength, height]
  unfold branch
  cases label with
  | zero =>
    dsimp only [List.getElem?_cons_zero]
    rw [hlike.labelTypes, hheight, hlike.base]
  | succ label =>
    dsimp only [List.getElem?_cons_succ]
    rw [houter, hheight]

/-- **The branches of a table.** If the code can be reached, all of them accept the operands as they are. -/
theorem branches_spec {arity : Nat} : ∀ {labels : List Nat} {t t' : Typing} {reshapes : List Reshape},
    branches arity labels t = .ok (reshapes, t') →
    t'.outer = t.outer ∧ t.frame.Like t'.frame ∧ t'.frame.unreachable = t.frame.unreachable ∧
    (t.frame.unreachable = false → (∀ o ∈ t.frame.operands, o ≠ none) →
      t'.frame.operands = t.frame.operands ∧
      List.Forall₂ (fun label reshape => ∃ types, t.branch label = .ok (reshape, types) ∧
        types.length = arity ∧ types.reverse.map some <+: t.frame.operands) labels reshapes)
  | [], t, t', reshapes, h => by
    cases pure_eq_ok.mp h
    exact ⟨rfl, .refl _, rfl, fun _ _ => ⟨rfl, .nil⟩⟩
  | label :: labels, t, t', reshapes, h => by
    obtain ⟨⟨reshape, types⟩, hbranch, h⟩ := bind_eq_ok.mp h
    dsimp only at h
    split at h
    · nomatch h
    next harity =>
    obtain ⟨t₁, h₁, h⟩ := bind_eq_ok.mp h
    obtain ⟨⟨reshapes, t₂⟩, h₂, h⟩ := bind_eq_ok.mp h
    cases pure_eq_ok.mp h
    have htakes := takes_apply h₁
    obtain ⟨houter, hlike, hunreachable, hlabels⟩ := branches_spec h₂
    refine ⟨houter.trans htakes.outer, htakes.like.trans hlike, hunreachable.trans htakes.unreachable, ?_⟩
    intro hl hk
    obtain ⟨rest, ht, ht₁⟩ := htakes.operands hl hk
    have hsame : t₁.frame.operands = t.frame.operands := ht₁.trans ht.symm
    obtain ⟨heq, hall⟩ := hlabels (htakes.unreachable.trans hl) (hsame ▸ hk)
    refine ⟨heq.trans hsame, .cons ⟨types, hbranch, Decidable.not_not.mp harity, rest, ht.symm⟩ ?_⟩
    refine hall.imp fun label' reshape' => ?_
    rintro ⟨types', hbranch', hlength, hpre⟩
    refine ⟨types', ?_, hlength, hsame ▸ hpre⟩
    rwa [← branch_congr htakes.outer htakes.like (congrArg List.length hsame)]

end Typing

/-! ### Instructions that open and close blocks -/

/-- What kind of block an instruction opens. -/
def Instruction.kind? : Instruction → Option FrameKind
  | block _ => some .block
  | loop _ => some .loop
  | if_ _ => some .ifArm
  | _ => none

/-- An instruction that leaves the open blocks as they are. -/
def Instruction.isFlat : Instruction → Bool
  | block _ | loop _ | if_ _ | else_ | end_ => false
  | _ => true

/-- **What an instruction does to the open blocks.** -/
inductive Typing.Shape (t : Typing) : Instruction → Typing → Prop
  | stays {i : Instruction} {t' : Typing} : i.isFlat = true → t'.outer = t.outer →
    t.frame.Like t'.frame → Shape t i t'
  | opens {i : Instruction} {kind : FrameKind} {type : FuncType} {t₁ t' : Typing} :
    i.kind? = some kind →
    t.Takes ((if kind = .ifArm then [.i32] else []) ++ type.params.reverse) [] t₁ →
    t'.frame = ⟨kind, type, t₁.height, type.params.reverse.map some, false⟩ →
    t'.outer = t₁.frame :: t.outer → Shape t i t'
  | switches {t₁ t' : Typing} : t.frame.kind = .ifArm →
    t.Takes t.frame.type.results.reverse [] t₁ → t₁.frame.operands = [] →
    t'.frame = { t.frame with
      kind := .elseArm, operands := t.frame.type.params.reverse.map some, unreachable := false } →
    t'.outer = t.outer → Shape t .else_ t'
  | closes {g : ControlFrame} {gs : List ControlFrame} {t₁ t' : Typing} :
    (t.frame.kind = .ifArm → t.frame.type.params = t.frame.type.results) →
    t.Takes t.frame.type.results.reverse [] t₁ → t₁.frame.operands = [] → t.outer = g :: gs →
    t'.frame = { g with operands := t.frame.type.results.reverse.map some ++ g.operands } →
    t'.outer = gs → Shape t .end_ t'

/-- **What a plain instruction takes and gives**, the topmost operand first. -/
inductive Instruction.Uses (c : Context) (locals : List ValueType) :
    Instruction → List ValueType → List ValueType → Prop
  | drop (a : ValueType) : Uses c locals .drop [a] []
  | select (a : ValueType) : Uses c locals .select [.i32, a, a] [a]
  | refIsNull (r : RefType) : Uses c locals .refIsNull [.ref r] [.i32]
  | signature {i : Instruction} {type : FuncType} : i ≠ .drop → i ≠ .select → i ≠ .refIsNull →
    c.signature locals i = .ok type → Uses c locals i type.params.reverse type.results.reverse

namespace Typing

variable {t t' t₁ : Typing} {c : Context} {locals : List ValueType} {reshapes : List Reshape}

theorem takes_enter {kind : FrameKind} {type : FuncType} (h : t.enter kind type = .ok t') :
    ∃ t₁, t.Takes type.params.reverse [] t₁ ∧
      t'.frame = ⟨kind, type, t₁.height, type.params.reverse.map some, false⟩ ∧
      t'.outer = t₁.frame :: t.outer := by
  obtain ⟨t₁, h₁, h⟩ := bind_eq_ok.mp h
  cases pure_eq_ok.mp h
  have htakes := takes_popAll h₁
  obtain ⟨houter, hframe⟩ := pushAll_spec type.params
    { t₁ with frame := ⟨kind, type, t₁.height, [], false⟩, outer := t₁.frame :: t₁.outer }
  refine ⟨t₁, htakes, hframe.trans ?_, houter.trans ?_⟩
  · rw [List.append_nil]
  · rw [htakes.outer]

theorem takes_checkResults (h : t.checkResults = .ok t') :
    t.Takes t.frame.type.results.reverse [] t' ∧ t'.frame.operands = [] := by
  obtain ⟨t₁, h₁, h⟩ := bind_eq_ok.mp h
  split at h
  · next hempty =>
    cases pure_eq_ok.mp h
    exact ⟨takes_popAll h₁, List.isEmpty_iff.mp hempty⟩
  · nomatch h

/-- The results of a block are left for the block around it. -/
theorem close_spec {progress : Progress} (h : t.close = .ok progress) :
    (t.frame.kind = .ifArm → t.frame.type.params = t.frame.type.results) ∧
    ∃ t₁, t.Takes t.frame.type.results.reverse [] t₁ ∧ t₁.frame.operands = [] ∧
      ((t.outer = [] ∧ progress = .closed (max t₁.peak t.frame.type.results.length)) ∨
        ∃ g gs t', t.outer = g :: gs ∧ progress = .next t' [] ∧
          t'.frame = { g with operands := t.frame.type.results.reverse.map some ++ g.operands } ∧
          t'.outer = gs) := by
  obtain ⟨t₁, h₁, h⟩ := bind_eq_ok.mp h
  obtain ⟨htakes, hempty⟩ := takes_checkResults h₁
  dsimp only at h
  rw [htakes.like.kind, htakes.like.type, htakes.outer] at h
  split at h
  · nomatch h
  next hif =>
  refine ⟨fun hkind => Decidable.byContradiction fun hne => hif ⟨hkind, hne⟩, t₁, htakes, hempty, ?_⟩
  split at h
  · next houter =>
    cases pure_eq_ok.mp h
    exact .inl ⟨houter, rfl⟩
  · next g gs houter =>
    cases pure_eq_ok.mp h
    obtain ⟨houter', hframe⟩ := pushAll_spec t.frame.type.results { t₁ with frame := g, outer := gs }
    exact .inr ⟨g, gs, _, houter, rfl, hframe, houter'⟩

theorem shape_switch (h : t.switch = .ok t') : t.Shape .else_ t' := by
  unfold switch at h
  split at h
  · nomatch h
  next hkind =>
  obtain ⟨t₁, h₁, h⟩ := bind_eq_ok.mp h
  cases pure_eq_ok.mp h
  obtain ⟨htakes, hempty⟩ := takes_checkResults h₁
  obtain ⟨houter, hframe⟩ := pushAll_spec t₁.frame.type.params
    { t₁ with frame.kind := .elseArm, frame.unreachable := false }
  refine .switches (Decidable.not_not.mp hkind) htakes hempty (hframe.trans ?_) (houter.trans htakes.outer)
  rw [hempty, List.append_nil, htakes.like.type]
  simp [htakes.like.type, htakes.like.base]

/-! ### Instructions one by one -/

theorem step_of_signature {i : Instruction}
    (hi : t.step c locals i = (do return .next (← t.apply (← c.signature locals i)) []))
    (h : t.step c locals i = .ok (.next t' reshapes)) : reshapes = [] ∧ ∃ type,
      c.signature locals i = .ok type ∧ t.Takes type.params.reverse type.results.reverse t' := by
  rw [hi] at h
  obtain ⟨type, htype, h⟩ := bind_eq_ok.mp h
  obtain ⟨t₁, h₁, h⟩ := bind_eq_ok.mp h
  cases pure_eq_ok.mp h
  exact ⟨rfl, type, htype, takes_apply h₁⟩

theorem step_nop (h : t.step c locals .nop = .ok (.next t' reshapes)) : t.Takes [] [] t' := by
  obtain ⟨-, type, htype, htakes⟩ := step_of_signature rfl h
  cases pure_eq_ok.mp htype
  exact htakes

theorem step_call {f : Nat} (h : t.step c locals (.call f) = .ok (.next t' reshapes)) :
    ∃ type, c.func f = .ok type ∧ t.Takes type.params.reverse type.results.reverse t' :=
  (step_of_signature rfl h).2

theorem step_callIndirect {x table : Nat}
    (h : t.step c locals (.callIndirect x table) = .ok (.next t' reshapes)) :
    ∃ tableType type, c.table table = .ok tableType ∧ tableType.element = .funcref ∧
      c.type x = .ok type ∧ t.Takes (.i32 :: type.params.reverse) type.results.reverse t' := by
  obtain ⟨-, type, htype, htakes⟩ := step_of_signature rfl h
  obtain ⟨tableType, htable, htype⟩ := bind_eq_ok.mp htype
  split at htype
  · nomatch htype
  next helement =>
  obtain ⟨signature, hsignature, htype⟩ := bind_eq_ok.mp htype
  cases pure_eq_ok.mp htype
  rw [List.reverse_append] at htakes
  exact ⟨tableType, signature, htable, Decidable.not_not.mp helement, hsignature, htakes⟩

theorem step_drop (h : t.step c locals .drop = .ok (.next t' reshapes)) : ∃ a, t.Takes [a] [] t' := by
  obtain ⟨⟨o, t₁⟩, h₁, h⟩ := bind_eq_ok.mp h
  cases pure_eq_ok.mp h
  obtain ⟨a, htakes, -⟩ := takes_pop h₁
  exact ⟨a, htakes⟩

theorem takes_refIsNull (h : t.refIsNull = .ok t') : ∃ r, t.Takes [.ref r] [.i32] t' := by
  obtain ⟨⟨o, t₁⟩, h₁, h⟩ := bind_eq_ok.mp h
  obtain ⟨a, htakes, ho⟩ := takes_pop h₁
  have hput {b : ValueType} (htakes : t.Takes [b] [] t₁) : t.Takes [b] [.i32] (t₁.push (some .i32)) :=
    htakes.then_put (takes_push _ _)
  dsimp only at h
  split at h
  · next r =>
    cases pure_eq_ok.mp h
    refine ⟨r, hput { htakes with operands := fun hl hk => ?_ }⟩
    obtain rfl := Option.some.inj (ho hl hk)
    exact htakes.operands hl hk
  · cases pure_eq_ok.mp h
    exact ⟨.funcref, hput { htakes with operands := fun hl hk => nomatch ho hl hk }⟩
  · nomatch h

theorem takes_select (h : t.select = .ok t') : ∃ a, t.Takes [.i32, a, a] [a] t' := by
  obtain ⟨t₁, h₁, h⟩ := bind_eq_ok.mp h
  obtain ⟨⟨first, t₂⟩, h₂, h⟩ := bind_eq_ok.mp h
  obtain ⟨⟨second, t₃⟩, h₃, h⟩ := bind_eq_ok.mp h
  obtain ⟨a, htakes₂, ha⟩ := takes_pop h₂
  obtain ⟨b, htakes₃, hb⟩ := takes_pop h₃
  have htakes := (takes_expect h₁).then_take (htakes₂.then_take htakes₃)
  -- the operand that is put back is one of those that were taken, which are equal if they are known
  have hpush (o : Operand) : (t₃.push o).outer = t.outer ∧ t.frame.Like (t₃.push o).frame ∧
      (t₃.push o).frame.unreachable = t.frame.unreachable :=
    ⟨htakes.outer, ⟨htakes.like.kind, htakes.like.type, htakes.like.base⟩, htakes.unreachable⟩
  have hknown : t.frame.unreachable = false → (∀ o ∈ t.frame.operands, o ≠ none) →
      first = some a ∧ second = some b := by
    intro hl hk
    obtain ⟨rest₁, hrest₁, hrest₁'⟩ := (takes_expect h₁).operands hl hk
    rw [List.map_nil, List.nil_append] at hrest₁'
    have hl₁ := (takes_expect h₁).unreachable.trans hl
    have hk₁ : ∀ o ∈ t₁.frame.operands, o ≠ none := fun o ho =>
      hk o (hrest₁ ▸ List.mem_append_right _ (hrest₁' ▸ ho))
    obtain ⟨rest₂, hrest₂, hrest₂'⟩ := htakes₂.operands hl₁ hk₁
    rw [List.map_nil, List.nil_append] at hrest₂'
    exact ⟨ha hl₁ hk₁, hb (htakes₂.unreachable.trans hl₁) fun o ho =>
      hk₁ o (hrest₂ ▸ List.mem_append_right _ (hrest₂' ▸ ho))⟩
  have hdone (o : Operand) (ho : t.frame.unreachable = false →
      (∀ o ∈ t.frame.operands, o ≠ none) → o = some a ∧ a = b) : t.Takes [.i32, a, a] [a] (t₃.push o) := by
    obtain ⟨houter, hlike, hunreachable⟩ := hpush o
    refine ⟨houter, hlike, hunreachable, fun hl hk => ?_⟩
    obtain ⟨rfl, rfl⟩ := ho hl hk
    obtain ⟨rest, hrest, hrest'⟩ := htakes.operands hl hk
    exact ⟨rest, hrest, congrArg (some a :: ·) hrest'⟩
  dsimp only at h
  split at h
  · nomatch h
  split at h
  · split at h
    · next hab =>
      cases pure_eq_ok.mp h
      exact ⟨a, hdone _ fun hl hk => by
        obtain ⟨h₁, h₂⟩ := hknown hl hk
        exact ⟨h₁, Option.some.inj (h₁.symm.trans ((congrArg some hab).trans h₂))⟩⟩
    · nomatch h
  · cases pure_eq_ok.mp h
    exact ⟨a, hdone _ fun hl hk => nomatch (hknown hl hk).2⟩
  · cases pure_eq_ok.mp h
    exact ⟨a, hdone _ fun hl hk => nomatch (hknown hl hk).1⟩

/-- **Plain instructions** take and give what they should. -/
theorem step_plain {i : Instruction} {op : PlainOp} (hop : i.plainOp? = some op)
    (h : t.step c locals i = .ok (.next t' reshapes)) :
    ∃ ins outs, i.Uses c locals ins outs ∧ t.Takes ins outs t' := by
  have hsignature (hdrop : i ≠ .drop) (hselect : i ≠ .select) (hnull : i ≠ .refIsNull)
      (hi : t.step c locals i = (do return .next (← t.apply (← c.signature locals i)) [])) :
      ∃ ins outs, i.Uses c locals ins outs ∧ t.Takes ins outs t' := by
    obtain ⟨-, type, htype, htakes⟩ := step_of_signature hi h
    exact ⟨_, _, .signature hdrop hselect hnull htype, htakes⟩
  cases i with
  | unreachable | nop | block | loop | if_ | else_ | end_ | br | brIf | brTable | return_ | call
  | callIndirect => nomatch hop
  | drop =>
    obtain ⟨a, htakes⟩ := step_drop h
    exact ⟨_, _, .drop a, htakes⟩
  | select =>
    obtain ⟨t₁, h₁, h⟩ := bind_eq_ok.mp h
    cases pure_eq_ok.mp h
    obtain ⟨a, htakes⟩ := takes_select h₁
    exact ⟨_, _, .select a, htakes⟩
  | refIsNull =>
    obtain ⟨t₁, h₁, h⟩ := bind_eq_ok.mp h
    cases pure_eq_ok.mp h
    obtain ⟨r, htakes⟩ := takes_refIsNull h₁
    exact ⟨_, _, .refIsNull r, htakes⟩
  | _ => exact hsignature nofun nofun nofun rfl

theorem step_br {label : Nat} (h : t.step c locals (.br label) = .ok (.next t' reshapes)) :
    ∃ reshape types t₁, t.branch label = .ok (reshape, types) ∧ reshapes = [reshape] ∧
      t.Takes types.reverse [] t₁ ∧ t₁.setUnreachable = t' := by
  obtain ⟨⟨reshape, types⟩, hbranch, h⟩ := bind_eq_ok.mp h
  obtain ⟨t₁, h₁, h⟩ := bind_eq_ok.mp h
  cases pure_eq_ok.mp h
  exact ⟨reshape, types, t₁, hbranch, rfl, takes_popAll h₁, rfl⟩

theorem step_brIf {label : Nat} (h : t.step c locals (.brIf label) = .ok (.next t' reshapes)) :
    ∃ reshape types t₁, t.Takes [.i32] [] t₁ ∧ t₁.branch label = .ok (reshape, types) ∧
      reshapes = [reshape] ∧ t₁.Takes types.reverse types.reverse t' := by
  obtain ⟨t₁, h₁, h⟩ := bind_eq_ok.mp h
  obtain ⟨⟨reshape, types⟩, hbranch, h⟩ := bind_eq_ok.mp h
  obtain ⟨t₂, h₂, h⟩ := bind_eq_ok.mp h
  cases pure_eq_ok.mp h
  exact ⟨reshape, types, t₁, takes_expect h₁, hbranch, rfl, takes_apply h₂⟩

theorem step_brTable {labels : List Nat} {default : Nat}
    (h : t.step c locals (.brTable labels default) = .ok (.next t' reshapes)) :
    ∃ targets reshape types t₁ t₂ t₃, t.Takes [.i32] [] t₁ ∧
      t₁.branch default = .ok (reshape, types) ∧
      branches types.length labels t₁ = .ok (targets, t₂) ∧ t₂.Takes types.reverse [] t₃ ∧
      reshapes = targets ++ [reshape] ∧ t₃.setUnreachable = t' := by
  obtain ⟨t₁, h₁, h⟩ := bind_eq_ok.mp h
  obtain ⟨⟨reshape, types⟩, hbranch, h⟩ := bind_eq_ok.mp h
  obtain ⟨⟨targets, t₂⟩, h₂, h⟩ := bind_eq_ok.mp h
  obtain ⟨t₃, h₃, h⟩ := bind_eq_ok.mp h
  cases pure_eq_ok.mp h
  exact ⟨targets, reshape, types, t₁, t₂, t₃, takes_expect h₁, hbranch, h₂, takes_popAll h₃, rfl, rfl⟩

theorem step_return (h : t.step c locals .return_ = .ok (.next t' reshapes)) :
    ∃ t₁, t.Takes t.results.reverse [] t₁ ∧ t₁.setUnreachable = t' := by
  obtain ⟨t₁, h₁, h⟩ := bind_eq_ok.mp h
  cases pure_eq_ok.mp h
  exact ⟨t₁, takes_popAll h₁, rfl⟩

/-- A block that is opened has the signature that its type stands for. -/
theorem step_blockType {i : Instruction} {block : BlockType} (hi : i = .block block ∨ i = .loop block ∨ i = .if_ block)
    (h : t.step c locals i = .ok (.next t' reshapes)) : c.blockType block = .ok t'.frame.type := by
  have henter {kind : FrameKind} {type : FuncType} {u : Typing} (hu : u.enter kind type = .ok t') :
      t'.frame.type = type := by
    obtain ⟨t₁, -, hframe, -⟩ := takes_enter hu
    rw [hframe]
  rcases hi with rfl | rfl | rfl
  · obtain ⟨type, htype, h⟩ := bind_eq_ok.mp h
    obtain ⟨t₁, h₁, h⟩ := bind_eq_ok.mp h
    cases pure_eq_ok.mp h
    rw [htype, henter h₁]
  · obtain ⟨type, htype, h⟩ := bind_eq_ok.mp h
    obtain ⟨t₁, h₁, h⟩ := bind_eq_ok.mp h
    cases pure_eq_ok.mp h
    rw [htype, henter h₁]
  · obtain ⟨t₀, -, h⟩ := bind_eq_ok.mp h
    obtain ⟨type, htype, h⟩ := bind_eq_ok.mp h
    obtain ⟨t₁, h₁, h⟩ := bind_eq_ok.mp h
    cases pure_eq_ok.mp h
    rw [htype, henter h₁]

/-- Only an `end` closes a body. -/
theorem step_closed {i : Instruction} {peak : Nat} (h : t.step c locals i = .ok (.closed peak)) : i = .end_ := by
  have hnext {α : Type} {x : Except ValidationFault α} {g : α → Typing} {r : α → List Reshape}
      (h : (x >>= fun a => pure (Progress.next (g a) (r a))) = .ok (.closed peak)) : False := by
    obtain ⟨a, -, h⟩ := bind_eq_ok.mp h
    nomatch pure_eq_ok.mp h
  cases i with
  | end_ => rfl
  | unreachable => nomatch pure_eq_ok.mp h
  | else_ | return_ | select | refIsNull => exact (hnext h).elim
  | drop =>
    obtain ⟨⟨_, _⟩, -, h⟩ := bind_eq_ok.mp h
    nomatch pure_eq_ok.mp h
  | if_ =>
    obtain ⟨_, -, h⟩ := bind_eq_ok.mp h
    obtain ⟨_, -, h⟩ := bind_eq_ok.mp h
    exact (hnext h).elim
  | br =>
    obtain ⟨⟨_, _⟩, -, h⟩ := bind_eq_ok.mp h
    exact (hnext h).elim
  | brIf =>
    obtain ⟨_, -, h⟩ := bind_eq_ok.mp h
    obtain ⟨⟨_, _⟩, -, h⟩ := bind_eq_ok.mp h
    exact (hnext h).elim
  | brTable =>
    obtain ⟨_, -, h⟩ := bind_eq_ok.mp h
    obtain ⟨⟨_, _⟩, -, h⟩ := bind_eq_ok.mp h
    obtain ⟨⟨_, _⟩, -, h⟩ := bind_eq_ok.mp h
    exact (hnext h).elim
  | _ =>
    obtain ⟨_, -, h⟩ := bind_eq_ok.mp h
    exact (hnext h).elim

/-! ### The shape of a step -/

theorem Takes.stays {i : Instruction} {ins outs : List ValueType} (hi : i.isFlat = true)
    (h : t.Takes ins outs t') : t.Shape i t' :=
  .stays hi h.outer h.like

theorem stays_setUnreachable {i : Instruction} (hi : i.isFlat = true) (houter : t₁.outer = t.outer)
    (hlike : t.frame.Like t₁.frame) : t.Shape i t₁.setUnreachable :=
  .stays hi houter ⟨hlike.kind, hlike.type, hlike.base⟩

/-- **Every step has a shape.** -/
theorem step_shape {i : Instruction} (h : t.step c locals i = .ok (.next t' reshapes)) :
    t.Shape i t' := by
  have hplain {op : PlainOp} (hi : i.isFlat = true) (hop : i.plainOp? = some op) : t.Shape i t' := by
    obtain ⟨ins, outs, -, htakes⟩ := step_plain hop h
    exact htakes.stays hi
  cases i with
  | unreachable =>
    cases pure_eq_ok.mp h
    exact stays_setUnreachable rfl rfl (.refl _)
  | nop => exact (step_nop h).stays rfl
  | block type | loop type =>
    obtain ⟨signature, -, h⟩ := bind_eq_ok.mp h
    obtain ⟨t₁, h₁, h⟩ := bind_eq_ok.mp h
    cases pure_eq_ok.mp h
    obtain ⟨t₁, htakes, hframe, houter⟩ := takes_enter h₁
    exact .opens rfl htakes hframe houter
  | if_ type =>
    obtain ⟨t₀, h₀, h⟩ := bind_eq_ok.mp h
    obtain ⟨signature, -, h⟩ := bind_eq_ok.mp h
    obtain ⟨t₁, h₁, h⟩ := bind_eq_ok.mp h
    cases pure_eq_ok.mp h
    obtain ⟨t₁, htakes, hframe, houter⟩ := takes_enter h₁
    have htakes₀ := takes_expect h₀
    exact .opens rfl (htakes₀.then_take htakes) hframe (houter.trans (by rw [htakes₀.outer]))
  | else_ =>
    obtain ⟨t₁, h₁, h⟩ := bind_eq_ok.mp h
    cases pure_eq_ok.mp h
    exact shape_switch h₁
  | end_ =>
    obtain ⟨hif, t₁, htakes, hempty, ⟨-, hp⟩ | ⟨g, gs, t'', houter, hp, hframe, houter'⟩⟩ := close_spec h
    · nomatch hp
    · cases hp
      exact .closes hif htakes hempty houter hframe houter'
  | br label =>
    obtain ⟨reshape, types, t₁, -, -, htakes, rfl⟩ := step_br h
    exact stays_setUnreachable rfl htakes.outer htakes.like
  | brIf label =>
    obtain ⟨reshape, types, t₁, htakes, -, -, htakes'⟩ := step_brIf h
    exact .stays rfl (htakes'.outer.trans htakes.outer) (htakes.like.trans htakes'.like)
  | brTable labels default =>
    obtain ⟨targets, reshape, types, t₁, t₂, t₃, h₁, -, h₂, h₃, -, rfl⟩ := step_brTable h
    obtain ⟨houter, hlike, -⟩ := branches_spec h₂
    exact stays_setUnreachable rfl (h₃.outer.trans (houter.trans h₁.outer))
      (h₁.like.trans (hlike.trans h₃.like))
  | return_ =>
    obtain ⟨t₁, htakes, rfl⟩ := step_return h
    exact stays_setUnreachable rfl htakes.outer htakes.like
  | call f =>
    obtain ⟨type, -, htakes⟩ := step_call h
    exact htakes.stays rfl
  | callIndirect x table =>
    obtain ⟨tableType, type, -, -, -, htakes⟩ := step_callIndirect h
    exact htakes.stays rfl
  | _ => exact hplain rfl rfl

end Typing

end WasmEngine
