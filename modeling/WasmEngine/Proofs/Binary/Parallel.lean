import WasmEngine.Proofs.Binary.Cursor

/-!
# Decoders put together in the same way

What is shown of decoders often holds because it holds of the few that look at bytes and is passed on by the ways to put
decoders together: that they stay in their windows, that they blame what they have seen, that they read the same at
another place, or with more proposals. Each of these compares a decoder with another one, or with itself.

`Decoder.Parallel f g shift At F d d'` says that two decoders are put together in the same way, the first one for a
module with the proposals `f` and the second one with those of `g`. The second has positions where `shift` puts those of
the first, and it gives what `F` makes of the results of the first. Only positions that have been read are blamed, of
which it is known that they are `At` some place. The proposals make a difference where the first decoder fails and the
second one goes on.

There is one lemma for each decoder. A property of all decoders follows by induction over the ways to put them together.
-/

namespace WasmEngine

/-! ### Sets of proposals -/

/-- All proposals of the one set are in the other. -/
instance : LE Features := ⟨fun f g => ∀ p, f.has p = true → g.has p = true⟩

variable {f g : Features}

theorem Features.le_refl (f : Features) : f ≤ f := fun _ hp => hp

theorem Features.le_all (f : Features) : f ≤ .all := fun p _ => by cases p <;> rfl

theorem Features.le_set (f : Features) (p : Proposal) : f ≤ f.set p true :=
  fun q hq => by cases p <;> cases q <;> first | rfl | exact hq

theorem Features.referenceTypes_mono (h : f ≤ g) (hf : f.referenceTypes = true) : g.referenceTypes = true :=
  h .referenceTypes hf

/-- A body whose instructions stand elsewhere. -/
def FunctionBody.mapOffsets (f : Nat → Nat) (body : FunctionBody) : FunctionBody where
  locals := body.locals
  code := body.code.map (Prod.map f id)
  offset := f body.offset

theorem FunctionBody.mapOffsets_id (body : FunctionBody) : body.mapOffsets (fun p => p) = body := by
  change { body with code := body.code.map (Prod.map id id) } = body
  simp

namespace Decoder

/-! ### Ways to put decoders together -/

/-- **Two decoders are put together in the same way.** A window that is split off has positions of its own, so nothing
is known of `At` where it is read. -/
inductive Parallel (f g : Features) (shift : Nat → Nat) :
    (Nat → Prop) → {α β : Type} → (α → β) → Decoder α → Decoder β → Prop
  | pure {At : Nat → Prop} {α β : Type} {F : α → β} (a : α) : Parallel f g shift At F (pure a) (pure (F a))
  | bind {At : Nat → Prop} {α β γ δ : Type} {F : α → β} {G : γ → δ} {d : Decoder α} {d' : Decoder β}
      {K : α → Decoder γ} {K' : β → Decoder δ} : Parallel f g shift At F d d' →
      (∀ a, Parallel f g shift At G (K a) (K' (F a))) → Parallel f g shift At G (d >>= K) (d' >>= K')
  | fail {At : Nat → Prop} {α β : Type} {F : α → β} {fault : DecodeFault} {p : Nat} : At p →
      Parallel f g shift At F (fail fault p) (fail fault (shift p))
  | refused {At : Nat → Prop} {α β : Type} {F : α → β} {fault : DecodeFault} {p : Nat} {d' : Decoder β} : f ≠ g →
      Parallel f g shift At F (fail fault p) d'
  | start {At : Nat → Prop} {γ δ : Type} {G : γ → δ} {K : Nat → Decoder γ} {K' : Nat → Decoder δ} :
      (∀ p, At p → Parallel f g shift At G (K p) (K' (shift p))) →
      Parallel f g shift At G (position >>= K) (position >>= K')
  | remaining {At : Nat → Prop} : Parallel f g shift At id remaining remaining
  | atEnd {At : Nat → Prop} : Parallel f g shift At id atEnd atEnd
  | peek {At : Nat → Prop} : Parallel f g shift At id peek peek
  | byte {At : Nat → Prop} : Parallel f g shift At id byte byte
  | bytes {At : Nat → Prop} (n : Nat) : Parallel f g shift At id (bytes n) (bytes n)
  | u32 {At : Nat → Prop} : Parallel f g shift At id u32 u32
  | signed {At : Nat → Prop} {width : Nat} : 0 < width →
      Parallel f g shift At id (ofLeb128 (Leb128.signed width)) (ofLeb128 (Leb128.signed width))
  | finish {At : Nat → Prop} (what : String) : Parallel f g shift At id (finish what) (finish what)
  | within {At : Nat → Prop} {α β γ δ : Type} {F : α → β} {G : γ → δ} {d : Decoder α} {d' : Decoder β}
      {K : α × Cursor → Decoder γ} {K' : β × Cursor → Decoder δ} :
      (∀ At, Parallel f g shift At F d d') → (n : Nat) → (∀ a w w', Parallel f g shift At G (K (a, w)) (K' (F a, w'))) →
      Parallel f g shift At G (within n d >>= K) (within n d' >>= K')

namespace Parallel

variable {shift : Nat → Nat} {At : Nat → Prop} {α β γ δ : Type} {F : α → β} {d e : Decoder α} {d' e' : Decoder β}

theorem map {G : γ → δ} {K : α → γ} {K' : β → δ} (h : Parallel f g shift At F d d') (hK : ∀ a, K' (F a) = G (K a)) :
    Parallel f g shift At G (K <$> d) (K' <$> d') := by
  rw [← bind_pure_comp, ← bind_pure_comp]
  refine .bind h fun a => ?_
  rw [hK]
  exact .pure (K a)

theorem ite {c : Prop} [Decidable c] (h : Parallel f g shift At F d d') (he : Parallel f g shift At F e e') :
    Parallel f g shift At F (if c then d else e) (if c then d' else e') := by
  split
  · exact h
  · exact he

/-- A check in front of what follows. -/
theorem gate {c : Prop} [Decidable c] {fault : DecodeFault} {p : Nat} {l : Unit → Decoder α} {l' : Unit → Decoder β}
    (hp : At p) (h : Parallel f g shift At F (l ()) (l' ())) :
    Parallel f g shift At F (if c then Decoder.fail fault p >>= l else l ())
      (if c then Decoder.fail fault (shift p) >>= l' else l' ()) := .ite (.bind (F := id) (.fail hp) fun _ => h) h

/-- A check that only the first decoder may have. -/
theorem check {c c' : Prop} [Decidable c] [Decidable c'] {fault : DecodeFault} {p : Nat} (hp : At p) (hc : c' → c)
    (hne : c → ¬c' → f ≠ g) (h : Parallel f g shift At F d d') :
    Parallel f g shift At F (if c then Decoder.fail fault p else d)
      (if c' then Decoder.fail fault (shift p) else d') := by
  by_cases hc' : c'
  · rw [if_pos hc', if_pos (hc hc')]
    exact .fail hp
  · rw [if_neg hc']
    by_cases hcc : c
    · rw [if_pos hcc]
      exact .refused (hne hcc hc')
    · rw [if_neg hcc]
      exact h

theorem items (h : Parallel f g shift At F d d') :
    ∀ n, Parallel f g shift At (List.map F) (Decoder.items d n) (Decoder.items d' n)
  | 0 => .pure []
  | n + 1 => .bind h fun a => .bind (items h n) fun as => .pure (a :: as)

/-! ### Vectors, names and types -/

theorem word32 : Parallel f g shift At id Decoder.word32 Decoder.word32 := .bind (.bytes 4) fun _ => .pure _

theorem word64 : Parallel f g shift At id Decoder.word64 Decoder.word64 := .bind (.bytes 8) fun _ => .pure _

theorem count : Parallel f g shift At id Decoder.count Decoder.count :=
  .start fun _ hstart => .bind .u32 fun n => .bind .remaining fun _ => .ite (.fail hstart) (.pure n)

/-- A vector of the same items. -/
theorem vector {d d' : Decoder α} (h : Parallel f g shift At id d d') :
    Parallel f g shift At id (Decoder.vector d) (Decoder.vector d') := by
  have hitems := h.items
  rw [List.map_id_fun] at hitems
  exact .bind count fun n => hitems n

theorem name : Parallel f g shift At id Decoder.name Decoder.name :=
  .bind .u32 fun _ => .start fun _ hstart => .bind (.bytes _) fun bs => by
    dsimp only [id]
    split
    · exact .pure _
    · exact .fail hstart

theorem valueType : Parallel f g shift At id Decoder.valueType Decoder.valueType :=
  .start fun _ hstart => .bind .byte fun b => by
    dsimp only [id]
    split
    · exact .pure _
    · exact .fail hstart

theorem refType : Parallel f g shift At id Decoder.refType Decoder.refType :=
  .start fun _ hstart => .bind .byte fun b => by
    dsimp only [id]
    split
    · exact .pure _
    · exact .fail hstart

theorem limits : Parallel f g shift At id Decoder.limits Decoder.limits :=
  .start fun _ hstart => .bind .byte fun _ =>
    .ite (.bind .u32 fun _ => .pure _) <|
    .ite (.bind .u32 fun _ => .bind .u32 fun _ => .pure _) (.fail hstart)

/-! ### Instructions -/

variable {start : Nat}

theorem require (h : f ≤ g) (p : Proposal) (hstart : At start) :
    Parallel f g shift At id (Decoder.require f p start) (Decoder.require g p (shift start)) := by
  unfold Decoder.require
  by_cases hf : f.has p
  · rw [if_pos hf, if_pos (h p hf)]
    exact .pure ()
  · rw [if_neg hf]
    by_cases hg : g.has p
    · exact .refused fun heq => hf (heq ▸ hg)
    · rw [if_neg hg]
      exact .fail hstart

theorem valueTypeOf (h : f ≤ g) : Parallel f g shift At id (Decoder.valueTypeOf f) (Decoder.valueTypeOf g) :=
  .start fun _ hstart => .bind valueType fun _ => .ite (.bind (require h _ hstart) fun _ => .pure _) (.pure _)

theorem blockType (h : f ≤ g) : Parallel f g shift At id (Decoder.blockType f) (Decoder.blockType g) :=
  .start fun _ hstart => .bind .peek fun _ =>
    .ite (.bind .byte fun _ => .pure _) <|
    .ite (.bind (valueTypeOf h) fun _ => .pure _) <|
    .bind (.signed (by decide)) fun _ => .bind (require h _ hstart) fun _ => .ite (.fail hstart) (.pure _)

theorem memArg : Parallel f g shift At id Decoder.memArg Decoder.memArg :=
  .bind .u32 fun _ => .bind .u32 fun _ => .pure _

theorem zeroByte : Parallel f g shift At id Decoder.zeroByte Decoder.zeroByte :=
  .start fun _ hstart => .bind .byte fun _ => .ite (.pure _) (.fail hstart)

theorem branchTable : Parallel f g shift At id Decoder.branchTable Decoder.branchTable :=
  .bind (vector .u32) fun _ => .bind .u32 fun _ => .pure _

theorem indirectCall (h : f ≤ g) : Parallel f g shift At id (Decoder.indirectCall f) (Decoder.indirectCall g) := by
  refine .bind .u32 fun type => .start fun start hstart => .bind .u32 fun table => .check hstart ?_ ?_ (.pure _)
  · simp only [id, Bool.and_eq_true, Bool.not_eq_true']
    refine And.imp_right fun hg => Bool.eq_false_iff.mpr fun hf => ?_
    exact Bool.eq_false_iff.mp hg (Features.referenceTypes_mono h hf)
  · rintro hf hg rfl
    exact hg hf

theorem typedSelect (h : f ≤ g) : Parallel f g shift At id (Decoder.typedSelect f) (Decoder.typedSelect g) :=
  .start fun _ hstart => .bind .u32 fun _ => .ite (.fail hstart) (.bind (valueTypeOf h) fun _ => .pure _)

theorem longInstruction (h : f ≤ g) (hstart : At start) :
    Parallel f g shift At id (Decoder.longInstruction f start) (Decoder.longInstruction g (shift start)) := by
  refine .bind .u32 fun sub => ?_
  dsimp only [id]
  split
  · exact .bind (require h _ hstart) fun _ => .pure _
  refine .bind (require h _ hstart) fun _ => ?_
  split
  case h_1 => exact .bind .u32 fun _ => .bind zeroByte fun _ => .pure _
  case h_3 => exact .bind zeroByte fun _ => .bind zeroByte fun _ => .pure _
  case h_4 => exact .bind zeroByte fun _ => .pure _
  case h_5 | h_7 => exact .bind .u32 fun _ => .bind .u32 fun _ => .pure _
  case h_11 => exact .fail hstart
  all_goals exact .bind .u32 fun _ => .pure _

theorem tabledInstruction (h : f ≤ g) (opcode : UInt8) (hstart : At start) : Parallel f g shift At id
    (Decoder.tabledInstruction f opcode start) (Decoder.tabledInstruction g opcode (shift start)) := by
  unfold Decoder.tabledInstruction
  split
  · exact .bind memArg fun _ => .pure _
  · exact .bind memArg fun _ => .pure _
  · exact .ite (.bind (require h _ hstart) fun _ => .pure _) (.pure _)
  · exact .fail hstart

theorem instruction (h : f ≤ g) : Parallel f g shift At id (Decoder.instruction f) (Decoder.instruction g) := by
  refine .start fun start hstart => .bind .byte fun opcode => ?_
  dsimp only [id]
  split
  case h_1 | h_2 | h_6 | h_7 | h_11 | h_14 | h_15 => exact .pure _
  case h_3 | h_4 | h_5 => exact .bind (blockType h) fun _ => .pure _
  case h_10 => exact branchTable
  case h_13 => exact indirectCall h
  case h_16 => exact .bind (require h _ hstart) fun _ => typedSelect h
  case h_22 | h_23 | h_32 => exact .bind (require h _ hstart) fun _ => .bind .u32 fun _ => .pure _
  case h_24 | h_25 => exact .bind zeroByte fun _ => .pure _
  case h_26 => exact .bind (.signed (by decide)) fun _ => .pure _
  case h_27 => exact .bind (.signed (by decide)) fun _ => .pure _
  case h_28 => exact .bind word32 fun _ => .pure _
  case h_29 => exact .bind word64 fun _ => .pure _
  case h_30 => exact .bind (require h _ hstart) fun _ => .bind refType fun _ => .pure _
  case h_31 => exact .bind (require h _ hstart) fun _ => .pure _
  case h_33 => exact longInstruction h hstart
  case h_34 => exact tabledInstruction h _ hstart
  all_goals exact .bind .u32 fun _ => .pure _

end Parallel

/-! ### Bodies and initializers -/

theorem instructionsFrom_zero (fuel : Nat) : instructionsFrom f fuel 0 = pure [] := by
  cases fuel <;> rfl

theorem instructionsFrom_exhausted (depth : Nat) :
    instructionsFrom f 0 (depth + 1) = (do fail (.shortage .body) (← position)) := by
  rw [instructionsFrom]
  exact Nat.succ_ne_zero depth

theorem instructionsFrom_succ (fuel depth : Nat) : instructionsFrom f (fuel + 1) (depth + 1) = (do
    let start ← position
    if ← atEnd then fail (.shortage .body) start
    let i ← instruction f
    let rest ← instructionsFrom f fuel (depthAfter (depth + 1) i)
    return (start, i) :: rest) := by
  rw [instructionsFrom]
  exact Nat.succ_ne_zero depth

namespace Parallel

variable {shift : Nat → Nat} {At : Nat → Prop}

theorem localGroups (h : f ≤ g) (limit : Nat) : ∀ groups total : Nat,
    Parallel f g shift At id (Decoder.localGroups f limit groups total) (Decoder.localGroups g limit groups total)
  | 0, _ => .pure _
  | groups + 1, total => .start fun _ hstart => .bind .u32 fun count => .gate hstart <|
      .bind (valueTypeOf h) fun _ => .bind (localGroups h limit groups (total + count)) fun _ => .pure _

theorem instructionsFrom (h : f ≤ g) (fuel depth : Nat) :
    Parallel f g shift At (List.map (Prod.map shift id)) (Decoder.instructionsFrom f fuel depth)
      (Decoder.instructionsFrom g fuel depth) := by
  induction fuel generalizing depth with
  | zero =>
    rcases depth with - | depth
    · rw [instructionsFrom_zero, instructionsFrom_zero]
      exact .pure []
    · rw [instructionsFrom_exhausted, instructionsFrom_exhausted]
      exact .start fun _ hstart => .fail hstart
  | succ fuel ih =>
    rcases depth with - | depth
    · rw [instructionsFrom_zero, instructionsFrom_zero]
      exact .pure []
    · rw [instructionsFrom_succ, instructionsFrom_succ]
      exact .start fun start hstart => .bind .atEnd fun _ => .gate hstart <|
        .bind (instruction h) fun i => .bind (ih _) fun rest => .pure ((start, i) :: rest)

theorem functionBody (h : f ≤ g) (limits : DecodeLimits) : Parallel f g shift At (FunctionBody.mapOffsets shift)
    (Decoder.functionBody f limits) (Decoder.functionBody g limits) :=
  .start fun offset _ => .bind count fun groups => .bind (localGroups h _ groups 0) fun locals =>
    .bind .remaining fun n => .bind (instructionsFrom h (n + 1) 1) fun code => .bind (.finish _) fun _ =>
      .pure ({ locals, code, offset } : FunctionBody)

/-- The opcodes of references are no others where their proposals are off: there they only fail. -/
theorem constInstruction (h : f ≤ g) :
    Parallel f g shift At id (Decoder.constInstruction f) (Decoder.constInstruction g) := by
  refine .start fun start hstart => .bind .byte fun opcode => ?_
  refine .ite (.bind (.signed (by decide)) fun _ => .pure _) <| .ite (.bind (.signed (by decide)) fun _ => .pure _) <|
    .ite (.bind word32 fun _ => .pure _) <| .ite (.bind word64 fun _ => .pure _) <|
    .ite (.bind .u32 fun _ => .pure _) ?_
  by_cases hrefs : (f.referenceTypes || f.bulkMemory) = (g.referenceTypes || g.bulkMemory)
  · rw [hrefs]
    exact .ite (.bind refType fun _ => .pure _) <| .ite (.bind .u32 fun _ => .pure _) <|
      .ite (.fail hstart) (.fail hstart)
  · have hne : f ≠ g := fun heq => hrefs (heq ▸ rfl)
    have hf : (f.referenceTypes || f.bulkMemory) = false := by
      refine Bool.eq_false_iff.mpr fun hf => hrefs (hf.trans (Eq.symm ?_))
      rw [Bool.or_eq_true] at hf ⊢
      exact hf.imp (h .referenceTypes) (h .bulkMemory)
    simp only [hf, Bool.and_false, Bool.false_eq_true, if_false]
    split <;> exact .refused hne

theorem constExpr (h : f ≤ g) : Parallel f g shift At id (Decoder.constExpr f) (Decoder.constExpr g) :=
  .bind (constInstruction h) fun _ => .start fun _ hclose => .bind .byte fun _ => .ite (.pure _) (.fail hclose)

/-! ### Parts of sections -/

theorem funcType (h : f ≤ g) : Parallel f g shift At id (Decoder.funcType f) (Decoder.funcType g) :=
  have hvalues := vector (valueTypeOf h)
  .start fun _ hstart => .bind .byte fun _ => .gate hstart <| .bind hvalues fun _ => .bind hvalues fun _ => .pure _

theorem tableType (h : f ≤ g) : Parallel f g shift At id (Decoder.tableType f) (Decoder.tableType g) :=
  .start fun _ hstart => .bind refType fun _ =>
    .ite (.bind (require h _ hstart) fun _ => .bind limits fun _ => .pure _) (.bind limits fun _ => .pure _)

theorem globalType (h : f ≤ g) : Parallel f g shift At id (Decoder.globalType f) (Decoder.globalType g) :=
  .bind (valueTypeOf h) fun _ => .start fun _ hstart => .bind .byte fun _ =>
    .ite (.pure _) (.ite (.pure _) (.fail hstart))

theorem importEntry (h : f ≤ g) : Parallel f g shift At id (Decoder.importEntry f) (Decoder.importEntry g) :=
  .bind name fun _ => .bind name fun _ => .start fun _ hstart => .bind .byte fun kind => by
    dsimp only [id]
    split
    · exact .bind .u32 fun _ => .pure _
    · exact .bind (tableType h) fun _ => .pure _
    · exact .bind limits fun _ => .pure _
    · exact .bind (globalType h) fun _ => .pure _
    · exact .fail hstart

theorem globalDef (h : f ≤ g) : Parallel f g shift At id (Decoder.globalDef f) (Decoder.globalDef g) :=
  .bind (globalType h) fun _ => .bind (constExpr h) fun _ => .pure _

theorem exportEntry : Parallel f g shift At id Decoder.exportEntry Decoder.exportEntry :=
  .bind name fun _ => .start fun _ hstart => .bind .byte fun kind => by
    dsimp only [id]
    split
    · exact .bind .u32 fun _ => .pure _
    · exact .fail hstart

theorem elementMode (h : f ≤ g) (flags : Nat) :
    Parallel f g shift At id (Decoder.elementMode f flags) (Decoder.elementMode g flags) :=
  .ite (.pure _) <| .ite (.bind .u32 fun _ => .bind (constExpr h) fun _ => .pure _)
    (.bind (constExpr h) fun _ => .pure _)

theorem elementType (h : f ≤ g) (flags : Nat) :
    Parallel f g shift At id (Decoder.elementType f flags) (Decoder.elementType g flags) :=
  .start fun _ hstart => .ite (.pure _) <|
    .ite (.bind refType fun _ => .ite (.bind (require h _ hstart) fun _ => .pure _) (.pure _))
      (.bind .byte fun _ => .gate hstart (.pure _))

/-- Reference types stand for bulk memory operations in element segments, so with them nothing is required. -/
theorem elementGate (h : f ≤ g) {α : Type} {flags start : Nat} (hstart : At start) {l l' : Unit → Decoder α}
    (hl : Parallel f g shift At id (l ()) (l' ())) : Parallel f g shift At id
      (if flags ≠ 0 && !f.referenceTypes then Decoder.require f .bulkMemory start >>= l else l ())
      (if flags ≠ 0 && !g.referenceTypes then Decoder.require g .bulkMemory (shift start) >>= l' else l' ()) := by
  by_cases hrefs : f.referenceTypes = g.referenceTypes
  · rw [hrefs]
    exact .ite (.bind (require h _ hstart) fun _ => hl) hl
  · have hne : f ≠ g := fun heq => hrefs (heq ▸ rfl)
    have hg : g.referenceTypes = true := by
      refine Bool.of_not_eq_false fun hg => hrefs ?_
      rw [hg]
      exact Bool.eq_false_iff.mpr fun hf => Bool.eq_false_iff.mp hg (Features.referenceTypes_mono h hf)
    rw [hg, Bool.not_true, Bool.and_false, if_neg Bool.false_ne_true]
    split
    · unfold Decoder.require
      split
      · exact hl
      · exact .refused hne
    · exact hl

theorem elementSegment (h : f ≤ g) :
    Parallel f g shift At id (Decoder.elementSegment f) (Decoder.elementSegment g) := by
  have hitem (flags : Nat) : Parallel f g shift At id
      (if flags.testBit 2 then Decoder.constExpr f else ConstExpr.refFunc <$> Decoder.u32)
      (if flags.testBit 2 then Decoder.constExpr g else ConstExpr.refFunc <$> Decoder.u32) :=
    .ite (constExpr h) (.map .u32 fun _ => rfl)
  exact .start fun start hstart => .bind .u32 fun flags => .gate hstart <| elementGate h hstart <|
    .bind (elementMode h _) fun _ => .bind (elementType h _) fun _ => .bind (vector (hitem flags)) fun _ => .pure _

theorem dataMode (h : f ≤ g) : Parallel f g shift At id (Decoder.dataMode f) (Decoder.dataMode g) :=
  .start fun _ hstart => .bind .u32 fun flags => by
    dsimp only [id]
    split
    · exact .bind (constExpr h) fun _ => .pure _
    · exact .bind (require h _ hstart) fun _ => .pure _
    · exact .bind (require h _ hstart) fun _ => .bind .u32 fun _ => .bind (constExpr h) fun _ => .pure _
    · exact .fail hstart

theorem dataSegment (h : f ≤ g) : Parallel f g shift At id (Decoder.dataSegment f) (Decoder.dataSegment g) :=
  .bind (dataMode h) fun _ => .bind .u32 fun _ => .bind (.bytes _) fun _ => .pure _

theorem sizedBody (h : f ≤ g) (limits : DecodeLimits) : Parallel f g shift At (FunctionBody.mapOffsets shift)
    (Decoder.sizedBody f limits) (Decoder.sizedBody g limits) :=
  .bind .u32 fun size => .within (fun _ => functionBody h limits) size fun _ _ _ => .pure _

end Parallel

end Decoder

end WasmEngine
