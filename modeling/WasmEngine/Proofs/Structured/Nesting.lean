import WasmEngine.Proofs.Validation.Bodies
import WasmEngine.Proofs.Binary.Bodies

/-!
# Blocks around a place in code

Code is a sequence of instructions, some of which open a block and one of which, `end`, closes the innermost. Which
blocks lie around a place in it is told by counting (`Instruction.Nests`): a block that was opened in front of the
place is open there if the code since then closes only what it opened itself, and its `end` is the first one behind
that closes more. So a label addresses one block (`Instruction.Addresses`), with the instruction that opened it, the op at which it
starts and the op at which its `end` stands. It addresses no other (`Instruction.Addresses.unique`).

Structured execution looks for the ends of blocks and for second arms by going through the code. What it finds is what
counting says (`Instruction.Closes.split`, `Instruction.split_secondArm`).
-/

namespace WasmEngine

namespace Instruction

/-! ### Counting -/

/-- **Code leads from one number of open blocks to another.** It opens blocks and closes them, but never more of them
than are open. -/
structure Nests (depth depth' : Nat) (is : List Instruction) : Prop where
  within : ∀ before, before <+: is → before.count .end_ ≤ depth + before.countP (·.opensBlock)
  total : depth + is.countP (·.opensBlock) = is.count .end_ + depth'

/-- One instruction leads from one number of open blocks to another. -/
def Shifts (depth depth' : Nat) (i : Instruction) : Prop :=
  depth + [i].countP (·.opensBlock) = [i].count .end_ + depth'

variable {depth depth₁ depth' n : Nat} {i : Instruction} {is js : List Instruction}

theorem shifts_flat (hi : i.opensBlock = false) (hend : i ≠ .end_) (depth : Nat) : i.Shifts depth depth := by
  simp [Shifts, hi, hend]

theorem shifts_opens (hi : i.opensBlock = true) (depth : Nat) : i.Shifts depth (depth + 1) := by
  have hend : i ≠ .end_ := by rintro rfl; cases hi
  simp [Shifts, hi, hend]

theorem shifts_end (depth : Nat) : end_.Shifts (depth + 1) depth := by
  simp [Shifts, opensBlock, Nat.add_comm]

namespace Nests

theorem nil (depth : Nat) : Nests depth depth [] where
  within := by
    rintro _ hpre
    obtain rfl := List.prefix_nil.mp hpre
    exact Nat.zero_le _
  total := by simp

theorem cons (hi : i.Shifts depth depth₁) (h : Nests depth₁ depth' is) : Nests depth depth' (i :: is) where
  within := by
    rintro _ hpre
    rw [Shifts] at hi
    rcases List.prefix_cons_iff.mp hpre with rfl | ⟨before, rfl, hbefore⟩
    · exact Nat.zero_le _
    · have hwithin := h.within before hbefore
      rw [← List.singleton_append, List.count_append, List.countP_append]
      omega
  total := by
    have htotal := h.total
    rw [Shifts] at hi
    rw [← List.singleton_append, List.count_append, List.countP_append]
    omega

theorem of_cons (hi : i.Shifts depth depth₁) (h : Nests depth depth' (i :: is)) : Nests depth₁ depth' is where
  within := by
    intro before hpre
    have hwithin := h.within (i :: before) (List.cons_prefix_cons.mpr ⟨rfl, hpre⟩)
    rw [Shifts] at hi
    rw [← List.singleton_append, List.count_append, List.countP_append] at hwithin
    omega
  total := by
    have htotal := h.total
    rw [Shifts] at hi
    rw [← List.singleton_append, List.count_append, List.countP_append] at htotal
    omega

theorem concat (h : Nests depth depth₁ is) (hi : i.Shifts depth₁ depth') : Nests depth depth' (is ++ [i]) where
  within := by
    intro before hpre
    rcases List.prefix_concat_iff.mp hpre with rfl | hbefore
    · have htotal := h.total
      rw [Shifts] at hi
      rw [List.count_append, List.countP_append]
      omega
    · exact h.within before hbefore
  total := by
    have htotal := h.total
    rw [Shifts] at hi
    rw [List.count_append, List.countP_append]
    omega

/-- No further `end` follows code that closed all blocks. -/
theorem not_end_prefix (h : Nests depth 0 is) (h' : Nests depth depth' js) : ¬is ++ [.end_] <+: js := by
  intro hpre
  have hwithin := h'.within _ hpre
  have htotal := h.total
  have hend := shifts_end 0
  rw [Shifts] at hend
  rw [List.count_append, List.countP_append] at hwithin
  omega

/-- Code leaves more blocks open than what stands in it behind one that it opens, if it closes none but its own. -/
theorem not_opens_suffix (hi : i.opensBlock = true) (h : Nests 0 n is) : ¬Nests 0 n (js ++ i :: is) := by
  intro h'
  have hwithin := h'.within js (List.prefix_append _ _)
  have htotal := h.total
  have htotal' := h'.total
  have hopens := shifts_opens hi 0
  rw [Shifts] at hopens
  rw [← List.singleton_append, List.count_append, List.countP_append, List.count_append, List.countP_append]
    at htotal'
  omega

end Nests

/-! ### What is found by going through code -/

/-- **The end of an open block is found** where the blocks within it are closed. -/
theorem Closes.split {code : List (Nat × Instruction)} (h : Closes depth (code.map (·.2))) {label : Nat}
    (hlt : label < depth) : ∃ ahead offset, code = ahead ++ (offset, .end_) :: behind label code ∧
      Nests label 0 (ahead.map (·.2)) := by
  induction code generalizing depth label with
  | nil =>
    obtain rfl := h.eq_zero_iff.mpr rfl
    exact absurd hlt (Nat.not_lt_zero _)
  | cons x rest ih =>
    obtain ⟨offset, i⟩ := x
    rw [List.map_cons] at h
    -- the instruction is the first of those in front of the end
    have hcons {depth₁ label₁ : Nat} (hrest : Closes depth₁ (rest.map (·.2))) (hlt : label₁ < depth₁)
        (hi : i.Shifts label label₁) (hbehind : behind label ((offset, i) :: rest) = behind label₁ rest) :
        ∃ ahead offset', (offset, i) :: rest = ahead ++ (offset', .end_) :: behind label ((offset, i) :: rest) ∧
          Nests label 0 (ahead.map (·.2)) := by
      obtain ⟨ahead, offset', hcode, hnests⟩ := ih hrest hlt
      refine ⟨(offset, i) :: ahead, offset', ?_, hnests.cons hi⟩
      rw [hbehind, List.cons_append, ← hcode]
    cases h with
    | @cons depth _ _ hrest =>
      cases i with
      | block | loop | if_ => exact hcons hrest (Nat.succ_lt_succ hlt) (shifts_opens rfl label) rfl
      | end_ =>
        cases label with
        | zero => exact ⟨[], offset, rfl, .nil 0⟩
        | succ label => exact hcons hrest (Nat.lt_of_succ_lt_succ hlt) (shifts_end label) rfl
      | _ => exact hcons hrest hlt (shifts_flat rfl (by nofun) label) rfl

/-- **A second arm is found** where the first arm closed all blocks that it opened, if it is found at all. -/
theorem split_secondArm (depth : Nat) (code : List (Nat × Instruction)) :
    (∀ second, secondArm depth code = some second → ∃ arm offset, code = arm ++ (offset, .else_) :: second ∧
      Nests depth 0 (arm.map (·.2))) ∧
    (secondArm depth code = none → ∀ arm offset second, code = arm ++ (offset, .else_) :: second →
      ¬Nests depth 0 (arm.map (·.2))) := by
  induction code generalizing depth with
  | nil =>
    constructor
    · intro second h
      cases h
    · intro _ arm offset second h
      cases arm <;> cases h
  | cons x rest ih =>
    obtain ⟨offset, i⟩ := x
    -- the instruction is the first of the arm
    have hcons {depth₁ : Nat} (hi : i.Shifts depth depth₁) (helse : i = .else_ → depth ≠ 0)
        (hsecond : secondArm depth ((offset, i) :: rest) = secondArm depth₁ rest) :
        (∀ second, secondArm depth ((offset, i) :: rest) = some second → ∃ arm offset', (offset, i) :: rest =
            arm ++ (offset', .else_) :: second ∧ Nests depth 0 (arm.map (·.2))) ∧
          (secondArm depth ((offset, i) :: rest) = none → ∀ arm offset' second, (offset, i) :: rest =
            arm ++ (offset', .else_) :: second → ¬Nests depth 0 (arm.map (·.2))) := by
      obtain ⟨hsome, hnone⟩ := ih depth₁
      rw [hsecond]
      constructor
      · intro second h
        obtain ⟨arm, offset', rfl, hnests⟩ := hsome second h
        exact ⟨(offset, i) :: arm, offset', rfl, hnests.cons hi⟩
      · intro h arm offset' second harm hnests
        cases arm with
        | nil =>
          cases harm
          have htotal : depth + 0 = 0 + 0 := hnests.total
          exact helse rfl htotal
        | cons y arm =>
          cases harm
          exact hnone h arm offset' second rfl (hnests.of_cons hi)
    cases i with
    | block | loop | if_ => exact hcons (shifts_opens rfl depth) nofun rfl
    | else_ =>
      cases depth with
      | zero =>
        constructor
        · intro second h
          cases h
          exact ⟨[], offset, rfl, .nil 0⟩
        · intro h
          cases h
      | succ depth => exact hcons (shifts_flat rfl (by nofun) _) (fun _ => Nat.succ_ne_zero _) rfl
    | end_ =>
      cases depth with
      | zero =>
        constructor
        · intro second h
          cases h
        · intro _ arm offset' second harm hnests
          cases arm with
          | nil => cases harm
          | cons y arm =>
            cases harm
            have hwithin : 1 ≤ 0 := hnests.within [.end_] (List.cons_prefix_cons.mpr ⟨rfl, List.nil_prefix⟩)
            exact absurd hwithin (Nat.not_lt_zero 0)
      | succ depth => exact hcons (shifts_end depth) nofun rfl
    | _ => exact hcons (shifts_flat rfl (by nofun) depth) nofun rfl

/-! ### Labels -/

/-- The number of ops that code becomes. -/
def opCount (code : List (Nat × Instruction)) : Nat := (code.map (·.2.width)).sum

@[simp] theorem opCount_nil : opCount [] = 0 := rfl

@[simp] theorem opCount_cons (x : Nat × Instruction) (code : List (Nat × Instruction)) :
    opCount (x :: code) = x.2.width + opCount code := rfl

@[simp] theorem opCount_append (code code' : List (Nat × Instruction)) :
    opCount (code ++ code') = opCount code + opCount code' := by
  simp [opCount]

/-- **A block is open behind code**: the one that a label addresses there. It was opened by an instruction of the code,
or else it is the body, which the code is the beginning of. Its first op has a number, and since it started as many
blocks were left open as the label says. -/
inductive Opened (front : List (Nat × Instruction)) (label : Nat) : Option Instruction → Nat → Prop
  | body : Nests 0 label (front.map (·.2)) → Opened front label none 0
  | block {outer inner : List (Nat × Instruction)} {offset : Nat} {i : Instruction} : i.opensBlock = true →
    front = outer ++ (offset, i) :: inner → Nests 0 label (inner.map (·.2)) →
    Opened front label (some i) (opCount outer + i.width)

/-- **A label addresses a block** at a place with code in front of it and code behind: one that is open there, with the
op at its start and the op that its `end` stands at. -/
structure Addresses (front back : List (Nat × Instruction)) (label : Nat) (opener : Option Instruction)
    (start close : Nat) : Prop where
  opened : Opened front label opener start
  closed : ∃ ahead offset rest, back = ahead ++ (offset, .end_) :: rest ∧ Nests label 0 (ahead.map (·.2)) ∧
    close = opCount (front ++ ahead)

variable {front back : List (Nat × Instruction)} {label label' start start' close close' : Nat}
  {opener opener' : Option Instruction}

/-- One more instruction leaves a block open, unless it closes it. -/
theorem Opened.concat (h : Opened front label opener start) (hi : i.Shifts label label') (offset : Nat) :
    Opened (front ++ [(offset, i)]) label' opener start := by
  cases h with
  | body hnests =>
    refine .body ?_
    rw [List.map_append]
    exact hnests.concat hi
  | @block outer inner offset' j hj hfront hnests =>
    have hfront' : front ++ [(offset, i)] = outer ++ (offset', j) :: (inner ++ [(offset, i)]) := by
      rw [hfront, List.append_assoc]
      rfl
    refine .block hj hfront' ?_
    rw [List.map_append]
    exact hnests.concat hi

/-- A list that is split at two elements is split at the same place, or at one in front of the other. -/
theorem append_cons_cases {α : Type} {as bs as' bs' : List α} {x y : α} (h : as ++ x :: bs = as' ++ y :: bs') :
    as' = as ∧ y = x ∧ bs' = bs ∨ (∃ between, as' = as ++ x :: between ∧ bs = between ++ y :: bs') ∨
      ∃ between, as = as' ++ y :: between ∧ bs' = between ++ x :: bs := by
  rcases List.append_eq_append_iff.mp h with ⟨between, has, hbs⟩ | ⟨between, has, hbs⟩
  · cases between with
    | nil =>
      cases hbs
      exact .inl ⟨has.trans (List.append_nil as), rfl, rfl⟩
    | cons z between =>
      cases hbs
      exact .inr (.inl ⟨between, has, rfl⟩)
  · cases between with
    | nil =>
      cases hbs
      exact .inl ⟨(has.trans (List.append_nil as')).symm, rfl, rfl⟩
    | cons z between =>
      cases hbs
      exact .inr (.inr ⟨between, has, rfl⟩)

/-- Code can be split in one way so that as many blocks are left open behind the opener. -/
theorem Opened.unique (h : Opened front label opener start) (h' : Opened front label opener' start') :
    opener' = opener ∧ start' = start := by
  -- of two splits, one cannot open its block behind that of the other
  have hsplit {before inner inner' : List (Nat × Instruction)} {x : Nat × Instruction} (hx : x.2.opensBlock = true)
      (hnests : Nests 0 label (inner.map (·.2))) (hnests' : Nests 0 label (inner'.map (·.2)))
      (h : inner' = before ++ x :: inner) : False := by
    rw [h, List.map_append] at hnests'
    exact Nests.not_opens_suffix hx hnests hnests'
  cases h with
  | body hnests =>
    cases h' with
    | body => exact ⟨rfl, rfl⟩
    | block hj hfront hnests' => exact (hsplit hj hnests' hnests hfront).elim
  | @block outer inner offset j hj hfront hnests =>
    cases h' with
    | body hnests' => exact (hsplit hj hnests hnests' hfront).elim
    | @block outer' inner' offset' j' hj' hfront' hnests' =>
      rcases append_cons_cases (hfront.symm.trans hfront') with ⟨rfl, hx, -⟩ | ⟨between, -, rfl⟩ | ⟨between, -, rfl⟩
      · cases hx
        exact ⟨rfl, rfl⟩
      · exact (hsplit hj' hnests' hnests rfl).elim
      · exact (hsplit hj hnests hnests' rfl).elim

/-- **A label addresses one block.** -/
theorem Addresses.unique (h : Addresses front back label opener start close)
    (h' : Addresses front back label opener' start' close') : opener' = opener ∧ start' = start ∧ close' = close := by
  obtain ⟨hopener, hstart⟩ := h.opened.unique h'.opened
  obtain ⟨ahead, offset, rest, hback, hnests, rfl⟩ := h.closed
  obtain ⟨ahead', offset', rest', hback', hnests', rfl⟩ := h'.closed
  refine ⟨hopener, hstart, ?_⟩
  -- of two splits, one cannot end its block in front of that of the other
  have hsplit {between ahead ahead' : List (Nat × Instruction)} {offset : Nat}
      (hnests : Nests label 0 (ahead.map (·.2))) (hnests' : Nests label 0 (ahead'.map (·.2)))
      (h : ahead' = ahead ++ (offset, .end_) :: between) : False := by
    refine hnests.not_end_prefix hnests' ⟨between.map (·.2), ?_⟩
    rw [h, List.map_append, List.append_assoc]
    rfl
  rcases append_cons_cases (hback.symm.trans hback') with ⟨rfl, -⟩ | ⟨between, hahead, -⟩ | ⟨between, hahead, -⟩
  · rfl
  · exact (hsplit hnests hnests' hahead).elim
  · exact (hsplit hnests' hnests hahead).elim

end Instruction

end WasmEngine
