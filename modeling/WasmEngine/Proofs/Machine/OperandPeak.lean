import WasmEngine.Proofs.Machine.Counters
import WasmEngine.Proofs.Machine.StackBound

/-!
# The peak of the operand stack

The statistics have the largest operand stack that there was. The height of the stack is noted when a function is
entered, and again when it returns, and at no other time (`Machine.History.peakOperandStack_eq`). In between it goes up
and down, and what was highest in the middle of a body is lost. So the statistic is never too high, and it is right
exactly if no op has left more cells on a stack than some function was entered with, or returned from
(`Machine.History.peakOperandStack_eq_iff`).
-/

namespace WasmEngine

variable {σ : Type}

/-! ### What does not note a height -/

/-- The peak of the operand stack is as it was. -/
def Store.Unnoted (s s' : Store σ) : Prop := s'.stats.peakOperandStack = s.stats.peakOperandStack

/-- The same for running code. -/
def Running.Unnoted (r r' : Running σ) : Prop := r.store.Unnoted r'.store

instance : IsPreorder (Store σ) Store.Unnoted where
  refl _ := rfl
  trans _ _ _ h h' := Eq.trans h' h

namespace Store

theorem Uncounted.unnoted {s s' : Store σ} (h : s.Uncounted s') : s.Unnoted s' := congrArg Stats.peakOperandStack h.stats

theorem unnoted_charge : Keeps Unnoted (charge : StoreM σ Unit) := by
  intro s
  unfold charge
  dsimp only
  split <;> rfl

end Store

/-- **No op but a return notes the height of the stack.** -/
theorem Op.unnoted_exec (f : Frame) {op : Op} (hop : op ≠ .ret) : Keeps Running.Unnoted (op.exec f : Exec σ Flow) :=
  fun r => (op.uncounted_exec f hop r).unnoted

open Exec

/-- A frame is about to return: it is at a return, and there is fuel to pay for it. -/
def Frame.returns (f : Frame) (s : Store σ) : Bool :=
  f.hasOp s && f.body.ops[f.pc]? = some .ret && s.fuel ≠ some 0

/-- **Running a frame notes the height of the stack if it returns.** -/
theorem Frame.peak_exec (f : Frame) (r : Running σ) : (endState (f.exec r)).store.stats.peakOperandStack =
    if f.returns r.store then max r.store.stats.peakOperandStack r.stack.height
    else r.store.stats.peakOperandStack := by
  cases h : f.hasOp r.store with
  | false =>
    obtain ⟨fault, he⟩ := exec_of_not_hasOp h
    have he : f.exec r = .error _ r := he id
    rw [he, returns, h]
    rfl
  | true =>
    obtain ⟨op, hop, hexec⟩ := exec_of_hasOp h
    obtain ⟨store, stack⟩ := r
    have hcharge := Store.unnoted_charge store
    rw [hexec, returns, h, hop]
    cases hr : Store.charge store with
    | error e s' =>
      rw [hr] at hcharge
      rw [estate_bind_of_error (show onStore Store.charge ⟨store, stack⟩ = .error e ⟨s', stack⟩ by rw [onStore, hr])]
      rw [if_neg (by simp [Store.charge_eq_error hr])]
      exact hcharge
    | ok a s' =>
      rw [hr] at hcharge
      rw [estate_bind_of_ok (show onStore Store.charge ⟨store, stack⟩ = .ok a ⟨s', stack⟩ by rw [onStore, hr])]
      have hfuel : store.fuel ≠ some 0 := by
        intro hzero
        cases (Store.charge_of_zero hzero).symm.trans hr
      by_cases hret : op = .ret
      · subst hret
        rw [if_pos (by simpa using hfuel)]
        change max s'.stats.peakOperandStack stack.height = _
        exact congrArg (max · stack.height) hcharge
      · rw [if_neg (by simp [hret])]
        exact trans_of Store.Unnoted hcharge (op.unnoted_exec f hret ⟨s', stack⟩)

/-- **A function that is entered notes the height of the stack**, with its locals on it. -/
theorem Invocation.enter_peak {inv inv' : Invocation} {f : WasmFunc} {s s' : Store σ}
    (h : inv.enter f s = .ok inv' s') :
    s'.stats.peakOperandStack = max s.stats.peakOperandStack inv'.stack.height := by
  unfold enter at h
  dsimp only at h
  split at h
  · cases h
  split at h
  · cases h
  split at h
  · cases h
  split at h
  · cases h
  · cases h
    rfl

namespace Machine

/-! ### Heights -/

/-- The number of cells on the stack of the code that runs, if there is any. -/
def height? (m : Machine σ) : Option Nat :=
  match m.control with
  | .guest inv => some inv.stack.height
  | _ => none

/-- The number of cells that the op that the machine is about to run leaves on the stack, whatever comes of it. -/
def behindOp? : Machine σ → Option Nat
  | ⟨s, .guest ⟨stack, f :: _, _⟩, _⟩ => if f.hasOp s then some (endState (f.exec ⟨s, stack⟩)).stack.height else none
  | _ => none

/-- **What is on stacks in a step**: behind the op, if one runs, and then on the stack of the code that goes on, where a
function may have been entered, or have got the results of a host function that it called. -/
def heights (m : Machine σ) : List Nat := m.behindOp?.toList ++ m.step.height?.toList

/-- The height of the stack from which the machine is about to return. -/
def leaving? : Machine σ → Option Nat
  | ⟨s, .guest ⟨stack, f :: _, _⟩, _⟩ => if f.returns s then some stack.height else none
  | _ => none

theorem height?_of_leaving {m : Machine σ} {n : Nat} (h : m.leaving? = some n) : m.height? = some n := by
  unfold leaving? at h
  split at h
  · split at h
    · exact h
    · cases h
  · cases h

/-- The height of the stack with which a function is entered in a step. -/
def entering? (m : Machine σ) : Option Nat := if m.frames.length < m.step.frames.length then m.step.height? else none

/-- **What is noted in a step.** -/
def noted (m : Machine σ) : List Nat := m.entering?.toList ++ m.leaving?.toList

/-- The largest of some numbers. -/
def largest (ns : List Nat) : Nat := ns.foldr max 0

/-- **The true peak** of the operand stack in some steps. -/
def truePeak (ms : List (Machine σ)) : Nat := largest (ms.flatMap heights)

theorem foldr_max (ns : List Nat) (n : Nat) : ns.foldr max n = max (largest ns) n := by
  induction ns with
  | nil => exact (Nat.zero_max n).symm
  | cons k ns ih => rw [List.foldr_cons, ih, largest, largest, List.foldr_cons, Nat.max_assoc]

theorem largest_append (ns ns' : List Nat) : largest (ns ++ ns') = max (largest ns) (largest ns') := by
  rw [largest, List.foldr_append]
  exact foldr_max ns _

theorem largest_le {ns : List Nat} {n : Nat} : largest ns ≤ n ↔ ∀ k ∈ ns, k ≤ n := by
  induction ns with
  | nil => simp [largest]
  | cons k ns ih =>
    rw [largest, List.foldr_cons, Nat.max_le, List.forall_mem_cons, ← ih]
    rfl

theorem le_largest_iff {ns : List Nat} {n : Nat} : n ≤ largest ns ↔ n = 0 ∨ ∃ k ∈ ns, n ≤ k := by
  induction ns with
  | nil => simp [largest]
  | cons k ns ih =>
    change n ≤ max k (largest ns) ↔ _
    rw [le_max_iff, ih, List.exists_mem_cons_iff]
    exact or_left_comm

/-! ### Steps -/

/-- **The peak takes account of a frame that starts**, and of nothing else. Before, there were a number of frames. -/
def Samples (peak frames : Nat) (m : Machine σ) : Prop :=
  m.store.stats.peakOperandStack =
    max peak ((if frames < m.frames.length then m.height? else none).getD 0)

section

variable {s : Store σ} {waiting : List (Waiting σ)} {peak frames : Nat} {m : Machine σ}

theorem samples_of_le (hframes : m.frames.length ≤ frames) (hpeak : m.store.stats.peakOperandStack = peak) :
    Samples peak frames m := by
  rw [Samples, if_neg (Nat.not_lt.mpr hframes), hpeak]
  exact (Nat.max_zero peak).symm

theorem samples_fail (inv : Invocation) (e : Error) :
    Samples s.stats.peakOperandStack (inv.frames ++ framesOf waiting).length (fail s inv e waiting) :=
  samples_of_le (by simp [fail, Machine.frames, Control.frames]) rfl

theorem samples_callHost (inv : Invocation) (f : HostFunc σ) :
    Samples s.stats.peakOperandStack (inv.frames ++ framesOf waiting).length (callHost s inv f waiting) := by
  unfold callHost
  dsimp only
  split
  · exact samples_fail inv _
  · exact samples_of_le (Nat.le_refl _) rfl

theorem samples_callFrom (inv : Invocation) (addr : Nat) :
    Samples s.stats.peakOperandStack (inv.frames ++ framesOf waiting).length (callFrom s inv addr waiting) := by
  have hpoll := (Store.uncounted_pollInterrupt s).unnoted
  unfold callFrom
  cases hp : Store.pollInterrupt s with
  | error e s₁ =>
    rw [hp] at hpoll
    exact hpoll ▸ samples_fail inv e
  | ok _ s₁ =>
    rw [hp] at hpoll
    have hpeak : s₁.stats.peakOperandStack = s.stats.peakOperandStack := hpoll
    rw [← hpeak]
    dsimp only
    split
    · exact samples_fail inv _
    · next f hf =>
      cases hr : inv.enter f s₁ with
      | error e s₂ =>
        obtain rfl := Invocation.enter_eq_error hr
        exact samples_fail inv e
      | ok inv' s₂ =>
        obtain ⟨_, _, -, -, -, -, hframes, -, -⟩ := Invocation.enter_eq_ok hr
        have hlt : (inv.frames ++ framesOf waiting).length <
            (⟨s₂, .guest inv', waiting⟩ : Machine σ).frames.length := by
          simp [Machine.frames, Control.frames, hframes]
        rw [Samples, if_pos hlt]
        exact Invocation.enter_peak hr
    · exact samples_callHost inv _

theorem samples_invoke (addr : Nat) (args : List Value) :
    Samples s.stats.peakOperandStack (framesOf waiting).length (invoke s addr args waiting) := by
  unfold invoke
  split
  · exact samples_of_le (Nat.le_refl _) rfl
  · have hpoll := (Store.uncounted_pollInterrupt s).unnoted
    cases hp : Store.pollInterrupt s <;> rw [hp] at hpoll <;> exact samples_of_le (Nat.le_refl _) hpoll
  · exact samples_callFrom _ addr

theorem samples_call (h : Handle .func) (args : List Value) :
    Samples s.stats.peakOperandStack (framesOf waiting).length (call s h args waiting) := by
  unfold call
  split
  · exact samples_of_le (Nat.le_refl _) rfl
  · exact samples_invoke _ args

theorem samples_instantiate (m : Module) (entities : List Extern) :
    Samples s.stats.peakOperandStack (framesOf waiting).length (instantiate s m entities waiting) := by
  have hkeeps := (Store.uncounted_of_commutes (fun _ => Store.commutes_instantiate m entities) s).unnoted
  unfold instantiate
  dsimp only
  cases hr : Store.instantiate m entities s with
  | error e s₁ =>
    rw [hr] at hkeeps
    exact samples_of_le (Nat.le_refl _) hkeeps
  | ok start s₁ =>
    rw [hr] at hkeeps
    have hpeak : s₁.stats.peakOperandStack = s.stats.peakOperandStack := hkeeps
    cases start with
    | none => exact samples_of_le (Nat.le_refl _) hkeeps
    | some addr =>
      rw [← hpeak]
      exact samples_invoke addr []

theorem samples_settle {α : Type} {act : StoreM σ α} (hact : Keeps Store.Uncounted act)
    (next : Except Error α → HostProgram σ) (caller : Option Nat) (type : FuncType) :
    Samples s.stats.peakOperandStack (framesOf waiting).length
      ⟨(settle (act s)).2, .host caller type (next (settle (act s)).1), waiting⟩ := by
  have hs := (hact s).unnoted
  cases hr : act s <;> rw [hr] at hs <;> exact samples_of_le (Nat.le_refl _) hs

theorem samples_deliver (w : Waiting σ) (result : Except Error (List Value)) :
    Samples s.stats.peakOperandStack (framesOf (w :: waiting)).length (deliver s result w waiting) := by
  cases w with
  | host caller type next => exact samples_of_le (Nat.le_refl _) rfl
  | start place => cases result <;> exact samples_of_le (Nat.le_refl _) rfl
  | guest inv type depth =>
    unfold deliver
    dsimp only
    split
    · exact samples_fail (s := { s with depth }) inv _
    · split
      · exact samples_fail (s := { s with depth }) inv _
      · refine samples_of_le ?_ rfl
        obtain ⟨stack, frames, types⟩ := inv
        cases frames <;> exact Nat.le_refl _

theorem samples_stepGuest (inv : Invocation) :
    Samples (max s.stats.peakOperandStack ((leaving? ⟨s, .guest inv, waiting⟩).getD 0))
      (inv.frames ++ framesOf waiting).length (stepGuest s inv waiting) := by
  obtain ⟨stack, frames, types⟩ := inv
  cases frames with
  | nil => exact samples_of_le (Nat.le_refl _) (Nat.max_zero _).symm
  | cons f rest =>
    have hpeak := f.peak_exec ⟨s, stack⟩
    have hleaving : (endState (f.exec ⟨s, stack⟩)).store.stats.peakOperandStack =
        max s.stats.peakOperandStack ((leaving? ⟨s, .guest ⟨stack, f :: rest, types⟩, waiting⟩).getD 0) := by
      rw [hpeak, leaving?]
      split
      · rfl
      · exact (Nat.max_zero _).symm
    rw [← hleaving]
    cases hr : f.exec ⟨s, stack⟩ with
    | error e r =>
      rw [stepGuest_of_error hr]
      exact samples_fail ⟨r.stack, f :: rest, types⟩ e
    | ok flow r =>
      rw [stepGuest_of_ok hr]
      cases flow with
      | next | goto => exact samples_of_le (Nat.le_refl _) rfl
      | call addr => exact samples_callFrom ⟨r.stack, f :: rest, types⟩ addr
      | ret =>
        cases rest with
        | nil => exact samples_of_le (Nat.le_succ _) rfl
        | cons g rest => exact samples_of_le (Nat.le_succ _) rfl

end

/-- **A step notes heights as it is said to**, unless it sets all counters to zero. -/
theorem peak_step (m : Machine σ) : m.step.store.stats.peakOperandStack =
    if m.resets then 0 else max m.store.stats.peakOperandStack (largest m.noted) := by
  have hnoted {n : Nat} (hn : m.leaving?.getD 0 = n)
      (h : Samples (max m.store.stats.peakOperandStack n) m.frames.length m.step) :
      m.step.store.stats.peakOperandStack = max m.store.stats.peakOperandStack (largest m.noted) := by
    have hlargest (o : Option Nat) : largest o.toList = o.getD 0 := by
      cases o <;> simp [largest]
    rw [h, noted, largest_append, hlargest, hlargest, hn, entering?, Nat.max_assoc, Nat.max_comm n]
  obtain ⟨s, control, waiting⟩ := m
  have hidle (hn : leaving? ⟨s, control, waiting⟩ = none)
      (h : Samples s.stats.peakOperandStack (frames ⟨s, control, waiting⟩).length (step ⟨s, control, waiting⟩)) :
      (step ⟨s, control, waiting⟩).store.stats.peakOperandStack =
        max s.stats.peakOperandStack (largest (noted ⟨s, control, waiting⟩)) :=
    hnoted (n := 0) (by rw [hn]; rfl) (by rwa [Nat.max_zero])
  cases control with
  | guest inv => exact hnoted rfl (samples_stepGuest inv)
  | host caller type p =>
    cases p with
    | call h args next => exact hidle rfl (samples_call h args)
    | instantiate m entities next => exact hidle rfl (samples_instantiate m entities)
    | operate request next =>
      by_cases hreset : request = .resetStats
      · subst hreset
        rfl
      · have hno : resets ⟨s, .host caller type (.operate request next), waiting⟩ = false := by
          cases request <;> first | rfl | exact absurd rfl hreset
        rw [hno]
        exact hidle rfl (samples_settle (Store.uncounted_perform request hreset) next caller type)
    | readMemory start length next =>
      refine hidle rfl ?_
      unfold Machine.step stepHost
      dsimp only
      split
      · exact samples_of_le (Nat.le_refl _) rfl
      · exact samples_settle (Store.uncounted_of_commutes fun _ => Store.commutes_readMemory _ _ _) next caller type
    | writeMemory start bytes next =>
      refine hidle rfl ?_
      unfold Machine.step stepHost
      dsimp only
      split
      · exact samples_of_le (Nat.le_refl _) rfl
      · exact samples_settle (Store.uncounted_of_commutes fun _ => Store.commutes_writeMemory _ _ _) next caller type
    | _ => exact hidle rfl (samples_of_le (Nat.le_refl _) rfl)
  | outcome result =>
    cases waiting with
    | nil => exact hidle rfl (samples_of_le (Nat.le_refl _) rfl)
    | cons w waiting => exact hidle rfl (samples_deliver w result)

/-! ### Since the last reset -/

section

variable {m : Machine σ} {past : List (Machine σ)}

/-- A machine that has come to its end goes on with nothing. -/
theorem heights_halted (s : Store σ) (result : Except Error (List Value)) :
    heights (⟨s, .outcome result, []⟩ : Machine σ) = [] := rfl

theorem noted_halted (s : Store σ) (result : Except Error (List Value)) :
    noted (⟨s, .outcome result, []⟩ : Machine σ) = [] := by
  simp [noted, entering?, leaving?, step]

namespace History

/-- **The peak that is noted** is the largest height with which a function was entered, or from which one returned. -/
theorem peakOperandStack_eq (h : History m past) :
    m.store.stats.peakOperandStack = largest (past.flatMap noted) := by
  induction h with
  | empty => rfl
  | @program s result past _ _ _ ih =>
    rw [List.flatMap_cons, noted_halted]
    exact ih
  | @step m past _ hresets ih =>
    rw [peak_step, hresets, List.flatMap_cons, largest_append, Nat.max_comm, ← ih]
    rfl
  | reset _ hresets =>
    rw [peak_step, hresets]
    rfl

/-- What is on the stack of the code that runs has been seen before. -/
theorem height_mem (h : History m past) {n : Nat} (hn : m.height? = some n) : n ∈ past.flatMap heights := by
  cases h with
  | empty | program => cases hn
  | @step m past _ _ =>
    rw [List.flatMap_cons]
    refine List.mem_append_left _ (List.mem_append_right _ ?_)
    rw [hn]
    exact List.mem_singleton_self n
  | @reset m _ _ hresets =>
    unfold resets at hresets
    split at hresets
    · cases hn
    · cases hresets

/-- **No height is noted that no stack has had.** -/
theorem mem_heights_of_noted (h : History m past) : ∀ n ∈ past.flatMap noted, n ∈ past.flatMap heights := by
  induction h with
  | empty | reset => exact nofun
  | @program s result past _ _ _ ih =>
    rw [List.flatMap_cons, List.flatMap_cons, noted_halted, heights_halted]
    exact ih
  | @step m past hm _ ih =>
    intro n hn
    rw [List.flatMap_cons] at hn ⊢
    rcases List.mem_append.mp hn with hn | hn
    · rcases List.mem_append.mp hn with hn | hn
      · refine List.mem_append_left _ (List.mem_append_right _ ?_)
        rw [entering?] at hn
        split at hn
        · exact hn
        · cases hn
      · exact List.mem_append_right _ (hm.height_mem (height?_of_leaving (Option.mem_toList.mp hn)))
    · exact List.mem_append_right _ (ih n hn)

/-- **The peak is that of entries and returns.** It is the largest height with which a function was entered, or from
which one returned, since the counters were last set to zero. So it is never above the true peak, and it is the true
peak exactly if no stack has had more cells than at all of these. -/
theorem peakOperandStack_eq_iff (h : History m past) :
    m.store.stats.peakOperandStack = largest (past.flatMap noted) ∧
    m.store.stats.peakOperandStack ≤ truePeak past ∧
    (m.store.stats.peakOperandStack = truePeak past ↔
      ∀ n ∈ past.flatMap heights, n = 0 ∨ ∃ k ∈ past.flatMap noted, n ≤ k) := by
  have hle : m.store.stats.peakOperandStack ≤ truePeak past := by
    rw [h.peakOperandStack_eq, largest_le]
    exact fun n hn => le_largest_iff.mpr (.inr ⟨n, h.mem_heights_of_noted n hn, Nat.le_refl n⟩)
  refine ⟨h.peakOperandStack_eq, hle, ?_⟩
  calc m.store.stats.peakOperandStack = truePeak past
    _ ↔ truePeak past ≤ m.store.stats.peakOperandStack := ⟨fun heq => heq.ge, hle.antisymm⟩
    _ ↔ ∀ n ∈ past.flatMap heights, n ≤ largest (past.flatMap noted) := by
      rw [truePeak, largest_le, h.peakOperandStack_eq]
    _ ↔ _ := forall₂_congr fun _ _ => le_largest_iff

end History

end

/-! ### A peak that is missed -/

/-- The machines on the way through some steps, the last one first. -/
def trail (m : Machine σ) (n : Nat) : List (Machine σ) := (List.range n).reverse.map m.run

theorem History.run_trail {m : Machine σ} {past : List (Machine σ)} (h : History m past) {n : Nat}
    (hresets : ∀ k < n, (m.run k).resets = false) : History (m.run n) (trail m n ++ past) := by
  induction n with
  | zero => exact h
  | succ n ih =>
    have hbefore := ih fun k hk => hresets k (Nat.lt_succ_of_lt hk)
    rw [run_succ, trail, List.range_succ, List.reverse_append, List.map_append]
    exact hbefore.step (hresets n (Nat.lt_succ_self n))

/-- The machines on the way through a call of a function that adds one to its parameter. -/
def climbed : List (Machine Unit) := trail climbing 8 ++
  [⟨.new 0 { maxValueStack := 3 } (), .host none ⟨[], []⟩ (.instantiate .successor [] fun _ =>
    .call ⟨0, 0⟩ [.i32 41] fun _ => .return_ []), []⟩, ⟨.new 0 { maxValueStack := 3 } (), .outcome (.ok []), []⟩]

/-- The function is entered with one cell on the stack, and returns from two. In between there are three. -/
theorem History.peakOperandStack_climbing : History (climbing.run 8) climbed ∧
    (climbing.run 8).outcome?.isSome = true ∧ (climbing.run 8).store.stats.peakOperandStack = 2 ∧
    truePeak climbed = 3 ∧ ∃ n ∈ climbed.flatMap heights, n ≠ 0 ∧ ∀ k ∈ climbed.flatMap noted, k < n := by
  have hstart : History climbing _ := .step (.program (.empty 0 { maxValueStack := 3 } ())
    ⟨Module.valid_get _, fun _ _ => trivial⟩) rfl
  have hrun : History (climbing.run 8) climbed := hstart.run_trail (by decide +kernel)
  have hnoted : (climbing.run 8).store.stats.peakOperandStack = 2 := by decide +kernel
  have htrue : truePeak climbed = 3 := by decide +kernel
  refine ⟨hrun, by decide +kernel, hnoted, htrue, ?_⟩
  obtain ⟨-, -, hiff⟩ := hrun.peakOperandStack_eq_iff
  have hmissed : ¬∀ n ∈ climbed.flatMap heights, n = 0 ∨ ∃ k ∈ climbed.flatMap noted, n ≤ k := by
    rw [← hiff, hnoted, htrue]
    decide
  push Not at hmissed
  exact hmissed

end Machine

end WasmEngine
