import WasmEngine.Proofs.Machine.Calling
import WasmEngine.Proofs.Machine.WellTyped

/-!
# The depth of calls, and what is counted

However calls are nested, through code, through host functions that call back and through start functions, and
whatever comes of them, the number of active frames never exceeds the limit of the configuration
(`Machine.Reached.frames_le`). This is since the depth of a store is right at all times (`Machine.Leveled`), and so a
call is compared with the number of all frames that are active, its own invocation's or not.

The peak in the statistics is noted when a frame starts. So it is the largest number of frames that were active at
such a time since the counters were last set to zero (`Machine.History.peak_eq`). Frames that were active when that was
done, by a host function, are not in it: only together with them it is the largest number of frames that were active at
any time (`Machine.max_peak_outset`).

The counter of ops is simpler. It says how many ops have run (`Machine.Leveled.opsExecuted_run`).
-/

namespace WasmEngine

variable {σ : Type}

namespace Machine

/-! ### What came since the last reset -/

/-- **A machine that is reached, with those that came before it** since the counters were last set to zero, the last one
first. -/
inductive History : Machine σ → List (Machine σ) → Prop
  | empty (id : Nat) (config : Config) (state : σ) : History ⟨.new id config state, .outcome (.ok []), []⟩ []
  | program {s : Store σ} {result : Except Error (List Value)} {past : List (Machine σ)} {p : HostProgram σ} :
    History ⟨s, .outcome result, []⟩ past → p.WellFormed →
    History ⟨s, .host none ⟨[], []⟩ p, []⟩ (⟨s, .outcome result, []⟩ :: past)
  | step {m : Machine σ} {past : List (Machine σ)} : History m past → m.resets = false → History m.step (m :: past)
  | reset {m : Machine σ} {past : List (Machine σ)} : History m past → m.resets = true → History m.step []

/-- The machine as it was when the counters were last set to zero. -/
def outset (m : Machine σ) (past : List (Machine σ)) : Machine σ := past.getLast?.getD m

/-- **The largest number of frames** that were active at a time. -/
def most (ms : List (Machine σ)) : Nat := (ms.map fun m => m.frames.length).foldr max 0

/-- **The largest number of frames that were active when one of them had just started.** -/
def peak : Machine σ → List (Machine σ) → Nat
  | _, [] => 0
  | m', m :: past => if m.frames.length < m'.frames.length then max (peak m past) m'.frames.length else peak m past

section

variable {m m' : Machine σ} {past : List (Machine σ)} {log : List (Event σ)}

@[simp] theorem outset_nil : outset m [] = m := rfl

@[simp] theorem outset_cons : outset m' (m :: past) = outset m past := by
  rw [outset, List.getLast?_cons]
  rfl

@[simp] theorem most_cons : most (m :: past) = max m.frames.length (most past) := rfl

/-- **More frames are active only when one has started**, or at the outset. -/
theorem max_peak_outset (m : Machine σ) (past : List (Machine σ)) :
    max (peak m past) (outset m past).frames.length = most (m :: past) := by
  induction past generalizing m with
  | nil => rw [outset_nil, most_cons, peak, Nat.max_comm]; rfl
  | cons before past ih =>
    rw [outset_cons, most_cons, ← ih before, peak]
    have hbefore : before.frames.length ≤ max (peak before past) (outset before past).frames.length := by
      rw [ih before, most_cons]
      exact Nat.le_max_left _ _
    split <;> omega

namespace Reached

/-- Whatever is reached has a history. -/
theorem history (h : Reached m log) : ∃ past, History m past := by
  induction h with
  | empty id config state => exact ⟨[], .empty id config state⟩
  | program _ hp ih =>
    obtain ⟨past, h⟩ := ih
    exact ⟨_, .program h hp⟩
  | @step m _ _ ih =>
    obtain ⟨past, h⟩ := ih
    cases hresets : m.resets with
    | false => exact ⟨_, .step h hresets⟩
    | true => exact ⟨_, .reset h hresets⟩

/-- **At no time, more frames are active than the configuration allows.** -/
theorem frames_le (h : Reached m log) : m.frames.length ≤ m.store.config.maxCallDepth := by
  induction h with
  | empty => exact Nat.zero_le _
  | program _ _ _ => exact Nat.zero_le _
  | step hm ih =>
    cases hm.advances with
    | goesOn given hlater =>
      rw [hm.config_step, ← hlater.length_eq, List.length_drop]
      exact Nat.le_trans (Nat.sub_le _ _) ih
    | enters _ _ hframes hroom =>
      rw [hframes]
      exact hroom

end Reached

namespace History

theorem reached (h : History m past) : ∃ log, Reached m log := by
  induction h with
  | empty id config state => exact ⟨_, .empty id config state⟩
  | program _ hp ih =>
    obtain ⟨log, h⟩ := ih
    exact ⟨_, .program h hp⟩
  | step _ _ ih | reset _ _ ih =>
    obtain ⟨log, h⟩ := ih
    exact ⟨_, h.step⟩

/-- A run in which the counters are not set to zero. -/
theorem run (h : History m past) {n : Nat} (hresets : ∀ k < n, (m.run k).resets = false) :
    ∃ past', History (m.run n) past' ∧ outset (m.run n) past' = outset m past := by
  induction n with
  | zero => exact ⟨past, h, rfl⟩
  | succ n ih =>
    obtain ⟨past', h', houtset⟩ := ih fun k hk => hresets k (Nat.lt_succ_of_lt hk)
    rw [run_succ]
    exact ⟨_, h'.step (hresets n (Nat.lt_succ_self n)), outset_cons.trans houtset⟩

/-- **The peak that is noted** is the largest number of frames that were active when one of them had just started. -/
theorem peak_eq (h : History m past) : m.store.stats.peakCallDepth = peak m past := by
  induction h with
  | empty => rfl
  | program _ _ ih => exact ih
  | @step m past hm hresets ih =>
    obtain ⟨log, hreached⟩ := hm.reached
    have hadvances := hreached.advances
    rw [tally_of_not_resets hresets] at hadvances
    rw [peak]
    cases hadvances with
    | goesOn given hlater htally =>
      have hlength := hlater.length_eq
      rw [List.length_drop] at hlength
      rw [if_neg (by omega), ← ih]
      exact congrArg Tally.peak htally
    | enters _ _ hframes _ _ htally =>
      have hlength : m.step.frames.length = m.frames.length + 1 := by rw [hframes]; rfl
      rw [hlength, if_pos (Nat.lt_succ_self _), ← ih]
      exact congrArg Tally.peak htally
  | @reset m past hm hresets _ =>
    have hstep : m.step.store.stats.peakCallDepth = 0 := by
      unfold resets at hresets
      split at hresets
      · rfl
      · nomatch hresets
    exact hstep

end History

/-! ### Ops -/

/-- The number of ops that run in the next steps. -/
def opsIn (m : Machine σ) : (steps : Nat) → Nat
  | 0 => 0
  | steps + 1 => m.opsIn steps + (m.run steps).executes.toNat

theorem run_add (m : Machine σ) (n k : Nat) : m.run (n + k) = (m.run n).run k := by
  induction k with
  | zero => rfl
  | succ k ih => rw [← Nat.add_assoc, run_succ, run_succ, ih]

theorem opsIn_add (m : Machine σ) (n k : Nat) : m.opsIn (n + k) = m.opsIn n + (m.run n).opsIn k := by
  induction k with
  | zero => rfl
  | succ k ih => rw [← Nat.add_assoc, opsIn, opsIn, ih, run_add, Nat.add_assoc]

/-- **The counter of ops** counts the ops that run, as long as it is not set to zero. -/
theorem Leveled.opsExecuted_run (hm : m.Leveled) {n : Nat} (hresets : ∀ k < n, (m.run k).resets = false) :
    (m.run n).Leveled ∧ (m.run n).store.stats.opsExecuted = m.store.stats.opsExecuted + m.opsIn n := by
  induction n with
  | zero => exact ⟨hm, rfl⟩
  | succ n ih =>
    obtain ⟨hn, hops⟩ := ih fun k hk => hresets k (Nat.lt_succ_of_lt hk)
    rw [run_succ, hn.step.2.ops, tally_of_not_resets (hresets n (Nat.lt_succ_self n))]
    exact ⟨hn.step.1, by rw [opsIn, ← Nat.add_assoc, ← hops]⟩

/-! ### The limit, the peak and the depth of the store -/

/-- **The depth of calls is accounted for.** No more frames are active than the configuration allows, and a call that
would need one more traps. The peak that is noted is the largest number of frames when one had just started, and
together with those that were active when the counters were last set to zero it is the largest number at any time. And
when a call has come to its end, in whatever way, the store has the depth that it had when the call was made. -/
theorem History.depth_accounted (h : History m past) :
    m.frames.length ≤ m.store.config.maxCallDepth ∧
    (m.store.stats.peakCallDepth = peak m past ∧
      max m.store.stats.peakCallDepth (outset m past).frames.length = most (m :: past)) ∧
    (m.store.depth = (framesOf m.waiting).length ∧
      ∀ n, (m.run n).waiting = m.waiting → (m.run n).store.depth = m.store.depth) ∧
    ∀ s inv addr waiting, m.Calls s inv addr waiting →
      (∀ f, s.funcs[addr]? = some (.wasm f) → m.store.config.maxCallDepth ≤ m.frames.length →
        (s.interrupted = false → m.step = fail s inv (.ofCode .stackOverflow) waiting) ∧
        (s.interrupted = true → m.step = fail { s with interrupted := false } inv (.ofCode .interrupted) waiting)) ∧
      ∀ n, (m.run n).waiting = waiting → (m.run n).store.depth = s.depth := by
  obtain ⟨log, hreached⟩ := h.reached
  have hback {n : Nat} : (m.run n).store.depth = (framesOf (m.run n).waiting).length := by
    obtain ⟨_, hrun⟩ := hreached.run n
    exact hrun.leveled.depth
  refine ⟨hreached.frames_le, ⟨h.peak_eq, ?_⟩, ⟨hreached.leveled.depth, fun n hn => ?_⟩, ?_⟩
  · rw [h.peak_eq]
    exact max_peak_outset m past
  · rw [hback, hn]
    exact hreached.leveled.depth.symm
  · intro s inv addr waiting hcalls
    have hlength := hreached.leveled.calls hcalls
    refine ⟨fun f hf hfull => ?_, fun n hn => ?_⟩
    · have hover : inv.Overflows s f := by
        refine .depth ?_
        rw [hreached.orderly.config_calls hcalls, hlength]
        exact hfull
      exact ⟨fun hs => hcalls.overflows hf hs hover, hcalls.interrupted⟩
    · rw [hback, hn]
      exact (hreached.leveled.depth_calls hcalls).symm

end

end Machine

/-! ### A function that is called back -/

/-- A module that imports a function, and has one that calls it. -/
def Module.relay : Module :=
  (Module.ofBytes ⟨#[0, 97, 115, 109, 1, 0, 0, 0, 1, 4, 1, 96, 0, 0, 2, 7, 1, 1, 104, 1, 102, 0, 0, 3, 2, 1, 0, 10, 6,
    1, 4, 0, 16, 0, 11]⟩ .all {}).toOption.get (by decide +kernel)

/-- Call the function of that module. -/
def HostProgram.recall : HostProgram Unit := .call ⟨0, 1⟩ [] fun _ => .return_ []

theorem HostProgram.wellFormed_recall : recall.WellFormed := fun _ => trivial

/-- Set the counters to zero, ask the code to stop, and call the function. -/
def HostProgram.recount : HostProgram Unit := .operate .resetStats fun _ => .operate .interrupt fun _ => .recall

theorem HostProgram.wellFormed_recount : recount.WellFormed := fun _ _ => wellFormed_recall

/-- Instantiate the module with a host function, and call its function. -/
def HostProgram.relaying (body : List Value → HostProgram Unit) : HostProgram Unit :=
  .define ⟨[], []⟩ body fun _ => .instantiate .relay [.func ⟨0, 0⟩] fun _ => .recall

namespace Machine

/-- The machine that is about to do so, with a limit for the depth of calls. -/
def relaying (depth : Nat) (body : List Value → HostProgram Unit) : Machine Unit :=
  ⟨.new 0 { maxCallDepth := depth } (), .host none ⟨[], []⟩ (.relaying body), []⟩

theorem history_relaying (depth : Nat) {body : List Value → HostProgram Unit} (hbody : ∀ args, (body args).WellFormed) :
    ∃ past, History (relaying depth body) past ∧ (outset (relaying depth body) past).frames = [] := by
  refine ⟨_, .program (.empty 0 { maxCallDepth := depth } ()) ⟨hbody, fun _ => ?_⟩, rfl⟩
  exact ⟨Module.valid_get _, fun _ => HostProgram.wellFormed_recall⟩

/-- The host function calls back, until there are two frames and a call traps. It returns nevertheless, and so does
everything else. -/
theorem depth_accounted_relaying : ∃ past, History ((relaying 2 fun _ => .recall).run 18) past ∧
    ((relaying 2 fun _ => .recall).run 18).outcome?.isSome = true ∧
    ((relaying 2 fun _ => .recall).run 18).store.stats.peakCallDepth = 2 ∧
    most ((relaying 2 fun _ => .recall).run 18 :: past) = 2 ∧
    ((relaying 2 fun _ => .recall).run 18).store.depth = 0 := by
  obtain ⟨past, hstart, houtset⟩ := history_relaying 2 fun _ => HostProgram.wellFormed_recall
  have hresets : ∀ k < 18, ((relaying 2 fun _ => .recall).run k).resets = false := by decide +kernel
  obtain ⟨past', hrun, houtset'⟩ := hstart.run hresets
  have hpeak : ((relaying 2 fun _ => .recall).run 18).store.stats.peakCallDepth = 2 := by decide +kernel
  obtain ⟨-, ⟨-, hmost⟩, ⟨hdepth, -⟩, -⟩ := hrun.depth_accounted
  have hwaiting : ((relaying 2 fun _ => .recall).run 18).waiting.length = 0 := by decide +kernel
  rw [houtset', houtset, hpeak] at hmost
  rw [List.eq_nil_of_length_eq_zero hwaiting] at hdepth
  exact ⟨past', hrun, by decide +kernel, hpeak, hmost.symm, hdepth⟩

/-- The host function does so, with a limit of one frame. -/
def recounting : Machine Unit := relaying 1 fun _ => .recount

/-- **A frame that was active when the counters were set to zero is not in the peak**, and a call that would be too deep
traps for another reason if the code was asked to stop. -/
theorem not_depth_accounted :
    (History (recounting.run 6) [] ∧
      (recounting.run 6).store.stats.peakCallDepth ≠ most [recounting.run 6]) ∧
    (∃ past, History (recounting.run 7) past) ∧
      ∃ s inv addr waiting f, (recounting.run 7).Calls s inv addr waiting ∧ s.funcs[addr]? = some (.wasm f) ∧
        (recounting.run 7).store.config.maxCallDepth ≤ (recounting.run 7).frames.length ∧
        (recounting.run 7).step.control = .outcome (.error (.ofCode .interrupted)) := by
  obtain ⟨past, hstart, -⟩ := history_relaying 1 fun _ => HostProgram.wellFormed_recount
  have hresets : ∀ k < 5, (recounting.run k).resets = false := by decide +kernel
  obtain ⟨past', hrun, -⟩ := hstart.run hresets
  have hreset : History (recounting.run 6) [] := by
    rw [run_succ]
    exact .reset hrun (by decide +kernel)
  refine ⟨⟨hreset, by decide +kernel⟩, ⟨[recounting.run 6], ?_⟩, ?_⟩
  · rw [run_succ]
    exact .step hreset (by decide +kernel)
  · have hrequest : (recounting.run 7).control.request? = some (⟨0, 1⟩, []) := by decide +kernel
    have hcheck : checkCall (recounting.run 7).store ⟨0, 1⟩ [] = .ok () := by decide +kernel
    obtain ⟨inv, waiting, hcalls, hframes⟩ := calls_of_request hrequest hcheck
    have hwasm : ((recounting.run 7).store.funcs[1]?.bind FuncEntity.wasm?).isSome = true := by decide +kernel
    obtain ⟨f, hf⟩ := Option.isSome_iff_exists.mp hwasm
    refine ⟨_, inv, 1, waiting, f, hcalls, FuncEntity.bind_wasm?_eq_some.mp hf, by decide +kernel, ?_⟩
    rw [hcalls.interrupted (by decide +kernel), fail, Invocation.trace, hframes]
    rfl

end Machine

end WasmEngine
