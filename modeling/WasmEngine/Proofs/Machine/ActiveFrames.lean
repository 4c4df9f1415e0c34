import WasmEngine.Proofs.Machine.Books
import WasmEngine.Proofs.Machine.Reached

/-!
# Active frames

The frames that are active in a machine are those of the invocation that runs and those of all invocations that wait
for host functions, to any depth (`Machine.frames`). Where they are kept differs: the ones of the invocation that runs
are in its own list, and of the others the store only has the number, which is noted when a host function is called
and put back when it has come to its end. `Machine.Leveled` says that this bookkeeping is right at all depths, however
the calls in between have ended.

With that, a step does one of two things to the frames (`Machine.Advances`). Some of the innermost are given up while
the others stay, and may go on to another op; or a single frame comes on top of them, and then there was room for it.
So what holds of all frames when they start, and is no matter of the op that they are at, holds of all frames at all
times (`Machine.Reached.frames_induction`). An op is counted by a step that runs one, and by no other
(`Machine.Advances.ops`).
-/

namespace WasmEngine

variable {σ : Type}

/-- The frames of what runs. -/
def Control.frames : Control σ → List Frame
  | .guest inv => inv.frames
  | _ => []

/-- The frames of who waits. -/
def Waiting.frames : Waiting σ → List Frame
  | .guest inv _ _ => inv.frames
  | _ => []

/-- A frame that has gone on to another op, or has not. -/
def Frame.Later (f f' : Frame) : Prop := ∃ pc, f' = f.goto pc

instance : Std.Refl Frame.Later where
  refl f := ⟨f.pc, rfl⟩

/-- **What it takes to start a frame**: room for one more, and for all the cells it can ever have on the stack. -/
theorem Invocation.enter_eq_ok {inv inv' : Invocation} {f : WasmFunc} {s s' : Store σ}
    (h : inv.enter f s = .ok inv' s') : ∃ body base, f.module.body? f.index = some body ∧
      base + f.type.params.length = inv.stack.height ∧ s.depth + inv.frames.length < s.config.maxCallDepth ∧
      inv.stack.height + body.locals.length + body.maxHeight ≤ s.config.maxValueStack ∧
      inv'.frames = Frame.start f body base :: inv.frames ∧ s' = { s with stats := s'.stats } ∧
      s'.stats.tally = { s.stats.tally with peak := max s.stats.peakCallDepth (s.depth + inv.frames.length + 1) } := by
  unfold enter at h
  dsimp only at h
  split at h
  · nomatch h
  next hdepth =>
  split at h
  · nomatch h
  next body hbody =>
  split at h
  · nomatch h
  next hparams =>
  split at h
  · nomatch h
  next hroom =>
  cases h
  exact ⟨body, _, hbody, Nat.sub_add_cancel (Nat.not_lt.mp hparams), Nat.not_le.mp hdepth, Nat.not_lt.mp hroom,
    rfl, rfl, rfl⟩

/-- A frame that cannot start leaves the store as it is. -/
theorem Invocation.enter_eq_error {inv : Invocation} {f : WasmFunc} {s s' : Store σ} {e : Error}
    (h : inv.enter f s = .error e s') : s' = s := by
  unfold enter at h
  dsimp only at h
  split at h
  · cases h
    rfl
  split at h
  · cases h
    rfl
  split at h
  · cases h
    rfl
  split at h
  · cases h
    rfl
  · nomatch h

namespace Machine

/-- The frames of all who wait, the innermost first. -/
def framesOf (waiting : List (Waiting σ)) : List Frame := waiting.flatMap Waiting.frames

/-- **The active frames of a machine**, the innermost first. -/
def frames (m : Machine σ) : List Frame := m.control.frames ++ framesOf m.waiting

/-- What invocations that wait for host functions have noted is the number of frames around them. -/
def Level : List (Waiting σ) → Prop
  | [] => True
  | .guest _ _ depth :: waiting => depth = (framesOf waiting).length ∧ Level waiting
  | .host .. :: waiting | .start _ :: waiting => Level waiting

/-- **The depth of the store is the number of frames that wait**, and will be at all times that it is put back. -/
structure Leveled (m : Machine σ) : Prop where
  depth : m.store.depth = (framesOf m.waiting).length
  waiting : Level m.waiting

/-- The machine is about to set all counters to zero. -/
def resets : Machine σ → Bool
  | ⟨_, .host _ _ (.operate .resetStats _), _⟩ => true
  | _ => false

/-- The machine is about to run an op. -/
def executes : Machine σ → Bool
  | ⟨s, .guest ⟨_, f :: _, _⟩, _⟩ => f.hasOp s
  | _ => false

theorem guest_of_executes {m : Machine σ} (h : m.executes = true) : ∃ inv, m.control = .guest inv := by
  obtain ⟨s, control, waiting⟩ := m
  cases control with
  | guest inv => exact ⟨inv, rfl⟩
  | host | outcome => nomatch h

/-- What a machine has counted, with the op that it is about to run. -/
def tally (m : Machine σ) : Tally :=
  if m.resets then {} else { m.store.stats.tally with ops := m.store.stats.opsExecuted + m.executes.toNat }

theorem tally_of_not_resets {m : Machine σ} (h : m.resets = false) :
    m.tally = { m.store.stats.tally with ops := m.store.stats.opsExecuted + m.executes.toNat } := by
  rw [tally, h]
  rfl

/-- **What a step does to the frames** that were active before, and to what was counted of them and of ops. -/
inductive Advances (fs : List Frame) (tally : Tally) (m : Machine σ) : Prop
  | goesOn (given : Nat) : List.Forall₂ Frame.Later (fs.drop given) m.frames →
    m.store.stats.tally = tally → Advances fs tally m
  | enters {f : WasmFunc} {body : CompiledBody} {base : Nat} : .wasm f ∈ m.store.funcs →
    f.module.body? f.index = some body → m.frames = Frame.start f body base :: fs →
    fs.length < m.store.config.maxCallDepth →
    base + f.type.params.length + body.locals.length + body.maxHeight ≤ m.store.config.maxValueStack →
    m.store.stats.tally = { tally with peak := max tally.peak (fs.length + 1) } → Advances fs tally m

/-! ### Code that runs -/

/-- What an invocation goes on with behind an op of its innermost frame. -/
def behindOp (r : Running σ) (f : Frame) (rest : List Frame) (types : List ValueType) (waiting : List (Waiting σ)) :
    Flow → Machine σ
  | .next => ⟨r.store, .guest ⟨r.stack, f.goto (f.pc + 1) :: rest, types⟩, waiting⟩
  | .goto pc => ⟨r.store, .guest ⟨r.stack, f.goto pc :: rest, types⟩, waiting⟩
  | .call addr => callFrom r.store ⟨r.stack, f :: rest, types⟩ addr waiting
  | .ret => match rest with
    | [] => ⟨r.store, .outcome (.ok (Invocation.values (φ := Frame) ⟨r.stack, [], types⟩)), waiting⟩
    | _ :: _ => ⟨r.store, .guest (Invocation.resume ⟨r.stack, rest, types⟩), waiting⟩

section

variable {s : Store σ} {stack : Stack} {f : Frame} {rest : List Frame} {types : List ValueType}
  {waiting : List (Waiting σ)} {r : Running σ}

/-- An invocation whose op succeeds. -/
theorem stepGuest_of_ok {flow : Flow} (h : f.exec ⟨s, stack⟩ = .ok flow r) :
    stepGuest s ⟨stack, f :: rest, types⟩ waiting = behindOp r f rest types waiting flow := by
  have hactivation : (Activation.exec f : Exec σ (Transfer Frame)) = f.transfer <$> f.exec := rfl
  unfold stepGuest
  dsimp only
  rw [hactivation, estate_map_of_ok h]
  cases flow with
  | ret => cases rest <;> rfl
  | _ => rfl

/-- An invocation whose op fails. -/
theorem stepGuest_of_error {e : Error} (h : f.exec ⟨s, stack⟩ = .error e r) :
    stepGuest s ⟨stack, f :: rest, types⟩ waiting = fail r.store ⟨r.stack, f :: rest, types⟩ e waiting := by
  have hactivation : (Activation.exec f : Exec σ (Transfer Frame)) = f.transfer <$> f.exec := rfl
  unfold stepGuest
  dsimp only
  rw [hactivation, estate_map_of_error h]

end

/-! ### Calls -/

section

variable {s s' : Store σ} {waiting : List (Waiting σ)}

/-- All frames stay as they are. -/
theorem Advances.same {m : Machine σ} {fs : List Frame} {tally : Tally} (hframes : m.frames = fs)
    (htally : m.store.stats.tally = tally) : Advances fs tally m :=
  .goesOn 0 (hframes ▸ List.forall₂_refl _) htally

/-- Whatever becomes of the frames, the op is counted. -/
theorem Advances.ops {m : Machine σ} {fs : List Frame} {tally : Tally} (h : Advances fs tally m) :
    m.store.stats.opsExecuted = tally.ops := by
  cases h with
  | goesOn _ _ htally => exact congrArg Tally.ops htally
  | enters _ _ _ _ _ htally => exact congrArg Tally.ops htally

theorem leveled_fail (hd : s.depth = (framesOf waiting).length) (hw : Level waiting) (inv : Invocation) (e : Error) :
    (fail s inv e waiting).Leveled ∧
      Advances (inv.frames ++ framesOf waiting) s.stats.tally (fail s inv e waiting) :=
  ⟨⟨hd, hw⟩, .goesOn inv.frames.length (by rw [List.drop_left]; exact List.forall₂_refl _) rfl⟩

theorem leveled_callHost (hd : s.depth = (framesOf waiting).length) (hw : Level waiting) (inv : Invocation)
    (f : HostFunc σ) :
    (callHost s inv f waiting).Leveled ∧
      Advances (inv.frames ++ framesOf waiting) s.stats.tally (callHost s inv f waiting) := by
  unfold callHost
  dsimp only
  split
  · exact leveled_fail hd hw inv _
  · refine ⟨⟨?_, hd, hw⟩, .same rfl rfl⟩
    change s.depth + inv.frames.length = (inv.frames ++ framesOf waiting).length
    rw [hd, List.length_append, Nat.add_comm]

theorem leveled_callFrom (hd : s.depth = (framesOf waiting).length) (hw : Level waiting) (inv : Invocation)
    (addr : Nat) :
    (callFrom s inv addr waiting).Leveled ∧
      Advances (inv.frames ++ framesOf waiting) s.stats.tally (callFrom s inv addr waiting) := by
  have hpoll := Store.uncounted_pollInterrupt s
  unfold callFrom
  cases hp : Store.pollInterrupt s with
  | error e s₁ =>
    rw [hp] at hpoll
    rw [← hpoll.tally]
    exact leveled_fail (hpoll.depth.trans hd) hw inv e
  | ok _ s₁ =>
    rw [hp] at hpoll
    have hd₁ : s₁.depth = (framesOf waiting).length := hpoll.depth.trans hd
    rw [← hpoll.tally]
    dsimp only [endState_ok]
    split
    · exact leveled_fail hd₁ hw inv _
    · next f hf =>
      cases hr : inv.enter f s₁ with
      | error e s₂ =>
        obtain rfl := Invocation.enter_eq_error hr
        exact leveled_fail hd₁ hw inv e
      | ok inv' s₂ =>
        obtain ⟨body, base, hbody, hbase, hdepth, hroom, hframes, hstore, htally⟩ := Invocation.enter_eq_ok hr
        have hcount : s₁.depth + inv.frames.length = (inv.frames ++ framesOf waiting).length := by
          rw [hd₁, List.length_append, Nat.add_comm]
        have hfuncs : s₂.funcs = s₁.funcs := by rw [hstore]
        have hconfig : s₂.config = s₁.config := by rw [hstore]
        rw [← hbase, ← hconfig] at hroom
        rw [hcount, ← hconfig] at hdepth
        rw [hcount] at htally
        have hmem : .wasm f ∈ s₂.funcs := hfuncs ▸ Array.mem_of_getElem? hf
        refine ⟨⟨(congrArg Store.depth hstore).trans hd₁, hw⟩, .enters hmem hbody ?_ hdepth hroom htally⟩
        exact congrArg (· ++ framesOf waiting) hframes
    · exact leveled_callHost hd₁ hw inv _

theorem leveled_invoke (hd : s.depth = (framesOf waiting).length) (hw : Level waiting) (addr : Nat)
    (args : List Value) : (invoke s addr args waiting).Leveled ∧
      Advances (framesOf waiting) s.stats.tally (invoke s addr args waiting) := by
  unfold invoke
  split
  · exact ⟨⟨hd, hw⟩, .same rfl rfl⟩
  · have hpoll := Store.uncounted_pollInterrupt s
    cases hp : Store.pollInterrupt s <;> rw [hp] at hpoll <;>
      exact ⟨⟨hpoll.depth.trans hd, hw⟩, .same rfl hpoll.tally⟩
  · exact leveled_callFrom hd hw _ addr

theorem leveled_call (hd : s.depth = (framesOf waiting).length) (hw : Level waiting) (h : Handle .func)
    (args : List Value) : (call s h args waiting).Leveled ∧
      Advances (framesOf waiting) s.stats.tally (call s h args waiting) := by
  unfold call
  split
  · exact ⟨⟨hd, hw⟩, .same rfl rfl⟩
  · exact leveled_invoke hd hw _ args

theorem leveled_instantiate (hd : s.depth = (framesOf waiting).length) (hw : Level waiting) (m : Module)
    (entities : List Extern) : (instantiate s m entities waiting).Leveled ∧
      Advances (framesOf waiting) s.stats.tally (instantiate s m entities waiting) := by
  have hsame := Store.uncounted_of_commutes (fun _ => Store.commutes_instantiate m entities) s
  unfold instantiate
  dsimp only
  cases hr : Store.instantiate m entities s with
  | error e s₁ =>
    rw [hr] at hsame
    exact ⟨⟨hsame.depth.trans hd, hw⟩, .same rfl hsame.tally⟩
  | ok start s₁ =>
    rw [hr] at hsame
    cases start with
    | none => exact ⟨⟨hsame.depth.trans hd, hw⟩, .same rfl hsame.tally⟩
    | some addr =>
      dsimp only
      rw [← hsame.tally]
      have hstart : s₁.depth = (framesOf (.start s.instances.size :: waiting)).length := hsame.depth.trans hd
      exact leveled_invoke hstart hw addr []

/-! ### Steps -/

theorem leveled_stepGuest (hd : s.depth = (framesOf waiting).length) (hw : Level waiting) (inv : Invocation) :
    (stepGuest s inv waiting).Leveled ∧
      Advances (inv.frames ++ framesOf waiting) (tally ⟨s, .guest inv, waiting⟩) (stepGuest s inv waiting) := by
  obtain ⟨stack, frames, types⟩ := inv
  cases frames with
  | nil => exact ⟨⟨hd, hw⟩, .same rfl rfl⟩
  | cons f rest =>
    obtain ⟨hdepth, htally⟩ := f.tally_exec ⟨s, stack⟩
    change _ = tally ⟨s, .guest ⟨stack, f :: rest, types⟩, waiting⟩ at htally
    cases hr : f.exec ⟨s, stack⟩ with
    | error e r =>
      rw [hr] at hdepth htally
      rw [stepGuest_of_error hr, ← htally]
      exact leveled_fail (hdepth.trans hd) hw ⟨r.stack, f :: rest, types⟩ e
    | ok flow r =>
      rw [hr] at hdepth htally
      have hd' : r.store.depth = (framesOf waiting).length := hdepth.trans hd
      have hlater (pc : Nat) : List.Forall₂ Frame.Later (f :: rest ++ framesOf waiting)
          (f.goto pc :: rest ++ framesOf waiting) := .cons ⟨pc, rfl⟩ (List.forall₂_refl _)
      rw [stepGuest_of_ok hr]
      cases flow with
      | next => exact ⟨⟨hd', hw⟩, .goesOn 0 (hlater _) htally⟩
      | goto pc => exact ⟨⟨hd', hw⟩, .goesOn 0 (hlater pc) htally⟩
      | call addr =>
        rw [← htally]
        exact leveled_callFrom hd' hw ⟨r.stack, f :: rest, types⟩ addr
      | ret =>
        cases rest with
        | nil => exact ⟨⟨hd', hw⟩, .goesOn 1 (List.forall₂_refl _) htally⟩
        | cons g rest => exact ⟨⟨hd', hw⟩, .goesOn 1 (.cons ⟨_, rfl⟩ (List.forall₂_refl _)) htally⟩

theorem leveled_settle {α : Type} {act : StoreM σ α} (hact : Keeps Store.Uncounted act)
    (next : Except Error α → HostProgram σ) (hd : s.depth = (framesOf waiting).length) (hw : Level waiting)
    (caller : Option Nat) (type : FuncType) :
    Leveled ⟨(settle (act s)).2, .host caller type (next (settle (act s)).1), waiting⟩ ∧
      Advances (framesOf waiting) s.stats.tally
        ⟨(settle (act s)).2, .host caller type (next (settle (act s)).1), waiting⟩ := by
  have hs := hact s
  cases hr : act s <;> rw [hr] at hs <;> exact ⟨⟨hs.depth.trans hd, hw⟩, .same rfl hs.tally⟩

theorem leveled_deliver (hd : s.depth = (framesOf (w :: waiting)).length) (hw : Level (w :: waiting))
    (result : Except Error (List Value)) : (deliver s result w waiting).Leveled ∧
      Advances (framesOf (w :: waiting)) s.stats.tally (deliver s result w waiting) := by
  cases w with
  | host caller type next => exact ⟨⟨hd, hw⟩, .same rfl rfl⟩
  | start place => cases result <;> exact ⟨⟨hd, hw⟩, .same rfl rfl⟩
  | guest inv type depth =>
    obtain ⟨hdepth, hw⟩ := hw
    unfold deliver
    dsimp only
    split
    · exact leveled_fail (s := { s with depth }) hdepth hw inv _
    · split
      · exact leveled_fail (s := { s with depth }) hdepth hw inv _
      · refine ⟨⟨hdepth, hw⟩, .goesOn 0 ?_ rfl⟩
        obtain ⟨stack, frames, types⟩ := inv
        cases frames with
        | nil => exact List.forall₂_refl _
        | cons f rest => exact .cons ⟨_, rfl⟩ (List.forall₂_refl _)

end

/-- **The depth of the store stays right**, and frames advance. -/
theorem Leveled.step {m : Machine σ} (hm : m.Leveled) :
    m.step.Leveled ∧ Advances m.frames m.tally m.step := by
  obtain ⟨s, control, waiting⟩ := m
  obtain ⟨hd, hw⟩ := hm
  cases control with
  | guest inv => exact leveled_stepGuest hd hw inv
  | host caller type p =>
    cases p with
    | call h args next =>
      have hcall : s.depth = (framesOf (.host caller type next :: waiting)).length := hd
      exact leveled_call hcall hw h args
    | instantiate m entities next =>
      let reply (r : Except Error (List Value)) : HostProgram σ := next (r.map fun _ => ⟨s.id, s.instances.size⟩)
      have hcall : s.depth = (framesOf (.host caller type reply :: waiting)).length := hd
      exact leveled_instantiate hcall hw m entities
    | operate request next =>
      by_cases hreset : request = .resetStats
      · subst hreset
        exact ⟨⟨hd, hw⟩, .same rfl rfl⟩
      · have hno : tally ⟨s, .host caller type (.operate request next), waiting⟩ = s.stats.tally := by
          cases request <;> first | rfl | exact absurd rfl hreset
        rw [hno]
        exact leveled_settle (Store.uncounted_perform request hreset) next hd hw caller type
    | readMemory start length next =>
      unfold Machine.step stepHost
      dsimp only
      split
      · exact ⟨⟨hd, hw⟩, .same rfl rfl⟩
      · exact leveled_settle (Store.uncounted_of_commutes fun _ => Store.commutes_readMemory _ _ _) next hd hw caller type
    | writeMemory start bytes next =>
      unfold Machine.step stepHost
      dsimp only
      split
      · exact ⟨⟨hd, hw⟩, .same rfl rfl⟩
      · exact leveled_settle (Store.uncounted_of_commutes fun _ => Store.commutes_writeMemory _ _ _) next hd hw caller type
    | _ => exact ⟨⟨hd, hw⟩, .same rfl rfl⟩
  | outcome result =>
    cases waiting with
    | nil => exact ⟨⟨hd, hw⟩, .same rfl rfl⟩
    | cons w waiting => exact leveled_deliver hd hw result

/-! ### Runs -/

namespace Reached

variable {m : Machine σ} {log : List (Event σ)}

/-- **In all machines that are reached, the depth of the store is right.** -/
theorem leveled (h : Reached m log) : m.Leveled := by
  induction h with
  | empty => exact ⟨rfl, trivial⟩
  | program _ _ ih => exact ⟨ih.depth, trivial⟩
  | step _ ih => exact ih.step.1

theorem advances (h : Reached m log) : Advances m.frames m.tally m.step := h.leveled.step.2

theorem config_step (h : Reached m log) : m.step.store.config = m.store.config :=
  (h.moves.toExtends h.orderly.store).config

/-- **What holds of frames when they start, and at all ops if at one, holds of all frames** that are ever active. The
functions are declared by valid modules, and there is room for all the cells of their bodies. -/
theorem frames_induction {P : Config → Frame → Prop} (goto : ∀ config f pc, P config f → P config (f.goto pc))
    (start : ∀ (config : Config) (f : WasmFunc) (body : CompiledBody) (base : Nat), f.Declared →
      f.module.body? f.index = some body →
      base + f.type.params.length + body.locals.length + body.maxHeight ≤ config.maxValueStack →
      P config (.start f body base)) (h : Reached m log) : ∀ f ∈ m.frames, P m.store.config f := by
  induction h with
  | empty => nofun
  | program _ _ _ => nofun
  | step hm ih =>
    cases hm.advances with
    | goesOn given hlater =>
      intro f hf
      obtain ⟨i, hi⟩ := List.getElem?_of_mem hf
      obtain ⟨g, hg, pc, rfl⟩ := forall₂_getElem? hlater.flip hi
      rw [hm.config_step]
      exact goto _ g pc (ih g (List.mem_of_mem_drop (List.mem_of_getElem? hg)))
    | enters hfunc hbody hframes _ hroom =>
      rw [hframes]
      refine List.forall_mem_cons.mpr ⟨?_, fun f hf => hm.config_step ▸ ih f hf⟩
      exact start _ _ _ _ (hm.step.orderly.store.declared _ hfunc) hbody hroom

end Reached

end Machine

end WasmEngine
