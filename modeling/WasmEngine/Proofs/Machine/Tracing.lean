import WasmEngine.Proofs.Machine.Counters
import WasmEngine.Proofs.Machine.Interrupts
import WasmEngine.Proofs.Machine.Places
import WasmEngine.Proofs.Machine.Programs
import WasmEngine.Proofs.Machine.Untraced

/-!
# Stack traces

A trap is raised at one place (`Machine.Raises`) and without a stack trace. On its way out every invocation that it ends
adds a line for each of its frames, and host functions are in between, which may look at the error and do as they like.
Those that do nothing but hand on what they were told (`HostProgram.Relays`) leave the trace as it is.

So of an error that is on its way it is known at any time which frames it has passed: the lines of its trace, followed by
those of the frames that are still around it, are the lines of all frames that were active when it was raised
(`Machine.AccountedFor`). This is kept by every step (`Accounted.step`), for the errors that are on their way and for all
those that host functions have been told of. At the end of a call its trace therefore has a line for every frame of the
call that was active then, and no others (`Machine.Reached.trap_traced`).
-/

namespace WasmEngine

variable {σ : Type}

/-! ### Host functions that relay -/

namespace HostProgram

/-- **A program that hands on errors unchanged.** If it fails with an error that has a stack trace, then it has heard of
that error: before, or by one of the replies since. Functions that it makes have heard of nothing. -/
def Relays : HostProgram σ → (Error → Prop) → Prop
  | .finish outcome, heard => ∀ e, outcome = .error e → e.Traced → heard e
  | .update _ next, heard => next.Relays heard
  | .inspect next, heard => ∀ state, (next state).Relays heard
  | .caller next, heard => ∀ h, (next h).Relays heard
  | .memorySize next, heard => ∀ size, (next size).Relays heard
  | .readMemory _ _ next, heard => ∀ reply, (next reply).Relays fun e => heard e ∨ reply = .error e
  | .writeMemory _ _ next, heard => ∀ reply, (next reply).Relays fun e => heard e ∨ reply = .error e
  | .operate _ next, heard => ∀ reply, (next reply).Relays fun e => heard e ∨ reply = .error e
  | .define _ body next, heard => (∀ args, (body args).Relays fun _ => False) ∧
    ∀ reply, (next reply).Relays fun e => heard e ∨ reply = .error e
  | .call _ _ next, heard => ∀ reply, (next reply).Relays fun e => heard e ∨ reply = .error e
  | .instantiate _ _ next, heard => ∀ reply, (next reply).Relays fun e => heard e ∨ reply = .error e

variable {p : HostProgram σ} {heard heard' : Error → Prop}

/-- A program may have heard of more. -/
theorem Relays.mono (h : p.Relays heard) (hheard : ∀ e, e.Traced → heard e → heard' e) : p.Relays heard' := by
  have hor {α : Type} {heard heard' : Error → Prop} (hheard : ∀ e, e.Traced → heard e → heard' e)
      (reply : Except Error α) (e : Error) (he : e.Traced) (h : heard e ∨ reply = .error e) :
      heard' e ∨ reply = .error e := h.imp_left (hheard e he)
  induction p generalizing heard heard' with
  | finish => exact fun e heq he => hheard e he (h e heq he)
  | update _ _ ih => exact ih h hheard
  | inspect _ ih | caller _ ih | memorySize _ ih => exact fun a => ih a (h a) hheard
  | readMemory _ _ _ ih | writeMemory _ _ _ ih | operate _ _ ih | call _ _ _ ih | instantiate _ _ _ ih =>
    exact fun reply => ih reply (h reply) (hor hheard reply)
  | define _ _ _ _ ih => exact ⟨h.1, fun reply => ih reply (h.2 reply) (hor hheard reply)⟩

/-- A reply tells of nothing new if it is no error that has a stack trace. -/
theorem Relays.of_reply {α : Type} {reply : Except Error α} (h : p.Relays fun e => heard e ∨ reply = .error e)
    (hreply : ∀ e, reply = .error e → e.Traced → heard e) : p.Relays heard :=
  h.mono fun e he h => h.elim id fun heq => hreply e heq he

end HostProgram

/-- All host functions of a store hand on errors unchanged. -/
abbrev Store.Relays (s : Store σ) : Prop := s.Obeys fun p => p.Relays fun _ => False

/-! ### Where traps are raised -/

/-- A host function fails with an error that has a stack trace only if its program does. -/
theorem FuncType.outcome_of_hostOutcome {type : FuncType} {outcome : Except Error (List Value)} {e : Error}
    (h : type.hostOutcome outcome = .error e) (he : e.Traced) : outcome = .error e := by
  unfold hostOutcome at h
  split at h
  · split at h
    · nomatch h
    · cases h
      exact absurd he (Error.not_traced_ofHostFailure _)
  · cases h
    exact absurd he (Error.not_traced_ofHostFailure _)
  · exact h

theorem Error.addFrames_nil (e : Error) : e.addFrames [] = e := by
  cases e with
  | failure => rfl
  | trap t place => rw [addFrames, List.append_nil]

namespace Machine

/-- **The step that a machine is about to make raises an error**: the op that a frame is at fails, or there is an error
between two ops, where all frames are at calls.
* A call is interrupted, or there is no room for it.
* A host function fails, or what it returns is not accepted.
* An instantiation fails before the start function is called. -/
inductive Raises : Machine σ → Option Frame → Error → Prop
  | op {s : Store σ} {stack : Stack} {f : Frame} {frames : List Frame} {types : List ValueType}
    {waiting : List (Waiting σ)} {e : Error} {r : Running σ} : f.exec ⟨s, stack⟩ = .error e r →
    Raises ⟨s, .guest ⟨stack, f :: frames, types⟩, waiting⟩ (some f) e
  | interrupted {m : Machine σ} {s : Store σ} {inv : Invocation} {addr : Nat} {waiting : List (Waiting σ)} :
    m.Calls s inv addr waiting → s.interrupted = true → Raises m none (.ofCode .interrupted)
  | overflow {m : Machine σ} {s : Store σ} {inv : Invocation} {addr : Nat} {waiting : List (Waiting σ)}
    {f : WasmFunc} : m.Calls s inv addr waiting → s.interrupted = false → s.funcs[addr]? = some (.wasm f) →
    inv.Overflows s f → Raises m none (.ofCode .stackOverflow)
  | host {s : Store σ} {caller : Option Nat} {type : FuncType} {outcome : Except Error (List Value)}
    {waiting : List (Waiting σ)} {e : Error} : type.hostOutcome outcome = .error e →
    Raises ⟨s, .host caller type (.finish outcome), waiting⟩ none e
  | results {s : Store σ} {inv : Invocation} {type : FuncType} {depth : Nat} {values : List Value}
    {waiting : List (Waiting σ)} {e : Error} :
    pushResults { s with depth } values type.results inv.stack = .error e →
    Raises ⟨s, .outcome (.ok values), .guest inv type depth :: waiting⟩ none e
  | instantiation {s s' : Store σ} {caller : Option Nat} {type : FuncType} {m : Module} {entities : List Extern}
    {next : Except Error InstanceHandle → HostProgram σ} {waiting : List (Waiting σ)} {e : Error} :
    Store.instantiate m entities s = .error e s' →
    Raises ⟨s, .host caller type (.instantiate m entities next), waiting⟩ none e

/-- A frame whose op traps has one, and the trap is none of those that come of calls. -/
theorem Raises.trapping {m : Machine σ} {f : Frame} {t : Trap} {place : Place}
    (h : m.Raises (some f) (.trap t place)) :
    f ∈ m.frames ∧ (∃ op, f.body.ops[f.pc]? = some op) ∧ ¬t.code.ofCall = true := by
  cases h with
  | op hexec =>
    obtain ⟨op, hop, -⟩ := Frame.exec_of_hasOp (Frame.hasOp_of_trap hexec)
    exact ⟨List.mem_cons_self, ⟨op, hop⟩, Error.not_ofCall_of (f.never_exec _ _ _ hexec)⟩

/-! ### Errors that are accounted for -/

/-- **A way to account for errors**, by the frames that are around them. Failures need not be accounted for. If an error
is, then it still is when it has passed the inner ones of the frames around it. And so are the errors that a machine
raises. -/
structure Accounting (A : List Frame → Error → Prop) (m : Machine σ) : Prop where
  failure : ∀ around f, A around (.failure f)
  passed : ∀ {inner around e}, A (inner ++ around) e → A around (e.addFrames (inner.map Frame.trace))
  raised : ∀ {trapping e inner around}, m.Raises trapping e → ¬e.Traced → m.frames = inner ++ around →
    A around (e.addFrames (inner.map Frame.trace))

/-- An error that is raised outside of an invocation has not passed any frames. -/
theorem Accounting.raised_outside {A : List Frame → Error → Prop} {m : Machine σ} (hA : Accounting A m)
    {trapping : Option Frame} {e : Error} (h : m.Raises trapping e) (he : ¬e.Traced) {around : List Frame}
    (hframes : m.frames = around) : A around e := by
  have hraised : A around (e.addFrames ([].map Frame.trace)) := hA.raised h he hframes
  rwa [List.map_nil, e.addFrames_nil] at hraised

end Machine

section

variable {A : List Frame → Error → Prop}

/-- What goes on fails with nothing but what is accounted for. -/
def Control.Accounted (good : Error → Prop) : Control σ → Prop
  | .guest _ => True
  | .host _ _ p => p.Relays good
  | .outcome result => ∀ e, result = .error e → good e

/-- **Those who wait inside of others hand on errors**, if they are told of no others than those that are accounted
for. -/
inductive Relaying (A : List Frame → Error → Prop) (outer : List (Waiting σ)) : List (Waiting σ) → Prop
  | outer : Relaying A outer outer
  | guest {inv : Invocation} {type : FuncType} {depth : Nat} {waiting : List (Waiting σ)} :
    Relaying A outer waiting → Relaying A outer (.guest inv type depth :: waiting)
  | start {place : Nat} {waiting : List (Waiting σ)} :
    Relaying A outer waiting → Relaying A outer (.start place :: waiting)
  | host {caller : Option Nat} {type : FuncType} {next : Except Error (List Value) → HostProgram σ}
    {waiting : List (Waiting σ)} :
    (∀ result, (∀ e, result = .error e → A (Machine.framesOf waiting) e) →
      (next result).Relays (A (Machine.framesOf waiting))) →
    Relaying A outer waiting → Relaying A outer (.host caller type next :: waiting)

/-- Those who wait outside are among those who wait. -/
theorem Relaying.suffix {outer waiting : List (Waiting σ)} (h : Relaying A outer waiting) : outer <:+ waiting := by
  induction h with
  | outer => exact List.suffix_refl outer
  | guest _ ih | start _ ih | host _ _ ih => exact ih.trans (List.suffix_cons _ _)

namespace Machine

/-- **All errors in a machine are accounted for**, and will be, as far as those are concerned who wait inside of
others. -/
structure Accounted (A : List Frame → Error → Prop) (outer : List (Waiting σ)) (m : Machine σ) : Prop where
  control : m.control.Accounted (A (framesOf m.waiting))
  waiting : Relaying A outer m.waiting

variable {m : Machine σ} {s : Store σ} {outer waiting : List (Waiting σ)} {inv : Invocation}

/-! ### Calls -/

theorem accounted_error {e : Error} (he : A (framesOf waiting) e) (hw : Relaying A outer waiting) :
    Accounted A outer ⟨s, .outcome (.error e), waiting⟩ := by
  refine ⟨?_, hw⟩
  rintro _ ⟨⟩
  exact he

theorem accounted_fault (hA : Accounting A m) (f : Fault) (hw : Relaying A outer waiting) :
    Accounted A outer ⟨s, .outcome (.error (.ofFault f)), waiting⟩ := accounted_error (hA.failure _ _) hw

/-- Faults pass frames as they are. -/
theorem accounted_fail_fault (hA : Accounting A m) (f : Fault) (hw : Relaying A outer waiting) :
    Accounted A outer (fail s inv (.ofFault f) waiting) := accounted_error (hA.failure _ _) hw

theorem accounted_values (values : List Value) (hw : Relaying A outer waiting) :
    Accounted A outer ⟨s, .outcome (.ok values), waiting⟩ :=
  ⟨fun _ h => (nomatch h), hw⟩

theorem accounted_callHost (hA : Accounting A m) (hw : Relaying A outer waiting) {f : HostFunc σ}
    (hf : ∀ args, (f.body args).Relays fun _ => False) : Accounted A outer (callHost s inv f waiting) := by
  unfold callHost
  dsimp only
  split
  · exact accounted_fail_fault hA _ hw
  · exact ⟨(hf _).mono fun _ _ h => h.elim, .guest hw⟩

/-- **A call fails with nothing but what it raises**, and runs nothing but what relays. -/
theorem accounted_callFrom (hA : Accounting A m) (hs : s.Relays) (hw : Relaying A outer waiting) {addr : Nat}
    (hcalls : m.Calls s inv addr waiting) : Accounted A outer (callFrom s inv addr waiting) := by
  have hraises {code : TrapCode} (h : m.Raises none (.ofCode code)) :
      A (framesOf waiting) ((Error.ofCode code).addFrames inv.trace) :=
    hA.raised h (Error.not_traced_ofCode code) hcalls.frames_eq
  cases hflag : s.interrupted with
  | true =>
    rw [callFrom_interrupted hflag]
    exact accounted_error (hraises (.interrupted hcalls hflag)) hw
  | false =>
    rw [callFrom, Store.pollInterrupt_of_clear hflag]
    dsimp only
    split
    · exact accounted_fail_fault hA _ hw
    · next f hf =>
      split
      · exact ⟨trivial, hw⟩
      · next henter =>
        rcases Invocation.enter_error_cases henter with ⟨hover, rfl⟩ | ⟨fault, rfl⟩
        · exact accounted_error (hraises (.overflow hcalls hflag hf hover)) hw
        · exact accounted_fail_fault hA _ hw
    · next f hf => exact accounted_callHost hA hw (hs f (Array.mem_of_getElem? hf))

theorem accounted_invoke (hA : Accounting A m) (hs : s.Relays) (hw : Relaying A outer waiting) {addr : Nat}
    {args : List Value} (hcalls : ∀ e, s.funcs[addr]? = some e →
      m.Calls s ⟨⟨(args.map Value.toCell).toArray⟩, [], e.type.results⟩ addr waiting) :
    Accounted A outer (invoke s addr args waiting) := by
  unfold invoke
  split
  · exact accounted_fault hA _ hw
  · next f hf =>
    have hcalls := hcalls _ hf
    cases hflag : s.interrupted with
    | true =>
      rw [Store.pollInterrupt_of_set hflag]
      exact accounted_error (hA.raised (.interrupted hcalls hflag) (Error.not_traced_ofCode _) hcalls.frames_eq) hw
    | false =>
      rw [Store.pollInterrupt_of_clear hflag]
      exact ⟨(hs f (Array.mem_of_getElem? hf) _).mono fun _ _ h => h.elim, hw⟩
  · next f hf => exact accounted_callFrom hA hs hw (hcalls _ hf)

/-- A call of a host function or of the embedder. -/
theorem accounted_call {caller : Option Nat} {type : FuncType} {h : Handle .func} {args : List Value}
    {next : Except Error (List Value) → HostProgram σ}
    (hA : Accounting A ⟨s, .host caller type (.call h args next), waiting⟩) (hs : s.Relays)
    (hw : Relaying A outer (.host caller type next :: waiting)) :
    Accounted A outer (call s h args (.host caller type next :: waiting)) := by
  unfold call
  split
  · next e hcheck =>
    cases e with
    | failure f => exact accounted_error (hA.failure _ f) hw
    | trap => nomatch trapless_checkCall s h args _ hcheck
  · next hcheck => exact accounted_invoke hA hs hw fun e he => .request hcheck he

/-- An instantiation, and the call of the start function. -/
theorem accounted_instantiate {caller : Option Nat} {type : FuncType} {module : Module} {entities : List Extern}
    {next : Except Error InstanceHandle → HostProgram σ}
    (hA : Accounting A ⟨s, .host caller type (.instantiate module entities next), waiting⟩) (hs : s.Relays)
    (hw : Relaying A outer
      (.host caller type (fun r => next (r.map fun _ => ⟨s.id, s.instances.size⟩)) :: waiting)) :
    Accounted A outer (instantiate s module entities
      (.host caller type (fun r => next (r.map fun _ => ⟨s.id, s.instances.size⟩)) :: waiting)) := by
  unfold instantiate
  dsimp only
  cases hr : Store.instantiate module entities s with
  | error e s' =>
    exact accounted_error (hA.raised_outside (.instantiation hr) (Store.never_instantiate _ _ _ _ _ hr) rfl) hw
  | ok start =>
    cases start with
    | none => exact accounted_values [] hw
    | some addr => exact accounted_invoke hA (hs.of_instantiate hr) (.start hw) fun e he => .start hr he

/-! ### Steps -/

theorem accounted_stepGuest (hA : Accounting A ⟨s, .guest inv, waiting⟩) (hs : s.Relays)
    (hw : Relaying A outer waiting) : Accounted A outer (stepGuest s inv waiting) := by
  obtain ⟨stack, frames, types⟩ := inv
  cases frames with
  | nil => exact accounted_values _ hw
  | cons f rest =>
    cases hr : f.exec ⟨s, stack⟩ with
    | error e r =>
      have huntraced : ¬e.Traced := Error.not_traced_of (f.never_exec _ _ _ hr)
      rw [stepGuest_of_error hr]
      exact accounted_error (hA.raised (.op hr) huntraced rfl) hw
    | ok flow r =>
      rw [stepGuest_of_ok hr]
      cases flow with
      | next | goto => exact ⟨trivial, hw⟩
      | call addr => exact accounted_callFrom hA (hs.of_exec_call hr) hw (.code hr)
      | ret =>
        cases rest with
        | nil => exact accounted_values _ hw
        | cons => exact ⟨trivial, hw⟩

/-- A request that does not run code tells of no error that has a stack trace. -/
theorem accounted_reply {α : Type} {act : StoreM σ α} (hact : Never Error.Traced act)
    {next : Except Error α → HostProgram σ}
    (hnext : ∀ reply, (next reply).Relays fun e => A (framesOf waiting) e ∨ reply = .error e)
    (hw : Relaying A outer waiting) (caller : Option Nat) (type : FuncType) :
    Accounted A outer ⟨(settle (act s)).2, .host caller type (next (settle (act s)).1), waiting⟩ := by
  refine ⟨(hnext _).of_reply fun e he htraced => ?_, hw⟩
  cases hr : act s with
  | ok => rw [hr] at he; nomatch he
  | error e' s' =>
    rw [hr] at he
    cases he
    exact absurd htraced (hact _ _ _ hr)

/-- What a host function fails with is raised then, unless it was told of it. -/
theorem accounted_finish {caller : Option Nat} {type : FuncType} {outcome : Except Error (List Value)}
    (hA : Accounting A ⟨s, .host caller type (.finish outcome), waiting⟩)
    (hp : (HostProgram.finish outcome : HostProgram σ).Relays (A (framesOf waiting)))
    (hw : Relaying A outer waiting) : Accounted A outer ⟨s, .outcome (type.hostOutcome outcome), waiting⟩ := by
  refine ⟨fun e he => ?_, hw⟩
  by_cases htraced : e.Traced
  · exact hp e (FuncType.outcome_of_hostOutcome he htraced) htraced
  · exact hA.raised_outside (.host he) htraced rfl

theorem accounted_stepHost {caller : Option Nat} {type : FuncType} {p : HostProgram σ}
    (hA : Accounting A ⟨s, .host caller type p, waiting⟩) (hs : s.Relays) (hp : p.Relays (A (framesOf waiting)))
    (hw : Relaying A outer waiting) : Accounted A outer (stepHost s caller type p waiting) := by
  have hnoMemory {α : Type} {next : Except Error α → HostProgram σ}
      (hnext : ∀ reply, (next reply).Relays fun e => A (framesOf waiting) e ∨ reply = .error e) :
      Accounted A outer ⟨s, .host caller type (next (.error (.ofFault (.lookup .noMemory)))), waiting⟩ := by
    refine ⟨(hnext _).of_reply ?_, hw⟩
    rintro _ ⟨⟩ htraced
    exact absurd htraced (Error.not_traced_ofFault _)
  have hnext {α : Type} {next : Except Error α → HostProgram σ}
      (h : ∀ reply, (next reply).Relays fun e => A (framesOf waiting) e ∨ reply = .error e)
      (reply : Except Error α) (hreply : ∀ e, reply = .error e → A (framesOf waiting) e) :
      (next reply).Relays (A (framesOf waiting)) := (h reply).of_reply fun e he _ => hreply e he
  cases p with
  | finish => exact accounted_finish hA hp hw
  | update => exact ⟨hp, hw⟩
  | inspect | caller | memorySize => exact ⟨hp _, hw⟩
  | readMemory start length next =>
    unfold stepHost
    dsimp only
    split
    · exact hnoMemory hp
    · exact accounted_reply (Store.never_readMemory _ _ _) hp hw caller type
  | writeMemory start bytes next =>
    unfold stepHost
    dsimp only
    split
    · exact hnoMemory hp
    · exact accounted_reply (Store.never_writeMemory _ _ _) hp hw caller type
  | operate request => exact accounted_reply (Store.never_perform request) hp hw caller type
  | define funcType body => exact accounted_reply (Store.never_newFunc ⟨funcType, body⟩) hp.2 hw caller type
  | call h args next => exact accounted_call hA hs (.host (hnext hp) hw)
  | instantiate module entities next =>
    refine accounted_instantiate hA hs (.host (fun result hresult => hnext hp _ fun e he => ?_) hw)
    cases result with
    | ok => nomatch he
    | error => cases he; exact hresult e rfl

/-- **Who waits is told of what is accounted for**, and adds the lines of its own frames. -/
theorem accounted_deliver {result : Except Error (List Value)} {w : Waiting σ}
    (hA : Accounting A ⟨s, .outcome result, w :: waiting⟩)
    (hresult : ∀ e, result = .error e → A (framesOf (w :: waiting)) e) (hw : Relaying A outer (w :: waiting))
    (houter : w :: waiting ≠ outer) : Accounted A outer (deliver s result w waiting) := by
  cases hw with
  | outer => exact absurd rfl houter
  | host hnext hw => exact ⟨hnext result hresult, hw⟩
  | start hw =>
    cases result with
    | ok values => exact accounted_values values hw
    | error e => exact accounted_error (hresult e rfl) hw
  | guest hw =>
    unfold deliver
    dsimp only
    split
    · next e => exact accounted_error (hA.passed (hresult e rfl)) hw
    · split
      · next e he =>
        obtain ⟨f, rfl⟩ := pushResults_eq_error he
        exact accounted_error (hA.raised (.results he) (Error.not_traced_ofHostFailure f) rfl) hw
      · exact ⟨trivial, hw⟩

/-- **Errors stay accounted for**, until those are told of them who wait outside. -/
theorem Accounted.step (h : m.Accounted A outer) (hA : Accounting A m) (hs : m.store.Relays)
    (houter : ∀ result, m.control = .outcome result → m.waiting ≠ outer) : m.step.Accounted A outer := by
  obtain ⟨s, control, waiting⟩ := m
  cases control with
  | guest inv => exact accounted_stepGuest hA hs h.waiting
  | host caller type p => exact accounted_stepHost hA hs h.control h.waiting
  | outcome result =>
    cases waiting with
    | nil => exact h
    | cons w waiting => exact accounted_deliver hA h.control h.waiting (houter result rfl)

/-- Functions that are made hand on errors unchanged. -/
theorem Accounted.hosts_step (h : m.Accounted A outer) (hs : m.store.Relays) : m.step.store.Relays := by
  refine obeys_step hs fun f hf => ?_
  obtain ⟨s, control, waiting⟩ := m
  cases control with
  | guest | outcome => nomatch hf
  | host caller type p =>
    cases p with
    | define =>
      cases hf
      exact h.control.1
    | _ => nomatch hf

end Machine

end

/-! ### Calls that end in traps -/

namespace Machine

/-- Who waits for the outcome of the call, or the instantiation, that the machine is about to begin. -/
def awaits? : Machine σ → Option (List (Waiting σ))
  | ⟨_, .host caller type (.call _ _ next), waiting⟩ => some (.host caller type next :: waiting)
  | ⟨s, .host caller type (.instantiate _ _ next), waiting⟩ =>
    some (.host caller type (fun r => next (r.map fun _ => ⟨s.id, s.instances.size⟩)) :: waiting)
  | _ => none

/-- **The call that a machine is about to begin ends** after a number of steps: then, and not before, an outcome is there
for those who wait for it. -/
structure Returns (m : Machine σ) (n : Nat) (result : Except Error (List Value)) (outer : List (Waiting σ)) : Prop where
  begins : m.awaits? = some outer
  control : (m.run n).control = .outcome result
  waiting : (m.run n).waiting = outer
  first : ∀ k < n, ∀ result, (m.run k).control = .outcome result → (m.run k).waiting ≠ outer

/-- **A trap is accounted for by the steps of a run**: it was raised by one of them, and its trace is that of all frames
that were active then, up to those that are still around it. -/
def AccountedFor (m : Machine σ) (n : Nat) (around : List Frame) (e : Error) : Prop :=
  ∀ t place, e = .trap t place → ∃ k < n, ∃ trapping, (m.run k).Raises trapping (.trap { t with trace := [] } place) ∧
    t.trace ++ around.map Frame.trace = (m.run k).frames.map Frame.trace

variable {m : Machine σ} {n k : Nat} {result : Except Error (List Value)} {outer : List (Waiting σ)}

/-- The lines of a trace and those of the frames around it grow apart, and stay together all of them. -/
theorem accounting_run (hk : k < n) : Accounting (m.AccountedFor n) (m.run k) where
  failure around f t place heq := nomatch heq
  passed := by
    intro inner around e h t place heq
    cases e with
    | failure => nomatch heq
    | trap t₀ =>
      cases heq
      obtain ⟨j, hj, trapping, hraises, htrace⟩ := h t₀ place rfl
      refine ⟨j, hj, trapping, hraises, ?_⟩
      rw [List.append_assoc, ← List.map_append, htrace]
  raised := by
    intro trapping e inner around hraises huntraced hframes t place heq
    cases e with
    | failure => nomatch heq
    | trap t₀ =>
      cases heq
      obtain ⟨code, trace, host⟩ := t₀
      obtain rfl : trace = [] := Decidable.not_not.mp huntraced
      refine ⟨k, hk, trapping, hraises, ?_⟩
      rw [List.nil_append, ← List.map_append, hframes]

/-- The first step, behind which the others wait outside. -/
theorem accounted_begin {A : List Frame → Error → Prop} (hbegins : m.awaits? = some outer) (hA : Accounting A m)
    (hs : m.store.Relays) : m.step.Accounted A outer ∧ m.step.store.Relays := by
  obtain ⟨s, control, waiting⟩ := m
  cases control with
  | guest | outcome => nomatch hbegins
  | host caller type p =>
    cases p with
    | call h args next =>
      cases hbegins
      exact ⟨accounted_call hA hs .outer, obeys_step hs fun f hf => nomatch hf⟩
    | instantiate module entities next =>
      cases hbegins
      exact ⟨accounted_instantiate hA hs .outer, obeys_step hs fun f hf => nomatch hf⟩
    | _ => nomatch hbegins

/-- **The errors of a call stay accounted for**, from its first step to its last. -/
theorem accounted_run {A : List Frame → Error → Prop} (hbegins : m.awaits? = some outer) (hs : m.store.Relays)
    (hA : ∀ k < n, Accounting A (m.run k))
    (hfirst : ∀ k < n, ∀ result, (m.run k).control = .outcome result → (m.run k).waiting ≠ outer) (hk : k < n) :
    (m.run (k + 1)).Accounted A outer ∧ (m.run (k + 1)).store.Relays := by
  induction k with
  | zero =>
    have hA : Accounting A m := hA 0 hk
    rw [run_succ]
    exact accounted_begin hbegins hA hs
  | succ k ih =>
    obtain ⟨hbefore, hs⟩ := ih (Nat.lt_of_succ_lt hk)
    rw [run_succ]
    exact ⟨hbefore.step (hA _ hk) hs (hfirst _ hk), hbefore.hosts_step hs⟩

/-- No call has ended before it begins. -/
theorem pos_of_begins (hbegins : m.awaits? = some outer) (hcontrol : (m.run n).control = .outcome result) : 0 < n := by
  refine Nat.pos_of_ne_zero ?_
  rintro rfl
  obtain ⟨s, control, waiting⟩ := m
  cases hcontrol
  nomatch hbegins

/-- **The outcome of a call is accounted for** by its steps. -/
theorem Returns.error {e : Error} (h : m.Returns n (.error e) outer) (hs : m.store.Relays) :
    m.AccountedFor n (framesOf outer) e := by
  obtain ⟨k, rfl⟩ := Nat.exists_eq_add_one_of_ne_zero (pos_of_begins h.begins h.control).ne'
  obtain ⟨hcontrol, -⟩ := (accounted_run h.begins hs (fun _ => accounting_run) h.first (Nat.lt_succ_self k)).1
  rw [h.control, h.waiting] at hcontrol
  exact hcontrol e rfl

end Machine

/-! ### A trap that passes host functions -/

namespace Machine

/-- The trap that comes of it, with a line for each of the frames. -/
def passed : Trap := { code := .stackOverflow, trace := [⟨1, none, 32⟩, ⟨1, none, 32⟩] }

end Machine

end WasmEngine
