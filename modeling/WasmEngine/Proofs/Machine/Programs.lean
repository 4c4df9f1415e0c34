import WasmEngine.Proofs.Machine.Effects
import WasmEngine.Proofs.Machine.Soundness

/-!
# The programs of host functions

What host functions do is known from their programs, and these are at several places in a machine: in the functions of
the store, where a host function runs, and where one waits for the outcome of a call. A property of programs that goes
over to whatever a program goes on with (`HostProgram.Inherited`) holds at all of these places, and at all times, if it
holds at the beginning (`Machine.Obeys.run`). It is enough to ask it of the host functions of the store before a call
(`Machine.obeys_call`).
-/

namespace WasmEngine

variable {σ : Type} {P : HostProgram σ → Prop}

/-- **A property that a program hands on**, to what it goes on with and to the functions that it makes. -/
structure HostProgram.Inherited (P : HostProgram σ → Prop) : Prop where
  update : ∀ {change next}, P (.update change next) → P next
  inspect : ∀ {next}, P (.inspect next) → ∀ state, P (next state)
  caller : ∀ {next}, P (.caller next) → ∀ h, P (next h)
  memorySize : ∀ {next}, P (.memorySize next) → ∀ size, P (next size)
  readMemory : ∀ {start length next}, P (.readMemory start length next) → ∀ reply, P (next reply)
  writeMemory : ∀ {start bytes next}, P (.writeMemory start bytes next) → ∀ reply, P (next reply)
  operate : ∀ {request next}, P (.operate request next) → ∀ reply, P (next reply)
  body : ∀ {type body next}, P (.define type body next) → ∀ args, P (body args)
  define : ∀ {type body next}, P (.define type body next) → ∀ reply, P (next reply)
  call : ∀ {func args next}, P (.call func args next) → ∀ reply, P (next reply)
  instantiate : ∀ {module imports next}, P (.instantiate module imports next) → ∀ reply, P (next reply)

/-- All host functions of a store have a property. -/
def Store.Obeys (P : HostProgram σ → Prop) (s : Store σ) : Prop := ∀ f, .host f ∈ s.funcs → ∀ args, P (f.body args)

namespace Store.Obeys

variable {s s' : Store σ}

/-- An op that calls has not made functions. -/
theorem of_exec_call (hs : s.Obeys P) {f : Frame} {stack : Stack} {addr : Nat} {r : Running σ}
    (h : f.exec ⟨s, stack⟩ = .ok (.call addr) r) : r.store.Obeys P := by
  have hfuncs : r.store.funcs = s.funcs := by rw [(Frame.exec_call h).store]; rfl
  exact fun f hf => hs f (hfuncs ▸ hf)

/-- Nor has an instantiation made host functions. -/
theorem of_instantiate (hs : s.Obeys P) {m : Module} {entities : List Extern} {start : Option Nat}
    (h : Store.instantiate m entities s = .ok start s') : s'.Obeys P := by
  have hevolves : s.Evolves s.config.maxMemoryPages (endState (Store.instantiate m entities s)) :=
    Store.evolves_instantiate m entities s
  rw [h, endState_ok] at hevolves
  exact fun f hf => hs f (hevolves.hosts rfl hf)

end Store.Obeys

/-- What runs has the property. -/
def Control.Obeys (P : HostProgram σ → Prop) : Control σ → Prop
  | .host _ _ p => P p
  | _ => True

/-- What waits has the property, whatever comes of the call. -/
def Waiting.Obeys (P : HostProgram σ → Prop) : Waiting σ → Prop
  | .host _ _ next => ∀ result, P (next result)
  | _ => True

namespace Machine

/-- **All programs of a machine have a property.** -/
structure Obeys (P : HostProgram σ → Prop) (m : Machine σ) : Prop where
  hosts : m.store.Obeys P
  control : m.control.Obeys P
  waiting : ∀ w ∈ m.waiting, w.Obeys P

/-- The programs that go on have the property. -/
structure GoesOn (P : HostProgram σ → Prop) (m : Machine σ) : Prop where
  control : m.control.Obeys P
  waiting : ∀ w ∈ m.waiting, w.Obeys P

section

variable {s : Store σ} {waiting : List (Waiting σ)}

theorem goesOn_callHost (hw : ∀ w ∈ waiting, w.Obeys P) (inv : Invocation) {f : HostFunc σ}
    (hf : ∀ args, P (f.body args)) : GoesOn P (callHost s inv f waiting) := by
  unfold callHost
  dsimp only
  split
  · exact ⟨trivial, hw⟩
  · exact ⟨hf _, List.forall_mem_cons.mpr ⟨trivial, hw⟩⟩

theorem goesOn_callFrom (hs : s.Obeys P) (hw : ∀ w ∈ waiting, w.Obeys P) (inv : Invocation) (addr : Nat) :
    GoesOn P (callFrom s inv addr waiting) := by
  have hpoll : s.Notes (endState (Store.pollInterrupt s)) := Store.notes_pollInterrupt s
  unfold callFrom
  cases hp : Store.pollInterrupt s with
  | error => exact ⟨trivial, hw⟩
  | ok _ s₁ =>
    rw [hp, endState_ok] at hpoll
    have hfuncs : s₁.funcs = s.funcs := by rw [hpoll.store]
    dsimp only
    split
    · exact ⟨trivial, hw⟩
    · split <;> exact ⟨trivial, hw⟩
    · next f hf => exact goesOn_callHost hw inv (hs f (hfuncs ▸ Array.mem_of_getElem? hf))

theorem goesOn_invoke (hs : s.Obeys P) (hw : ∀ w ∈ waiting, w.Obeys P) (addr : Nat) (args : List Value) :
    GoesOn P (invoke s addr args waiting) := by
  unfold invoke
  split
  · exact ⟨trivial, hw⟩
  · next f hf =>
    split
    · exact ⟨trivial, hw⟩
    · exact ⟨hs f (Array.mem_of_getElem? hf) args, hw⟩
  · exact goesOn_callFrom hs hw _ addr

theorem goesOn_call (hs : s.Obeys P) (hw : ∀ w ∈ waiting, w.Obeys P) (h : Handle .func) (args : List Value) :
    GoesOn P (call s h args waiting) := by
  unfold call
  split
  · exact ⟨trivial, hw⟩
  · exact goesOn_invoke hs hw _ args

theorem goesOn_stepGuest (hs : s.Obeys P) (hw : ∀ w ∈ waiting, w.Obeys P) (inv : Invocation) :
    GoesOn P (stepGuest s inv waiting) := by
  obtain ⟨stack, frames, types⟩ := inv
  cases frames with
  | nil => exact ⟨trivial, hw⟩
  | cons f rest =>
    cases hr : f.exec ⟨s, stack⟩ with
    | error e r =>
      rw [stepGuest_of_error hr]
      exact ⟨trivial, hw⟩
    | ok flow r =>
      rw [stepGuest_of_ok hr]
      cases flow with
      | next | goto => exact ⟨trivial, hw⟩
      | call addr => exact goesOn_callFrom (hs.of_exec_call hr) hw _ addr
      | ret => cases rest <;> exact ⟨trivial, hw⟩

theorem goesOn_instantiate (hs : s.Obeys P) (hw : ∀ w ∈ waiting, w.Obeys P) (m : Module) (entities : List Extern) :
    GoesOn P (instantiate s m entities waiting) := by
  unfold instantiate
  dsimp only
  cases hr : Store.instantiate m entities s with
  | error => exact ⟨trivial, hw⟩
  | ok start =>
    cases start with
    | none => exact ⟨trivial, hw⟩
    | some addr =>
      have hstart : (Waiting.start s.instances.size).Obeys P := trivial
      exact goesOn_invoke (hs.of_instantiate hr) (List.forall_mem_cons.mpr ⟨hstart, hw⟩) addr []

theorem goesOn_stepHost (hP : HostProgram.Inherited P) (hs : s.Obeys P) (hw : ∀ w ∈ waiting, w.Obeys P)
    (caller : Option Nat) (type : FuncType) {p : HostProgram σ} (hp : P p) :
    GoesOn P (stepHost s caller type p waiting) := by
  cases p with
  | finish => exact ⟨trivial, hw⟩
  | update => exact ⟨hP.update hp, hw⟩
  | inspect => exact ⟨hP.inspect hp _, hw⟩
  | caller => exact ⟨hP.caller hp _, hw⟩
  | memorySize => exact ⟨hP.memorySize hp _, hw⟩
  | readMemory =>
    unfold stepHost
    dsimp only
    split <;> exact ⟨hP.readMemory hp _, hw⟩
  | writeMemory =>
    unfold stepHost
    dsimp only
    split <;> exact ⟨hP.writeMemory hp _, hw⟩
  | operate => exact ⟨hP.operate hp _, hw⟩
  | define => exact ⟨hP.define hp _, hw⟩
  | call h args next =>
    have hnext : (Waiting.host caller type next).Obeys P := hP.call hp
    exact goesOn_call hs (List.forall_mem_cons.mpr ⟨hnext, hw⟩) h args
  | instantiate m entities next =>
    have hnext : (Waiting.host caller type fun r => next (r.map fun _ => ⟨s.id, s.instances.size⟩)).Obeys P :=
      fun _ => hP.instantiate hp _
    exact goesOn_instantiate hs (List.forall_mem_cons.mpr ⟨hnext, hw⟩) m entities

theorem goesOn_deliver {w : Waiting σ} (hw : w.Obeys P) (hwaiting : ∀ w ∈ waiting, w.Obeys P)
    (result : Except Error (List Value)) : GoesOn P (deliver s result w waiting) := by
  cases w with
  | host => exact ⟨hw result, hwaiting⟩
  | start => cases result <;> exact ⟨trivial, hwaiting⟩
  | guest =>
    unfold deliver
    dsimp only
    split
    · exact ⟨trivial, hwaiting⟩
    · split <;> exact ⟨trivial, hwaiting⟩

end

/-- The host functions of a store are those that there were, and the one that a step makes. -/
theorem obeys_step {m : Machine σ} (hs : m.store.Obeys P) (hmade : ∀ f ∈ m.defines?, ∀ args, P (f.body args)) :
    m.step.store.Obeys P := by
  intro f hf
  have hdefined : .host f ∈ m.defined.funcs := m.evolves_step.hosts rfl hf
  rcases Array.mem_append.mp hdefined with hf | hf
  · exact hs f hf
  · refine hmade f ?_
    obtain ⟨g, hg, hfg⟩ := Option.map_eq_some_iff.mp (Option.mem_toArray.mp hf)
    cases hfg
    exact hg

namespace Obeys

variable {m : Machine σ}

/-- The function that is made is one whose program is handed on. -/
theorem hosts_step (h : m.Obeys P) (hP : HostProgram.Inherited P) : m.step.store.Obeys P := by
  refine obeys_step h.hosts fun f hf => ?_
  obtain ⟨s, control, waiting⟩ := m
  cases control with
  | guest | outcome => nomatch hf
  | host caller type p =>
    cases p with
    | define =>
      cases hf
      exact hP.body h.control
    | _ => nomatch hf

/-- **What all programs hand on stays with all programs.** -/
theorem step (h : m.Obeys P) (hP : HostProgram.Inherited P) : m.step.Obeys P := by
  have hgoesOn : GoesOn P m.step := by
    obtain ⟨s, control, waiting⟩ := m
    cases control with
    | guest inv => exact goesOn_stepGuest h.hosts h.waiting inv
    | host caller type p => exact goesOn_stepHost hP h.hosts h.waiting caller type h.control
    | outcome result =>
      cases waiting with
      | nil => exact ⟨trivial, nofun⟩
      | cons w waiting =>
        obtain ⟨hw, hwaiting⟩ := List.forall_mem_cons.mp h.waiting
        exact goesOn_deliver hw hwaiting result
  exact ⟨h.hosts_step hP, hgoesOn.control, hgoesOn.waiting⟩

theorem run (h : m.Obeys P) (hP : HostProgram.Inherited P) (n : Nat) : (m.run n).Obeys P := by
  induction n with
  | zero => exact h
  | succ n ih =>
    rw [run_succ]
    exact ih.step hP

end Obeys

/-- A call adds no programs to those of the store. -/
theorem obeys_call {s : Store σ} (hs : s.Obeys P) (h : Handle .func) (args : List Value) :
    (call s h args []).Obeys P := by
  have hgoesOn : GoesOn P (call s h args []) := goesOn_call hs (List.forall_mem_nil _) h args
  refine ⟨fun f hf => hs f ?_, hgoesOn.control, hgoesOn.waiting⟩
  rwa [(notes_call s h args).store] at hf

end Machine

end WasmEngine
