import WasmEngine.Machine.Step
import WasmEngine.Proofs.Machine.Quiet
import WasmEngine.Proofs.Store.Instantiate

/-!
# What can be reached

The embedder acts on a store like a host function without a caller does: by a `HostProgram`. A machine is
`Machine.Reached` if it comes up while programs of the embedder run one after the other, the first of them in an
empty store. With it comes a log of the events that matter later: which instantiations were begun, and which
start functions failed.

Programs are free to do whatever they like, with one restriction: the modules that they instantiate are valid
(`HostProgram.WellFormed`), since there is no other way to get a module.

A step changes the store in one of four ways (`Store.Moves`): quietly, by making a host function, by an
instantiation, or by taking the memories from an instance whose start function failed.
-/

namespace WasmEngine

/-! ### Host programs -/

/-- **All modules that a program instantiates are valid**, whatever it is replied. -/
def HostProgram.WellFormed {σ : Type} : HostProgram σ → Prop
  | .finish _ => True
  | .update _ next => next.WellFormed
  | .inspect next => ∀ state, (next state).WellFormed
  | .caller next => ∀ h, (next h).WellFormed
  | .memorySize next => ∀ size, (next size).WellFormed
  | .readMemory _ _ next => ∀ reply, (next reply).WellFormed
  | .writeMemory _ _ next => ∀ reply, (next reply).WellFormed
  | .operate _ next => ∀ reply, (next reply).WellFormed
  | .define _ body next => (∀ args, (body args).WellFormed) ∧ ∀ reply, (next reply).WellFormed
  | .call _ _ next => ∀ reply, (next reply).WellFormed
  | .instantiate m _ next => m.Valid ∧ ∀ reply, (next reply).WellFormed

/-- A host function is a well-formed program for all arguments. -/
def HostFunc.WellFormed {σ : Type} (f : HostFunc σ) : Prop := ∀ args, (f.body args).WellFormed

/-! ### Events -/

/-- What is worth remembering of a run: an instantiation that was begun in a store, or that the start function
of the instance at a place failed. -/
inductive Event (σ : Type) where
  | instantiation (store : Store σ) (module : Module) (entities : List Extern)
  | startFailure (place : Nat)

namespace Store

variable {σ : Type} {s s' : Store σ} {place : Nat}

/-- **What a step does to a store**, and the event that goes with it. -/
inductive Moves : Store σ → Option (Event σ) → Store σ → Prop
  | quiet {s s' : Store σ} : Quiet s s' → Moves s none s'
  | define {s : Store σ} {f : HostFunc σ} : f.WellFormed →
    Moves s none { s with funcs := s.funcs.push (.host f) }
  | instantiate {s s' : Store σ} {m : Module} {entities : List Extern} : m.Valid →
    Quiet (endState (Store.instantiate m entities s)) s' →
    Moves s (some (.instantiation s m entities)) s'
  | release {s : Store σ} {place : Nat} : place < s.instances.size →
    Moves s (some (.startFailure place)) (s.release place)

/-- **Order in a store**: host functions are well formed, the other functions are declared by valid modules, and
memories belong to instances that there are. -/
structure Orderly (s : Store σ) : Prop where
  hosts : ∀ f, .host f ∈ s.funcs → f.WellFormed
  declared : ∀ f, .wasm f ∈ s.funcs → f.Declared
  owners : ∀ a place, s.ownerOf a = some place → place < s.instances.size

namespace Orderly

theorem fresh (hs : s.Orderly) (a : Nat) : s.ownerOf a ≠ some s.instances.size :=
  fun h => Nat.lt_irrefl _ (hs.owners a _ h)

theorem of_new (id : Nat) (config : Config) (state : σ) : (Store.new id config state).Orderly where
  hosts f h := absurd h (Array.not_mem_empty _)
  declared f h := absurd h (Array.not_mem_empty _)
  owners a _ h := by simp [ownerOf, new] at h

theorem of_quiet (hs : s.Orderly) (h : Quiet s s') : s'.Orderly where
  hosts f hf := hs.hosts f (h.funcs_eq ▸ hf)
  declared f hf := hs.declared f (h.funcs_eq ▸ hf)
  owners a p hp := by
    rw [h.owner] at hp
    rw [h.instances_size]
    exact hs.owners a p hp

theorem of_release (hs : s.Orderly) (place : Nat) : (s.release place).Orderly where
  hosts := hs.hosts
  declared := hs.declared
  owners a p hp := by
    rw [ownerOf_release] at hp
    split at hp
    · nomatch hp
    · exact hs.owners a p hp

end Orderly

/-- The functions of a module are declared by it, as long as it is valid. -/
theorem declared_append {m : Module} (hs : s.Orderly) (hv : m.Valid) (place : Nat)
    (hf : s'.funcs = s.funcs ++ m.ownFuncs place) :
    (∀ f, .host f ∈ s'.funcs → f.WellFormed) ∧ ∀ f, .wasm f ∈ s'.funcs → f.Declared := by
  obtain ⟨features, hm⟩ := hv.checked
  constructor <;> intro f h <;> rw [hf] at h <;> rcases Array.mem_append.mp h with h | h
  · exact hs.hosts f h
  · obtain ⟨k, -, hk⟩ := mem_ownFuncs h
    nomatch hk
  · exact hs.declared f h
  · obtain ⟨k, hk, he⟩ := mem_ownFuncs h
    cases he
    exact ownFunc_declared hv hm hk

/-- An instance that was made is in order. -/
theorem Made.orderly {m : Module} {entities : List Extern} {s₁ s₂ : Store σ} {i : ModuleInstance}
    (hs : s.Orderly) (hv : m.Valid) (h : Made m entities s.instances.size s s₁ i)
    (hquiet : Quiet (s₁.addInstance i) s₂) : s₂.Orderly := by
  have hfuncs := declared_append hs hv _ h.funcs_eq
  refine Orderly.of_quiet (s := s₁.addInstance i) ⟨hfuncs.1, hfuncs.2, fun a place hplace => ?_⟩ hquiet
  change place < (s₁.instances.push i).size
  rw [Array.size_push, h.instances_eq]
  rcases h.owner a with ha | ⟨-, ha⟩
  · have howner : s.ownerOf a = some place := ha.symm.trans hplace
    exact Nat.lt_succ_of_lt (hs.owners a place howner)
  · cases ha.symm.trans hplace
    exact Nat.lt_succ_self _

theorem orderly_instantiate {m : Module} (hs : s.Orderly) (hv : m.Valid) (entities : List Extern) :
    (endState (instantiate m entities s)).Orderly := by
  have h := instantiate_cases hv entities hs.fresh
  generalize instantiate m entities s = r at h
  cases h with
  | refused _ hquiet _ => exact hs.of_quiet hquiet
  | stranded _ _ _ hfuncs hinstances howner _ => exact {
      hosts := (declared_append hs hv _ hfuncs).1
      declared := (declared_append hs hv _ hfuncs).2
      owners := fun a place h => hinstances ▸ hs.owners a place ((howner a).symm.trans h) }
  | failed _ _ hmade hquiet _ => exact (hmade.orderly hs hv hquiet).of_release _
  | made _ _ hmade hquiet _ _ _ => exact hmade.orderly hs hv hquiet

theorem extends_addInstance (s : Store σ) (i : ModuleInstance) : Extends s (s.addInstance i) :=
  { refl_of Extends s with instances := .push (refl_of _) i }

theorem extends_instantiate {m : Module} (hs : s.Orderly) (hv : m.Valid) (entities : List Extern) :
    Extends s (endState (instantiate m entities s)) := by
  have h := instantiate_cases hv entities hs.fresh
  generalize instantiate m entities s = r at h
  have hmake {s₁ s₂ : Store σ} {i : ModuleInstance} (hmade : Made m entities s.instances.size s s₁ i)
      (hquiet : Quiet (s₁.addInstance i) s₂) : Extends s s₂ :=
    trans_of Extends (trans_of Extends hmade.toExtends (extends_addInstance s₁ i)) hquiet.toExtends
  cases h with
  | refused _ hquiet _ => exact hquiet.toExtends
  | stranded _ _ hext _ _ _ _ => exact hext
  | failed _ _ hmade hquiet _ => exact trans_of Extends (hmake hmade hquiet) (extends_release _ _)
  | made _ _ hmade hquiet _ _ _ => exact hmake hmade hquiet

namespace Moves

variable {event : Option (Event σ)}

theorem orderly (h : Moves s event s') (hs : s.Orderly) : s'.Orderly := by
  cases h with
  | quiet h => exact hs.of_quiet h
  | define hf => exact {
      hosts := fun g hg => (Array.mem_push.mp hg).elim (hs.hosts g) fun he => by
        cases he
        exact hf
      declared := fun g hg => (Array.mem_push.mp hg).elim (hs.declared g) nofun
      owners := hs.owners }
  | instantiate hv h => exact (orderly_instantiate hs hv _).of_quiet h
  | release _ => exact hs.of_release _

theorem toExtends (h : Moves s event s') (hs : s.Orderly) : Extends s s' := by
  cases h with
  | quiet h => exact h.toExtends
  | define => exact { refl_of Extends s with funcs := .push (fun _ => rfl) _ }
  | instantiate hv h => exact trans_of Extends (extends_instantiate hs hv _) h.toExtends
  | release _ => exact extends_release _ s

end Moves

end Store

/-! ### Machines in order -/

variable {σ : Type}

/-- What runs is well formed. -/
def Control.WellFormed : Control σ → Prop
  | .host _ _ p => p.WellFormed
  | _ => True

/-- What waits is well formed, and a start function belongs to an instance that there is. -/
def Waiting.WellFormed (s : Store σ) : Waiting σ → Prop
  | .guest .. => True
  | .host _ _ next => ∀ result, (next result).WellFormed
  | .start place => place < s.instances.size

theorem Waiting.WellFormed.mono {s s' : Store σ} (h : s.Extends s') {w : Waiting σ}
    (hw : w.WellFormed s) : w.WellFormed s' := by
  cases w with
  | guest => trivial
  | host => exact hw
  | start place => exact Nat.lt_of_lt_of_le hw h.instances.size_le

namespace Machine

/-- **A machine in order**: its store is, and all programs in it are well formed. -/
structure Orderly (m : Machine σ) : Prop where
  store : m.store.Orderly
  control : m.control.WellFormed
  waiting : ∀ w ∈ m.waiting, w.WellFormed m.store

/-- The event of the step that a machine is about to make. -/
def event? : Machine σ → Option (Event σ)
  | ⟨s, .host _ _ (.instantiate m entities _), _⟩ => some (.instantiation s m entities)
  | ⟨_, .outcome result, .start place :: _⟩ => match result with
    | .error _ => some (.startFailure place)
    | .ok _ => none
  | _ => none

/-! ### Steps -/

/-- What goes on behind something quiet that was done in a store. -/
structure Continues (s : Store σ) (m : Machine σ) : Prop where
  quiet : s.Quiet m.store
  control : m.control.WellFormed
  waiting : ∀ w ∈ m.waiting, w.WellFormed s

section

variable {s s' : Store σ} {waiting : List (Waiting σ)}

theorem Continues.orderly {m : Machine σ} (hs : s.Orderly) (h : Continues s m) : m.Orderly where
  store := hs.of_quiet h.quiet
  control := h.control
  waiting w hw := (h.waiting w hw).mono h.quiet.toExtends

theorem quiet_count (s : Store σ) (stats : Stats) (depth : Nat) :
    s.Quiet { s with stats, depth } :=
  .of_entities rfl rfl rfl rfl rfl rfl rfl rfl

theorem keeps_enter (inv : Invocation) (f : WasmFunc) :
    Keeps Store.Quiet (inv.enter f : StoreM σ Invocation) := by
  intro s
  unfold Invocation.enter
  dsimp only
  split
  · exact refl_of _ s
  split
  · exact refl_of _ s
  split
  · exact refl_of _ s
  split
  · exact refl_of _ s
  · exact .of_entities rfl rfl rfl rfl rfl rfl rfl rfl

theorem continues_fail (hw : ∀ w ∈ waiting, w.WellFormed s) (h : s.Quiet s') (inv : Invocation)
    (e : Error) : Continues s (fail s' inv e waiting) :=
  ⟨h, trivial, hw⟩

theorem continues_callHost (hw : ∀ w ∈ waiting, w.WellFormed s) (h : s.Quiet s') (inv : Invocation)
    {f : HostFunc σ} (hf : f.WellFormed) : Continues s (callHost s' inv f waiting) := by
  unfold callHost
  dsimp only
  split
  · exact continues_fail hw h _ _
  · exact ⟨trans_of _ h (quiet_count s' _ _), hf _, List.forall_mem_cons.mpr ⟨trivial, hw⟩⟩

theorem continues_callFrom (hs : s.Orderly) (hw : ∀ w ∈ waiting, w.WellFormed s) (h : s.Quiet s')
    (inv : Invocation) (addr : Nat) : Continues s (callFrom s' inv addr waiting) := by
  have hpoll := Store.keeps_pollInterrupt s'
  unfold callFrom
  cases hp : Store.pollInterrupt s' <;> rw [hp] at hpoll <;> dsimp only
  case error => exact continues_fail hw (trans_of _ h hpoll) _ _
  case ok s₁ =>
    have h₁ : s.Quiet s₁ := trans_of _ h hpoll
    split
    · exact continues_fail hw h₁ _ _
    · next f _ =>
      have henter := keeps_enter inv f s₁
      cases he : inv.enter f s₁ <;> rw [he] at henter <;> dsimp only
      · exact ⟨trans_of _ h₁ henter, trivial, hw⟩
      · exact continues_fail hw (trans_of _ h₁ henter) _ _
    · next f hf =>
      exact continues_callHost hw h₁ _ (hs.hosts f (h₁.funcs_eq ▸ Array.mem_of_getElem? hf))

theorem continues_invoke (hs : s.Orderly) (hw : ∀ w ∈ waiting, w.WellFormed s) (h : s.Quiet s')
    (addr : Nat) (args : List Value) : Continues s (invoke s' addr args waiting) := by
  unfold invoke
  split
  · exact ⟨h, trivial, hw⟩
  · next f hf =>
    have hpoll := Store.keeps_pollInterrupt s'
    cases hp : Store.pollInterrupt s' <;> rw [hp] at hpoll <;> dsimp only
    case error => exact ⟨trans_of _ h hpoll, trivial, hw⟩
    case ok s₁ =>
      have h₁ : s.Quiet s₁ := trans_of _ h hpoll
      exact ⟨trans_of _ h₁ (quiet_count s₁ _ _), hs.hosts f (h.funcs_eq ▸ Array.mem_of_getElem? hf) _, hw⟩
  · exact continues_callFrom hs hw h _ _

theorem continues_call (hs : s.Orderly) (hw : ∀ w ∈ waiting, w.WellFormed s) (h : Handle .func)
    (args : List Value) : Continues s (call s h args waiting) := by
  unfold call
  split
  · exact ⟨refl_of _ s, trivial, hw⟩
  · exact continues_invoke hs hw (refl_of _ s) _ _

theorem continues_stepGuest (hs : s.Orderly) (hw : ∀ w ∈ waiting, w.WellFormed s) (inv : Invocation) :
    Continues s (stepGuest s inv waiting) := by
  obtain ⟨stack, frames, types⟩ := inv
  cases frames with
  | nil => exact ⟨refl_of _ s, trivial, hw⟩
  | cons f rest =>
    have hexec : Keeps Running.Quiet (Activation.exec f : Exec σ (Transfer Frame)) := .map f.keeps_exec
    have hexec := hexec ⟨s, stack⟩
    unfold stepGuest
    dsimp only
    cases hr : (Activation.exec f : Exec σ (Transfer Frame)) ⟨s, stack⟩ <;> rw [hr] at hexec <;> dsimp only
    case error => exact continues_fail hw hexec _ _
    case ok transfer r =>
      cases transfer with
      | go => exact ⟨hexec, trivial, hw⟩
      | call addr => exact continues_callFrom hs hw hexec _ _
      | ret => cases rest <;> exact ⟨hexec, trivial, hw⟩

/-- Instantiating goes on behind what `Store.instantiate` did. -/
theorem continues_instantiate {m : Module} {entities : List Extern} (hs : s.Orderly) (hv : m.Valid)
    (hw : ∀ w ∈ waiting, w.WellFormed s) :
    Continues (endState (Store.instantiate m entities s)) (instantiate s m entities waiting) := by
  have hend := Store.orderly_instantiate hs hv entities
  have hext := Store.extends_instantiate hs hv entities
  have hcases := Store.instantiate_cases hv entities hs.fresh
  have hw' : ∀ w ∈ waiting, w.WellFormed (endState (Store.instantiate m entities s)) :=
    fun w h => (hw w h).mono hext
  unfold instantiate
  dsimp only
  cases hr : Store.instantiate m entities s <;> rw [hr] at hend hcases hw'
  case error => exact ⟨refl_of _ _, trivial, hw'⟩
  case ok start s₂ =>
    cases start with
    | none => exact ⟨refl_of _ _, trivial, hw'⟩
    | some addr =>
      refine continues_invoke hend (List.forall_mem_cons.mpr ⟨?_, hw'⟩) (refl_of _ _) _ _
      cases hcases with
      | made _ _ hmade hquiet =>
        change s.instances.size < s₂.instances.size
        rw [hquiet.instances_size]
        exact (Array.getElem?_eq_some_iff.mp hmade.instance).1

/-- The replies to a request leave the program well formed. -/
theorem continues_settle {α : Type} {act : StoreM σ α} (h : Keeps Store.Quiet act)
    {next : Except Error α → HostProgram σ} (hp : ∀ reply, (next reply).WellFormed)
    (hw : ∀ w ∈ waiting, w.WellFormed s) (caller : Option Nat) (type : FuncType) :
    Continues s ⟨(settle (act s)).2, .host caller type (next (settle (act s)).1), waiting⟩ := by
  have hs := h s
  cases hr : act s <;> rw [hr] at hs <;> exact ⟨hs, hp _, hw⟩

end

/-! ### Runs -/

/-- **A step does one of four things to the store**, and leaves the machine in order. -/
theorem Orderly.step {m : Machine σ} (hm : m.Orderly) :
    m.store.Moves m.event? m.step.store ∧ m.step.Orderly := by
  obtain ⟨s, control, waiting⟩ := m
  obtain ⟨hs, hc, hw⟩ := hm
  have hquiet {m' : Machine σ} (h : Continues s m') : s.Moves none m'.store ∧ m'.Orderly :=
    ⟨.quiet h.quiet, h.orderly hs⟩
  cases control with
  | guest inv => exact hquiet (continues_stepGuest hs hw inv)
  | host caller type p =>
    cases p with
    | finish outcome => exact hquiet ⟨refl_of _ s, trivial, hw⟩
    | update change next =>
      exact hquiet ⟨.of_entities rfl rfl rfl rfl rfl rfl rfl rfl, hc, hw⟩
    | inspect next => exact hquiet ⟨refl_of _ s, hc _, hw⟩
    | caller next => exact hquiet ⟨refl_of _ s, hc _, hw⟩
    | memorySize next => exact hquiet ⟨refl_of _ s, hc _, hw⟩
    | readMemory start length next =>
      refine hquiet ?_
      unfold Machine.step stepHost
      dsimp only
      split
      · exact ⟨refl_of _ s, hc _, hw⟩
      · exact continues_settle (Store.keeps_readMemory _ _ _) hc hw caller type
    | writeMemory start bytes next =>
      refine hquiet ?_
      unfold Machine.step stepHost
      dsimp only
      split
      · exact ⟨refl_of _ s, hc _, hw⟩
      · exact continues_settle (Store.keeps_writeMemory _ _ _) hc hw caller type
    | operate request next =>
      exact hquiet (continues_settle (Store.keeps_perform request) hc hw caller type)
    | define funcType body next =>
      have hmoves : s.Moves none { s with funcs := s.funcs.push (.host ⟨funcType, body⟩) } :=
        .define (f := ⟨funcType, body⟩) hc.1
      exact ⟨hmoves, hmoves.orderly hs, hc.2 _, fun w h => (hw w h).mono (hmoves.toExtends hs)⟩
    | call h args next =>
      have hnext : (Waiting.host caller type next).WellFormed s := hc
      exact hquiet (continues_call hs (List.forall_mem_cons.mpr ⟨hnext, hw⟩) h args)
    | instantiate m entities next =>
      have h : Continues _ (Machine.step ⟨s, .host caller type (.instantiate m entities next), waiting⟩) :=
        continues_instantiate hs hc.1 (List.forall_mem_cons.mpr ⟨fun _ => hc.2 _, hw⟩)
      exact ⟨.instantiate hc.1 h.quiet, h.orderly (Store.orderly_instantiate hs hc.1 _)⟩
  | outcome result =>
    cases waiting with
    | nil => exact hquiet ⟨refl_of _ s, trivial, hw⟩
    | cons w waiting =>
      obtain ⟨hw₁, hw⟩ := List.forall_mem_cons.mp hw
      cases w with
      | host caller type next => exact hquiet ⟨refl_of _ s, hw₁ _, hw⟩
      | guest inv type depth =>
        have hcount : s.Quiet { s with depth } := quiet_count s s.stats depth
        refine hquiet ?_
        unfold Machine.step deliver
        dsimp only
        split
        · exact continues_fail hw hcount _ _
        · split
          · exact continues_fail hw hcount _ _
          · exact ⟨hcount, trivial, hw⟩
      | start place =>
        cases result with
        | ok values => exact hquiet ⟨refl_of _ s, trivial, hw⟩
        | error e =>
          have hmoves : s.Moves (some (.startFailure place)) (s.release place) := .release hw₁
          exact ⟨hmoves, hmoves.orderly hs, trivial, fun w h => (hw w h).mono (hmoves.toExtends hs)⟩

/-- **What can be reached**, with the events on the way, the last one first. A program of the embedder starts
when the one before it has come to its end. -/
inductive Reached : Machine σ → List (Event σ) → Prop
  | empty (id : Nat) (config : Config) (state : σ) :
    Reached ⟨.new id config state, .outcome (.ok []), []⟩ []
  | program {s : Store σ} {result : Except Error (List Value)} {log : List (Event σ)}
    {p : HostProgram σ} : Reached ⟨s, .outcome result, []⟩ log → p.WellFormed →
    Reached ⟨s, .host none ⟨[], []⟩ p, []⟩ log
  | step {m : Machine σ} {log : List (Event σ)} : Reached m log →
    Reached m.step (m.event?.toList ++ log)

namespace Reached

variable {m : Machine σ} {log : List (Event σ)}

/-- **Machines that are reached are in order.** -/
theorem orderly (h : Reached m log) : m.Orderly := by
  induction h with
  | empty id config state => exact ⟨.of_new id config state, trivial, nofun⟩
  | program _ hp ih => exact ⟨ih.store, hp, nofun⟩
  | step _ ih => exact ih.step.2

theorem moves (h : Reached m log) : m.store.Moves m.event? m.step.store := h.orderly.step.1

/-- Whatever comes up in a run is reached. -/
theorem run (h : Reached m log) (n : Nat) : ∃ log', Reached (m.run n) log' := by
  induction n generalizing m log with
  | zero => exact ⟨log, h⟩
  | succ n ih =>
    unfold Machine.run
    split
    · exact ⟨log, h⟩
    · exact ih h.step

/-- **What holds of the empty store and is kept by steps** holds of all stores that are reached. -/
theorem store_induction {P : Store σ → List (Event σ) → Prop}
    (empty : ∀ (id : Nat) (config : Config) (state : σ), P (.new id config state) [])
    (step : ∀ {s s' : Store σ} {event : Option (Event σ)} {log : List (Event σ)}, s.Orderly → P s log →
      s.Moves event s' → P s' (event.toList ++ log)) (h : Reached m log) : P m.store log := by
  induction h with
  | empty id config state => exact empty id config state
  | program _ _ ih => exact ih
  | step hm ih => exact step hm.orderly.store ih hm.moves

end Reached

end Machine

end WasmEngine
