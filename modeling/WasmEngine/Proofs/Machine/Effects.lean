import WasmEngine.Proofs.Machine.Atomicity
import WasmEngine.Proofs.Store.Evolution

/-!
# What a step does to the store

A step of the machine has one effect on the store, by an op, by what a host function asks for, or by giving up the
memories of an instance whose start function failed (`Machine.effect`). Everything else that it does is to take notes
of calls: it polls the interrupt flag, counts calls and frames, and sets the depth (`Store.Notes`). So whatever is kept
by taking notes needs only be looked at for the effect (`Machine.notes_step`).

For functions, memories and tables there is not even that to be looked at. The effect is a way that a store evolves, and
so is the step, unless a host function is made (`Machine.evolves_step`).
-/

namespace WasmEngine

variable {σ : Type} {cap : Nat}

/-! ### Notes -/

namespace Store

/-- **Notes of calls have been taken**: nothing but the interrupt flag, the depth and the counters of calls has
changed. -/
structure Notes (s s' : Store σ) : Prop where
  store : s' = { s with interrupted := s'.interrupted, stats := s'.stats, depth := s'.depth }
  ops : s'.stats.opsExecuted = s.stats.opsExecuted

instance : IsPreorder (Store σ) Notes where
  refl _ := ⟨rfl, rfl⟩
  trans s s' s'' h h' := ⟨by rw [h'.store, h.store], h'.ops.trans h.ops⟩

theorem Notes.evolves {s s' : Store σ} (h : s.Notes s') : s.Evolves cap s' := by
  rw [h.store]
  exact .of_eq rfl rfl rfl rfl

theorem notes_depth (s : Store σ) (depth : Nat) : s.Notes { s with depth } := ⟨rfl, rfl⟩

theorem notes_pollInterrupt : Keeps Notes (pollInterrupt : StoreM σ Unit) := by
  intro s
  unfold pollInterrupt
  split
  · exact ⟨rfl, rfl⟩
  · exact refl_of _ s

end Store

theorem Invocation.notes_enter (inv : Invocation) (f : WasmFunc) :
    Keeps Store.Notes (inv.enter f : StoreM σ Invocation) := by
  intro s
  cases hr : (inv.enter f s : EStateM.Result Error (Store σ) Invocation) with
  | error e s' =>
    obtain rfl := enter_eq_error hr
    exact refl_of _ _
  | ok inv' s' =>
    obtain ⟨-, -, -, -, -, -, -, hstore, htally⟩ := enter_eq_ok hr
    exact ⟨by rw [endState_ok, hstore], congrArg Tally.ops htally⟩

namespace Machine

section

variable {waiting : List (Waiting σ)}

theorem notes_callHost (s : Store σ) (inv : Invocation) (f : HostFunc σ) :
    s.Notes (callHost s inv f waiting).store := by
  unfold callHost
  dsimp only
  split
  · exact refl_of _ s
  · exact ⟨rfl, rfl⟩

theorem notes_callFrom (s : Store σ) (inv : Invocation) (addr : Nat) :
    s.Notes (callFrom s inv addr waiting).store := by
  have hpoll : s.Notes (endState (Store.pollInterrupt s)) := Store.notes_pollInterrupt s
  unfold callFrom
  cases hp : Store.pollInterrupt s <;> rw [hp] at hpoll <;> dsimp only
  case error => exact hpoll
  case ok s₁ =>
    refine trans_of Store.Notes hpoll ?_
    dsimp only [endState_ok]
    split
    · exact refl_of _ s₁
    · next f _ =>
      have henter : s₁.Notes (endState (inv.enter f s₁)) := inv.notes_enter f s₁
      cases he : inv.enter f s₁ <;> rw [he] at henter <;> exact henter
    · exact notes_callHost s₁ inv _

theorem notes_invoke (s : Store σ) (addr : Nat) (args : List Value) :
    s.Notes (invoke s addr args waiting).store := by
  unfold invoke
  split
  · exact refl_of _ s
  · have hpoll : s.Notes (endState (Store.pollInterrupt s)) := Store.notes_pollInterrupt s
    cases hp : Store.pollInterrupt s <;> rw [hp] at hpoll <;> dsimp only
    case error => exact hpoll
    case ok s₁ =>
      refine trans_of Store.Notes hpoll ?_
      exact ⟨rfl, rfl⟩
  · exact notes_callFrom s _ addr

theorem notes_call (s : Store σ) (h : Handle .func) (args : List Value) :
    s.Notes (call s h args waiting).store := by
  unfold call
  split
  · exact refl_of _ s
  · exact notes_invoke s _ args

theorem notes_instantiate (s : Store σ) (m : Module) (entities : List Extern) :
    (endState (Store.instantiate m entities s)).Notes (instantiate s m entities waiting).store := by
  unfold instantiate
  dsimp only
  cases Store.instantiate m entities s with
  | error e s₁ => exact refl_of _ s₁
  | ok start s₁ =>
    cases start with
    | none => exact refl_of _ s₁
    | some addr => exact notes_invoke s₁ addr []

end

/-! ### Effects -/

/-- What a host program asks for, where the store can answer without running code. What it asks of the memory of its
caller it could ask of this memory by itself. -/
def request? (s : Store σ) (caller : Option Nat) : HostProgram σ → Option StoreRequest
  | .operate request _ => some request
  | .readMemory start length _ => (callerMemory? s caller).map fun addr => .readMemory ⟨s.id, addr⟩ start length
  | .writeMemory start bytes _ => (callerMemory? s caller).map fun addr => .writeMemory ⟨s.id, addr⟩ start bytes
  | _ => none

/-- **The effect on the store** of the step that a machine is about to make. -/
def effect : Machine σ → Store σ
  | ⟨s, .guest ⟨stack, f :: _, _⟩, _⟩ => (endState (f.exec ⟨s, stack⟩)).store
  | ⟨s, .host caller _ p, _⟩ => match request? s caller p with
    | some request => endState (Store.perform request s)
    | none => match p with
      | .update change _ => { s with state := change s.state }
      | .define type body _ => { s with funcs := s.funcs.push (.host ⟨type, body⟩) }
      | .instantiate m entities _ => endState (Store.instantiate m entities s)
      | _ => s
  | ⟨s, .outcome (.error _), .start place :: _⟩ => s.release place
  | m => m.store

theorem store_settle {α : Type} (result : EStateM.Result Error (Store σ) α) : (settle result).2 = endState result := by
  cases result <;> rfl

theorem notes_stepGuest (s : Store σ) (stack : Stack) (f : Frame) (rest : List Frame) (types : List ValueType)
    (waiting : List (Waiting σ)) : (endState (f.exec ⟨s, stack⟩)).store.Notes
      (stepGuest s ⟨stack, f :: rest, types⟩ waiting).store := by
  cases hr : f.exec ⟨s, stack⟩ with
  | error e r =>
    rw [stepGuest_of_error hr]
    exact refl_of _ r.store
  | ok flow r =>
    rw [stepGuest_of_ok hr]
    cases flow with
    | next | goto => exact refl_of _ r.store
    | call addr => exact notes_callFrom r.store _ addr
    | ret => cases rest <;> exact refl_of _ r.store

theorem notes_stepHost (s : Store σ) (caller : Option Nat) (type : FuncType) (p : HostProgram σ)
    (waiting : List (Waiting σ)) :
    (effect ⟨s, .host caller type p, waiting⟩).Notes (stepHost s caller type p waiting).store := by
  cases p with
  | finish | inspect | caller | memorySize | update | define => exact refl_of _ _
  | operate request next =>
    change (endState (Store.perform request s)).Notes (settle (Store.perform request s)).2
    rw [store_settle]
    exact refl_of _ _
  | readMemory start length next =>
    unfold stepHost effect request?
    dsimp only
    cases callerMemory? s caller with
    | none => exact refl_of _ s
    | some addr =>
      dsimp only [Option.map_some]
      rw [store_settle]
      exact refl_of _ _
  | writeMemory start bytes next =>
    unfold stepHost effect request?
    dsimp only
    cases callerMemory? s caller with
    | none => exact refl_of _ s
    | some addr =>
      dsimp only [Option.map_some]
      rw [store_settle]
      exact refl_of _ _
  | call h args next => exact notes_call s h args
  | instantiate m entities next => exact notes_instantiate s m entities

theorem notes_deliver (s : Store σ) (result : Except Error (List Value)) (w : Waiting σ)
    (waiting : List (Waiting σ)) :
    (effect ⟨s, .outcome result, w :: waiting⟩).Notes (deliver s result w waiting).store := by
  cases w with
  | host => cases result <;> exact refl_of _ s
  | start place => cases result <;> exact refl_of _ _
  | guest inv type depth =>
    unfold deliver
    cases result with
    | error => exact s.notes_depth depth
    | ok values =>
      dsimp only
      split <;> exact s.notes_depth depth

/-- **Behind its effect, a step only takes notes.** -/
theorem notes_step (m : Machine σ) : m.effect.Notes m.step.store := by
  obtain ⟨s, control, waiting⟩ := m
  cases control with
  | guest inv =>
    obtain ⟨stack, frames, types⟩ := inv
    cases frames with
    | nil => exact refl_of _ s
    | cons f rest => exact notes_stepGuest s stack f rest types waiting
  | host caller type p => exact notes_stepHost s caller type p waiting
  | outcome result =>
    cases waiting with
    | nil => cases result <;> exact refl_of _ s
    | cons w waiting => exact notes_deliver s result w waiting

end Machine

/-! ### Evolution -/

theorem Store.Changes.evolves {s s' : Store σ} (h : s.Changes s') : s.Evolves cap s' := by
  cases h with
  | nothing => exact refl_of _ s
  | memory op he => exact .of_alters (.memory op he)
  | table op ht => exact .of_alters (.table op ht)
  | global | element | data => exact .of_eq rfl rfl rfl rfl

theorem Running.Charged.evolves {r r' : Running σ} (h : r.Charged r') : r.store.Evolves cap r'.store := by
  rw [h]
  exact .of_eq rfl rfl rfl rfl

/-- The store evolves under running code. -/
def Running.Evolves (cap : Nat) (r r' : Running σ) : Prop := r.store.Evolves cap r'.store

instance : IsPreorder (Running σ) (Running.Evolves cap) where
  refl r := refl_of (Store.Evolves cap) r.store
  trans _ _ _ h h' := trans_of (Store.Evolves cap) h h'

theorem Frame.evolves_exec (f : Frame) : Keeps (Running.Evolves cap) (f.exec : Exec σ Flow) :=
  f.keeps_of_changes (fun _ _ => Store.Changes.evolves) fun _ _ => Running.Charged.evolves

namespace Machine

/-- The host function that a machine is about to make. -/
def defines? : Machine σ → Option (HostFunc σ)
  | ⟨_, .host _ _ (.define type body _), _⟩ => some ⟨type, body⟩
  | _ => none

/-- The store with the host function that a machine is about to make, if it is. -/
def defined (m : Machine σ) : Store σ := { m.store with funcs := m.store.funcs ++ (m.defines?.map .host).toArray }

theorem evolves_effect (m : Machine σ) : m.defined.Evolves cap m.effect := by
  obtain ⟨s, control, waiting⟩ := m
  have hsame {s' : Store σ} (h : s.Evolves cap s') : Store.Evolves cap { s with funcs := s.funcs ++ #[] } s' := by
    rwa [Array.append_empty]
  cases control with
  | guest inv =>
    obtain ⟨stack, frames, types⟩ := inv
    cases frames with
    | nil => exact hsame (refl_of _ s)
    | cons f rest => exact hsame (f.evolves_exec ⟨s, stack⟩)
  | host caller type p =>
    cases p with
    | define => exact refl_of _ _
    | update => exact hsame (.of_eq rfl rfl rfl rfl)
    | instantiate m entities => exact hsame (Store.evolves_instantiate m entities s)
    | operate request => exact hsame (Store.evolves_perform request s)
    | readMemory | writeMemory =>
      refine hsame ?_
      unfold effect request?
      dsimp only
      cases callerMemory? s caller with
      | none => exact refl_of _ s
      | some addr => exact Store.evolves_perform _ s
    | _ => exact hsame (refl_of _ s)
  | outcome result =>
    rcases result with e | values
    · rcases waiting with _ | ⟨w, waiting⟩
      · exact hsame (refl_of _ s)
      · cases w with
        | start place => exact hsame (.of_alters (s.alters_release place))
        | _ => exact hsame (refl_of _ s)
    · rcases waiting with _ | ⟨w, waiting⟩ <;> exact hsame (refl_of _ s)

/-- **A step is a way that a store evolves**, when the host function that it may make is there. -/
theorem evolves_step (m : Machine σ) : m.defined.Evolves cap m.step.store :=
  trans_of (Store.Evolves cap) m.evolves_effect m.notes_step.evolves

end Machine

end WasmEngine
