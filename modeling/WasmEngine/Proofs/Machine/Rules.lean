import WasmEngine.Proofs.Machine.Layout
import WasmEngine.Proofs.Machine.Quiet
import WasmEngine.Proofs.Store.Domain

/-!
# Rules for running code

How the parts of ops act on a stack with operands (`Stack.of`). Popping and pushing are equations, and so is
looking up what is known to be there. What can go wrong is stated by `Exec.Sound`: a computation either comes to
an end, of which something is known, or it traps, and leaves a store behind in both cases that is well typed and
confined to the domain in which the code runs.
-/

namespace WasmEngine

namespace Exec

variable {σ α β : Type} {s : Store σ} {below ops : List Cell} {stack : Stack}

/-! ### Equations -/

theorem pop_of (c : Cell) :
    (pop : Exec σ Cell) ⟨s, .of below (c :: ops)⟩ = .ok c ⟨s, .of below ops⟩ := by
  change EStateM.Result.ok (Stack.of below (c :: ops)).top (Running.mk s (Stack.of below (c :: ops)).pop) = _
  rw [Stack.top_of, Stack.pop_of]

theorem popNat_of (c : Cell) :
    (popNat : Exec σ Nat) ⟨s, .of below (c :: ops)⟩ = .ok (c.setWidth 32).toNat ⟨s, .of below ops⟩ :=
  estate_bind_of_ok (pop_of c)

theorem push_of (c : Cell) :
    (push c : Exec σ Unit) ⟨s, .of below ops⟩ = .ok () ⟨s, .of below (c :: ops)⟩ := by
  change EStateM.Result.ok () (Running.mk s ((Stack.of below ops).push c)) = _
  rw [Stack.push_of]

theorem known_of {entity : RuntimeEntity} {index : Nat} {o : Option α} {a : α} (h : o = some a)
    (r : Running σ) : known entity index o r = .ok a r := by
  rw [h]
  rfl

theorem onStore_of_ok {act : StoreM σ α} {a : α} {s' : Store σ} (h : act s = .ok a s') :
    onStore act ⟨s, stack⟩ = .ok a ⟨s', stack⟩ := by
  rw [onStore, h]

theorem onStore_of_error {act : StoreM σ α} {e : Error} {s' : Store σ} (h : act s = .error e s') :
    onStore act ⟨s, stack⟩ = .error e ⟨s', stack⟩ := by
  rw [onStore, h]

/-! ### Soundness -/

/-- **A computation in a domain ends well or traps**, and leaves a store behind that is well typed and still confined
to the domain. -/
def Sound (D : Domain) (act : Exec σ α) (r : Running σ) (ok : α → Store σ → Stack → Prop) : Prop :=
  Yields act r (fun a r' => r'.store.TypedIn D ∧ ok a r'.store r'.stack)
    (fun e r' => r'.store.TypedIn D ∧ e.trap?.isSome = true)

variable {D : Domain}

namespace Sound

variable {act : Exec σ α} {r : Running σ} {ok ok' : α → Store σ → Stack → Prop}

theorem of_ok {a : α} {s' : Store σ} {stack' : Stack} (h : act r = .ok a ⟨s', stack'⟩) (hs : s'.TypedIn D)
    (ha : ok a s' stack') : Sound D act r ok :=
  Yields.of_ok h ⟨hs, ha⟩

theorem mono (h : Sound D act r ok) (himp : ∀ a s stack, s.TypedIn D → ok a s stack → ok' a s stack) :
    Sound D act r ok' :=
  Yields.mono h fun a _ ⟨hs, ha⟩ => ⟨hs, himp a _ _ hs ha⟩

/-- What is behind a computation that goes well. -/
theorem bind_of_ok {k : α → Exec σ β} {ok : β → Store σ → Stack → Prop} {a : α} {r' : Running σ}
    (h : act r = .ok a r') (hk : Sound D (k a) r' ok) : Sound D (act >>= k) r ok :=
  Yields.bind_of_ok h hk

theorem bind {k : α → Exec σ β} {ok' : β → Store σ → Stack → Prop} (h : Sound D act r ok)
    (hk : ∀ a s stack, s.TypedIn D → ok a s stack → Sound D (k a) ⟨s, stack⟩ ok') : Sound D (act >>= k) r ok' :=
  Yields.bind h fun a r' ⟨hs, ha⟩ => hk a r'.store r'.stack hs ha

theorem of_get {k : Running σ → Exec σ α} (h : Sound D (k r) r ok) : Sound D (MonadState.get >>= k) r ok := h

/-- Quiet computations are known to be. -/
theorem quiet (h : Sound D act ⟨s, stack⟩ ok) (hquiet : Keeps Running.Quiet act) :
    Sound D act ⟨s, stack⟩ fun a s' stack' => s.Quiet s' ∧ ok a s' stack' :=
  (h.and_end (hquiet ⟨s, stack⟩)).imp (fun _ _ ⟨⟨hs, ha⟩, hq⟩ => ⟨hs, hq, ha⟩) fun _ _ ⟨he, _⟩ => he

end Sound

theorem sound_trap (hs : s.TypedIn D) (code : TrapCode) {ok : α → Store σ → Stack → Prop} :
    Sound D (trap code : Exec σ α) ⟨s, stack⟩ ok :=
  Yields.of_error rfl ⟨hs, rfl⟩

/-- What is behind something that may trap. -/
theorem sound_orTrap (hs : s.TypedIn D) {x : Except TrapCode α} {k : α → Exec σ β}
    {ok : β → Store σ → Stack → Prop} (h : ∀ a, x = .ok a → Sound D (k a) ⟨s, stack⟩ ok) :
    Sound D (orTrap x >>= k) ⟨s, stack⟩ ok := by
  cases x with
  | ok a => exact .bind_of_ok rfl (h a rfl)
  | error code => exact Yields.of_error rfl ⟨hs, rfl⟩

/-- Something done in a store that leaves it quiet and typed, and does not fail except by a trap. -/
theorem sound_onStore {act : StoreM σ α} (hquiet : Keeps Store.Quiet act) (htyped : Store.TypedInAfter D act s)
    (htrap : ∀ e s', act s = .error e s' → e.trap?.isSome = true) :
    Sound D (onStore act) ⟨s, stack⟩ fun _ s' stack' => s.Quiet s' ∧ stack = stack' := by
  have hq := hquiet s
  cases h : act s with
  | ok a s' =>
    rw [h] at hq
    exact .of_ok (onStore_of_ok h) (htyped.ok_of h) ⟨hq, rfl⟩
  | error e s' => exact Yields.of_error (onStore_of_error h) ⟨htyped.error_of h, htrap e s' h⟩

theorem sound_onTable {addr : Nat} {t : Table} {act : EStateM TrapCode Table α} (hs : s.TypedIn D)
    (hD : D.tables addr) (ht : s.tables[addr]? = some t) (hgrows : Keeps Table.Grows act)
    (hall : Table.KeepsAll (s.FitsIn D (.ref t.element)) act) :
    Sound D (onTable addr act) ⟨s, stack⟩ fun _ s' stack' => s.Quiet s' ∧ stack = stack' := by
  refine sound_onStore (Store.keeps_onTable hgrows) (Store.typedInAfter_onTable hs hD ht hgrows hall) ?_
  intro e s' h
  rw [Store.onTable_some ht] at h
  cases hact : act t <;> rw [hact] at h <;> cases h
  rfl

theorem sound_onMemory {f : Scope} {addr : Nat} {m : MemoryEntry} {act : EStateM TrapCode Memory α}
    (hs : s.TypedIn D) (hf : (memoryAddr f : Exec σ Nat) ⟨s, stack⟩ = .ok addr ⟨s, stack⟩)
    (hm : s.memories[addr]? = some m) (hgrows : Keeps Memory.Grows act) :
    Sound D (onMemory f act) ⟨s, stack⟩ fun _ s' stack' => s.Quiet s' ∧ stack = stack' := by
  refine .bind_of_ok hf ?_
  refine sound_onStore (Store.keeps_onMemory hgrows) (Store.typedInAfter_onMemory hs hgrows) ?_
  intro e s' h
  rw [Store.onMemory_some hm] at h
  cases hact : act m.memory <;> rw [hact] at h <;> cases h
  rfl

/-- Polling the interrupt flag. -/
theorem sound_pollInterrupt (hs : s.TypedIn D) :
    Sound D (onStore Store.pollInterrupt : Exec σ Unit) ⟨s, stack⟩
      fun _ s' stack' => s.Quiet s' ∧ stack = stack' := by
  have hsame (s' : Store σ) (h : endState (Store.pollInterrupt s) = s') :
      s'.tables = s.tables ∧ s'.globals = s.globals ∧ s'.instances = s.instances := by
    unfold Store.pollInterrupt at h
    split at h <;> cases h <;> exact ⟨rfl, rfl, rfl⟩
  refine sound_onStore Store.keeps_pollInterrupt
    (Store.typedInAfter_of_quiet hs Store.keeps_pollInterrupt (hsame _ rfl)) fun e s' h => ?_
  unfold Store.pollInterrupt at h
  split at h <;> cases h
  rfl

/-- Paying for an op. -/
theorem sound_charge (hs : s.TypedIn D) :
    Sound D (onStore Store.charge : Exec σ Unit) ⟨s, stack⟩ fun _ s' stack' => s.Quiet s' ∧ stack = stack' := by
  have hsame (s' : Store σ) (h : endState (Store.charge s) = s') :
      s'.tables = s.tables ∧ s'.globals = s.globals ∧ s'.instances = s.instances := by
    unfold Store.charge at h
    dsimp only at h
    split at h <;> cases h <;> exact ⟨rfl, rfl, rfl⟩
  refine sound_onStore Store.keeps_charge
    (Store.typedInAfter_of_quiet hs Store.keeps_charge (hsame _ rfl)) fun e s' h => ?_
  unfold Store.charge at h
  dsimp only at h
  split at h <;> cases h
  rfl

end Exec

end WasmEngine
