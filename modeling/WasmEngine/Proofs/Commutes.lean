import WasmEngine.Proofs.Checks
import WasmEngine.Proofs.Keeps

/-!
# Changes that a computation does not notice

A computation may be run in a changed state instead of changing the state that it leaves: then it neither looks at
what the change is about, nor touches it (`Commutes`). For a change that can be anything, this says of one run that
the part stays as it is, and of two runs that they go the same way. So one lemma for each computation serves both
for invariants and for simulations.

As with `Keeps`, each computation on a store is put together from few others, and there is a rule for each way to do
that.
-/

namespace WasmEngine

variable {ε σ α β : Type} {g : σ → σ}

/-- The same result in a changed state. -/
def inState (g : σ → σ) : EStateM.Result ε σ α → EStateM.Result ε σ α
  | .ok a s => .ok a (g s)
  | .error e s => .error e (g s)

/-- **A computation does not notice a change**: it goes the same way behind it, to what is the same but for the
change. -/
def Commutes (g : σ → σ) (act : EStateM ε σ α) : Prop := ∀ s, act (g s) = inState g (act s)

namespace Commutes

variable {act act' : EStateM ε σ α}

theorem endState_eq (h : Commutes g act) (s : σ) : endState (act (g s)) = g (endState (act s)) := by
  rw [h s]
  cases act s <;> rfl

theorem pure (a : α) : Commutes g (Pure.pure a : EStateM ε σ α) := fun _ => rfl

theorem throw (e : ε) : Commutes g (throw e : EStateM ε σ α) := fun _ => rfl

theorem modify {f : σ → σ} (h : ∀ s, f (g s) = g (f s)) : Commutes g (modify f : EStateM ε σ Unit) :=
  fun s => congrArg (EStateM.Result.ok ()) (h s)

theorem modifyGet {f : σ → α × σ} (h : ∀ s, f (g s) = ((f s).1, g (f s).2)) :
    Commutes g (modifyGet f : EStateM ε σ α) := by
  intro s
  change EStateM.Result.ok (f (g s)).1 (f (g s)).2 = EStateM.Result.ok (f s).1 (g (f s).2)
  rw [h]

theorem ite {c : Prop} [Decidable c] (h : Commutes g act) (h' : Commutes g act') :
    Commutes g (if c then act else act') := by
  split
  · exact h
  · exact h'

theorem bind {k : α → EStateM ε σ β} (h : Commutes g act) (hk : ∀ a, Commutes g (k a)) :
    Commutes g (act >>= k) := by
  intro s
  have hs := h s
  cases ha : act s with
  | ok a s' =>
    rw [ha] at hs
    rw [estate_bind_of_ok hs, estate_bind_of_ok ha]
    exact hk a s'
  | error e s' =>
    rw [ha] at hs
    rw [estate_bind_of_error hs, estate_bind_of_error ha]
    rfl

theorem map {f : α → β} (h : Commutes g act) : Commutes g (f <$> act) := by
  intro s
  have hs := h s
  cases ha : act s with
  | ok a s' =>
    rw [ha] at hs
    rw [estate_map_of_ok hs, estate_map_of_ok ha]
    rfl
  | error e s' =>
    rw [ha] at hs
    rw [estate_map_of_error hs, estate_map_of_error ha]
    rfl

/-- Reading the state, as far as the change leaves it alone, and going on with it. -/
theorem getBind {k : σ → EStateM ε σ β} (hread : ∀ s, k (g s) = k s) (hk : ∀ s, Commutes g (k s)) :
    Commutes g (MonadState.get >>= k) := fun s => (congrFun (hread s) (g s)).trans (hk s s)

theorem forM {f : α → EStateM ε σ Unit} : ∀ l : List α, (∀ a ∈ l, Commutes g (f a)) → Commutes g (l.forM f)
  | [], _ => pure ()
  | a :: l, h => bind (h a List.mem_cons_self) fun _ => forM l fun b hb => h b (List.mem_cons_of_mem _ hb)

theorem mapM {f : α → EStateM ε σ β} : ∀ l : List α, (∀ a ∈ l, Commutes g (f a)) → Commutes g (l.mapM f)
  | [], _ => pure []
  | a :: l, h => by
    rw [List.mapM_cons]
    exact bind (h a List.mem_cons_self) fun _ =>
      bind (mapM l fun b hb => h b (List.mem_cons_of_mem _ hb)) fun _ => pure _

end Commutes

end WasmEngine
