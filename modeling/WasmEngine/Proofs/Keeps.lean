import Mathlib.Data.List.Forall2
import Mathlib.Order.Defs.Unbundled
import WasmEngine.Machine.Exec

/-!
# What a computation keeps

A computation may fail, and the state it has got to by then is what its caller goes on with. So a relation
between the state before and the state after is only worth something if it holds in both cases:
`Keeps R act` says so. For a preorder `R` it is passed on by sequencing, and each of the operations on a
store is put together from few that change anything at all.

`Yields` is the sharper form for a single start: what holds of the result and the state if the computation
succeeds, and what holds of the error and the state if it does not.
-/

namespace WasmEngine

/-- The state in which a computation ends. -/
def endState {ε σ α : Type} : EStateM.Result ε σ α → σ
  | .ok _ s => s
  | .error _ s => s

@[simp] theorem endState_ok {ε σ α : Type} (a : α) (s : σ) :
    endState (.ok a s : EStateM.Result ε σ α) = s := rfl

/-- **A computation keeps a relation** between the state before it and the state after it, whether it
fails or not. -/
def Keeps {ε σ α : Type} (R : σ → σ → Prop) (act : EStateM ε σ α) : Prop :=
  ∀ s, R s (endState (act s))

namespace Keeps

variable {ε σ α β : Type} {R : σ → σ → Prop} {act : EStateM ε σ α}

theorem modify {f : σ → σ} (h : ∀ s, R s (f s)) : Keeps R (modify f : EStateM ε σ Unit) :=
  fun s => h s

theorem modifyGet {f : σ → α × σ} (h : ∀ s, R s (f s).2) :
    Keeps R (modifyGet f : EStateM ε σ α) := fun s => h s

theorem map {f : α → β} (ha : Keeps R act) : Keeps R (f <$> act) := by
  intro s
  have hs := ha s
  change R s (endState (EStateM.map f act s))
  unfold EStateM.map
  cases h : act s <;> rw [h] at hs <;> exact hs

theorem ite {c : Prop} [Decidable c] {act' : EStateM ε σ α} (ha : Keeps R act)
    (ha' : Keeps R act') : Keeps R (if c then act else act') := by
  split
  · exact ha
  · exact ha'

variable [IsPreorder σ R]

theorem pure (a : α) : Keeps R (Pure.pure a : EStateM ε σ α) := fun s => refl_of R s

theorem throw (e : ε) : Keeps R (throw e : EStateM ε σ α) := fun s => refl_of R s

theorem get : Keeps R (get : EStateM ε σ σ) := fun s => refl_of R s

theorem bind {k : α → EStateM ε σ β} (ha : Keeps R act) (hk : ∀ a, Keeps R (k a)) :
    Keeps R (act >>= k) := by
  intro s
  have hs := ha s
  change R s (endState (EStateM.bind act k s))
  unfold EStateM.bind
  cases h : act s with
  | ok a s' =>
    rw [h] at hs
    exact trans_of R hs (hk a s')
  | error e s' =>
    rw [h] at hs
    exact hs

/-- Reading the state, and going on with it. -/
theorem getBind {k : σ → EStateM ε σ β} (hk : ∀ s, Keeps R (k s)) :
    Keeps R (MonadState.get >>= k) := bind get hk

theorem forM {f : α → EStateM ε σ Unit} : ∀ l : List α, (∀ a ∈ l, Keeps R (f a)) →
    Keeps R (l.forM f)
  | [], _ => pure ()
  | a :: l, h => bind (h a List.mem_cons_self) fun _ =>
      forM l fun b hb => h b (List.mem_cons_of_mem _ hb)

theorem mapM {f : α → EStateM ε σ β} : ∀ l : List α, (∀ a ∈ l, Keeps R (f a)) → Keeps R (l.mapM f)
  | [], _ => by
    rw [List.mapM_nil]
    exact pure []
  | a :: l, h => by
    rw [List.mapM_cons]
    exact bind (h a List.mem_cons_self) fun _ =>
      bind (mapM l fun b hb => h b (List.mem_cons_of_mem _ hb)) fun _ => pure _

end Keeps

/-- **What a computation yields** from a state: what holds of its result and the state behind it if it
succeeds, and what holds of its error and the state it has got to if it fails. -/
def Yields {ε σ α : Type} (act : EStateM ε σ α) (s : σ) (ok : α → σ → Prop) (error : ε → σ → Prop) :
    Prop :=
  match act s with
  | .ok a s' => ok a s'
  | .error e s' => error e s'

namespace Yields

variable {ε σ α β : Type} {s : σ} {act : EStateM ε σ α} {ok ok' : α → σ → Prop}
  {error error' : ε → σ → Prop}

theorem of_ok {a : α} {s' : σ} (h : act s = .ok a s') (ha : ok a s') : Yields act s ok error := by
  rw [Yields, h]
  exact ha

theorem of_error {e : ε} {s' : σ} (h : act s = .error e s') (he : error e s') :
    Yields act s ok error := by
  rw [Yields, h]
  exact he

theorem ok_of {a : α} {s' : σ} (h : Yields act s ok error) (hr : act s = .ok a s') : ok a s' := by
  rwa [Yields, hr] at h

theorem error_of {e : ε} {s' : σ} (h : Yields act s ok error) (hr : act s = .error e s') :
    error e s' := by
  rwa [Yields, hr] at h

theorem of_cases (hok : ∀ a s', act s = .ok a s' → ok a s') (herror : ∀ e s', act s = .error e s' → error e s') :
    Yields act s ok error := by
  unfold Yields
  cases h : act s with
  | ok a s' => exact hok a s' h
  | error e s' => exact herror e s' h

theorem imp (h : Yields act s ok error) (hok : ∀ a s', ok a s' → ok' a s')
    (herror : ∀ e s', error e s' → error' e s') : Yields act s ok' error' := by
  unfold Yields at h ⊢
  cases hr : act s with
  | ok a s' =>
    rw [hr] at h
    exact hok a s' h
  | error e s' =>
    rw [hr] at h
    exact herror e s' h

theorem mono (h : Yields act s ok error) (hok : ∀ a s', ok a s' → ok' a s') :
    Yields act s ok' error := h.imp hok fun _ _ => id

theorem bind_of_ok {k : α → EStateM ε σ β} {ok : β → σ → Prop} {a : α} {s' : σ}
    (h : act s = .ok a s') (hk : Yields (k a) s' ok error) : Yields (act >>= k) s ok error := by
  change Yields (EStateM.bind act k) s ok error
  unfold Yields EStateM.bind at *
  rw [h]
  exact hk

theorem of_get {k : σ → EStateM ε σ α} (h : Yields (k s) s ok error) :
    Yields (MonadState.get >>= k) s ok error := h

theorem bind {k : α → EStateM ε σ β} {ok' : β → σ → Prop} (h : Yields act s ok error)
    (hk : ∀ a s', ok a s' → Yields (k a) s' ok' error) : Yields (act >>= k) s ok' error := by
  change Yields (EStateM.bind act k) s ok' error
  unfold Yields at h
  cases hr : act s with
  | ok a s' =>
    rw [hr] at h
    have hs := hk a s' h
    unfold Yields EStateM.bind at *
    rw [hr]
    exact hs
  | error e s' =>
    rw [hr] at h
    unfold Yields EStateM.bind
    rw [hr]
    exact h

/-- Going through a list while something stays true. -/
theorem forM_inv {I : σ → Prop} {f : α → EStateM ε σ Unit} : ∀ (l : List α) (s : σ), I s →
    (∀ a ∈ l, ∀ s, I s → Yields (f a) s (fun _ => I) fun _ => I) →
    Yields (l.forM f) s (fun _ => I) fun _ => I
  | [], _, hs, _ => .of_ok rfl hs
  | a :: l, s, hs, h => .bind (h a List.mem_cons_self s hs) fun _ s' hs' =>
      forM_inv l s' hs' fun b hb => h b (List.mem_cons_of_mem _ hb)

/-- What holds where a computation ends, however it ends. -/
theorem of_end {P : σ → Prop} (h : P (endState (act s))) : Yields act s (fun _ => P) fun _ => P := by
  unfold Yields
  cases hr : act s <;> rw [hr] at h <;> exact h

theorem end_of {P : σ → Prop} (h : Yields act s (fun _ => P) fun _ => P) : P (endState (act s)) := by
  unfold Yields at h
  cases hr : act s <;> rw [hr] at h <;> exact h

theorem and_end {P : σ → Prop} (h : Yields act s ok error) (hP : P (endState (act s))) :
    Yields act s (fun a s' => ok a s' ∧ P s') fun e s' => error e s' ∧ P s' := by
  unfold Yields at h ⊢
  cases hr : act s <;> rw [hr] at h hP <;> exact ⟨h, hP⟩

/-- Going through a list without changing anything. -/
theorem mapM_reads {P : α → β → Prop} {f : α → EStateM ε σ β} : ∀ l : List α,
    (∀ a ∈ l, Yields (f a) s (fun b s' => s = s' ∧ P a b) (fun _ _ => False)) →
    Yields (l.mapM f) s (fun bs s' => s = s' ∧ List.Forall₂ P l bs) (fun _ _ => False)
  | [], _ => .of_ok rfl ⟨rfl, .nil⟩
  | a :: l, h => by
    rw [List.mapM_cons]
    refine .bind (h a List.mem_cons_self) ?_
    rintro b _ ⟨rfl, hb⟩
    refine .bind (mapM_reads l fun a ha => h a (List.mem_cons_of_mem _ ha)) ?_
    rintro bs _ ⟨rfl, hbs⟩
    exact .of_ok rfl ⟨rfl, .cons hb hbs⟩

end Yields

end WasmEngine
