import WasmEngine.Proofs.Checks
import WasmEngine.Proofs.Keeps

/-!
# Two computations side by side

Two computations agree if whatever one of them does, the other does as well: both end with results that belong
together, or both fail with the same error. The states that they leave belong together in either case. What the
states have to do with each other is left open: they may be the same, or the same in what the computations can
reach.
-/

namespace WasmEngine

variable {ε ρ ρ' α β γ δ : Type} {Q : ρ → ρ' → Prop} {R : α → β → Prop} {r : ρ} {r' : ρ'}

/-- **Two computations agree**: both end with results that belong together, or both fail with the same error. -/
inductive Agree (Q : ρ → ρ' → Prop) (R : α → β → Prop) :
    EStateM.Result ε ρ α → EStateM.Result ε ρ' β → Prop
  | ok {a : α} {b : β} {r : ρ} {r' : ρ'} : R a b → Q r r' → Agree Q R (.ok a r) (.ok b r')
  | error {e : ε} {r : ρ} {r' : ρ'} : Q r r' → Agree Q R (.error e r) (.error e r')

namespace Agree

/-- What is behind computations that agree. -/
theorem bind {act : EStateM ε ρ α} {act' : EStateM ε ρ' β} {k : α → EStateM ε ρ γ} {k' : β → EStateM ε ρ' δ}
    {R' : γ → δ → Prop} (h : Agree Q R (act r) (act' r'))
    (hk : ∀ a b s s', act r = .ok a s → R a b → Q s s' → Agree Q R' (k a s) (k' b s')) :
    Agree Q R' ((act >>= k) r) ((act' >>= k') r') := by
  cases hr : act r with
  | ok a s =>
    cases hr' : act' r' with
    | ok b s' =>
      rw [hr, hr'] at h
      rw [estate_bind_of_ok hr, estate_bind_of_ok hr']
      obtain ⟨hR, hQ⟩ | _ := h
      exact hk a b s s' hr hR hQ
    | error =>
      rw [hr, hr'] at h
      nomatch h
  | error e s =>
    cases hr' : act' r' with
    | ok =>
      rw [hr, hr'] at h
      nomatch h
    | error e' s' =>
      rw [hr, hr'] at h
      rw [estate_bind_of_error hr, estate_bind_of_error hr']
      cases h with
      | error hQ => exact .error hQ

theorem map {h : γ → α} {x : EStateM.Result ε ρ' β} {act : EStateM ε ρ γ}
    (hagree : Agree Q (fun c b => R (h c) b) (act r) x) : Agree Q R ((h <$> act) r) x := by
  cases hr : act r with
  | ok c s =>
    rw [hr] at hagree
    rw [estate_map_of_ok hr]
    cases hagree with
    | ok hR hQ => exact .ok hR hQ
  | error e s =>
    rw [hr] at hagree
    rw [estate_map_of_error hr]
    cases hagree with
    | error hQ => exact .error hQ

end Agree

/-! ### In the same state -/

variable {act : EStateM ε ρ γ} {k : γ → EStateM ε ρ α} {k' : γ → EStateM ε ρ β}

/-- What is behind the same computation. -/
theorem agree_bind (h : ∀ c s, act r = .ok c s → Agree Eq R (k c s) (k' c s)) :
    Agree Eq R ((act >>= k) r) ((act >>= k') r) := by
  cases hr : act r with
  | ok c s =>
    rw [estate_bind_of_ok hr, estate_bind_of_ok hr]
    exact h c s hr
  | error e s =>
    rw [estate_bind_of_error hr, estate_bind_of_error hr]
    exact .error rfl

/-- What is behind a computation that goes well. -/
theorem agree_bind_of_ok {c : γ} {s : ρ} (hr : act r = .ok c s) (h : Agree Eq R (k c s) (k' c s)) :
    Agree Eq R ((act >>= k) r) ((act >>= k') r) := by
  rw [estate_bind_of_ok hr, estate_bind_of_ok hr]
  exact h

end WasmEngine
