import Mathlib.Data.List.Forall2

/-!
# Checks that were passed

What is known once a computation is known to have succeeded: each of its parts has, in turn. The lemmas here
take `do` blocks apart, for checks (`Except`) and for computations on a state (`EStateM`).
-/

namespace WasmEngine

variable {ε σ α β : Type}

/-! ### Checks -/

section

variable {x : Except ε α}

theorem bind_eq_ok {k : α → Except ε β} {b : β} :
    (x >>= k) = .ok b ↔ ∃ a, x = .ok a ∧ k a = .ok b := by
  cases x with
  | ok a =>
    refine ⟨fun h => ⟨a, rfl, h⟩, ?_⟩
    rintro ⟨a', h, hk⟩
    cases h
    exact hk
  | error e =>
    refine ⟨fun h => (nomatch h), ?_⟩
    rintro ⟨a, h, -⟩
    nomatch h

theorem bind_eq_error {k : α → Except ε β} {e : ε} :
    (x >>= k) = .error e ↔ x = .error e ∨ ∃ a, x = .ok a ∧ k a = .error e := by
  cases x with
  | ok a =>
    refine ⟨fun h => .inr ⟨a, rfl, h⟩, ?_⟩
    rintro (h | ⟨a', h, hk⟩)
    · nomatch h
    · cases h
      exact hk
  | error e' =>
    refine ⟨fun h => by cases h; exact .inl rfl, ?_⟩
    rintro (h | ⟨a, h, -⟩)
    · cases h
      rfl
    · nomatch h

/-- What is done with a result does not fail. -/
theorem bind_pure_eq_error {f : α → β} {e : ε} : (x >>= fun a => pure (f a)) = .error e ↔ x = .error e := by
  rw [bind_eq_error, or_iff_left]
  rintro ⟨a, -, h⟩
  nomatch h

theorem pure_eq_ok {a b : α} : (pure a : Except ε α) = .ok b ↔ a = b :=
  ⟨fun h => by cases h; rfl, fun h => by rw [h]; rfl⟩

theorem throw_eq_ok {e : ε} {b : α} : (throw e : Except ε α) = .ok b ↔ False :=
  ⟨fun h => (nomatch h), fun h => h.elim⟩

theorem eq_ok_of_isOk (h : x.isOk = true) : ∃ a, x = .ok a := by
  cases x with
  | ok a => exact ⟨a, rfl⟩
  | error e => nomatch h

theorem eq_error_of_isOk (h : x.isOk = false) : ∃ e, x = .error e := by
  cases x with
  | ok a => nomatch h
  | error e => exact ⟨e, rfl⟩

theorem forM_eq_ok {f : α → Except ε Unit} {l : List α} :
    l.forM f = .ok () ↔ ∀ a ∈ l, f a = .ok () := by
  induction l with
  | nil => exact ⟨fun _ _ h => (nomatch h), fun _ => rfl⟩
  | cons a l ih =>
    change (f a >>= fun _ => l.forM f) = .ok () ↔ _
    rw [bind_eq_ok, List.forall_mem_cons, ← ih]
    exact ⟨fun ⟨⟨⟩, h⟩ => h, fun h => ⟨(), h⟩⟩

theorem forM_congr {f g : α → Except ε Unit} {l : List α} (h : ∀ a ∈ l, f a = g a) : l.forM f = l.forM g := by
  induction l with
  | nil => rfl
  | cons a l ih =>
    obtain ⟨ha, hl⟩ := List.forall_mem_cons.mp h
    change (f a >>= fun _ => l.forM f) = (g a >>= fun _ => l.forM g)
    rw [ha, ih hl]

theorem mapM_eq_ok {f : α → Except ε β} {l : List α} {bs : List β} :
    l.mapM f = .ok bs ↔ List.Forall₂ (fun a b => f a = .ok b) l bs := by
  induction l generalizing bs with
  | nil =>
    rw [List.mapM_nil, pure_eq_ok, List.forall₂_nil_left_iff]
    exact eq_comm
  | cons a l ih =>
    rw [List.mapM_cons, bind_eq_ok, List.forall₂_cons_left_iff]
    refine exists_congr fun b => ?_
    rw [bind_eq_ok]
    constructor
    · rintro ⟨hb, bs', hbs, h⟩
      cases pure_eq_ok.mp h
      exact ⟨bs', hb, ih.mp hbs, rfl⟩
    · rintro ⟨bs', hb, hbs, rfl⟩
      exact ⟨hb, bs', ih.mpr hbs, rfl⟩

end

/-! ### Computations on a state -/

theorem estate_bind_eq_ok {x : EStateM ε σ α} {k : α → EStateM ε σ β} {b : β} {s s'' : σ} :
    (x >>= k) s = .ok b s'' ↔ ∃ a s', x s = .ok a s' ∧ k a s' = .ok b s'' := by
  change EStateM.bind x k s = _ ↔ _
  unfold EStateM.bind
  cases x s with
  | ok a s' =>
    refine ⟨fun h => ⟨a, s', rfl, h⟩, ?_⟩
    rintro ⟨a', s'', h, hk⟩
    cases h
    exact hk
  | error e s' =>
    refine ⟨fun h => (nomatch h), ?_⟩
    rintro ⟨a, s', h, -⟩
    nomatch h

theorem estate_bind_of_ok {x : EStateM ε σ α} {k : α → EStateM ε σ β} {a : α} {s s' : σ}
    (h : x s = .ok a s') : (x >>= k) s = k a s' := by
  change EStateM.bind x k s = _
  rw [EStateM.bind, h]

theorem estate_bind_of_error {x : EStateM ε σ α} {k : α → EStateM ε σ β} {e : ε} {s s' : σ}
    (h : x s = .error e s') : (x >>= k) s = .error e s' := by
  change EStateM.bind x k s = _
  rw [EStateM.bind, h]

theorem estate_get_bind {k : σ → EStateM ε σ β} {s : σ} : (get >>= k) s = k s s := rfl

theorem estate_map_of_ok {x : EStateM ε σ α} {f : α → β} {a : α} {s s' : σ}
    (h : x s = .ok a s') : (f <$> x) s = .ok (f a) s' := by
  change EStateM.map f x s = _
  rw [EStateM.map, h]

theorem estate_map_of_error {x : EStateM ε σ α} {f : α → β} {e : ε} {s s' : σ}
    (h : x s = .error e s') : (f <$> x) s = .error e s' := by
  change EStateM.map f x s = _
  rw [EStateM.map, h]

theorem estate_pure_eq_ok {a b : α} {s s' : σ} :
    (pure a : EStateM ε σ α) s = .ok b s' ↔ a = b ∧ s = s' := by
  change EStateM.Result.ok a s = .ok b s' ↔ _
  rw [EStateM.Result.ok.injEq]

/-! ### Lists in step -/

theorem forall₂_getElem? {γ : Type} {R : α → γ → Prop} {xs : List α} {ys : List γ}
    (h : List.Forall₂ R xs ys) {i : Nat} {x : α} (hx : xs[i]? = some x) :
    ∃ y, ys[i]? = some y ∧ R x y := by
  induction h generalizing i with
  | nil => nomatch hx
  | cons hab _ ih => cases i with
    | zero =>
      cases hx
      exact ⟨_, rfl, hab⟩
    | succ i => exact ih hx

theorem forall₂_set {γ : Type} {R : α → γ → Prop} {xs : List α} {ys : List γ} (h : List.Forall₂ R xs ys) (i : Nat)
    {x : α} {y : γ} (hxy : R x y) : List.Forall₂ R (xs.set i x) (ys.set i y) := by
  induction h generalizing i with
  | nil => exact .nil
  | cons hab hrest ih => cases i with
    | zero => exact .cons hxy hrest
    | succ i => exact .cons hab (ih i)

end WasmEngine
