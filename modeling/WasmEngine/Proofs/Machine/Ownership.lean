import WasmEngine.Proofs.Machine.Reached

/-!
# Who owns a memory

An instance claims its memories, those that it imports and those that it defines, and nobody can claim a memory
that is owned. So an instance has its memories to itself, until its instantiation fails: because a segment does
not fit, or because its start function fails. Then it gives its memories up for others to claim, for good.

Its functions stay in the store, however, and a table may refer to them; they go on running on a memory that
belongs to nobody, or to another instance (`Machine.not_exclusive`). Except for these instances, which the log
of a run tells apart (`Failed`), whoever runs owns the memory it runs on, and no two instances share one
(`Machine.Reached.owner_iff_not_failed`).
-/

namespace WasmEngine

/-- With this event, the instance at a place fails: it was made, but one of its segments does not fit, or its start
function failed. -/
def Event.Fails {σ : Type} (place : Nat) : Event σ → Prop
  | .instantiation s m entities => s.instances.size = place ∧
    ∃ e s', Store.instantiate m entities s = .error e s' ∧ place < s'.instances.size
  | .startFailure failed => failed = place

/-- **The instantiation that made the instance at a place failed.** -/
def Failed {σ : Type} (log : List (Event σ)) (place : Nat) : Prop := ∃ e ∈ log, e.Fails place

namespace Store

variable {σ : Type} {s s' s₁ s₂ : Store σ} {place : Nat}

/-! ### Single instantiations -/

section

variable {m : Module} {entities : List Extern} {i : ModuleInstance}

theorem Made.instances_size (h : Made m entities s.instances.size s s₁ i)
    (hquiet : Quiet (s₁.addInstance i) s₂) : s₂.instances.size = s.instances.size + 1 := by
  rw [hquiet.instances_size]
  change (s₁.instances.push i).size = _
  rw [Array.size_push, h.instances_eq]

/-- Whoever was there before owns what it owned. -/
theorem Made.owner_iff (h : Made m entities s.instances.size s s₁ i)
    (hquiet : Quiet (s₁.addInstance i) s₂) (hplace : place < s.instances.size) (a : Nat) :
    s₂.ownerOf a = some place ↔ s.ownerOf a = some place := by
  rw [hquiet.owner]
  change s₁.ownerOf a = _ ↔ _
  rcases h.owner a with ha | ⟨hnone, hnew⟩
  · rw [ha]
  · rw [hnone, hnew]
    refine iff_of_false (fun he => ?_) nofun
    exact Nat.lt_irrefl _ (Option.some.inj he ▸ hplace)

/-- The new instance owns its memories. -/
theorem Made.owned_new (h : Made m entities s.instances.size s s₁ i)
    (hquiet : Quiet (s₁.addInstance i) s₂) {j : ModuleInstance} {a : Nat}
    (hj : s₂.instances[s.instances.size]? = some j) (ha : a ∈ j.memories) :
    s₂.ownerOf a = some s.instances.size := by
  obtain ⟨j', hj', hsame⟩ := hquiet.instances _ i h.instance
  obtain rfl := Option.some.inj (hj.symm.trans hj')
  rw [hsame.memories] at ha
  exact (hquiet.owner a).trans (h.owned a ha)

end

theorem owner_release_iff {released : Nat} (h : place ≠ released) (a : Nat) :
    (s.release released).ownerOf a = some place ↔ s.ownerOf a = some place := by
  rw [ownerOf_release]
  split
  · next ha =>
    rw [ha]
    exact iff_of_false nofun fun he => h (Option.some.inj he).symm
  · rfl

theorem owner_release_ne (s : Store σ) (place a : Nat) : (s.release place).ownerOf a ≠ some place := by
  rw [ownerOf_release]
  split
  · nofun
  · next ha => exact ha

/-! ### Steps -/

namespace Moves

variable {event : Option (Event σ)}

/-- **Only the failure of an instance changes what it owns.** -/
theorem owner_iff (hs : s.Orderly) (h : s.Moves event s') (hplace : place < s.instances.size)
    (hfails : ∀ e ∈ event, ¬e.Fails place) (a : Nat) :
    s'.ownerOf a = some place ↔ s.ownerOf a = some place := by
  cases h with
  | quiet h => rw [h.owner]
  | define => rfl
  | release _ => exact owner_release_iff (fun he => hfails _ rfl he.symm) a
  | @instantiate _ m entities hv hquiet =>
    rw [hquiet.owner]
    have h := instantiate_cases hv entities hs.fresh
    generalize Store.instantiate m entities s = r at h
    cases h with
    | refused _ h _ => exact h.owner a ▸ .rfl
    | stranded _ _ _ _ _ h _ => exact h a ▸ .rfl
    | failed _ _ hmade h _ =>
      exact (owner_release_iff (Nat.ne_of_lt hplace) a).trans (hmade.owner_iff h hplace a)
    | made _ _ hmade h _ _ _ => exact hmade.owner_iff h hplace a

/-- **An instance that fails owns nothing.** -/
theorem owner_ne (hs : s.Orderly) (h : s.Moves event s') {e : Event σ} (he : e ∈ event)
    (hfails : e.Fails place) : place < s'.instances.size ∧ ∀ a, s'.ownerOf a ≠ some place := by
  cases h with
  | quiet | define => nomatch he
  | release hlt =>
    cases he
    cases hfails
    exact ⟨hlt, s.owner_release_ne _⟩
  | @instantiate _ m entities hv hquiet =>
    cases he
    obtain ⟨rfl, e, s₂, hr, hlt⟩ := hfails
    have h := instantiate_cases hv entities hs.fresh
    rw [hr] at h hquiet
    refine ⟨hquiet.instances_size ▸ hlt, fun a => ?_⟩
    rw [hquiet.owner]
    cases h with
    | refused _ h _ => exact absurd hlt (h.instances_size ▸ Nat.lt_irrefl _)
    | stranded _ _ _ _ h _ _ => exact absurd hlt (h ▸ Nat.lt_irrefl _)
    | failed => exact owner_release_ne _ _ a

/-- **A new instance owns its memories**, unless it has failed. -/
theorem owned_new (hs : s.Orderly) (h : s.Moves event s') (hplace : s.instances.size ≤ place)
    {i : ModuleInstance} (hi : s'.instances[place]? = some i) (hfails : ∀ e ∈ event, ¬e.Fails place)
    {a : Nat} (ha : a ∈ i.memories) : s'.ownerOf a = some place := by
  have hlt := (Array.getElem?_eq_some_iff.mp hi).1
  have habsurd (hsize : s'.instances.size = s.instances.size) : False := by omega
  cases h with
  | quiet h => exact (habsurd h.instances_size).elim
  | define => exact (habsurd rfl).elim
  | release _ => exact (habsurd rfl).elim
  | @instantiate _ m entities hv hquiet =>
    have h := instantiate_cases hv entities hs.fresh
    have hsize := hquiet.instances_size
    rw [hquiet.owner]
    obtain ⟨j, hj, hsame⟩ : ∃ j, (endState (Store.instantiate m entities s)).instances[place]? = some j ∧
        a ∈ j.memories := by
      have hj := Array.getElem?_eq_getElem (hsize ▸ hlt)
      obtain ⟨i', hi', hsame⟩ := hquiet.instances _ _ hj
      obtain rfl := Option.some.inj (hi.symm.trans hi')
      exact ⟨_, hj, hsame.memories ▸ ha⟩
    cases hr : Store.instantiate m entities s with
    | error e s₂ =>
      rw [hr] at h hsize
      change s'.instances.size = s₂.instances.size at hsize
      cases h with
      | refused _ h _ => exact (habsurd (hsize.trans h.instances_size)).elim
      | stranded _ _ _ _ h _ _ => exact (habsurd (hsize.trans (congrArg Array.size h))).elim
      | failed _ _ hmade h _ =>
        have hmore := hmade.instances_size h
        have hmore : s'.instances.size = s.instances.size + 1 := hsize.trans hmore
        exact absurd ⟨by omega, e, _, hr, hsize ▸ hlt⟩ (hfails _ rfl)
    | ok start s₂ =>
      rw [hr] at h hj hsize
      cases h with
      | made _ _ hmade h _ _ _ =>
        have hmore : s'.instances.size = s.instances.size + 1 := hsize.trans (hmade.instances_size h)
        obtain rfl : place = s.instances.size := by omega
        exact hmade.owned_new h hj hsame

end Moves

end Store

namespace Machine

variable {σ : Type}

/-- The instance whose WebAssembly code runs, and the memory that this code can access. -/
def access? (m : Machine σ) : Option (Nat × Nat) :=
  match m.control with
  | .guest ⟨_, f :: _, _⟩ => do
    let i ← m.store.instances[f.instance_]?
    return (f.instance_, ← i.memories[0]?)
  | _ => none

theorem access_eq_some {m : Machine σ} {place addr : Nat} (h : m.access? = some (place, addr)) :
    ∃ i, m.store.instances[place]? = some i ∧ addr ∈ i.memories := by
  unfold access? at h
  split at h
  · obtain ⟨i, hi, h⟩ := Option.bind_eq_some_iff.mp h
    obtain ⟨a, ha, h⟩ := Option.bind_eq_some_iff.mp h
    cases h
    exact ⟨i, hi, Array.mem_of_getElem? ha⟩
  · nomatch h

namespace Reached

variable {m : Machine σ} {log : List (Event σ)}

/-- What the instances of a store own: those that failed nothing, and the others all their memories. -/
theorem owners (h : Reached m log) :
    (∀ place, Failed log place → place < m.store.instances.size ∧
      ∀ a, m.store.ownerOf a ≠ some place) ∧
    ∀ (place : Nat) (i : ModuleInstance), m.store.instances[place]? = some i → ¬Failed log place →
      ∀ a ∈ i.memories, m.store.ownerOf a = some place := by
  refine h.store_induction (P := fun s log =>
    (∀ place, Failed log place → place < s.instances.size ∧ ∀ a, s.ownerOf a ≠ some place) ∧
    ∀ (place : Nat) (i : ModuleInstance), s.instances[place]? = some i → ¬Failed log place →
      ∀ a ∈ i.memories, s.ownerOf a = some place) ?_ ?_
  · refine fun id config state => ⟨fun place hf => ?_, fun place i hi => ?_⟩
    · obtain ⟨_, he, -⟩ := hf
      exact absurd he List.not_mem_nil
    · change (#[] : Array ModuleInstance)[place]? = _ at hi
      simp at hi
  · intro s s' event log hs ⟨hfailed, howned⟩ hmoves
    have hext := hmoves.toExtends hs
    -- an event that was not there before is that of this step
    have hsplit (place : Nat) : Failed (event.toList ++ log) place ↔
        (∃ e ∈ event, e.Fails place) ∨ Failed log place := by
      simp [Failed, or_and_right, exists_or]
    constructor
    · intro place hf
      by_cases hnow : ∃ e ∈ event, e.Fails place
      · obtain ⟨e, he, hfails⟩ := hnow
        exact hmoves.owner_ne hs he hfails
      · obtain ⟨hlt, hne⟩ := hfailed place (((hsplit place).mp hf).resolve_left hnow)
        have hkeep := hmoves.owner_iff hs hlt fun e he hfails => hnow ⟨e, he, hfails⟩
        exact ⟨Nat.lt_of_lt_of_le hlt hext.instances.size_le, fun a ha => hne a ((hkeep a).mp ha)⟩
    · intro place i hi hf a ha
      rw [hsplit, not_or] at hf
      have hnow : ∀ e ∈ event, ¬e.Fails place := fun e he hfails => hf.1 ⟨e, he, hfails⟩
      rcases Nat.lt_or_ge place s.instances.size with hlt | hge
      · obtain ⟨i', hi', hsame⟩ := hext.instances place _ (Array.getElem?_eq_getElem hlt)
        obtain rfl := Option.some.inj (hi.symm.trans hi')
        rw [hsame.memories] at ha
        exact (hmoves.owner_iff hs hlt hnow a).mpr
          (howned place _ (Array.getElem?_eq_getElem hlt) hf.2 a ha)
      · exact hmoves.owned_new hs hge hi hnow ha

/-- An instance owns its memories exactly if it did not fail. -/
theorem owned_iff (h : Reached m log) {place : Nat} {i : ModuleInstance}
    (hi : m.store.instances[place]? = some i) {a : Nat} (ha : a ∈ i.memories) :
    m.store.ownerOf a = some place ↔ ¬Failed log place :=
  ⟨fun howner hf => (h.owners.1 place hf).2 a howner, fun hf => h.owners.2 place i hi hf a ha⟩

/-- **Whoever runs owns the memory it runs on**, unless its instantiation failed, and no two instances have the
same memory, except for instances whose instantiation failed. -/
theorem owner_iff_not_failed (h : Reached m log) :
    (∀ place addr, m.access? = some (place, addr) →
      (m.store.ownerOf addr = some place ↔ ¬Failed log place)) ∧
    ∀ (place place' : Nat) (i i' : ModuleInstance), ¬Failed log place → ¬Failed log place' →
      m.store.instances[place]? = some i → m.store.instances[place']? = some i' →
      ∀ a ∈ i.memories, a ∈ i'.memories → place = place' := by
  constructor
  · intro place addr haccess
    obtain ⟨i, hi, haddr⟩ := access_eq_some haccess
    exact h.owned_iff hi haddr
  · intro place place' i i' hf hf' hi hi' a ha ha'
    have howner := (h.owned_iff hi ha).mpr hf
    have howner' := (h.owned_iff hi' ha').mpr hf'
    exact Option.some.inj (howner.symm.trans howner')

end Reached

end Machine

/-! ### A function that outlives its instance -/

/-- A module that imports a memory and a table, writes its function to the table and a byte to the memory. The
function gives the size of the memory. -/
def Module.squatter : Module :=
  (Module.ofBytes ⟨#[0, 97, 115, 109, 1, 0, 0, 0, 1, 5, 1, 96, 0, 1, 127, 2, 12, 2, 0, 0, 2, 0, 0, 0, 0, 1, 112,
    0, 1, 3, 2, 1, 0, 9, 7, 1, 0, 65, 0, 11, 1, 0, 10, 6, 1, 4, 0, 63, 0, 11, 11, 7, 1, 0, 65, 0, 11, 1, 7]⟩
    .all {}).toOption.get (by decide +kernel)

/-- A module that imports a memory. -/
def Module.buyer : Module :=
  (Module.ofBytes ⟨#[0, 97, 115, 109, 1, 0, 0, 0, 2, 6, 1, 0, 0, 2, 0, 0]⟩ .all {}).toOption.get
    (by decide +kernel)

/-- The first module fails at its byte, since the memory is empty. The second one gets the memory, and then the
function of the first one is called. -/
def HostProgram.squat : HostProgram Unit :=
  .operate (.newMemory ⟨0, none⟩) fun _ =>
  .operate (.newTable ⟨.funcref, ⟨1, none⟩⟩ (.ref .funcref none)) fun _ =>
  .instantiate .squatter [.memory ⟨0, 0⟩, .table ⟨0, 0⟩] fun _ =>
  .instantiate .buyer [.memory ⟨0, 0⟩] fun _ =>
  .call ⟨0, 0⟩ [] fun _ => .return_ []

theorem HostProgram.wellFormed_squat : squat.WellFormed :=
  fun _ _ => ⟨Module.valid_get _, fun _ => ⟨Module.valid_get _, fun _ _ => trivial⟩⟩

/-- The machine at the first op of that function. -/
def Machine.squatting : Machine Unit :=
  Machine.run 7 ⟨.new 0 {} (), .host none ⟨[], []⟩ .squat, []⟩

theorem Machine.reached_squatting : ∃ log, Machine.Reached squatting log :=
  (Machine.Reached.program (.empty 0 {} ()) HostProgram.wellFormed_squat).run 7

/-- The function runs on a memory that belongs to the other instance. -/
theorem Machine.access_squatting :
    squatting.access? = some (0, 0) ∧ squatting.store.ownerOf 0 = some 1 := by
  decide +kernel

/-- So the instance of the function is one that failed. -/
theorem Machine.failed_squatting :
    ∃ log, Machine.Reached squatting log ∧ squatting.access? = some (0, 0) ∧ Failed log 0 := by
  obtain ⟨log, h⟩ := reached_squatting
  refine ⟨log, h, access_squatting.1, ?_⟩
  by_contra hf
  have howner := (h.owner_iff_not_failed.1 0 0 access_squatting.1).mpr hf
  exact absurd (access_squatting.2.symm.trans howner) (by decide)

/-- **Who runs need not own the memory it runs on.** -/
theorem Machine.not_exclusive : ¬∀ (m : Machine Unit) log, m.Reached log → ∀ place addr,
    m.access? = some (place, addr) → m.store.ownerOf addr = some place := by
  intro hall
  obtain ⟨log, h⟩ := reached_squatting
  have howner := hall _ log h 0 0 access_squatting.1
  exact absurd (access_squatting.2.symm.trans howner) (by decide)

end WasmEngine
