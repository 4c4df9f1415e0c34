import WasmEngine.Proofs.Machine.Effects
import WasmEngine.Proofs.Store.Paging

/-!
# No memory outgrows its cap

However a memory has come about, and whatever has been done with it by code, by host functions and by the embedder, it
has a whole number of pages, at most as many as the configuration of its store allows (`Memory.growth_bounded`).

Nothing has to be said of single steps. In each of them the store evolves (`Machine.evolves_step`), and a store that
evolves keeps its memories under the cap (`Store.Evolves.stays`).
-/

namespace WasmEngine

variable {σ : Type} {cap : Nat}

namespace Machine

/-- **No step makes a memory that is not under the cap.** -/
theorem stays_step (m : Machine σ) : m.store.StaysPaged cap m.step.store := by
  -- a host function that is made is no matter of memories
  have hdefined : m.store.StaysPaged cap m.defined := .of_eq rfl rfl
  exact trans_of (Store.StaysPaged cap) hdefined m.evolves_step.stays

/-- **All memories that are reached were made under the cap of their store.** -/
theorem Reached.pagedUnder {m : Machine σ} {log : List (Event σ)} (h : Reached m log) :
    m.store.PagedUnder m.store.config.maxMemoryPages := by
  induction h with
  | empty => exact ⟨rfl, nofun⟩
  | program _ _ ih => exact ih
  | @step m _ _ ih =>
    have hstep := stays_step m ih
    -- a step does not change the configuration, so the cap is the same
    rwa [← hstep.config] at hstep

end Machine

/-- **Memories grow only as far as they may.** Whatever is done with a memory that was made, it has whole pages, at
least the declared minimum and at most the bound that the declared maximum and the cap give; its size never decreases,
and the peak is the size. It grows exactly within the bound, keeps its bytes then, and gets zeros. So no memory of a
store is ever larger than the configuration allows. -/
theorem Memory.growth_bounded :
    (∀ l pageCap m, allocate l pageCap = .ok m → ∀ ops, (m.run ops).Bounded l pageCap ∧
      (m.run ops).GrowsWithin (bound l pageCap) ∧ ∀ more, (m.run ops).pages ≤ (m.run (ops ++ more)).pages) ∧
    ∀ (σ : Type) (m : Machine σ) (log : List (Event σ)), m.Reached log →
      ∀ (addr : Nat) (e : MemoryEntry), m.store.memories[addr]? = some e →
        e.memory.MadeUnder m.store.config.maxMemoryPages ∧ e.memory.pages ≤ m.store.config.maxMemoryPages ∧
        e.memory.bytes.size ≤ m.store.config.maxMemoryPages * pageSize := by
  refine ⟨fun l pageCap m hm ops => ?_, fun σ m log hreached addr e he => ?_⟩
  · have hbounded := (bounded_allocate hm).run ops
    refine ⟨hbounded, hbounded.growsWithin, fun more => ?_⟩
    rw [run_append]
    exact pages_le_run more (m.run ops)
  · have hmade := hreached.pagedUnder.memories addr e he
    obtain ⟨l, hbounded⟩ := hmade.bounded
    have hpages := Nat.le_trans hbounded.le_bound (bound_le l _)
    refine ⟨hmade, hpages, ?_⟩
    rw [hbounded.size]
    exact Nat.mul_le_mul_right pageSize hpages

/-- A machine in which the embedder has made a memory of one page, under a cap of two. -/
def Machine.paging : Machine Unit :=
  Machine.step ⟨.new 0 { maxMemoryPages := 2 } (),
    .host none ⟨[], []⟩ (.operate (.newMemory ⟨1, some 3⟩) fun _ => .return_ []), []⟩

/-- Such a memory has at most two pages after it has grown, and so it cannot be asked for all the pages that there are.
The one of the embedder has at most two pages too. -/
theorem Memory.growth_bounded_paging :
    (((blank ⟨1, some 3⟩ 2).run [.grow 1, .fill 65536 7 1]).pages ≤ 2 ∧
      ∃ fault, grow 0xFFFFFFFF ((blank ⟨1, some 3⟩ 2).run [.grow 1, .fill 65536 7 1]) =
        .error fault ((blank ⟨1, some 3⟩ 2).run [.grow 1, .fill 65536 7 1])) ∧
    ∃ e, Machine.paging.store.memories[0]? = some e ∧ e.memory.pages ≤ 2 := by
  have hmade : allocate ⟨1, some 3⟩ 2 = .ok (blank ⟨1, some 3⟩ 2) := by rw [allocate_eq, if_neg (by decide)]
  have hreached : Machine.paging.Reached [] := .step (.program (.empty 0 { maxMemoryPages := 2 } ()) fun _ => trivial)
  obtain ⟨hbounded, hgrows, -⟩ := growth_bounded.1 _ _ _ hmade [.grow 1, .fill 65536 7 1]
  refine ⟨⟨hbounded.le_bound, hgrows.refused _ ?_⟩, _, rfl, (growth_bounded.2 Unit _ _ hreached 0 _ rfl).2.1⟩
  exact Nat.lt_of_lt_of_le (by decide) (Nat.le_add_left ..)

end WasmEngine
