import WasmEngine.Proofs.Machine.Effects
import WasmEngine.Proofs.Store.Paging

/-!
# Tables grow as they were declared

Whatever is done with a table, its size lies between the declared minimum and what any table may have, and it grows
exactly as far as the declared maximum allows (`Table.grows_as_declared`). The same holds of all tables of all stores that
are reached, since every step is a way that a store evolves.

One thing is left out that memories have. A table may be declared with a maximum below its minimum, and then it is made
nevertheless, with more elements than the maximum: for tables of modules this is ruled out when they are validated, but
the embedder may ask for such a table. So the size respects the declared maximum, and the reported type is ordered,
exactly if the declared type was.
-/

namespace WasmEngine

variable {σ : Type}

namespace Machine

/-- **No step makes a table out of nothing.** -/
theorem tablesMade_step {m : Machine σ} (hm : m.store.TablesMade) : m.step.store.TablesMade :=
  m.evolves_step.keeps rfl (fun halters => halters.tablesMade) hm

/-- **All tables that are reached were made as they were declared.** -/
theorem Reached.tablesMade {m : Machine σ} {log : List (Event σ)} (h : Reached m log) : m.store.TablesMade := by
  induction h with
  | empty => exact nofun
  | program _ _ ih => exact ih
  | step _ ih => exact tablesMade_step ih

end Machine

/-- **Tables grow only as far as they may.** Whatever is done with a table that was made, it is of the declared type but
for its size, which is at least the declared minimum, at most what any table may have, and never decreases. It grows
exactly within the declared maximum and what any table may have, keeps its elements then, and gets equal ones. It
respects the declared maximum, and the type that is reported of it is ordered, exactly if the declared type is. And
every table of a store has been made like this. -/
theorem Table.grows_as_declared {declared : TableType} {c : Cell} {t : Table} (ht : allocate declared c = .ok t)
    (ops : List Operation) {m : Machine σ} {log : List (Event σ)} (hm : m.Reached log) :
    ((t.run ops).Bounded declared ∧ (t.run ops).GrowsWithin (room declared) ∧
      (∀ more, (t.run ops).size ≤ (t.run (ops ++ more)).size) ∧
      (∀ max, declared.limits.max = some max → ((t.run ops).size ≤ max ↔ declared.limits.min ≤ max)) ∧
      ((t.run ops).type.limits.Ordered ↔ declared.limits.Ordered)) ∧
    ∀ (addr : Nat) (u : Table), m.store.tables[addr]? = some u →
      ∃ declared', u.MadeAs declared' ∧ u.Bounded declared' ∧ (u.type.limits.Ordered ↔ declared'.limits.Ordered) := by
  refine ⟨?_, fun addr u hu => ?_⟩
  · have hbounded := (bounded_allocate ht).run ops
    refine ⟨hbounded, hbounded.growsWithin, fun more => ?_, fun max => hbounded.le_max_iff, hbounded.ordered_iff⟩
    rw [run_append]
    exact size_le_run more (t.run ops)
  · obtain ⟨declared', hmade⟩ := hm.tablesMade addr u hu
    exact ⟨declared', hmade, hmade.bounded, hmade.bounded.ordered_iff⟩

/-- A machine in which the embedder has made a table of five elements, which may have three. -/
def Machine.tabling : Machine Unit :=
  Machine.step ⟨.new 0 {} (), .host none ⟨[], []⟩
    (.operate (.newTable ⟨.funcref, ⟨5, some 3⟩⟩ (.ref .funcref none)) fun _ => .return_ []), []⟩

/-- A table of one element that may have three grows by two and then no more. One of five elements that may have three
has five, and does not grow. The one of the embedder has more than its type allows, too. -/
theorem Table.grows_as_declared_tabling :
    ((blank ⟨.funcref, ⟨1, some 3⟩⟩ 7).run [.grow 2 8]).size ≤ 3 ∧
    grow 1 0 ((blank ⟨.funcref, ⟨1, some 3⟩⟩ 7).run [.grow 2 8]) =
      .ok none ((blank ⟨.funcref, ⟨1, some 3⟩⟩ 7).run [.grow 2 8]) ∧
    ¬((blank ⟨.funcref, ⟨5, some 3⟩⟩ 7).run [.set 4 8]).size ≤ 3 ∧
    ∃ t, Machine.tabling.store.tables[0]? = some t ∧ t.size ≤ maxTableElements := by
  have hmade (n : Nat) (hn : n ≤ maxTableElements) :
      allocate ⟨.funcref, ⟨n, some 3⟩⟩ 7 = .ok (blank ⟨.funcref, ⟨n, some 3⟩⟩ 7) := allocate_eq_ok_iff.mpr ⟨hn, rfl⟩
  have hreached : Machine.tabling.Reached [] := .step (.program (.empty 0 {} ()) fun _ => trivial)
  obtain ⟨⟨-, hgrows, -, hmax, -⟩, hstore⟩ := grows_as_declared (hmade 1 (by decide)) [.grow 2 8] hreached
  obtain ⟨⟨-, -, -, hmax', -⟩, -⟩ := grows_as_declared (hmade 5 (by decide)) [.set 4 8] hreached
  obtain ⟨_, _, hbounded, _⟩ := hstore 0 _ rfl
  exact ⟨(hmax 3 rfl).mpr (by decide), hgrows.refused 1 0 (by decide), fun h => absurd ((hmax' 3 rfl).mp h) (by decide),
    _, rfl, hbounded.le_cap⟩

end WasmEngine
