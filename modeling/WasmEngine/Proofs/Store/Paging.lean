import WasmEngine.Proofs.Store.Evolution

/-!
# Where the memories of a store come from

Memories are made in two places, at the request of the embedder and for an instance, and both times under the cap that
the configuration of the store has. Whatever is done with them later is one of the operations on memories. So each
memory of a store is `Memory.MadeUnder` this cap (`Store.PagedUnder`), and a store that evolves stays like that
(`Store.Evolves.stays`).

With tables it is the same, except that there is no cap: each of them was made as it was declared
(`Store.TablesMade`).
-/

namespace WasmEngine

namespace Store

variable {σ : Type} {cap : Nat} {s s' : Store σ}

/-- **All memories of a store were made under its cap**, and have gone through operations since. -/
structure PagedUnder (cap : Nat) (s : Store σ) : Prop where
  config : s.config.maxMemoryPages = cap
  memories : ∀ (addr : Nat) (e : MemoryEntry), s.memories[addr]? = some e → e.memory.MadeUnder cap

/-- A store stays like that. -/
def StaysPaged (cap : Nat) (s s' : Store σ) : Prop := s.PagedUnder cap → s'.PagedUnder cap

instance : IsPreorder (Store σ) (StaysPaged cap) where
  refl _ h := h
  trans _ _ _ h h' hs := h' (h hs)

namespace StaysPaged

/-- Every memory is one that there was. -/
theorem of_memories (config : s'.config.maxMemoryPages = s.config.maxMemoryPages)
    (memories : ∀ (addr : Nat) (e' : MemoryEntry), s'.memories[addr]? = some e' →
      ∃ e, s.memories[addr]? = some e ∧ e'.memory = e.memory) :
    StaysPaged cap s s' := by
  rintro ⟨hcap, hmade⟩
  refine ⟨config.trans hcap, fun addr e' he' => ?_⟩
  obtain ⟨e, he, hsame⟩ := memories addr e' he'
  exact hsame ▸ hmade addr e he

/-- Whatever is not about memories. -/
theorem of_eq (config : s'.config.maxMemoryPages = s.config.maxMemoryPages) (memories : s'.memories = s.memories) :
    StaysPaged cap s s' :=
  .of_memories config fun _ e' he' => ⟨e', memories ▸ he', rfl⟩

/-- An operation on a memory. -/
theorem setMemory {addr : Nat} {e : MemoryEntry} (he : s.memories[addr]? = some e) (op : Memory.Operation) :
    StaysPaged cap s (s.setMemory addr (op.after e.memory)) := by
  rintro ⟨hcap, hmade⟩
  refine ⟨hcap, fun addr' e' he' => ?_⟩
  rw [Store.setMemory, Array.getElem?_modify] at he'
  split at he'
  · next heq =>
    cases heq
    rw [he] at he'
    cases he'
    exact (hmade addr e he).after op
  · exact hmade addr' e' he'

/-- A memory that is made. -/
theorem push {m : Memory} (hm : m.MadeUnder cap) (owner : Option Nat) :
    StaysPaged cap s { s with memories := s.memories.push ⟨m, owner⟩ } := by
  rintro ⟨hcap, hmade⟩
  refine ⟨hcap, fun addr e he => ?_⟩
  rw [Array.getElem?_push] at he
  split at he
  · cases he
    exact hm
  · exact hmade addr e he

end StaysPaged

/-- A memory of which only the owner has changed. -/
theorem StaysPaged.of_owners {memories : Array MemoryEntry}
    (h : memories.map (·.memory) = s.memories.map (·.memory)) : StaysPaged cap s { s with memories } := by
  refine .of_memories rfl fun addr e' he' => ?_
  have haddr := congrArg (·[addr]?) h
  simp only [Array.getElem?_map] at haddr
  rw [show memories[addr]? = some e' from he', Option.map_some, eq_comm, Option.map_eq_some_iff] at haddr
  obtain ⟨e, he, hsame⟩ := haddr
  exact ⟨e, he, hsame.symm⟩

theorem Alters.stays (h : s.Alters cap s') : s.StaysPaged cap s' := by
  cases h with
  | memory op he => exact .setMemory he op
  | newMemory owner hm => exact .push (Memory.madeUnder_allocate hm) owner
  | owners memories h => exact .of_owners h
  | table | newTable | newFunc => exact .of_eq rfl rfl
  | beside hconfig _ hmemories => exact .of_eq hconfig hmemories

/-- **All memories stay under the cap**, whatever is asked of a store. -/
theorem Evolves.stays (h : s.Evolves cap s') : s.StaysPaged cap s' :=
  fun hs => h.keeps hs.config (fun halters => halters.stays) hs

/-! ### Tables -/

/-- **All tables of a store were made as they were declared**, and have gone through operations since. -/
def TablesMade (s : Store σ) : Prop :=
  ∀ (addr : Nat) (t : Table), s.tables[addr]? = some t → ∃ declared, t.MadeAs declared

theorem Alters.tablesMade (h : s.Alters cap s') (hs : s.TablesMade) : s'.TablesMade := by
  cases h with
  | memory | newMemory | newFunc | owners => exact hs
  | beside _ _ _ htables => exact fun addr t ht => hs addr t (htables ▸ ht)
  | @table addr t op ht =>
    intro addr' t' ht'
    rw [setTableAt, Array.getElem?_modify] at ht'
    split at ht'
    · next haddr =>
      obtain ⟨declared, hmade⟩ := hs addr t ht
      rw [← haddr, ht] at ht'
      cases ht'
      exact ⟨declared, hmade.after op⟩
    · exact hs addr' t' ht'
  | newTable hnew =>
    intro addr t ht
    rw [Array.getElem?_push] at ht
    split at ht
    · cases ht
      exact ⟨_, Table.madeAs_allocate hnew⟩
    · exact hs addr t ht

end Store

end WasmEngine
