import WasmEngine.Proofs.Machine.Accesses
import WasmEngine.Proofs.Table.Cells

/-!
# Ops on many elements of tables

`table.copy`, `table.init` and `table.fill` put a row of cells into a table, or trap if not all of it is there. What
they do is said of all the cells of all the tables in a store (`Store.Rewritten`), so it does not matter which of the
tables that an op names are the same one.

There are two ways to copy, one within a table and one between tables, and addresses, not indices, decide between them.
Both put what the source holds before the op: the first because a copy within a table does (`Table.performs_copyWithin`),
the second because what is put has been cut out of another table.
-/

namespace WasmEngine

variable {σ : Type} {f : Scope} {s s' : Store σ} {stack : Stack} {addr start length : Nat} {t t' u : Table}
  {piece : Nat → Option Cell}

/-! ### All cells of a store -/

namespace Store

/-- The cell at an index of the table at an address. -/
def cell? (s : Store σ) (addr i : Nat) : Option Cell := do (← s.tables[addr]?).cells[i]?

theorem cell?_eq (h : s.tables[addr]? = some t) (i : Nat) : s.cell? addr i = t.cells[i]? := by
  rw [cell?, h]
  rfl

/-- **Exactly the addressed cells of one table have changed**: those from a position on are the ones of a piece. All
other cells of all tables are as they were, and so is everything else. -/
structure Rewritten (s s' : Store σ) (addr start length : Nat) (piece : Nat → Option Cell) : Prop where
  inside : ∀ k < length, s'.cell? addr (start + k) = piece k
  outside : ∀ a i, a ≠ addr ∨ i < start ∨ start + length ≤ i → s'.cell? a i = s.cell? a i
  types : s'.tables.map Table.type = s.tables.map Table.type
  rest : s' = { s with tables := s'.tables }

theorem tables_setTableAt (h : s.tables[addr]? = some t) : (s.setTableAt addr t').tables[addr]? = some t' := by
  rw [setTableAt, Array.getElem?_modify, if_pos rfl, h]
  rfl

theorem tables_setTableAt_of_ne {a : Nat} (h : a ≠ addr) : (s.setTableAt addr t').tables[a]? = s.tables[a]? := by
  rw [setTableAt, Array.getElem?_modify, if_neg h.symm]

theorem rewritten_setTableAt (ht : s.tables[addr]? = some t) (h : t.Rewritten t' start length piece) :
    s.Rewritten (s.setTableAt addr t') addr start length piece where
  inside k hk := by rw [cell?_eq (tables_setTableAt ht), h.inside k hk]
  outside a i hi := by
    rcases eq_or_ne a addr with rfl | ha
    · rw [cell?_eq (tables_setTableAt ht), cell?_eq ht]
      exact h.outside i (hi.resolve_left fun hne => hne rfl)
    · rw [cell?, tables_setTableAt_of_ne ha, cell?]
  types := by
    refine Array.ext_getElem? fun a => ?_
    rw [Array.getElem?_map, Array.getElem?_map]
    rcases eq_or_ne a addr with rfl | ha
    · rw [tables_setTableAt ht, ht]
      exact congrArg some h.type
    · rw [tables_setTableAt_of_ne ha]
  rest := rfl

end Store

/-! ### All or nothing -/

/-- **An op rewrites cells if they are there**, and otherwise it traps and the store is as it was. -/
structure PlainOp.Rewrites (op : PlainOp) (f : Scope) (s : Store σ) (stack rest : Stack) (fits : Prop)
    (addr start length : Nat) (piece : Nat → Option Cell) : Prop where
  done : fits → ∃ s', op.exec f ⟨s, stack⟩ = .ok () ⟨s', rest⟩ ∧ s.Rewritten s' addr start length piece
  refused : ¬fits → op.exec f ⟨s, stack⟩ = .error (.ofCode .tableOutOfBounds) ⟨s, rest⟩

/-- An element segment of a function's instance, which is empty if it has been dropped. -/
def Scope.elements? (f : Scope) (s : Store σ) (x : Nat) : Option (Array Cell) := do
  (← s.instances[f.instance_]?).elements[x]?

open Exec

namespace PlainOp

variable {op : PlainOp} {rest : Stack} {fits : Prop}

/-- An op that comes down to a change of one table does what the change does. -/
theorem rewrites_of_performs {act : Table.Change Unit} (ht : s.tables[addr]? = some t)
    (hexec : op.exec f ⟨s, stack⟩ = (onTable addr act : Exec σ Unit) ⟨s, rest⟩)
    (h : Table.Performs act t fits start length piece) : op.Rewrites f s stack rest fits addr start length piece where
  done hfits := by
    obtain ⟨t', hact, hrewritten⟩ := h.done hfits
    refine ⟨s.setTableAt addr t', ?_, Store.rewritten_setTableAt ht hrewritten⟩
    rw [hexec, onTable_eq ht, hact]
  refused hfits := by
    rw [hexec, onTable_eq ht, h.refused hfits]
    exact congrArg _ (congrArg (Running.mk · rest) (Store.setTableAt_same ht))

theorem rewrites_tableFill {x : Nat} (h : f.tableAddr? s x = some addr) (ht : s.tables[addr]? = some t)
    (stack : Stack) :
    let length := (stack.top.setWidth 32).toNat
    let start := (stack.pop.pop.top.setWidth 32).toNat
    (tableFill x).Rewrites f s stack stack.pop.pop.pop (start + length ≤ t.size) addr start length
      fun _ => some stack.pop.top := by
  extract_lets length start
  refine rewrites_of_performs ht ?_ (t.performs_fill start stack.pop.top length)
  have hpop : (pop : Exec σ Cell) ⟨s, stack.pop⟩ = .ok stack.pop.top ⟨s, stack.pop.pop⟩ := rfl
  rw [exec, estate_bind_of_ok (tableAddr_eq h), estate_bind_of_ok (popNat_eq s stack), estate_bind_of_ok hpop,
    estate_bind_of_ok (popNat_eq s stack.pop.pop)]

theorem rewrites_tableInit {x y : Nat} {items : Array Cell} (h : f.tableAddr? s x = some addr)
    (ht : s.tables[addr]? = some t) (hitems : f.elements? s y = some items) (stack : Stack) :
    let length := (stack.top.setWidth 32).toNat
    let source := (stack.pop.top.setWidth 32).toNat
    let target := (stack.pop.pop.top.setWidth 32).toNat
    (tableInit y x).Rewrites f s stack stack.pop.pop.pop (source + length ≤ items.size ∧ target + length ≤ t.size)
      addr target length fun k => items[source + k]? := by
  extract_lets length source target
  refine rewrites_of_performs ht ?_ (t.performs_init target items source length)
  obtain ⟨i, hi, hitems⟩ := Option.bind_eq_some_iff.mp hitems
  have hinstance : (instanceOf f : Exec σ _) ⟨s, stack⟩ = .ok i ⟨s, stack⟩ := known_of hi _
  rw [exec, estate_bind_of_ok (tableAddr_eq h), estate_bind_of_ok hinstance, estate_bind_of_ok (known_of hitems _),
    estate_bind_of_ok (popNat_eq s stack), estate_bind_of_ok (popNat_eq s stack.pop),
    estate_bind_of_ok (popNat_eq s stack.pop.pop)]

/-- What `table.copy` does when its operands and its tables are known: there is one way within a table, and another
between tables. -/
theorem exec_tableCopy {x y sourceAddr : Nat} (h : f.tableAddr? s x = some addr)
    (h' : f.tableAddr? s y = some sourceAddr) (stack : Stack) :
    let length := (stack.top.setWidth 32).toNat
    let source := (stack.pop.top.setWidth 32).toNat
    let target := (stack.pop.pop.top.setWidth 32).toNat
    ((tableCopy x y).exec f : Exec σ Unit) ⟨s, stack⟩ =
      (if addr = sourceAddr then onTable addr (Table.copyWithin target source length)
      else do
        let items ← orTrap ((← tableAt sourceAddr).slice source length)
        onTable addr (Table.init target items 0 length) : Exec σ Unit) ⟨s, stack.pop.pop.pop⟩ := by
  extract_lets length source target
  rw [exec, estate_bind_of_ok (tableAddr_eq h), estate_bind_of_ok (tableAddr_eq h'),
    estate_bind_of_ok (popNat_eq s stack), estate_bind_of_ok (popNat_eq s stack.pop),
    estate_bind_of_ok (popNat_eq s stack.pop.pop)]

/-- **Copying puts the cells that the source has before it**, wherever they come from. -/
theorem rewrites_tableCopy {x y sourceAddr : Nat} (h : f.tableAddr? s x = some addr) (ht : s.tables[addr]? = some t)
    (h' : f.tableAddr? s y = some sourceAddr) (hu : s.tables[sourceAddr]? = some u) (stack : Stack) :
    let length := (stack.top.setWidth 32).toNat
    let source := (stack.pop.top.setWidth 32).toNat
    let target := (stack.pop.pop.top.setWidth 32).toNat
    (tableCopy x y).Rewrites f s stack stack.pop.pop.pop (source + length ≤ u.size ∧ target + length ≤ t.size)
      addr target length fun k => s.cell? sourceAddr (source + k) := by
  extract_lets length source target
  have hexec := exec_tableCopy h h' stack
  extract_lets at hexec
  simp only [Store.cell?_eq hu]
  by_cases hsame : addr = sourceAddr
  -- the two indices refer to one table
  · subst hsame
    cases Option.some.inj (ht.symm.trans hu)
    rw [if_pos rfl] at hexec
    exact rewrites_of_performs ht hexec (t.performs_copyWithin target source length)
  rw [if_neg hsame] at hexec
  have hat : (tableAt sourceAddr : Exec σ Table) ⟨s, stack.pop.pop.pop⟩ = .ok u ⟨s, stack.pop.pop.pop⟩ :=
    known_of hu _
  rw [estate_bind_of_ok hat] at hexec
  by_cases hsource : source + length ≤ u.size
  -- what has been cut out is all of a piece of the right length
  · rw [Table.slice, if_pos (Table.contains_iff.mpr hsource)] at hexec
    have hsize : (u.cells.extract source (source + length)).size = length := Table.size_extract hsource
    have hinit := t.performs_init target (u.cells.extract source (source + length)) 0 length
    refine rewrites_of_performs ht hexec ⟨fun hfits => ?_, fun hfits => hinit.refused ?_⟩
    · obtain ⟨t', ht', hrewritten⟩ := hinit.done ⟨by omega, hfits.2⟩
      refine ⟨t', ht', hrewritten.congr fun k hk => ?_⟩
      rw [Nat.zero_add, Table.getElem?_extract hsource hk]
    · exact fun ⟨_, htarget⟩ => hfits ⟨hsource, htarget⟩
  · rw [Table.slice, if_neg fun hc => hsource (Table.contains_iff.mp hc)] at hexec
    exact ⟨fun hfits => absurd hfits.1 hsource, fun _ => hexec⟩

end PlainOp

/-- **Ops on many elements of tables see a snapshot.** They succeed exactly if all that they address is there, where
the sums of positions and lengths are numbers, and then exactly the addressed cells of all tables have changed: to what
the source of a copy had before, to what a segment has, or to the given cell. Otherwise they trap and nothing is
changed. -/
theorem PlainOp.rewrites_tables (f : Scope) (s : Store σ) (stack : Stack) (x addr : Nat) (t : Table)
    (h : f.tableAddr? s x = some addr) (ht : s.tables[addr]? = some t) :
    let length := (stack.top.setWidth 32).toNat
    let source := (stack.pop.top.setWidth 32).toNat
    let target := (stack.pop.pop.top.setWidth 32).toNat
    (∀ y sourceAddr u, f.tableAddr? s y = some sourceAddr → s.tables[sourceAddr]? = some u →
      (tableCopy x y).Rewrites f s stack stack.pop.pop.pop (source + length ≤ u.size ∧ target + length ≤ t.size)
        addr target length fun k => s.cell? sourceAddr (source + k)) ∧
    (∀ y items, f.elements? s y = some items →
      (tableInit y x).Rewrites f s stack stack.pop.pop.pop (source + length ≤ items.size ∧ target + length ≤ t.size)
        addr target length fun k => items[source + k]?) ∧
    (tableFill x).Rewrites f s stack stack.pop.pop.pop (target + length ≤ t.size) addr target length
      fun _ => some stack.pop.top :=
  ⟨fun _ _ _ h' hu => rewrites_tableCopy h ht h' hu stack, fun _ _ hitems => rewrites_tableInit h ht hitems stack,
    rewrites_tableFill h ht stack⟩

/-- A store with an instance that has one table of four elements under two indices, and a segment of two elements. -/
def Store.doubled : Store Unit :=
  { Store.scanty with
    tables := #[⟨.funcref, none, #[1, 2, 3, 4]⟩]
    instances := #[⟨⟨{}, #[]⟩, #[], #[0, 0], #[0], #[], #[#[8, 9]], #[], []⟩] }

/-- Three elements are copied to one place further on, in a table that is named as if it were two. From the end of a
segment nothing is taken, even from the end of the table, and one element more is too much. -/
theorem PlainOp.rewrites_tables_doubled :
    (∃ s', (tableCopy 0 1).exec Scope.scanty ⟨Store.doubled, ⟨#[1, 0, 3]⟩⟩ = .ok () ⟨s', ⟨#[]⟩⟩ ∧
      s'.cell? 0 0 = some 1 ∧ s'.cell? 0 1 = some 1 ∧ s'.cell? 0 2 = some 2 ∧ s'.cell? 0 3 = some 3) ∧
    (∃ s', (tableInit 0 1).exec Scope.scanty ⟨Store.doubled, ⟨#[4, 2, 0]⟩⟩ = .ok () ⟨s', ⟨#[]⟩⟩ ∧
      s'.cell? 0 3 = some 4) ∧
    (tableInit 0 1).exec Scope.scanty ⟨Store.doubled, ⟨#[4, 2, 1]⟩⟩ =
      .error (.ofCode .tableOutOfBounds) ⟨Store.doubled, ⟨#[]⟩⟩ := by
  have hcopy := (rewrites_tables Scope.scanty Store.doubled ⟨#[1, 0, 3]⟩ 0 0 _ rfl rfl).1 1 0 _ rfl rfl
  have hinit (n : Cell) := (rewrites_tables Scope.scanty Store.doubled ⟨#[4, 2, n]⟩ 1 0 _ rfl rfl).2.1 0 _ rfl
  obtain ⟨s', hs', h⟩ := hcopy.done (by decide)
  obtain ⟨s'', hs'', h'⟩ := (hinit 0).done (by decide)
  exact ⟨⟨s', hs', h.outside 0 0 (by decide), h.inside 0 (by decide), h.inside 1 (by decide), h.inside 2 (by decide)⟩,
    ⟨s'', hs'', h'.outside 0 3 (by decide)⟩, (hinit 1).refused (by decide)⟩

end WasmEngine
