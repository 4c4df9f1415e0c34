import WasmEngine.Proofs.Machine.Numbers
import WasmEngine.Proofs.Machine.Rules
import WasmEngine.Proofs.Store.Instantiate
import WasmEngine.Proofs.Validation.Effects

/-!
# Plain ops at work

A plain op of a checked instruction finds the operands it asks for on the stack, and its tables, memories, globals
and segments in the instance of its function. It puts what it gives in the place of what it took, and touches
nothing below but the locals, which keep their types (`PlainOp.exec_sound`). If it fails, then by a trap.
-/

namespace WasmEngine

variable {σ : Type} {s s' : Store σ} {D : Domain} {f : Scope} {features : Features}

/-- **A function is at home**: there is an instance of its module at its address, which belongs to the domain. -/
structure Scope.Hosted (D : Domain) (s : Store σ) (f : Scope) : Prop where
  hosts : s.Hosts f.instance_ f.module
  inside : D.instances f.instance_

theorem Scope.Hosted.mono (h : s.Extends s') (hf : f.Hosted D s) : f.Hosted D s' := ⟨hf.hosts.mono h, hf.inside⟩

namespace Exec

/-! ### What an active function can refer to -/

section

variable (hs : s.TypedIn D) (hf : f.Hosted D s)

include hf in
theorem instanceOf_of : ∃ i, s.instances[f.instance_]? = some i ∧ i.module = f.module ∧
    ∀ stack, (instanceOf f : Exec σ ModuleInstance) ⟨s, stack⟩ = .ok i ⟨s, stack⟩ := by
  obtain ⟨i, hi, hmodule⟩ := hf.hosts
  exact ⟨i, hi, hmodule, fun stack => known_of hi _⟩

include hs hf

/-- The instance of a function has what its module declares, and refers to nothing outside. -/
theorem instance_spec : ∃ i, (∀ stack, (instanceOf f : Exec σ ModuleInstance) ⟨s, stack⟩ = .ok i ⟨s, stack⟩) ∧
    i.module = f.module ∧ i.Typed s ∧ i.Within D := by
  obtain ⟨i, hi, hmodule, hinstance⟩ := instanceOf_of hf
  exact ⟨i, hinstance, hmodule, hs.typed.instances i (Array.mem_of_getElem? hi),
    hs.confined.instances _ i hf.inside hi⟩

theorem funcAddr_of {x : Nat} {type : FuncType} (h : (f.module.context features).func x = .ok type) :
    ∃ addr e, (∀ stack, (funcAddr f x : Exec σ Nat) ⟨s, stack⟩ = .ok addr ⟨s, stack⟩) ∧
      s.funcs[addr]? = some e ∧ D.funcs addr ∧ e.type = type := by
  obtain ⟨i, hinstance, hmodule, htyped, hwithin⟩ := instance_spec hs hf
  obtain ⟨t, ht, htype⟩ := Context.func_eq_ok.mp h
  have hfuncs := htyped.funcs
  rw [hmodule] at hfuncs
  obtain ⟨addr, haddr, e, he, htype'⟩ := forall₂_getElem? hfuncs ht
  rw [Array.getElem?_toList] at haddr
  exact ⟨addr, e, fun stack => (estate_bind_of_ok (hinstance stack)).trans (known_of haddr _), he,
    hwithin.funcs addr (Array.mem_of_getElem? haddr), (Option.some.inj (htype.symm.trans htype')).symm⟩

theorem tableAddr_of {x : Nat} {type : TableType} (h : (f.module.context features).table x = .ok type) :
    ∃ addr t, (∀ stack, (tableAddr f x : Exec σ Nat) ⟨s, stack⟩ = .ok addr ⟨s, stack⟩) ∧
      s.tables[addr]? = some t ∧ D.tables addr ∧ t.element = type.element := by
  obtain ⟨i, hinstance, hmodule, htyped, hwithin⟩ := instance_spec hs hf
  have htables := htyped.tables
  rw [hmodule] at htables
  obtain ⟨addr, haddr, t, ht, helement, -⟩ := forall₂_getElem? htables (Context.lookUp_eq_ok.mp h)
  rw [Array.getElem?_toList] at haddr
  exact ⟨addr, t, fun stack => (estate_bind_of_ok (hinstance stack)).trans (known_of haddr _), ht,
    hwithin.tables addr (Array.mem_of_getElem? haddr), helement⟩

theorem tableAddr_of_element {x : Nat} {type : RefType}
    (h : (f.module.context features).tableElement x = .ok type) :
    ∃ addr t, (∀ stack, (tableAddr f x : Exec σ Nat) ⟨s, stack⟩ = .ok addr ⟨s, stack⟩) ∧
      s.tables[addr]? = some t ∧ D.tables addr ∧ t.element = type := by
  obtain ⟨tableType, htable, h⟩ := bind_eq_ok.mp h
  cases pure_eq_ok.mp h
  exact tableAddr_of hs hf htable

omit hf in
/-- What is in a table of the domain. -/
theorem fits_table {addr : Nat} {t : Table} (hD : D.tables addr) (ht : s.tables[addr]? = some t) :
    ∀ c ∈ t.cells, s.FitsIn D (.ref t.element) c := fun c hc =>
  ⟨hs.typed.tables t (Array.mem_of_getElem? ht) c hc, hs.confined.tables addr t hD ht c hc⟩

theorem globalAddr_of {x : Nat} {type : GlobalType}
    (h : (f.module.context features).global x = .ok type) :
    ∃ addr g, (∀ stack, (globalAddr f x : Exec σ Nat) ⟨s, stack⟩ = .ok addr ⟨s, stack⟩) ∧
      s.globals[addr]? = some g ∧ s.FitsIn D g.type.value g.cell ∧ g.type = type := by
  obtain ⟨i, hinstance, hmodule, htyped, hwithin⟩ := instance_spec hs hf
  have hglobals := htyped.globals
  rw [hmodule] at hglobals
  obtain ⟨addr, haddr, g, hg, htype⟩ := forall₂_getElem? hglobals (Context.lookUp_eq_ok.mp h)
  rw [Array.getElem?_toList] at haddr
  have hfits : s.FitsIn D g.type.value g.cell := ⟨hs.typed.globals g (Array.mem_of_getElem? hg),
    hs.confined.globals addr g (hwithin.globals addr (Array.mem_of_getElem? haddr)) hg⟩
  exact ⟨addr, g, fun stack => (estate_bind_of_ok (hinstance stack)).trans (known_of haddr _), hg, hfits, htype⟩

theorem memoryAddr_of {limits : Limits} (h : (f.module.context features).memory 0 = .ok limits) :
    ∃ addr m, (∀ stack, (memoryAddr f : Exec σ Nat) ⟨s, stack⟩ = .ok addr ⟨s, stack⟩) ∧
      s.memories[addr]? = some m := by
  obtain ⟨i, hinstance, hmodule, htyped, -⟩ := instance_spec hs hf
  have hmemories := htyped.memories
  rw [hmodule] at hmemories
  obtain ⟨addr, haddr, m, hm, -⟩ := forall₂_getElem? hmemories (Context.lookUp_eq_ok.mp h)
  rw [Array.getElem?_toList] at haddr
  exact ⟨addr, m, fun stack => (estate_bind_of_ok (hinstance stack)).trans (known_of haddr _), hm⟩

theorem memoryOf_of {limits : Limits} (h : (f.module.context features).memory 0 = .ok limits) :
    ∃ m, ∀ stack, (memoryOf f : Exec σ Memory) ⟨s, stack⟩ = .ok m ⟨s, stack⟩ := by
  obtain ⟨addr, m, haddr, hm⟩ := memoryAddr_of hs hf h
  refine ⟨m.memory, fun stack => (estate_bind_of_ok (haddr stack)).trans ?_⟩
  exact estate_bind_of_ok (known_of hm _)

theorem element_of {x : Nat} {type : RefType} (h : (f.module.context features).element x = .ok type) :
    ∃ i items, (∀ stack, (instanceOf f : Exec σ ModuleInstance) ⟨s, stack⟩ = .ok i ⟨s, stack⟩) ∧
      i.elements[x]? = some items ∧ ∀ c ∈ items, s.FitsIn D (.ref type) c := by
  obtain ⟨i, hinstance, hmodule, htyped, hwithin⟩ := instance_spec hs hf
  have helements := htyped.elements
  rw [hmodule] at helements
  have hx := Context.lookUp_eq_ok.mp h
  change (f.module.elements.map (·.type))[x]? = some type at hx
  rw [List.getElem?_map, Option.map_eq_some_iff] at hx
  obtain ⟨segment, hsegment, rfl⟩ := hx
  obtain ⟨items, hitems, hall⟩ := forall₂_getElem? helements hsegment
  rw [Array.getElem?_toList] at hitems
  rw [← hmodule] at hsegment
  exact ⟨i, items, hinstance, hitems, fun c hc =>
    ⟨hall c hc, hwithin.elements x segment items hsegment hitems c hc⟩⟩

theorem data_of {x : Nat} (hm : f.module.Checked features) (h : (f.module.context features).data x = .ok ()) :
    ∃ i segment, (∀ stack, (instanceOf f : Exec σ ModuleInstance) ⟨s, stack⟩ = .ok i ⟨s, stack⟩) ∧
      i.data[x]? = some segment := by
  obtain ⟨i, hinstance, hmodule, htyped, -⟩ := instance_spec hs hf
  have hsize := htyped.data
  rw [hmodule] at hsize
  unfold Context.data at h
  split at h
  · nomatch h
  next count hcount =>
  split at h
  · next hlt =>
    rw [hm.dataCount count hcount, ← hsize] at hlt
    exact ⟨i, _, hinstance, Array.getElem?_eq_getElem hlt⟩
  · nomatch h

end

/-! ### What an op leaves -/

/-- **What a plain op leaves on the stack**: cells of the types that it gives, on top of what was there and of locals
that have their types. -/
def Leaves (D : Domain) (lower : List Cell) (locals outs : List ValueType) (rest : List Cell) (s : Store σ)
    (stack : Stack) : Prop :=
  ∃ lcells cells, stack = .of (lower ++ lcells) (cells ++ rest) ∧
    List.Forall₂ (s.FitsIn D) locals lcells ∧ List.Forall₂ (s.FitsIn D) outs cells

section

variable {locals ins outs : List ValueType} {lower lcells icells rest : List Cell} {stack : Stack}

theorem leaves_none (hlocals : List.Forall₂ (s.FitsIn D) locals lcells) (h : s.Quiet s')
    (hstack : .of (lower ++ lcells) rest = stack) : Leaves D lower locals [] rest s' stack :=
  ⟨lcells, [], hstack.symm, hlocals.imp fun _ _ hc => hc.mono h.toExtends, .nil⟩

theorem sound_push (hs : s.TypedIn D) (hlocals : List.Forall₂ (s.FitsIn D) locals lcells) {type : ValueType}
    {c : Cell} (hc : s.FitsIn D type c) :
    Sound D (push c : Exec σ Unit) ⟨s, .of (lower ++ lcells) rest⟩ fun _ => Leaves D lower locals [type] rest :=
  .of_ok (push_of c) hs ⟨lcells, [c], rfl, hlocals, .cons hc .nil⟩

/-- Locals keep their types when one of them is set. -/
theorem fits_set {x : Nat} {type : ValueType} {c : Cell} (hlocals : List.Forall₂ (s.FitsIn D) locals lcells)
    (hx : locals[x]? = some type) (hc : s.FitsIn D type c) : List.Forall₂ (s.FitsIn D) locals (lcells.set x c) := by
  have hset := forall₂_set hlocals x hc
  obtain ⟨hlt, rfl⟩ := List.getElem?_eq_some_iff.mp hx
  rwa [List.set_getElem_self hlt] at hset

/-! ### The operands that an op takes -/

variable {a b c : ValueType}

theorem fits_one (h : List.Forall₂ (s.FitsIn D) [a] icells) : ∃ x, icells = [x] ∧ s.FitsIn D a x := by
  obtain ⟨x, _, hx, hrest, rfl⟩ := List.forall₂_cons_left_iff.mp h
  cases hrest
  exact ⟨x, rfl, hx⟩

theorem fits_two (h : List.Forall₂ (s.FitsIn D) [a, b] icells) :
    ∃ x y, icells = [x, y] ∧ s.FitsIn D a x ∧ s.FitsIn D b y := by
  obtain ⟨x, _, hx, hrest, rfl⟩ := List.forall₂_cons_left_iff.mp h
  obtain ⟨y, rfl, hy⟩ := fits_one hrest
  exact ⟨x, y, rfl, hx, hy⟩

theorem fits_three (h : List.Forall₂ (s.FitsIn D) [a, b, c] icells) :
    ∃ x y z, icells = [x, y, z] ∧ s.FitsIn D a x ∧ s.FitsIn D b y ∧ s.FitsIn D c z := by
  obtain ⟨x, _, hx, hrest, rfl⟩ := List.forall₂_cons_left_iff.mp h
  obtain ⟨y, z, rfl, hyz⟩ := fits_two hrest
  exact ⟨x, y, z, rfl, hx, hyz⟩

end

end Exec

/-! ### The ops one by one -/

namespace PlainOp

open Exec

variable {locals ins outs : List ValueType} {lower lcells icells rest : List Cell} {type : FuncType}
  {r : Running σ}

/-- The op of an instruction does what it should, if the stack has what it takes. -/
def Works (D : Domain) (features : Features) (f : Scope) (s : Store σ) (locals : List ValueType)
    (lower lcells : List Cell) (rest : List Cell) (i : Instruction) (op : PlainOp) : Prop :=
  ∀ {type : FuncType} {icells : List Cell}, (f.module.context features).signature locals i = .ok type →
    List.Forall₂ (s.FitsIn D) type.params.reverse icells →
    Sound D (op.exec f) ⟨s, .of (lower ++ lcells) (icells ++ rest)⟩
      fun _ => Leaves D lower locals type.results.reverse rest

section

variable (hs : s.TypedIn D) (hf : f.Hosted D s) (hlocals : List.Forall₂ (s.FitsIn D) locals lcells)

include hs hf hlocals

theorem works_tableGet (x : Nat) :
    Works D features f s locals lower lcells rest (.tableGet x) (.tableGet x) := by
  intro type icells h hins
  obtain ⟨t, ht, h⟩ := bind_eq_ok.mp h
  cases pure_eq_ok.mp h
  obtain ⟨n, rfl, -⟩ := fits_one hins
  obtain ⟨addr, tab, haddr, htab, hD, rfl⟩ := tableAddr_of_element hs hf ht
  refine .bind_of_ok (haddr _) <| .bind_of_ok (popNat_of n) <| .bind_of_ok (known_of htab _) ?_
  refine sound_orTrap hs fun c hc => sound_push hs hlocals ?_
  unfold Table.get at hc
  split at hc <;> cases hc
  next hc => exact fits_table hs hD htab c (Array.mem_of_getElem? hc)

theorem works_tableSet (x : Nat) :
    Works D features f s locals lower lcells rest (.tableSet x) (.tableSet x) := by
  intro type icells h hins
  obtain ⟨t, ht, h⟩ := bind_eq_ok.mp h
  cases pure_eq_ok.mp h
  obtain ⟨c, n, rfl, hc, -⟩ := fits_two hins
  obtain ⟨addr, tab, haddr, htab, hD, rfl⟩ := tableAddr_of_element hs hf ht
  refine .bind_of_ok (haddr _) <| .bind_of_ok (pop_of c) <| .bind_of_ok (popNat_of n) ?_
  exact (sound_onTable hs hD htab (Table.keeps_set _ _) (Table.keepsAll_set _ hc)).mono
    fun _ _ _ _ ⟨hq, h⟩ => leaves_none hlocals hq h

theorem works_tableSize (x : Nat) :
    Works D features f s locals lower lcells rest (.tableSize x) (.tableSize x) := by
  intro type icells h hins
  obtain ⟨t, ht, h⟩ := bind_eq_ok.mp h
  cases pure_eq_ok.mp h
  cases hins
  obtain ⟨addr, tab, haddr, htab, -⟩ := tableAddr_of_element hs hf ht
  refine .bind_of_ok (haddr _) <| .bind_of_ok (known_of htab _) ?_
  exact sound_push hs hlocals (Store.fitsIn_i32 _)

theorem works_tableGrow (x : Nat) :
    Works D features f s locals lower lcells rest (.tableGrow x) (.tableGrow x) := by
  intro type icells h hins
  obtain ⟨t, ht, h⟩ := bind_eq_ok.mp h
  cases pure_eq_ok.mp h
  obtain ⟨n, c, rfl, -, hc⟩ := fits_two hins
  obtain ⟨addr, tab, haddr, htab, hD, rfl⟩ := tableAddr_of_element hs hf ht
  refine .bind_of_ok (haddr _) <| .bind_of_ok (popNat_of n) <| .bind_of_ok (pop_of c) ?_
  refine .bind (sound_onTable hs hD htab (Table.keeps_grow _ _) (Table.keepsAll_grow _ hc)) ?_
  rintro old s' _ hs' ⟨hq, rfl⟩
  exact sound_push hs' (hlocals.imp fun _ _ hc => hc.mono hq.toExtends) (Store.fitsIn_i32 _)

theorem works_tableFill (x : Nat) :
    Works D features f s locals lower lcells rest (.tableFill x) (.tableFill x) := by
  intro type icells h hins
  obtain ⟨t, ht, h⟩ := bind_eq_ok.mp h
  cases pure_eq_ok.mp h
  obtain ⟨n, c, start, rfl, -, hc, -⟩ := fits_three hins
  obtain ⟨addr, tab, haddr, htab, hD, rfl⟩ := tableAddr_of_element hs hf ht
  refine .bind_of_ok (haddr _) <| .bind_of_ok (popNat_of n) <| .bind_of_ok (pop_of c) <|
    .bind_of_ok (popNat_of start) ?_
  exact (sound_onTable hs hD htab (Table.keeps_fill _ _ _) (Table.keepsAll_fill _ hc _)).mono
    fun _ _ _ _ ⟨hq, h⟩ => leaves_none hlocals hq h

theorem works_tableCopy (target source : Nat) :
    Works D features f s locals lower lcells rest (.tableCopy target source) (.tableCopy target source) := by
  intro type icells h hins
  obtain ⟨t, ht, h⟩ := bind_eq_ok.mp h
  obtain ⟨u, hu, h⟩ := bind_eq_ok.mp h
  split at h
  · next htu =>
    cases pure_eq_ok.mp h
    obtain ⟨n, start, dest, rfl, -⟩ := fits_three hins
    obtain ⟨addr, tab, haddr, htab, hD, htype⟩ := tableAddr_of_element hs hf ht
    obtain ⟨addr', tab', haddr', htab', hD', htype'⟩ := tableAddr_of_element hs hf hu
    refine .bind_of_ok (haddr _) <| .bind_of_ok (haddr' _) <| .bind_of_ok (popNat_of n) <|
      .bind_of_ok (popNat_of start) <| .bind_of_ok (popNat_of dest) ?_
    split
    · exact (sound_onTable hs hD htab (Table.keeps_copyWithin _ _ _) (Table.keepsAll_copyWithin _ _ _)).mono
        fun _ _ _ _ ⟨hq, h⟩ => leaves_none hlocals hq h
    · refine .bind_of_ok (known_of htab' _) ?_
      refine sound_orTrap hs fun items hitems => ?_
      have hall : ∀ c ∈ items, s.FitsIn D (.ref tab.element) c := by
        unfold Table.slice at hitems
        split at hitems <;> cases hitems
        rw [htype, htu, ← htype']
        exact fun c hc => fits_table hs hD' htab' c (mem_of_mem_extract hc)
      exact (sound_onTable hs hD htab (Table.keeps_init _ _ _ _) (Table.keepsAll_init _ hall _ _)).mono
        fun _ _ _ _ ⟨hq, h⟩ => leaves_none hlocals hq h
  · nomatch h

theorem works_tableInit (element table : Nat) :
    Works D features f s locals lower lcells rest (.tableInit element table) (.tableInit element table) := by
  intro type icells h hins
  obtain ⟨t, ht, h⟩ := bind_eq_ok.mp h
  obtain ⟨e, he, h⟩ := bind_eq_ok.mp h
  split at h
  · next hte =>
    cases pure_eq_ok.mp h
    obtain ⟨n, start, dest, rfl, -⟩ := fits_three hins
    obtain ⟨addr, tab, haddr, htab, hD, htype⟩ := tableAddr_of_element hs hf ht
    obtain ⟨i, items, hinstance, hitems, hall⟩ := element_of hs hf he
    rw [← hte, ← htype] at hall
    refine .bind_of_ok (haddr _) <| .bind_of_ok (hinstance _) <| .bind_of_ok (known_of hitems _) <|
      .bind_of_ok (popNat_of n) <| .bind_of_ok (popNat_of start) <| .bind_of_ok (popNat_of dest) ?_
    exact (sound_onTable hs hD htab (Table.keeps_init _ _ _ _) (Table.keepsAll_init _ hall _ _)).mono
      fun _ _ _ _ ⟨hq, h⟩ => leaves_none hlocals hq h
  · nomatch h

theorem works_load (op : LoadOp) (arg : MemArg) :
    Works D features f s locals lower lcells rest (.load op arg) (.load op arg.offset) := by
  intro type icells h hins
  obtain ⟨limits, hmemory, h⟩ := bind_eq_ok.mp h
  obtain ⟨⟨⟩, -, h⟩ := bind_eq_ok.mp h
  cases pure_eq_ok.mp h
  obtain ⟨n, rfl, -⟩ := fits_one hins
  obtain ⟨m, hm⟩ := memoryOf_of hs hf hmemory
  refine .bind_of_ok (popNat_of n) <| .bind_of_ok (hm _) ?_
  exact sound_orTrap hs fun c hc => sound_push hs hlocals (op.fitsIn_extend hc)

theorem works_store (op : StoreOp) (arg : MemArg) :
    Works D features f s locals lower lcells rest (.store op arg) (.store op arg.offset) := by
  intro type icells h hins
  obtain ⟨limits, hmemory, h⟩ := bind_eq_ok.mp h
  obtain ⟨⟨⟩, -, h⟩ := bind_eq_ok.mp h
  cases pure_eq_ok.mp h
  obtain ⟨c, n, rfl, -⟩ := fits_two hins
  obtain ⟨addr, m, haddr, hm⟩ := memoryAddr_of hs hf hmemory
  refine .bind_of_ok (pop_of c) <| .bind_of_ok (popNat_of n) ?_
  exact (sound_onMemory hs (haddr _) hm (Memory.keeps_store _ _ _)).mono
    fun _ _ _ _ ⟨hq, h⟩ => leaves_none hlocals hq h

theorem works_memorySize : Works D features f s locals lower lcells rest .memorySize .memorySize := by
  intro type icells h hins
  obtain ⟨limits, hmemory, h⟩ := bind_eq_ok.mp h
  cases pure_eq_ok.mp h
  cases hins
  obtain ⟨m, hm⟩ := memoryOf_of hs hf hmemory
  refine .bind_of_ok (hm _) ?_
  exact sound_push hs hlocals (Store.fitsIn_i32 _)

theorem works_memoryGrow : Works D features f s locals lower lcells rest .memoryGrow .memoryGrow := by
  intro type icells h hins
  obtain ⟨limits, hmemory, h⟩ := bind_eq_ok.mp h
  cases pure_eq_ok.mp h
  obtain ⟨n, rfl, -⟩ := fits_one hins
  obtain ⟨addr, m, haddr, hm⟩ := memoryAddr_of hs hf hmemory
  refine .bind_of_ok (popNat_of n) ?_
  refine .bind (sound_onMemory hs (haddr _) hm (Memory.keeps_grow? _)) ?_
  rintro old s' _ hs' ⟨hq, rfl⟩
  exact sound_push hs' (hlocals.imp fun _ _ hc => hc.mono hq.toExtends) (Store.fitsIn_i32 _)

theorem works_memoryInit (hm : f.module.Checked features) (x : Nat) :
    Works D features f s locals lower lcells rest (.memoryInit x) (.memoryInit x) := by
  intro type icells h hins
  obtain ⟨limits, hmemory, h⟩ := bind_eq_ok.mp h
  obtain ⟨⟨⟩, hdata, h⟩ := bind_eq_ok.mp h
  cases pure_eq_ok.mp h
  obtain ⟨n, start, dest, rfl, -⟩ := fits_three hins
  obtain ⟨addr, m, haddr, hmem⟩ := memoryAddr_of hs hf hmemory
  obtain ⟨i, segment, hinstance, hsegment⟩ := data_of hs hf hm hdata
  refine .bind_of_ok (hinstance _) <| .bind_of_ok (known_of hsegment _) <| .bind_of_ok (popNat_of n) <|
    .bind_of_ok (popNat_of start) <| .bind_of_ok (popNat_of dest) ?_
  exact (sound_onMemory hs (haddr _) hmem (Memory.keeps_init _ _ _ _)).mono
    fun _ _ _ _ ⟨hq, h⟩ => leaves_none hlocals hq h

theorem works_memoryCopy : Works D features f s locals lower lcells rest .memoryCopy .memoryCopy := by
  intro type icells h hins
  obtain ⟨limits, hmemory, h⟩ := bind_eq_ok.mp h
  cases pure_eq_ok.mp h
  obtain ⟨n, start, dest, rfl, -⟩ := fits_three hins
  obtain ⟨addr, m, haddr, hm⟩ := memoryAddr_of hs hf hmemory
  refine .bind_of_ok (popNat_of n) <| .bind_of_ok (popNat_of start) <| .bind_of_ok (popNat_of dest) ?_
  exact (sound_onMemory hs (haddr _) hm (Memory.keeps_copy _ _ _)).mono
    fun _ _ _ _ ⟨hq, h⟩ => leaves_none hlocals hq h

theorem works_memoryFill : Works D features f s locals lower lcells rest .memoryFill .memoryFill := by
  intro type icells h hins
  obtain ⟨limits, hmemory, h⟩ := bind_eq_ok.mp h
  cases pure_eq_ok.mp h
  obtain ⟨n, byte, start, rfl, -⟩ := fits_three hins
  obtain ⟨addr, m, haddr, hm⟩ := memoryAddr_of hs hf hmemory
  refine .bind_of_ok (popNat_of n) <| .bind_of_ok (popNat_of byte) <| .bind_of_ok (popNat_of start) ?_
  exact (sound_onMemory hs (haddr _) hm (Memory.keeps_fill _ _ _)).mono
    fun _ _ _ _ ⟨hq, h⟩ => leaves_none hlocals hq h

theorem works_globalGet (x : Nat) :
    Works D features f s locals lower lcells rest (.globalGet x) (.globalGet x) := by
  intro type icells h hins
  obtain ⟨t, ht, h⟩ := bind_eq_ok.mp h
  cases pure_eq_ok.mp h
  cases hins
  obtain ⟨addr, g, haddr, hg, hfits, rfl⟩ := globalAddr_of hs hf ht
  refine .bind_of_ok (haddr _) <| .of_get <| .bind_of_ok (known_of hg _) ?_
  exact sound_push hs hlocals hfits

theorem works_globalSet (x : Nat) :
    Works D features f s locals lower lcells rest (.globalSet x) (.globalSet x) := by
  intro type icells h hins
  obtain ⟨t, ht, h⟩ := bind_eq_ok.mp h
  split at h
  · cases pure_eq_ok.mp h
    obtain ⟨c, rfl, hc⟩ := fits_one hins
    obtain ⟨addr, g, haddr, hg, -, rfl⟩ := globalAddr_of hs hf ht
    refine .bind_of_ok (haddr _) <| .bind_of_ok (pop_of c) <| .of_get <| .bind_of_ok (known_of hg _) ?_
    refine .of_ok rfl (Store.typedIn_setGlobalCell hs fun g' hg' => ?_)
      (leaves_none hlocals (Store.quiet_setGlobalCell addr c s) rfl)
    rwa [Option.some.inj (hg'.symm.trans hg)]
  · nomatch h

theorem works_refFunc (x : Nat) :
    Works D features f s locals lower lcells rest (.refFunc x) (.refFunc x) := by
  intro type icells h hins
  obtain ⟨t, ht, h⟩ := bind_eq_ok.mp h
  split at h
  · cases pure_eq_ok.mp h
    cases hins
    obtain ⟨addr, e, haddr, he, hD, -⟩ := funcAddr_of hs hf ht
    refine .bind_of_ok (haddr _) <| sound_push hs hlocals ?_
    exact ⟨.inr ⟨addr, (Array.getElem?_eq_some_iff.mp he).1, rfl⟩, Domain.admits_func (hs.confined.narrow addr hD)⟩
  · nomatch h

end

section

variable (hs : s.TypedIn D) (hbase : lower.length = f.base) (hlocals : List.Forall₂ (s.FitsIn D) locals lcells)

include hs hlocals

theorem works_numeric (op : NumericOp) :
    Works D features f s locals lower lcells rest (.numeric op) (.numeric op) := by
  intro type icells h hins
  cases pure_eq_ok.mp h
  have hpush {x : Except TrapCode Cell} (hx : ∀ c, x = .ok c → s.FitsIn D op.result c) :
      Sound D (orTrap x >>= push : Exec σ Unit) ⟨s, .of (lower ++ lcells) rest⟩
        fun _ => Leaves D lower locals [op.result] rest :=
    sound_orTrap hs fun c hc => sound_push hs hlocals (hx c hc)
  unfold PlainOp.exec
  dsimp only
  rcases op.params_cases with ⟨hunary, a, hparams⟩ | ⟨hbinary, a, b, hparams⟩
  · rw [hparams] at hins
    obtain ⟨c, rfl, hc⟩ := fits_one hins
    rw [if_pos hunary]
    exact .bind_of_ok (pop_of c) <| hpush fun _ => op.fitsIn_eval (hparams ▸ rfl) hc
  · rw [hparams] at hins
    obtain ⟨right, left, rfl, -, hleft⟩ := fits_two hins
    rw [hbinary]
    exact .bind_of_ok (pop_of right) <| .bind_of_ok (pop_of left) <|
      hpush fun _ => op.fitsIn_eval (hparams ▸ rfl) hleft

include hbase

theorem works_localGet (x : Nat) :
    Works D features f s locals lower lcells rest (.localGet x) (.localGet x) := by
  intro type icells h hins
  obtain ⟨t, ht, h⟩ := bind_eq_ok.mp h
  cases pure_eq_ok.mp h
  cases hins
  obtain ⟨c, hc, hfits⟩ := forall₂_getElem? hlocals (Context.lookUp_eq_ok.mp ht)
  have hget : (Stack.of (lower ++ lcells) rest).get (f.base + x) = c := Stack.get_of (by
    rw [← hbase, List.getElem?_append_right (Nat.le_add_right _ _), Nat.add_sub_cancel_left]
    exact hc)
  refine .of_get ?_
  change Sound D (push ((Stack.of (lower ++ lcells) rest).get (f.base + x))) _ _
  rw [hget]
  exact sound_push hs hlocals hfits

omit hs in
/-- Setting a local. -/
theorem set_local {x : Nat} {t : ValueType} (ht : locals[x]? = some t) (c : Cell) (ops : List Cell) :
    (Stack.of (lower ++ lcells) ops).set (f.base + x) c = .of (lower ++ lcells.set x c) ops := by
  obtain ⟨_, hx, -⟩ := forall₂_getElem? hlocals ht
  have hlt := (List.getElem?_eq_some_iff.mp hx).1
  rw [Stack.set_of (by rw [List.length_append]; omega), ← hbase,
    List.set_append_right _ _ (Nat.le_add_right _ _), Nat.add_sub_cancel_left]

theorem works_localSet (x : Nat) :
    Works D features f s locals lower lcells rest (.localSet x) (.localSet x) := by
  intro type icells h hins
  obtain ⟨t, ht, h⟩ := bind_eq_ok.mp h
  cases pure_eq_ok.mp h
  obtain ⟨c, rfl, hc⟩ := fits_one hins
  have ht := Context.lookUp_eq_ok.mp ht
  refine .bind_of_ok (pop_of c) <| .of_ok rfl hs ⟨lcells.set x c, [], ?_, fits_set hlocals ht hc, .nil⟩
  exact set_local hbase hlocals ht c rest

theorem works_localTee (x : Nat) :
    Works D features f s locals lower lcells rest (.localTee x) (.localTee x) := by
  intro type icells h hins
  obtain ⟨t, ht, h⟩ := bind_eq_ok.mp h
  cases pure_eq_ok.mp h
  obtain ⟨c, rfl, hc⟩ := fits_one hins
  have ht := Context.lookUp_eq_ok.mp ht
  refine .of_ok rfl hs ⟨lcells.set x c, [c], ?_, fits_set hlocals ht hc, .cons hc .nil⟩
  change (Stack.of (lower ++ lcells) (c :: rest)).set (f.base + x) (Stack.of _ (c :: rest)).top = _
  rw [Stack.top_of]
  exact set_local hbase hlocals ht c (c :: rest)

end

/-- Two numbers or references and a condition become one of the two. -/
theorem select_sound {a : ValueType} (hs : s.TypedIn D) (hlocals : List.Forall₂ (s.FitsIn D) locals lcells)
    (hins : List.Forall₂ (s.FitsIn D) [.i32, a, a] icells) :
    Sound D (select.exec f) ⟨s, .of (lower ++ lcells) (icells ++ rest)⟩ fun _ => Leaves D lower locals [a] rest := by
  obtain ⟨condition, second, first, rfl, -, hsecond, hfirst⟩ := fits_three hins
  refine .bind_of_ok (popNat_of condition) <| .bind_of_ok (pop_of second) <| .bind_of_ok (pop_of first) ?_
  refine sound_push hs hlocals ?_
  split
  · exact hfirst
  · exact hsecond

theorem const_sound {v : Value} (hs : s.TypedIn D) (hlocals : List.Forall₂ (s.FitsIn D) locals lcells)
    (hv : s.FitsIn D v.type v.toCell) : Sound D ((const v.toCell).exec f) ⟨s, .of (lower ++ lcells) rest⟩
      fun _ => Leaves D lower locals [v.type] rest :=
  sound_push hs hlocals hv

/-- The ops of the instructions that have a signature. -/
theorem works {i : Instruction} {op : PlainOp} (hop : i.plainOp? = some op) (hdrop : i ≠ .drop)
    (hselect : i ≠ .select) (hnull : i ≠ .refIsNull) (hm : f.module.Checked features) (hs : s.TypedIn D)
    (hf : f.Hosted D s) (hbase : lower.length = f.base) (hlocals : List.Forall₂ (s.FitsIn D) locals lcells) :
    Works D features f s locals lower lcells rest i op := by
  cases i with
  | drop => exact absurd rfl hdrop
  | select => exact absurd rfl hselect
  | refIsNull => exact absurd rfl hnull
  | unreachable | nop | block | loop | if_ | else_ | end_ | br | brIf | brTable | return_ | call
  | callIndirect => nomatch hop
  | selectTyped t =>
    cases hop
    intro type icells h hins
    cases pure_eq_ok.mp h
    exact select_sound hs hlocals hins
  | localGet x =>
    cases hop
    exact works_localGet hs hbase hlocals x
  | localSet x =>
    cases hop
    exact works_localSet hs hbase hlocals x
  | localTee x =>
    cases hop
    exact works_localTee hs hbase hlocals x
  | globalGet x =>
    cases hop
    exact works_globalGet hs hf hlocals x
  | globalSet x =>
    cases hop
    exact works_globalSet hs hf hlocals x
  | tableGet x =>
    cases hop
    exact works_tableGet hs hf hlocals x
  | tableSet x =>
    cases hop
    exact works_tableSet hs hf hlocals x
  | tableInit e t =>
    cases hop
    exact works_tableInit hs hf hlocals e t
  | elemDrop x =>
    cases hop
    intro type icells h hins
    obtain ⟨_, -, h⟩ := bind_eq_ok.mp h
    cases pure_eq_ok.mp h
    cases hins
    exact .of_ok rfl (Store.typedIn_dropElement hs _ _) (leaves_none hlocals (Store.quiet_dropElement _ _ s) rfl)
  | tableCopy t u =>
    cases hop
    exact works_tableCopy hs hf hlocals t u
  | tableGrow x =>
    cases hop
    exact works_tableGrow hs hf hlocals x
  | tableSize x =>
    cases hop
    exact works_tableSize hs hf hlocals x
  | tableFill x =>
    cases hop
    exact works_tableFill hs hf hlocals x
  | load op arg =>
    cases hop
    exact works_load hs hf hlocals op arg
  | store op arg =>
    cases hop
    exact works_store hs hf hlocals op arg
  | memorySize =>
    cases hop
    exact works_memorySize hs hf hlocals
  | memoryGrow =>
    cases hop
    exact works_memoryGrow hs hf hlocals
  | memoryInit x =>
    cases hop
    exact works_memoryInit hs hf hlocals hm x
  | dataDrop x =>
    cases hop
    intro type icells h hins
    obtain ⟨_, -, h⟩ := bind_eq_ok.mp h
    cases pure_eq_ok.mp h
    cases hins
    exact .of_ok rfl (Store.typedIn_dropData hs _ _) (leaves_none hlocals (Store.quiet_dropData _ _ s) rfl)
  | memoryCopy =>
    cases hop
    exact works_memoryCopy hs hf hlocals
  | memoryFill =>
    cases hop
    exact works_memoryFill hs hf hlocals
  | i32Const w | i64Const w | f32Const w | f64Const w =>
    cases hop
    intro type icells h hins
    cases pure_eq_ok.mp h
    cases hins
    exact const_sound hs hlocals ⟨Store.fits_toCell rfl, trivial⟩
  | refNull t =>
    cases hop
    intro type icells h hins
    cases pure_eq_ok.mp h
    cases hins
    exact const_sound hs hlocals (Store.fitsIn_zero _)
  | refFunc x =>
    cases hop
    exact works_refFunc hs hf hlocals x
  | numeric op =>
    cases hop
    exact works_numeric hs hlocals op

/-- **A plain op of a checked instruction does what it should**. -/
theorem exec_sound {i : Instruction} {op : PlainOp} (hop : i.plainOp? = some op)
    (huses : i.Uses (f.module.context features) locals ins outs) (hm : f.module.Checked features)
    (hs : s.TypedIn D) (hf : f.Hosted D s) (hbase : lower.length = f.base)
    (hlocals : List.Forall₂ (s.FitsIn D) locals lcells) (hins : List.Forall₂ (s.FitsIn D) ins icells) :
    Sound D (op.exec f) ⟨s, .of (lower ++ lcells) (icells ++ rest)⟩ fun _ => Leaves D lower locals outs rest := by
  cases huses with
  | drop a =>
    cases hop
    obtain ⟨c, rfl, -⟩ := fits_one hins
    exact .bind_of_ok (pop_of c) <| .of_ok rfl hs (leaves_none hlocals (refl_of _ s) rfl)
  | select a =>
    cases hop
    exact select_sound hs hlocals hins
  | refIsNull t =>
    cases hop
    obtain ⟨c, rfl, -⟩ := fits_one hins
    exact .bind_of_ok (pop_of c) <| sound_push hs hlocals (Store.fitsIn_i32 _)
  | signature hdrop hselect hnull hsignature =>
    exact works hop hdrop hselect hnull hm hs hf hbase hlocals hsignature hins

end PlainOp

end WasmEngine
