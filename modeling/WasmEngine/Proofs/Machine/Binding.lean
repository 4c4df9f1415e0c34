import WasmEngine.Proofs.Machine.Reached

/-!
# Functions and their instances

A function of a module runs in an instance, which it refers to by address. The reference is right if there is
such an instance, if it is one of the function's own module, and if it has the function at its index
(`Store.BoundAt`). It is set before the instance exists, and an instantiation that fails in between leaves
functions behind whose instance never comes: the next instance gets their address, whatever module it is of.

That is the only way to go wrong. What was bound right stays so, what was bound wrong stays so too, and all
functions of a store are bound right exactly if no instantiation on the way stranded functions
(`Machine.Reached.bound_iff_stranded`): if none that accepted its imports found a table or a memory of a module with
functions too large to be made.
-/

namespace WasmEngine

/-- An instantiation that leaves functions without an instance behind: one whose imports are accepted, of a module
that has functions, and a table or a memory that is too large. -/
def Event.Strands {σ : Type} : Event σ → Prop
  | .instantiation s m entities => s.Accepts m entities ∧ m.Oversized s.config ∧ m.code ≠ #[]
  | .startFailure _ => False

namespace Store

variable {σ : Type} {s s' : Store σ} {f : WasmFunc} {addr : Nat}

/-- **The function at an address is bound** to an instance of its module, which has it at its index. -/
def BoundAt (s : Store σ) (addr : Nat) (f : WasmFunc) : Prop :=
  ∃ i, s.instances[f.instance_]? = some i ∧ i.module = f.module ∧ i.funcs[f.index]? = some addr

/-- **All functions of a store are bound.** -/
def Bound (s : Store σ) : Prop := ∀ addr f, s.funcs[addr]? = some (.wasm f) → s.BoundAt addr f

theorem BoundAt.mono (h : Extends s s') (hf : s.BoundAt addr f) : s'.BoundAt addr f := by
  obtain ⟨i, hi, hmodule, hfunc⟩ := hf
  obtain ⟨i', hi', hsame⟩ := h.instances _ i hi
  exact ⟨i', hi', hsame.module.trans hmodule, by rwa [hsame.funcs]⟩

/-- A function that is bound to an instance that there was before was so then. -/
theorem BoundAt.of_extends (h : Extends s s') (hlt : f.instance_ < s.instances.size)
    (hf : s'.BoundAt addr f) : s.BoundAt addr f := by
  obtain ⟨i', hi', hmodule, hfunc⟩ := hf
  have hi := Array.getElem?_eq_getElem hlt
  obtain ⟨j, hj, hsame⟩ := h.instances _ _ hi
  obtain rfl := Option.some.inj (hi'.symm.trans hj)
  exact ⟨_, hi, hsame.module.symm.trans hmodule, by rwa [← hsame.funcs]⟩

/-- Without new instances and new functions of modules, nothing changes about who is bound. -/
theorem bound_congr (h : Extends s s') (hinstances : s'.instances.size = s.instances.size)
    (hfuncs : ∀ (addr : Nat) (f : WasmFunc),
      s'.funcs[addr]? = some (.wasm f) ↔ s.funcs[addr]? = some (.wasm f)) :
    s'.Bound ↔ s.Bound := by
  constructor <;> intro hb addr f hf
  · have hf' := hb addr f ((hfuncs addr f).mpr hf)
    refine hf'.of_extends h ?_
    obtain ⟨i, hi, -⟩ := hf'
    exact hinstances ▸ (Array.getElem?_eq_some_iff.mp hi).1
  · exact (hb addr f ((hfuncs addr f).mp hf)).mono h

theorem Quiet.bound_iff (h : Quiet s s') : s'.Bound ↔ s.Bound :=
  bound_congr h.toExtends h.instances_size fun _ _ => by rw [h.funcs_eq]

theorem bound_new (id : Nat) (config : Config) (state : σ) : (Store.new id config state).Bound := by
  intro addr f hf
  change (#[] : Array (FuncEntity σ))[addr]? = _ at hf
  simp at hf

/-- Host functions are not bound to anything. -/
theorem bound_define (h : HostFunc σ) :
    Bound { s with funcs := s.funcs.push (.host h) } ↔ s.Bound := by
  refine bound_congr { refl_of Extends s with funcs := .push (fun _ => rfl) _ } rfl fun addr f => ?_
  change (s.funcs.push (.host h))[addr]? = _ ↔ _
  rw [Array.getElem?_push]
  split
  · next he =>
    subst he
    simp
  · rfl

theorem bound_release (place : Nat) : (s.release place).Bound ↔ s.Bound :=
  bound_congr (extends_release place s) rfl fun _ _ => .rfl

/-! ### Instantiation -/

section

variable {m : Module} {entities : List Extern} {i : ModuleInstance} {s₁ s₂ : Store σ} {place : Nat}

/-- What a module adds to the functions of a store: its own ones, in order. -/
theorem getElem?_append_ownFuncs (h : s'.funcs = s.funcs ++ m.ownFuncs place)
    (hf : s'.funcs[addr]? = some (.wasm f)) :
    s.funcs[addr]? = some (.wasm f) ∨
      ∃ k < m.code.size, addr = s.funcs.size + k ∧ f = m.ownFunc place k := by
  rw [h, Array.getElem?_append] at hf
  split at hf
  · exact .inl hf
  · have hlt := (Array.getElem?_eq_some_iff.mp hf).1
    rw [size_ownFuncs] at hlt
    rw [getElem?_ownFuncs hlt] at hf
    cases hf
    exact .inr ⟨_, hlt, by omega, rfl⟩

/-- Without an instance, the functions of a module are not bound. -/
theorem not_bound_of_stranded (hfuncs : s'.funcs = s.funcs ++ m.ownFuncs s.instances.size)
    (hinstances : s'.instances = s.instances) (hcode : m.code ≠ #[]) : ¬s'.Bound := by
  intro hb
  have hpos : 0 < m.code.size := Array.size_pos_iff.mpr hcode
  have hf : s'.funcs[s.funcs.size + 0]? = some (.wasm (m.ownFunc s.instances.size 0)) := by
    rw [hfuncs, Array.getElem?_append_right (Nat.le_add_right _ _), Nat.add_sub_cancel_left]
    exact getElem?_ownFuncs hpos
  obtain ⟨i, hi, -⟩ := hb _ _ hf
  have hlt := (Array.getElem?_eq_some_iff.mp hi).1
  rw [hinstances] at hlt
  exact Nat.lt_irrefl _ hlt

/-- Where an instance has the functions of its module: behind those that are imported. -/
theorem Made.getElem?_funcs (h : Made m entities place s s₁ i)
    (haccepts : s.checkImports m entities = .ok ()) {index addr : Nat}
    (hindex : m.importedCount .func ≤ index) :
    i.funcs[index]? = some addr ↔ index < m.importedCount .func + m.code.size ∧
      addr = s.funcs.size + (index - m.importedCount .func) := by
  have hcount : (Extern.funcAddrs entities).length = m.importedCount .func := by
    rw [m.importedCount_func, (imported_funcs (checkImports_eq_ok haccepts)).length_eq]
  rw [← Array.getElem?_toList, h.funcs_of, List.getElem?_append_right (hcount ▸ hindex), hcount,
    List.getElem?_eq_some_iff]
  simp only [List.length_range', List.getElem_range', Nat.one_mul]
  exact ⟨fun ⟨hlt, he⟩ => ⟨by omega, he.symm⟩, fun ⟨hlt, he⟩ => ⟨by omega, he.symm⟩⟩

/-- **An instance that was made has its functions**, and no others are bound to it. -/
theorem Made.bound_iff (hs : s.Orderly) (h : Made m entities s.instances.size s s₁ i)
    (haccepts : s.checkImports m entities = .ok ()) : (s₁.addInstance i).Bound ↔ s.Bound := by
  have hext : Extends s (s₁.addInstance i) := trans_of Extends h.toExtends (extends_addInstance s₁ i)
  have hinstances : (s₁.addInstance i).instances.size = s.instances.size + 1 := by
    change (s₁.instances.push i).size = _
    rw [Array.size_push, h.instances_eq]
  constructor <;> intro hb addr f hf
  · obtain ⟨_, hf', rfl⟩ := hext.funcs addr _ hf
    have hbound := hb addr f hf'
    refine hbound.of_extends hext (Nat.lt_of_le_of_ne ?_ fun he => ?_)
    · obtain ⟨j, hj, -⟩ := hbound
      have := (Array.getElem?_eq_some_iff.mp hj).1
      omega
    · -- the new instance has only new functions at indices like those of `f`
      obtain ⟨j, hj, hmodule, hfunc⟩ := hbound
      obtain rfl : i = j := Option.some.inj (h.instance.symm.trans (he ▸ hj))
      have hown := (hs.declared f (Array.mem_of_getElem? hf)).own
      rw [← hmodule, h.module] at hown
      obtain ⟨-, rfl⟩ := (h.getElem?_funcs haccepts hown).mp hfunc
      have hlt := (Array.getElem?_eq_some_iff.mp hf).1
      omega
  · rcases getElem?_append_ownFuncs h.funcs_eq hf with hf | ⟨k, hk, rfl, rfl⟩
    · exact (hb addr f hf).mono hext
    · refine ⟨i, h.instance, h.module, (h.getElem?_funcs haccepts (Nat.le_add_right _ _)).mpr ?_⟩
      exact ⟨Nat.add_lt_add_left hk _, by rw [Nat.add_sub_cancel_left]⟩

theorem bound_instantiate (hs : s.Orderly) (hv : m.Valid) (entities : List Extern) :
    (endState (instantiate m entities s)).Bound ↔
      s.Bound ∧ ¬(Event.instantiation s m entities).Strands := by
  have h := instantiate_cases hv entities hs.fresh
  generalize instantiate m entities s = r at h
  cases h with
  | refused hrefused hquiet _ =>
    rw [and_iff_left fun hstrands => hrefused hstrands.1]
    exact hquiet.bound_iff
  | stranded haccepts hbig hext hfuncs hinstances _ _ =>
    by_cases hcode : m.code = #[]
    · rw [and_iff_left fun hstrands => hstrands.2.2 hcode]
      refine bound_congr hext (congrArg Array.size hinstances) fun _ _ => ?_
      have hnone : (m.ownFuncs s.instances.size : Array (FuncEntity σ)) = #[] :=
        Array.size_eq_zero_iff.mp (size_ownFuncs.trans (congrArg Array.size hcode))
      rw [endState, hfuncs, hnone, Array.append_empty]
    · exact iff_of_false (not_bound_of_stranded hfuncs hinstances hcode)
        fun hb => hb.2 ⟨haccepts, hbig, hcode⟩
  | failed haccepts hfits hmade hquiet _ =>
    rw [and_iff_left fun hstrands => hfits hstrands.2.1]
    exact (bound_release _).trans (hquiet.bound_iff.trans (hmade.bound_iff hs haccepts.1))
  | made haccepts hfits hmade hquiet _ _ _ =>
    rw [and_iff_left fun hstrands => hfits hstrands.2.1]
    exact hquiet.bound_iff.trans (hmade.bound_iff hs haccepts.1)

end

/-- **What a step does to the binding of functions**: nothing, unless it strands functions. -/
theorem Moves.bound_iff {event : Option (Event σ)} (hs : s.Orderly) (h : s.Moves event s') :
    s'.Bound ↔ s.Bound ∧ ∀ e ∈ event, ¬e.Strands := by
  cases h with
  | quiet h => simpa using h.bound_iff
  | define => simpa using bound_define _
  | instantiate hv h => simpa using h.bound_iff.trans (bound_instantiate hs hv _)
  | release _ => simpa [Event.Strands] using bound_release _

end Store

namespace Machine.Reached

variable {σ : Type} {m : Machine σ} {log : List (Event σ)}

/-- **All functions of a store are bound exactly if no instantiation on the way stranded functions.** -/
theorem bound_iff_stranded (h : Reached m log) : m.store.Bound ↔ ∀ e ∈ log, ¬e.Strands := by
  refine h.store_induction (P := fun s log => s.Bound ↔ ∀ e ∈ log, ¬e.Strands) ?_ ?_
  · intro id config state
    exact iff_of_true (Store.bound_new id config state) fun _ he => absurd he List.not_mem_nil
  · intro s s' event log hs ih hmoves
    rw [hmoves.bound_iff hs, ih]
    cases event <;> simp [and_comm]

/-- As long as no functions were stranded, all are bound. -/
theorem bound (h : Reached m log) (hstrands : ∀ e ∈ log, ¬e.Strands) : m.store.Bound := by
  refine h.store_induction (P := fun s log => (∀ e ∈ log, ¬e.Strands) → s.Bound) ?_ ?_ hstrands
  · exact fun id config state _ => Store.bound_new id config state
  · intro s s' event log hs ih hmoves hlog
    obtain ⟨hevent, hlog⟩ := List.forall_mem_append.mp hlog
    exact (hmoves.bound_iff hs).mpr ⟨ih hlog, fun e he => hevent e (Option.mem_toList.mpr he)⟩

end Machine.Reached

/-- A module of one function, which gives the value of a global, and a table of 10000001 elements. -/
def Module.towering : Module :=
  (Module.ofBytes ⟨#[0, 97, 115, 109, 1, 0, 0, 0, 1, 5, 1, 96, 0, 1, 127, 3, 2, 1, 0, 4, 7, 1, 112, 0, 129, 173,
    226, 4, 6, 6, 1, 127, 0, 65, 1, 11, 10, 6, 1, 4, 0, 35, 0, 11]⟩ .all {}).toOption.get (by decide +kernel)

/-- The machine behind an attempt to instantiate that module in an empty store. -/
def Machine.toppled : Machine Unit :=
  Machine.step ⟨.new 0 {} (), .host none ⟨[], []⟩ (.instantiate .towering [] fun _ => .return_ []), []⟩

theorem Machine.not_bound_toppled :
    Machine.Reached toppled [.instantiation (.new 0 {} ()) .towering []] ∧ ¬toppled.store.Bound := by
  have hreached : Machine.Reached toppled [.instantiation (.new 0 {} ()) .towering []] :=
    .step (.program (.empty 0 {} ()) ⟨Module.valid_get _, fun _ => trivial⟩)
  refine ⟨hreached, fun hb => hreached.bound_iff_stranded.mp hb _ (List.mem_singleton_self _) ?_⟩
  have himports : Module.towering.imports = [] :=
    List.eq_nil_of_length_eq_zero (by decide +kernel)
  refine ⟨⟨?_, fun a ha => absurd ha List.not_mem_nil⟩, .inl ?_, ?_⟩
  · simp [Store.checkImports, himports]
    rfl
  · exact of_decide_eq_true (by decide +kernel)
  · exact fun h => absurd (congrArg Array.size h) (by decide +kernel)

end WasmEngine
