import WasmEngine.Proofs.Agree
import WasmEngine.Proofs.Store.Domain

/-!
# What happens in a part of a store

Two stores are alike in a domain (`Store.Alike`) if what belongs to the domain is the same in both, and so is what all
code depends on: the configuration, the fuel, the interrupt flag and the depth. A store spares everything else
(`Store.Spares`) if it leaves what is outside of the domain as it was.

What is done in two stores that are alike, to an entity that belongs to the domain, has the same result in both and
leaves them alike, and spares everything else. `Store.Twins` is what stays so: the second store is like the first one,
and the first one spares what was outside at the start.
-/

namespace WasmEngine

namespace Store

variable {σ α : Type} {s₀ s s' t : Store σ} {D : Domain}

/-- **Two stores are alike in a domain.** -/
structure Alike (D : Domain) (s t : Store σ) : Prop where
  config : t.config = s.config
  fuel : t.fuel = s.fuel
  interrupted : t.interrupted = s.interrupted
  depth : t.depth = s.depth
  funcs : ∀ a : Nat, D.funcs a → t.funcs[a]? = s.funcs[a]?
  externs : ∀ a, D.externs a → (a < t.externs.size ↔ a < s.externs.size)
  tables : ∀ a : Nat, D.tables a → t.tables[a]? = s.tables[a]?
  memories : ∀ a : Nat, D.memories a → t.memories[a]? = s.memories[a]?
  globals : ∀ a : Nat, D.globals a → t.globals[a]? = s.globals[a]?
  instances : ∀ a : Nat, D.instances a → t.instances[a]? = s.instances[a]?

/-- **What is outside of a domain stays as it is**, and so do the functions. -/
structure Spares (D : Domain) (s s' : Store σ) : Prop where
  funcs : s'.funcs = s.funcs
  tables : ∀ a : Nat, ¬D.tables a → s'.tables[a]? = s.tables[a]?
  memories : ∀ a : Nat, ¬D.memories a → s'.memories[a]? = s.memories[a]?
  globals : ∀ a : Nat, ¬D.globals a → s'.globals[a]? = s.globals[a]?
  instances : ∀ a : Nat, ¬D.instances a → s'.instances[a]? = s.instances[a]?

theorem spares_refl (D : Domain) (s : Store σ) : Spares D s s where
  funcs := rfl
  tables _ _ := rfl
  memories _ _ := rfl
  globals _ _ := rfl
  instances _ _ := rfl

/-- **Two stores that are alike in a domain**, of which the first spares what there was outside at the start. The
instances in the domain go on having addresses of the domain only. -/
structure Twins (D : Domain) (s₀ s t : Store σ) : Prop where
  alike : Alike D s t
  spares : Spares D s₀ s
  links : ∀ a i, D.instances a → s.instances[a]? = some i → i.Links D

/-- References that are allowed belong to both stores, or to neither. -/
theorem Alike.owns (h : Alike D s t) {v : Value} (hv : D.Allows v) : t.owns v = s.owns v := by
  cases v with
  | ref type a => cases a with
    | none => cases type <;> rfl
    | some a => cases type with
      | funcref =>
        have hfuncs := h.funcs a.toNat hv
        have hlive : a.toNat < t.funcs.size ↔ a.toNat < s.funcs.size := by
          rw [← Nat.not_le, ← Nat.not_le, ← Array.getElem?_eq_none_iff, ← Array.getElem?_eq_none_iff, hfuncs]
        exact decide_eq_decide.mpr hlive
      | externref => exact decide_eq_decide.mpr (h.externs a.toNat hv)
  | _ => rfl

theorem Alike.toCell (h : Alike D s t) {v : Value} (hv : D.Allows v) (type : ValueType) :
    t.toCell v type = s.toCell v type := by
  rw [Store.toCell, Store.toCell, h.owns hv]

/-! ### Single changes -/

theorem getElem?_modify_congr {β : Type} {xs ys : Array β} {j : Nat} (h : ys[j]? = xs[j]?) (i : Nat) (f : β → β) :
    (ys.modify i f)[j]? = (xs.modify i f)[j]? := by
  rw [Array.getElem?_modify, Array.getElem?_modify, h]

/-- What is outside of a part is not what was modified in it. -/
theorem getElem?_modify_outside {β : Type} {xs : Array β} {P : Nat → Prop} {i j : Nat} (hi : P i) (hj : ¬P j)
    (f : β → β) : (xs.modify i f)[j]? = xs[j]? := by
  rw [Array.getElem?_modify, if_neg fun h : i = j => hj (h ▸ hi)]

namespace Twins

variable {addr : Nat}

/-- Counters do not matter, and neither do fuel, flag and depth as long as they are the same. -/
theorem count (h : Twins D s₀ s t) {config : Config} {flag flag' : Bool} {fuel fuel' : Option Nat} {depth depth' : Nat}
    (hconfig : config = s.config) (hflag : flag' = flag) (hfuel : fuel' = fuel) (hdepth : depth' = depth)
    (stats stats' : Stats) :
    Twins D s₀ { s with interrupted := flag, fuel, depth, stats }
      { t with config, interrupted := flag', fuel := fuel', depth := depth', stats := stats' } where
  alike := { h.alike with config := hconfig, fuel := hfuel, interrupted := hflag, depth := hdepth }
  spares := { h.spares with }
  links := h.links

theorem setMemory (h : Twins D s₀ s t) (hD : D.memories addr) (m : Memory) :
    Twins D s₀ (s.setMemory addr m) (t.setMemory addr m) where
  alike := { h.alike with memories := fun a ha => getElem?_modify_congr (h.alike.memories a ha) _ _ }
  spares := { h.spares with
    memories := fun a ha => (getElem?_modify_outside hD ha _).trans (h.spares.memories a ha) }
  links := h.links

theorem setTableAt (h : Twins D s₀ s t) (hD : D.tables addr) (table : Table) :
    Twins D s₀ (s.setTableAt addr table) (t.setTableAt addr table) where
  alike := { h.alike with tables := fun a ha => getElem?_modify_congr (h.alike.tables a ha) _ _ }
  spares := { h.spares with
    tables := fun a ha => (getElem?_modify_outside hD ha _).trans (h.spares.tables a ha) }
  links := h.links

theorem setGlobalCell (h : Twins D s₀ s t) (hD : D.globals addr) (c : Cell) :
    Twins D s₀ (s.setGlobalCell addr c) (t.setGlobalCell addr c) where
  alike := { h.alike with globals := fun a ha => getElem?_modify_congr (h.alike.globals a ha) _ _ }
  spares := { h.spares with
    globals := fun a ha => (getElem?_modify_outside hD ha _).trans (h.spares.globals a ha) }
  links := h.links

/-- An instance of the domain changes, but not the addresses that it has. -/
theorem modifyInstance (h : Twins D s₀ s t) (hD : D.instances addr) {change : ModuleInstance → ModuleInstance}
    (hchange : ∀ i : ModuleInstance, i.Links D → (change i).Links D) :
    Twins D s₀ (s.modifyInstance addr change) (t.modifyInstance addr change) where
  alike := { h.alike with instances := fun a ha => getElem?_modify_congr (h.alike.instances a ha) _ _ }
  spares := { h.spares with
    instances := fun a ha => (getElem?_modify_outside hD ha _).trans (h.spares.instances a ha) }
  links a i ha hi := by
    rcases getElem?_modify_cases hi with hi | ⟨j, rfl, hj, rfl⟩
    · exact h.links a i ha hi
    · exact hchange j (h.links _ j ha hj)

theorem dropElement (h : Twins D s₀ s t) (hD : D.instances addr) (x : Nat) :
    Twins D s₀ (s.dropElement addr x) (t.dropElement addr x) :=
  h.modifyInstance hD fun _ hi => ⟨hi.funcs, hi.tables, hi.memories, hi.globals⟩

theorem dropData (h : Twins D s₀ s t) (hD : D.instances addr) (x : Nat) :
    Twins D s₀ (s.dropData addr x) (t.dropData addr x) :=
  h.modifyInstance hD fun _ hi => ⟨hi.funcs, hi.tables, hi.memories, hi.globals⟩

/-! ### Computations -/

/-- **A memory of the domain** is worked on in the same way. -/
theorem onMemory {ε : Type} (h : Twins D s₀ s t) (hD : D.memories addr) (missing : Error) (toError : ε → Error)
    (act : EStateM ε Memory α) :
    Agree (Twins D s₀) (fun a b => b = a) (Store.onMemory addr missing toError act s)
      (Store.onMemory addr missing toError act t) := by
  have hsame := h.alike.memories addr hD
  cases hs : s.memories[addr]? with
  | none =>
    rw [onMemory_none hs, onMemory_none (hsame.trans hs)]
    exact .error h
  | some e =>
    rw [onMemory_some hs, onMemory_some (hsame.trans hs)]
    cases act e.memory with
    | ok a m => exact .ok rfl (h.setMemory hD m)
    | error x m => exact .error (h.setMemory hD m)

/-- **A table of the domain** is worked on in the same way. -/
theorem onTable {ε : Type} (h : Twins D s₀ s t) (hD : D.tables addr) (missing : Error) (toError : ε → Error)
    (act : EStateM ε Table α) :
    Agree (Twins D s₀) (fun a b => b = a) (Store.onTable addr missing toError act s)
      (Store.onTable addr missing toError act t) := by
  have hsame := h.alike.tables addr hD
  cases hs : s.tables[addr]? with
  | none =>
    rw [onTable_none hs, onTable_none (hsame.trans hs)]
    exact .error h
  | some table =>
    rw [onTable_some hs, onTable_some (hsame.trans hs)]
    cases act table with
    | ok a t' => exact .ok rfl (h.setTableAt hD t')
    | error x t' => exact .error (h.setTableAt hD t')

theorem pollInterrupt (h : Twins D s₀ s t) :
    Agree (Twins D s₀) (fun a b => b = a) (Store.pollInterrupt s) (Store.pollInterrupt t) := by
  unfold Store.pollInterrupt
  rw [h.alike.interrupted]
  split
  · exact .error (h.count h.alike.config rfl h.alike.fuel h.alike.depth _ _)
  · exact .ok rfl h

/-- **Both pay the same for an op.** -/
theorem charge (h : Twins D s₀ s t) :
    Agree (Twins D s₀) (fun a b => b = a) (Store.charge s) (Store.charge t) := by
  unfold Store.charge
  dsimp only
  rw [h.alike.fuel]
  cases s.fuel with
  | none => exact .ok rfl (h.count h.alike.config h.alike.interrupted rfl h.alike.depth _ _)
  | some n => cases n with
    | zero => exact .error (h.count h.alike.config h.alike.interrupted rfl h.alike.depth _ _)
    | succ n => exact .ok rfl (h.count h.alike.config h.alike.interrupted rfl h.alike.depth _ _)

end Twins

end Store

end WasmEngine
