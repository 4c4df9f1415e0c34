import WasmEngine.Proofs.Machine.Frames
import WasmEngine.Proofs.Store.Locality

/-!
# Code stays in its part of the store

What an op reads and writes, it finds through the addresses that the instance of its function has. So code whose
instance belongs to a domain does the same in any two stores that are alike in the domain, and nothing to what is
outside (`Exec.Local`).

This needs no typing, but for one op. An indirect call looks up the function that a reference in a table leads to, and
that is one of the domain only because the table is one of functions: so it is for frames that are ready that code is
known to stay in its part of the store (`Frame.Ready.exec_local`).
-/

namespace WasmEngine

variable {σ α β : Type} {D : Domain} {s₀ s : Store σ}

/-- **Two states of running code are twins** if their stores are and they have the same stack. -/
structure Running.Twins (D : Domain) (s₀ : Store σ) (r r' : Running σ) : Prop where
  store : Store.Twins D s₀ r.store r'.store
  stack : r'.stack = r.stack

namespace Exec

/-- **A computation is local to a domain** if it does the same in states that are twins, which it leaves twins. So it
neither depends on what is outside of the domain nor changes it. -/
def Local (D : Domain) (s₀ : Store σ) (act : Exec σ α) (ok : α → Prop := fun _ => True) : Prop :=
  ∀ r r', Running.Twins D s₀ r r' → Agree (Running.Twins D s₀) (fun a b => b = a ∧ ok a) (act r) (act r')

namespace Local

variable {act act' : Exec σ α} {ok : α → Prop} {ok' : β → Prop}

theorem pure {a : α} (h : ok a) : Local D s₀ (Pure.pure a) ok := fun _ _ htwins => .ok ⟨rfl, h⟩ htwins

theorem throw (e : Error) : Local D s₀ (throw e) ok := fun _ _ htwins => .error htwins

theorem bind {k : α → Exec σ β} (h : Local D s₀ act ok) (hk : ∀ a, ok a → Local D s₀ (k a) ok') :
    Local D s₀ (act >>= k) ok' := fun r r' htwins =>
  (h r r' htwins).bind fun a _ s s' _ ⟨hsame, ha⟩ htwins => by
    cases hsame
    exact hk a ha s s' htwins

theorem ite {c : Prop} [Decidable c] (h : Local D s₀ act ok) (h' : Local D s₀ act' ok) :
    Local D s₀ (if c then act else act') ok := by
  by_cases hc : c <;> simp only [hc, ↓reduceIte] <;> assumption

theorem modify {f : Running σ → Running σ} (h : ∀ r r', Running.Twins D s₀ r r' → Running.Twins D s₀ (f r) (f r')) :
    Local D s₀ (modify f : Exec σ Unit) := fun r r' htwins => .ok ⟨rfl, trivial⟩ (h r r' htwins)

/-- Reading something that twins have in common. -/
theorem read {γ : Type} (look : Running σ → γ) {k : γ → Exec σ β}
    (h : ∀ r r', Running.Twins D s₀ r r' → look r' = look r) (hk : ∀ c, Local D s₀ (k c) ok') :
    Local D s₀ (MonadState.get >>= fun r => k (look r)) ok' := fun r r' htwins => by
  change Agree _ _ (k (look r) r) (k (look r') r')
  rw [h r r' htwins]
  exact hk _ r r' htwins

end Local

/-! ### Parts of ops -/

theorem local_changeStack (change : Stack → Stack) : Local D s₀ (changeStack change) :=
  .modify fun _ _ h => ⟨h.store, congrArg change h.stack⟩

theorem local_changeStore {change : Store σ → Store σ}
    (h : ∀ s t, Store.Twins D s₀ s t → Store.Twins D s₀ (change s) (change t)) : Local D s₀ (changeStore change) :=
  .modify fun _ _ htwins => ⟨h _ _ htwins.store, htwins.stack⟩

theorem local_pop : Local D s₀ (pop : Exec σ Cell) := fun _ _ h =>
  .ok ⟨congrArg Stack.top h.stack, trivial⟩ ⟨h.store, congrArg Stack.pop h.stack⟩

theorem local_popNat : Local D s₀ (popNat : Exec σ Nat) := local_pop.bind fun _ _ => .pure trivial

theorem local_push (c : Cell) : Local D s₀ (push c) := local_changeStack (·.push c)

theorem local_orTrap : ∀ r : Except TrapCode α, Local D s₀ (orTrap r)
  | .ok _ => .pure trivial
  | .error _ => .throw _

theorem local_known {entity : RuntimeEntity} {index : Nat} {ok : α → Prop} :
    ∀ {o : Option α}, (∀ a, o = some a → ok a) → Local D s₀ (known entity index o) ok
  | some a, h => .pure (h a rfl)
  | none, _ => .throw _

theorem local_onStore {act : StoreM σ α}
    (h : ∀ s t, Store.Twins D s₀ s t → Agree (Store.Twins D s₀) (fun a b => b = a) (act s) (act t)) :
    Local D s₀ (onStore act) := fun ⟨s, stack⟩ ⟨t, _⟩ ⟨hstore, hstack⟩ => by
  cases hstack
  have hagree := h s t hstore
  unfold onStore
  dsimp only
  generalize act s = x at hagree
  generalize act t = y at hagree
  cases hagree with
  | ok hsame htwins => exact .ok ⟨hsame, trivial⟩ ⟨htwins, rfl⟩
  | error htwins => exact .error ⟨htwins, rfl⟩

theorem local_onTable {addr : Nat} (hD : D.tables addr) (act : EStateM TrapCode Table α) :
    Local D s₀ (onTable addr act) := local_onStore fun _ _ h => h.onTable hD _ _ act

/-! ### What an instance of the domain has -/

section

variable {f : Scope} (hf : D.instances f.instance_)

include hf

theorem local_instanceOf : Local D s₀ (instanceOf f : Exec σ _) (·.Links D) := by
  intro r r' h
  have hsame := h.store.alike.instances _ hf
  have hknown : Local D s₀ (known .instance_ f.instance_ r.store.instances[f.instance_]?) (·.Links D) :=
    local_known fun i hi => h.store.links _ i hf hi
  change Agree _ _ _ (known .instance_ f.instance_ r'.store.instances[f.instance_]? r')
  rw [hsame]
  exact hknown r r' h

theorem local_funcAddr (x : Nat) : Local D s₀ (funcAddr f x : Exec σ Nat) D.funcs :=
  (local_instanceOf hf).bind fun _ hi => local_known fun a ha => hi.funcs a (Array.mem_of_getElem? ha)

theorem local_tableAddr (x : Nat) : Local D s₀ (tableAddr f x : Exec σ Nat) D.tables :=
  (local_instanceOf hf).bind fun _ hi => local_known fun a ha => hi.tables a (Array.mem_of_getElem? ha)

theorem local_globalAddr (x : Nat) : Local D s₀ (globalAddr f x : Exec σ Nat) D.globals :=
  (local_instanceOf hf).bind fun _ hi => local_known fun a ha => hi.globals a (Array.mem_of_getElem? ha)

theorem local_memoryAddr : Local D s₀ (memoryAddr f : Exec σ Nat) D.memories :=
  (local_instanceOf hf).bind fun _ hi => local_known fun a ha => hi.memories a (Array.mem_of_getElem? ha)

theorem local_memoryOf : Local D s₀ (memoryOf f : Exec σ Memory) :=
  (local_memoryAddr hf).bind fun addr ha =>
    .read (k := fun e => known .memory 0 e >>= fun e => Pure.pure e.memory) (·.store.memories[addr]?)
      (fun _ _ h => h.store.alike.memories addr ha) fun _ =>
        (local_known fun _ _ => trivial).bind fun _ _ => .pure trivial

theorem local_onMemory (act : EStateM TrapCode Memory α) : Local D s₀ (onMemory f act) :=
  (local_memoryAddr hf).bind fun _ ha => local_onStore fun _ _ h => h.onMemory ha _ _ act

end

theorem local_tableAt {addr : Nat} (hD : D.tables addr) : Local D s₀ (tableAt addr : Exec σ Table) :=
  .read (·.store.tables[addr]?) (fun _ _ h => h.store.alike.tables addr hD) fun _ => local_known fun _ _ => trivial

/-- The cell of a global. -/
theorem local_global {addr x : Nat} (hD : D.globals addr) {k : Global → Exec σ β} {ok : β → Prop}
    (hk : ∀ g, Local D s₀ (k g) ok) :
    Local D s₀ (MonadState.get >>= fun r => known .global x r.store.globals[addr]? >>= k) ok :=
  .read (k := fun g => known .global x g >>= k) (·.store.globals[addr]?)
    (fun _ _ h => h.store.alike.globals addr hD) fun _ => (local_known fun _ _ => trivial).bind fun g _ => hk g

end Exec

/-! ### Ops -/

section

open Exec

/-- **Plain ops are local** to the domain of their instance. -/
theorem PlainOp.local_exec {f : Scope} (hf : D.instances f.instance_) (op : PlainOp) :
    Local D s₀ (op.exec f : Exec σ Unit) := by
  cases op with
  | drop => exact local_pop.bind fun _ _ => .pure trivial
  | select =>
    exact local_popNat.bind fun _ _ => local_pop.bind fun _ _ => local_pop.bind fun _ _ => local_push _
  | localGet x => exact .read (·.stack.get (f.base + x)) (fun _ _ h => congrArg (Stack.get · _) h.stack) local_push
  | localSet x => exact local_pop.bind fun c _ => local_changeStack (·.set (f.base + x) c)
  | localTee x => exact local_changeStack fun s => s.set (f.base + x) s.top
  | globalGet x => exact (local_globalAddr hf x).bind fun _ ha => local_global ha fun g => local_push g.cell
  | globalSet x =>
    exact (local_globalAddr hf x).bind fun _ ha => local_pop.bind fun c _ => local_global ha fun _ =>
      local_changeStore fun _ _ h => h.setGlobalCell ha c
  | tableGet x =>
    exact (local_tableAddr hf x).bind fun _ ha => local_popNat.bind fun _ _ => (local_tableAt ha).bind fun _ _ =>
      (local_orTrap _).bind fun _ _ => local_push _
  | tableSet x =>
    exact (local_tableAddr hf x).bind fun _ ha => local_pop.bind fun _ _ => local_popNat.bind fun _ _ =>
      local_onTable ha _
  | tableSize x => exact (local_tableAddr hf x).bind fun _ ha => (local_tableAt ha).bind fun _ _ => local_push _
  | tableGrow x =>
    exact (local_tableAddr hf x).bind fun _ ha => local_popNat.bind fun _ _ => local_pop.bind fun _ _ =>
      (local_onTable ha _).bind fun _ _ => local_push _
  | tableFill x =>
    exact (local_tableAddr hf x).bind fun _ ha => local_popNat.bind fun _ _ => local_pop.bind fun _ _ =>
      local_popNat.bind fun _ _ => local_onTable ha _
  | tableCopy target source =>
    exact (local_tableAddr hf _).bind fun _ ha => (local_tableAddr hf _).bind fun _ ha' =>
      local_popNat.bind fun _ _ => local_popNat.bind fun _ _ => local_popNat.bind fun _ _ =>
      .ite (local_onTable ha _) <|
        (local_tableAt ha').bind fun _ _ => (local_orTrap _).bind fun _ _ => local_onTable ha _
  | tableInit element table =>
    exact (local_tableAddr hf _).bind fun _ ha => (local_instanceOf hf).bind fun _ _ =>
      (local_known fun _ _ => trivial).bind fun _ _ => local_popNat.bind fun _ _ => local_popNat.bind fun _ _ =>
      local_popNat.bind fun _ _ => local_onTable ha _
  | elemDrop x => exact local_changeStore fun _ _ h => h.dropElement hf x
  | load op offset =>
    exact local_popNat.bind fun _ _ => (local_memoryOf hf).bind fun _ _ => (local_orTrap _).bind fun _ _ =>
      local_push _
  | store op offset => exact local_pop.bind fun _ _ => local_popNat.bind fun _ _ => local_onMemory hf _
  | memorySize => exact (local_memoryOf hf).bind fun _ _ => local_push _
  | memoryGrow => exact local_popNat.bind fun _ _ => (local_onMemory hf _).bind fun _ _ => local_push _
  | memoryInit x =>
    exact (local_instanceOf hf).bind fun _ _ => (local_known fun _ _ => trivial).bind fun _ _ =>
      local_popNat.bind fun _ _ => local_popNat.bind fun _ _ => local_popNat.bind fun _ _ => local_onMemory hf _
  | dataDrop x => exact local_changeStore fun _ _ h => h.dropData hf x
  | memoryCopy | memoryFill =>
    exact local_popNat.bind fun _ _ => local_popNat.bind fun _ _ => local_popNat.bind fun _ _ => local_onMemory hf _
  | const c => exact local_push c
  | refIsNull => exact local_pop.bind fun _ _ => local_push _
  | refFunc x => exact (local_funcAddr hf x).bind fun _ _ => local_push _
  | numeric op =>
    exact .ite (local_pop.bind fun _ _ => (local_orTrap _).bind fun _ _ => local_push _) <|
      local_pop.bind fun _ _ => local_pop.bind fun _ _ => (local_orTrap _).bind fun _ _ => local_push _

namespace Exec

theorem local_branch (f : Frame) (t : BranchTarget) : Local D s₀ (branch f t : Exec σ Flow) := by
  refine (local_changeStack _).bind fun _ _ => ?_
  by_cases hback : t.pc ≤ f.pc <;> simp only [hback, ↓reduceIte]
  · exact (local_onStore fun _ _ h => h.pollInterrupt).bind fun _ _ => .pure trivial
  · exact .pure trivial

theorem local_leave (f : Scope) : Local D s₀ (leave f : Exec σ Unit) := by
  refine .modify fun r r' h => ⟨?_, ?_⟩
  · have halike := h.store.alike
    exact h.store.count halike.config halike.interrupted halike.fuel halike.depth _ _
  · dsimp only
    rw [h.stack]

end Exec

/-- **All ops are local** but indirect calls. -/
theorem Op.local_exec {f : Frame} (hf : D.instances f.instance_) (op : Op)
    (hcall : ∀ type table, op ≠ .callIndirect type table) : Local D s₀ (op.exec f : Exec σ Flow) := by
  cases op with
  | unreachable => exact .throw _
  | br t => exact local_branch f t
  | brIf t => exact local_popNat.bind fun _ _ => .ite (local_branch f t) (.pure trivial)
  | brUnless pc => exact local_popNat.bind fun _ _ => .ite (.pure trivial) (.pure trivial)
  | jump pc => exact .pure trivial
  | brTable targets default => exact local_popNat.bind fun _ _ => local_branch f _
  | ret => exact (local_leave _).bind fun _ _ => .pure trivial
  | call x => exact (local_funcAddr hf x).bind fun _ _ => .pure trivial
  | callIndirect type table => exact absurd rfl (hcall type table)
  | plain op => exact (op.local_exec hf).bind fun _ _ => .pure trivial

end

/-! ### Frames -/

/-- A computation does the same in two states. -/
abbrev Exec.Concur (D : Domain) (s₀ : Store σ) (act : Exec σ α) (r r' : Running σ) : Prop :=
  Agree (Running.Twins D s₀) (fun a b => b = a ∧ True) (act r) (act r')

open Exec

/-- **An indirect call is local**: a reference in a table of functions leads to a function of the domain. -/
theorem Exec.concur_indirectCallee {g : Scope} (hs : s.TypedIn D) (hg : g.Hosted D s) {type table : Nat}
    {tableType : TableType} {features : Features} (htable : (g.module.context features).table table = .ok tableType)
    (helement : tableType.element = .funcref) {below ops : List Cell} {index : Cell} {r' : Running σ}
    (h : Running.Twins D s₀ ⟨s, .of below (index :: ops)⟩ r') :
    Concur D s₀ (indirectCallee g type table) ⟨s, .of below (index :: ops)⟩ r' := by
  obtain ⟨addr, tab, haddr, htab, hD, htype⟩ := tableAddr_of hs hg htable
  refine (local_tableAddr hg.inside table _ _ h).bind fun _ _ r₁ r₁' hr ⟨hsame, _⟩ h₁ => ?_
  cases (haddr _).symm.trans hr
  cases hsame
  refine (local_popNat _ _ h₁).bind fun _ _ r₂ r₂' hr ⟨hsame, _⟩ h₂ => ?_
  cases (popNat_of index).symm.trans hr
  cases hsame
  refine (local_tableAt hD _ _ h₂).bind fun _ _ r₃ r₃' hr ⟨hsame, _⟩ h₃ => ?_
  cases (known_of htab _).symm.trans hr
  cases hsame
  cases hc : tab.get (index.setWidth 32).toNat with
  | error => exact Local.throw _ _ _ h₃
  | ok c =>
    dsimp only
    cases hcallee : c.toRef with
    | none => exact Local.throw _ _ _ h₃
    | some callee =>
      have hmem : c ∈ tab.cells := by
        unfold Table.get at hc
        split at hc <;> cases hc
        next hc => exact Array.mem_of_getElem? hc
      have hadmits := (fits_table hs hD htab c hmem).admits
      rw [htype, helement] at hadmits
      have hinside : D.funcs callee.toNat := hadmits callee hcallee
      refine (local_known fun _ _ => trivial).bind (fun expected _ => ?_) _ _ h₃
      refine .read (k := fun e => known .func callee.toNat e >>= fun entity =>
        if entity.type = expected then Pure.pure callee.toNat else trap .indirectCallTypeMismatch)
        (·.store.funcs[callee.toNat]?) (fun _ _ h => h.store.alike.funcs _ hinside) fun _ => ?_
      exact (local_known fun _ _ => trivial).bind fun _ _ => .ite (.pure trivial) (.throw _)

namespace Frame

variable {features : Features} {b : TypedBody} {f : Frame} {lower lcells cells : List Cell} {stack : Stack}
  {r' : Running σ}

/-- **The op of an instruction is local.** -/
theorem Stands.op_concurs {t t' : Typing} {x : TypedInstruction} {rest : List TypedInstruction} {pc : Nat}
    {starts : List (Option Nat)} {heads : List (List TypedInstruction)} (hs : s.TypedIn D)
    (hf : f.Stands D s features b lower ⟨t, x :: rest, pc, starts, heads⟩ x
      ⟨t', rest, pc + 1, x.instruction.startsAfter pc starts, x.instruction.headsAfter rest heads⟩ lcells cells)
    (hwidth : x.instruction.width = 1) (h : Running.Twins D s₀ ⟨s, .of (lower ++ lcells) cells⟩ r') :
    ∃ op ops, (TypedInstruction.lower pc starts (x :: rest)).1 = (x.offset, op) :: ops ∧
      Concur D s₀ (op.exec f) ⟨s, .of (lower ++ lcells) cells⟩ r' := by
  have hinside := hf.hosted.inside
  obtain ⟨offset, i, reshapes⟩ := x
  cases i with
  | nop | block | loop | end_ => nomatch hwidth
  | callIndirect type table =>
    refine ⟨_, _, rfl, ?_⟩
    obtain ⟨tableType, signature, htable, helement, -, htakes⟩ := Typing.step_callIndirect hf.step
    obtain ⟨operands, _, rest, rfl, hins, -⟩ := htakes.holds hf.live hf.operands
    obtain ⟨index, args, -, -, rfl⟩ := List.forall₂_cons_left_iff.mp hins
    rw [hf.context] at htable
    refine (concur_indirectCallee hs hf.hosted htable helement h).bind fun _ _ r₁ r₁' _ ⟨hsame, _⟩ h₁ => ?_
    cases hsame
    exact .ok ⟨rfl, trivial⟩ h₁
  | _ =>
    refine ⟨_, _, rfl, Op.local_exec hinside _ ?_ _ _ h⟩
    exact fun _ _ hop => nomatch hop

/-- The op that comes next is local. -/
theorem Poised.concurs {op : Op} (hs : s.TypedIn D) (hf : f.Poised D s features b lower lcells cells op)
    (h : Running.Twins D s₀ ⟨s, .of (lower ++ lcells) cells⟩ r') :
    Concur D s₀ (op.exec f) ⟨s, .of (lower ++ lcells) cells⟩ r' := by
  cases hf with
  | instruction hstand hwidth hop =>
    obtain ⟨op', ops', hop', hlocal⟩ := hstand.op_concurs hs hwidth h
    cases hop.symm.trans hop'
    exact hlocal
  | exit hlays => exact Op.local_exec hlays.hosted.inside .ret (fun _ _ hop => nomatch hop) _ _ h

/-- **A frame that is ready stays in its part of the store**, and does not depend on the rest. -/
theorem Ready.exec_concurs (hs : s.TypedIn D) (hf : f.Ready D s features b lower stack)
    (h : Running.Twins D s₀ ⟨s, stack⟩ r') : Concur D s₀ f.exec ⟨s, stack⟩ r' := by
  obtain ⟨lcells, cells, op, rfl, hop, hpoised⟩ := hf.poised
  obtain ⟨i, hi, hmodule, hinstance⟩ := instanceOf_of hpoised.hosted
  refine (local_instanceOf hpoised.hosted.inside _ _ h).bind fun _ _ r₁ r₁' hr _ h₁ => ?_
  cases (hinstance _).symm.trans hr
  rw [hop]
  -- the op is paid for, and then it runs
  refine (local_onStore (fun _ _ h => h.charge) _ _ h₁).bind fun _ _ r₂ r₂' hr _ h₂ => ?_
  obtain ⟨s', _⟩ := r₂
  obtain ⟨hs', hq, rfl⟩ := (sound_charge hs).ok_of hr
  exact (hpoised.mono hq.toExtends).concurs hs' h₂

end Frame

end WasmEngine
