import WasmEngine.Linker
import WasmEngine.Proofs.Keeps

/-!
# What running code fails with

Code that runs fails with traps, and with faults of the runtime where it finds nothing under an index. Such errors have
no stack trace yet: it is added by the invocation that ends with them. They are no link errors, which are for those who
link. And if they are traps, then they are none of those that come of calls. So of these three kinds (`Error.Foreign`)
code comes to none by itself (`Frame.never_exec`).

The host function that it calls may well meet a link error, say because it instantiates a module, but passes it on as a
trap. So an outcome that nobody but a host function hears of is never a link error either, and a machine that goes on
like this (`Machine.Insulated`) does so to its end.

None of this needs typing: it holds of all frames, in all stores.
-/

namespace WasmEngine

/-- **A computation never fails** with an error of a certain kind. -/
def Never {ε σ α : Type} (bad : ε → Prop) (act : EStateM ε σ α) : Prop :=
  ∀ s e s', act s = .error e s' → ¬bad e

namespace Never

variable {ε σ α β : Type} {bad : ε → Prop} {act act' : EStateM ε σ α}

theorem of_ok {f : σ → α × σ} (h : ∀ s, act s = .ok (f s).1 (f s).2) : Never bad act := by
  intro s e s' he
  rw [h] at he
  nomatch he

theorem pure (a : α) : Never bad (pure a : EStateM ε σ α) := of_ok (f := (a, ·)) fun _ => rfl

theorem get : Never bad (get : EStateM ε σ σ) := of_ok (f := fun s => (s, s)) fun _ => rfl

theorem modify (f : σ → σ) : Never bad (modify f : EStateM ε σ Unit) :=
  of_ok (f := fun s => ((), f s)) fun _ => rfl

theorem modifyGet (f : σ → α × σ) : Never bad (modifyGet f : EStateM ε σ α) := of_ok (f := f) fun _ => rfl

theorem throw {e : ε} (h : ¬bad e) : Never bad (throw e : EStateM ε σ α) := by
  intro s e' s' he
  cases he
  exact h

theorem ite {c : Prop} [Decidable c] (h : Never bad act) (h' : Never bad act') :
    Never bad (if c then act else act') := by
  split
  · exact h
  · exact h'

theorem bind {k : α → EStateM ε σ β} (h : Never bad act) (hk : ∀ a, Never bad (k a)) :
    Never bad (act >>= k) := by
  intro s e s' he
  change EStateM.bind act k s = _ at he
  unfold EStateM.bind at he
  cases ha : act s with
  | ok a s₁ =>
    rw [ha] at he
    exact hk a s₁ e s' he
  | error e₁ s₁ =>
    rw [ha] at he
    cases he
    exact h s _ _ ha

theorem map {f : α → β} (h : Never bad act) : Never bad (f <$> act) := by
  intro s e s' he
  change EStateM.map f act s = _ at he
  unfold EStateM.map at he
  cases ha : act s with
  | ok a s₁ =>
    rw [ha] at he
    nomatch he
  | error e₁ s₁ =>
    rw [ha] at he
    cases he
    exact h s _ _ ha

/-- Reading the state, and going on with it. -/
theorem getBind {k : σ → EStateM ε σ β} (hk : ∀ s, Never bad (k s)) : Never bad (MonadState.get >>= k) :=
  bind get hk

theorem mapM {f : α → EStateM ε σ β} : ∀ l : List α, (∀ a ∈ l, Never bad (f a)) → Never bad (l.mapM f)
  | [], _ => pure []
  | a :: l, h => by
    rw [List.mapM_cons]
    exact bind (h a List.mem_cons_self) fun _ =>
      bind (mapM l fun b hb => h b (List.mem_cons_of_mem _ hb)) fun _ => pure _

theorem forM {f : α → EStateM ε σ Unit} : ∀ l : List α, (∀ a ∈ l, Never bad (f a)) → Never bad (l.forM f)
  | [], _ => pure ()
  | a :: l, h => bind (h a List.mem_cons_self) fun _ =>
      forM l fun b hb => h b (List.mem_cons_of_mem _ hb)

/-- There may be no errors of the kind at all. -/
theorem of_forall (h : ∀ e, ¬bad e) : Never bad act := fun _ e _ _ => h e

theorem mono {bad' : ε → Prop} (h : Never bad act) (hbad : ∀ e, bad' e → bad e) : Never bad' act :=
  fun s e s' he hbad' => h s e s' he (hbad e hbad')

/-- What is known of the error if such a computation fails. -/
theorem yields {P : ε → σ → Prop} (h : Never bad act) (s : σ) :
    Yields act s (fun _ _ => True) (fun e s' => bad e → P e s') := by
  unfold Yields
  cases ha : act s with
  | ok => trivial
  | error e s' => exact fun he => absurd he (h s e s' ha)

end Never

/-- **The same, without a state.** -/
def Spares {ε α : Type} (bad : ε → Prop) (x : Except ε α) : Prop := ∀ e, x = .error e → ¬bad e

namespace Spares

variable {ε α β : Type} {bad : ε → Prop}

theorem ok (a : α) : Spares bad (.ok a) := fun _ h => nomatch h

theorem error {e : ε} (h : ¬bad e) : Spares (α := α) bad (.error e) := by
  rintro e' ⟨⟩
  exact h

theorem bind {x : Except ε α} {k : α → Except ε β} (hx : Spares bad x) (hk : ∀ a, Spares bad (k a)) :
    Spares bad (x >>= k) := by
  cases x with
  | error e => exact .error (hx e rfl)
  | ok a => exact hk a

theorem ite {c : Prop} [Decidable c] {x y : Except ε α} (hx : Spares bad x) (hy : Spares bad y) :
    Spares bad (if c then x else y) := by
  split
  · exact hx
  · exact hy

theorem forM {f : α → Except ε Unit} (hf : ∀ a, Spares bad (f a)) : ∀ l : List α, Spares bad (l.forM f)
  | [] => ok ()
  | a :: l => bind (hf a) fun _ => forM hf l

end Spares

/-! ### Kinds of errors -/

/-- The causes of traps that come of calls: there is no room for the function, or it is a host function that fails. -/
def TrapCode.ofCall : TrapCode → Bool
  | stackOverflow | hostError => true
  | _ => false

/-- An error of linking. -/
def Error.IsLink (e : Error) : Prop := e.category = .link

/-- An error that has a stack trace. -/
def Error.Traced : Error → Prop
  | .failure _ => False
  | .trap t _ => t.trace ≠ []

/-- A trap that comes of a call. -/
def Error.OfCall : Error → Prop
  | .failure _ => False
  | .trap t _ => t.code.ofCall = true

/-- **An error that code does not come to by itself**: one of linking, one of a call, or one that has a stack trace
already. -/
def Error.Foreign (e : Error) : Prop := e.IsLink ∨ e.Traced ∨ e.OfCall

namespace Error

variable {e : Error}

theorem not_isLink_of (h : ¬e.Foreign) : ¬e.IsLink := fun hlink => h (.inl hlink)

theorem not_traced_of (h : ¬e.Foreign) : ¬e.Traced := fun htraced => h (.inr (.inl htraced))

theorem not_ofCall_of (h : ¬e.Foreign) : ¬e.OfCall := fun hcall => h (.inr (.inr hcall))

theorem not_traced_ofFault (fault : Fault) : ¬(ofFault fault).Traced := nofun

theorem not_traced_ofCode (code : TrapCode) : ¬(ofCode code).Traced := fun h => h rfl

theorem not_traced_ofHostFailure (f : Failure) : ¬(ofHostFailure f).Traced := fun h => h rfl

/-- Of the traps, those of calls are foreign. -/
theorem ofCall_of_foreign {code : TrapCode} (h : (ofCode code).Foreign) : code.ofCall = true :=
  (h.resolve_left nofun).resolve_left (not_traced_ofCode code)

theorem not_foreign_ofCode {code : TrapCode} (h : ¬code.ofCall = true) : ¬(ofCode code).Foreign :=
  mt ofCall_of_foreign h

theorem not_foreign_runtime (fault : RuntimeFault) : ¬(ofFault (.runtime fault)).Foreign :=
  not_or.mpr ⟨nofun, not_or.mpr ⟨nofun, nofun⟩⟩

theorem not_foreign_resource (fault : ResourceFault) : ¬(ofFault (.resource fault)).Foreign :=
  not_or.mpr ⟨nofun, not_or.mpr ⟨nofun, nofun⟩⟩

/-- The frames of a trace do not make a trap anything else. -/
theorem isLink_addFrames {frames : List TraceFrame} : (e.addFrames frames).IsLink ↔ e.IsLink := by
  cases e <;> rfl

end Error

open Error

/-! ### Values, tables and memories -/

theorem spares_divide {w : Nat} (s : Signedness) (a b : BitVec w) : Spares (·.ofCall = true) (divide s a b) :=
  .ite (.error nofun) <| by
    cases s with
    | signed => exact .ite (.error nofun) (.ok _)
    | unsigned => exact .ok _

theorem spares_remainder {w : Nat} (s : Signedness) (a b : BitVec w) : Spares (·.ofCall = true) (remainder s a b) :=
  .ite (.error nofun) <| by cases s <;> exact .ok _

theorem IntBinary.spares_eval {w : Nat} (op : IntBinary) (a b : BitVec w) : Spares (·.ofCall = true) (op.eval a b) := by
  cases op with
  | div s => exact spares_divide s a b
  | rem s => exact spares_remainder s a b
  | shr s => cases s <;> exact .ok _
  | _ => exact .ok _

theorem FloatWidth.spares_truncate (source : FloatWidth) (target : IntWidth) (s : Signedness) (word : Nat) :
    Spares (·.ofCall = true) (source.truncate target s word) :=
  .ite (.error nofun) <| .ite (.error nofun) (.ok _)

/-- **Of numeric instructions, none traps for a call.** -/
theorem NumericOp.spares_eval (op : NumericOp) (a b : Cell) : Spares (·.ofCall = true) (op.eval a b) := by
  cases op with
  | intBinary w op => exact .bind (op.spares_eval _ _) fun _ => .ok _
  | truncate target source s => exact .bind (source.spares_truncate _ _ _) fun _ => .ok _
  | extend s => cases s <;> exact .ok _
  | _ => exact .ok _

theorem Table.never_changeIf (condition : Table → Bool) (change : Table → Table) :
    Never (·.ofCall = true) (changeIf condition change) := by
  intro t code t' h
  unfold changeIf at h
  split at h <;> cases h
  nofun

theorem Table.never_grow (delta : Nat) (c : Cell) : Never (·.ofCall = true) (grow delta c) := by
  intro t code t' h
  unfold grow at h
  dsimp only at h
  split at h <;> nomatch h

theorem Table.spares_get (t : Table) (index : Nat) : Spares (·.ofCall = true) (t.get index) := by
  unfold get
  split
  · exact .ok _
  · exact .error nofun

theorem Table.spares_slice (t : Table) (start length : Nat) : Spares (·.ofCall = true) (t.slice start length) :=
  .ite (.ok _) (.error nofun)

theorem Memory.never_changeIf (condition : Memory → Bool) (change : Memory → Memory) :
    Never (·.ofCall = true) (changeIf condition change) := by
  intro m code m' h
  unfold changeIf at h
  split at h <;> cases h
  nofun

theorem Memory.never_grow? (delta : Nat) : Never (·.ofCall = true) (grow? delta) := by
  intro m code m' h
  unfold grow? at h
  split at h <;> nomatch h

theorem Memory.spares_load (m : Memory) (start width : Nat) : Spares (·.ofCall = true) (m.load start width) :=
  .ite (.ok _) (.error nofun)

/-! ### Stores -/

namespace Store

variable {σ α ε : Type} {bad : Error → Prop}

/-- What is done to a memory fails with what it fails with, unless there is no memory. -/
theorem never_onMemory {addr : Nat} {missing : Error} {toError : ε → Error} {act : EStateM ε Memory α}
    (hmissing : ¬bad missing) (h : Never (fun e => bad (toError e)) act) :
    Never bad (onMemory addr missing toError act : StoreM σ α) := by
  intro s e s' he
  unfold onMemory at he
  dsimp only at he
  split at he
  · split at he
    · nomatch he
    · next hact =>
      cases he
      exact h _ _ _ hact
  · cases he
    exact hmissing

theorem never_onTable {addr : Nat} {missing : Error} {toError : ε → Error} {act : EStateM ε Table α}
    (hmissing : ¬bad missing) (h : Never (fun e => bad (toError e)) act) :
    Never bad (onTable addr missing toError act : StoreM σ α) := by
  intro s e s' he
  unfold onTable at he
  dsimp only at he
  split at he
  · split at he
    · nomatch he
    · next hact =>
      cases he
      exact h _ _ _ hact
  · cases he
    exact hmissing

/-- Traps that are none of calls are not foreign, wherever they come from. -/
theorem never_foreign_onMemory {addr : Nat} {fault : RuntimeFault} {act : EStateM TrapCode Memory α}
    (h : Never (·.ofCall = true) act) :
    Never Foreign (onMemory addr (.ofFault (.runtime fault)) .ofCode act : StoreM σ α) :=
  never_onMemory (not_foreign_runtime fault) (h.mono fun _ => ofCall_of_foreign)

theorem never_foreign_onTable {addr : Nat} {fault : RuntimeFault} {act : EStateM TrapCode Table α}
    (h : Never (·.ofCall = true) act) :
    Never Foreign (onTable addr (.ofFault (.runtime fault)) .ofCode act : StoreM σ α) :=
  never_onTable (not_foreign_runtime fault) (h.mono fun _ => ofCall_of_foreign)

theorem never_pollInterrupt : Never Foreign (pollInterrupt : StoreM σ Unit) := by
  intro s e s' he
  unfold pollInterrupt at he
  split at he
  · cases he
    exact not_foreign_ofCode nofun
  · nomatch he

theorem never_charge : Never Foreign (charge : StoreM σ Unit) := by
  intro s e s' he
  unfold charge at he
  dsimp only at he
  split at he
  · nomatch he
  · cases he
    exact not_foreign_ofCode nofun
  · nomatch he

end Store

/-! ### Ops -/

namespace Exec

variable {σ α : Type}

theorem never_onStore {act : StoreM σ α} (h : Never Foreign act) : Never Foreign (onStore act) := by
  intro ⟨store, stack⟩ e r he
  unfold onStore at he
  dsimp only at he
  cases ha : act store with
  | ok =>
    rw [ha] at he
    nomatch he
  | error =>
    rw [ha] at he
    cases he
    exact h _ _ _ ha

theorem never_pop : Never Foreign (pop : Exec σ Cell) := .modifyGet _

theorem never_popNat : Never Foreign (popNat : Exec σ Nat) := .bind never_pop fun _ => .pure _

theorem never_push (c : Cell) : Never Foreign (push c : Exec σ Unit) := .modify _

theorem never_changeStack (change : Stack → Stack) : Never Foreign (changeStack change : Exec σ Unit) :=
  .modify _

theorem never_changeStore (change : Store σ → Store σ) : Never Foreign (changeStore change) := .modify _

theorem never_trap {code : TrapCode} (h : ¬code.ofCall = true) : Never Foreign (trap code : Exec σ α) :=
  .throw (not_foreign_ofCode h)

theorem never_orTrap : ∀ {r : Except TrapCode α}, Spares (·.ofCall = true) r → Never Foreign (orTrap r : Exec σ α)
  | .ok a, _ => .pure a
  | .error code, h => never_trap (h code rfl)

theorem never_known {entity : RuntimeEntity} {index : Nat} :
    ∀ o : Option α, Never Foreign (known entity index o : Exec σ α)
  | some a => .pure a
  | none => .throw (not_foreign_runtime _)

theorem never_instanceOf (f : Scope) : Never Foreign (instanceOf f : Exec σ _) :=
  .getBind fun _ => never_known _

theorem never_funcAddr (f : Scope) (x : Nat) : Never Foreign (funcAddr f x : Exec σ _) :=
  .bind (never_instanceOf f) fun _ => never_known _

theorem never_tableAddr (f : Scope) (x : Nat) : Never Foreign (tableAddr f x : Exec σ _) :=
  .bind (never_instanceOf f) fun _ => never_known _

theorem never_globalAddr (f : Scope) (x : Nat) : Never Foreign (globalAddr f x : Exec σ _) :=
  .bind (never_instanceOf f) fun _ => never_known _

theorem never_memoryAddr (f : Scope) : Never Foreign (memoryAddr f : Exec σ _) :=
  .bind (never_instanceOf f) fun _ => never_known _

theorem never_tableAt (addr : Nat) : Never Foreign (tableAt addr : Exec σ _) :=
  .getBind fun _ => never_known _

theorem never_memoryOf (f : Scope) : Never Foreign (memoryOf f : Exec σ _) :=
  .bind (never_memoryAddr f) fun _ => .getBind fun _ => .map (never_known _)

theorem never_onTable (addr : Nat) {act : EStateM TrapCode Table α} (h : Never (·.ofCall = true) act) :
    Never Foreign (onTable addr act : Exec σ α) :=
  never_onStore (Store.never_foreign_onTable h)

theorem never_onMemory (f : Scope) {act : EStateM TrapCode Memory α} (h : Never (·.ofCall = true) act) :
    Never Foreign (onMemory f act : Exec σ α) :=
  .bind (never_memoryAddr f) fun _ => never_onStore (Store.never_foreign_onMemory h)

end Exec

section

variable {σ : Type}

open Exec

theorem PlainOp.never_exec (f : Scope) (op : PlainOp) : Never Foreign (op.exec f : Exec σ Unit) := by
  cases op with
  | drop => exact .bind never_pop fun _ => .pure _
  | select =>
    exact .bind never_popNat fun _ => .bind never_pop fun _ => .bind never_pop fun _ => never_push _
  | localGet x => exact .getBind fun _ => never_push _
  | localSet x => exact .bind never_pop fun _ => never_changeStack _
  | localTee x => exact never_changeStack fun stack => stack.set (f.base + x) stack.top
  | globalGet x =>
    exact .bind (never_globalAddr f x) fun _ => .getBind fun _ => .bind (never_known _) fun _ => never_push _
  | globalSet x =>
    exact .bind (never_globalAddr f x) fun _ => .bind never_pop fun _ => .getBind fun _ =>
      .bind (never_known _) fun _ => never_changeStore _
  | tableGet x =>
    exact .bind (never_tableAddr f x) fun _ => .bind never_popNat fun _ => .bind (never_tableAt _) fun _ =>
      .bind (never_orTrap (Table.spares_get _ _)) fun _ => never_push _
  | tableSet x =>
    exact .bind (never_tableAddr f x) fun _ => .bind never_pop fun _ => .bind never_popNat fun _ =>
      never_onTable _ (Table.never_changeIf _ _)
  | tableSize x =>
    exact .bind (never_tableAddr f x) fun _ => .bind (never_tableAt _) fun _ => never_push _
  | tableGrow x =>
    exact .bind (never_tableAddr f x) fun _ => .bind never_popNat fun _ => .bind never_pop fun _ =>
      .bind (never_onTable _ (Table.never_grow _ _)) fun _ => never_push _
  | tableFill x =>
    exact .bind (never_tableAddr f x) fun _ => .bind never_popNat fun _ => .bind never_pop fun _ =>
      .bind never_popNat fun _ => never_onTable _ (Table.never_changeIf _ _)
  | tableCopy target source =>
    exact .bind (never_tableAddr f _) fun _ => .bind (never_tableAddr f _) fun _ =>
      .bind never_popNat fun _ => .bind never_popNat fun _ => .bind never_popNat fun _ =>
      .ite (never_onTable _ (Table.never_changeIf _ _)) <| .bind (never_tableAt _) fun _ =>
      .bind (never_orTrap (Table.spares_slice _ _ _)) fun _ => never_onTable _ (Table.never_changeIf _ _)
  | tableInit element table =>
    exact .bind (never_tableAddr f _) fun _ => .bind (never_instanceOf f) fun _ =>
      .bind (never_known _) fun _ => .bind never_popNat fun _ => .bind never_popNat fun _ =>
      .bind never_popNat fun _ => never_onTable _ (Table.never_changeIf _ _)
  | elemDrop x => exact never_changeStore _
  | load op offset =>
    exact .bind never_popNat fun _ => .bind (never_memoryOf f) fun _ =>
      .bind (never_orTrap (Memory.spares_load _ _ _)) fun _ => never_push _
  | store op offset =>
    exact .bind never_pop fun _ => .bind never_popNat fun _ => never_onMemory f (Memory.never_changeIf _ _)
  | memorySize => exact .bind (never_memoryOf f) fun _ => never_push _
  | memoryGrow =>
    exact .bind never_popNat fun _ => .bind (never_onMemory f (Memory.never_grow? _)) fun _ => never_push _
  | memoryInit x =>
    exact .bind (never_instanceOf f) fun _ => .bind (never_known _) fun _ => .bind never_popNat fun _ =>
      .bind never_popNat fun _ => .bind never_popNat fun _ => never_onMemory f (Memory.never_changeIf _ _)
  | dataDrop x => exact never_changeStore _
  | memoryCopy =>
    exact .bind never_popNat fun _ => .bind never_popNat fun _ => .bind never_popNat fun _ =>
      never_onMemory f (Memory.never_changeIf _ _)
  | memoryFill =>
    exact .bind never_popNat fun _ => .bind never_popNat fun _ => .bind never_popNat fun _ =>
      never_onMemory f (Memory.never_changeIf _ _)
  | const c => exact never_push c
  | refIsNull => exact .bind never_pop fun _ => never_push _
  | refFunc x => exact .bind (never_funcAddr f x) fun _ => never_push _
  | numeric op =>
    exact .ite (.bind never_pop fun _ => .bind (never_orTrap (op.spares_eval _ _)) fun _ => never_push _) <|
      .bind never_pop fun _ => .bind never_pop fun _ => .bind (never_orTrap (op.spares_eval _ _)) fun _ => never_push _

theorem Exec.never_branch (f : Frame) (t : BranchTarget) : Never Foreign (branch f t : Exec σ Flow) :=
  .bind (never_changeStack _) fun _ => by
    dsimp only
    split
    · exact .bind (never_onStore Store.never_pollInterrupt) fun _ => .pure _
    · exact .bind (.pure _) fun _ => .pure _

theorem Exec.never_indirectCallee (f : Scope) (type table : Nat) :
    Never Foreign (indirectCallee f type table : Exec σ Nat) := by
  refine .bind (never_tableAddr f table) fun addr => .bind never_popNat fun index =>
    .bind (never_tableAt addr) fun t => ?_
  split
  · exact never_trap nofun
  · split
    · exact never_trap nofun
    · exact .bind (never_known _) fun _ => .getBind fun _ => .bind (never_known _) fun _ =>
        .ite (.pure _) (never_trap nofun)

theorem Op.never_exec (f : Frame) (op : Op) : Never Foreign (op.exec f : Exec σ Flow) := by
  cases op with
  | unreachable => exact never_trap nofun
  | br t => exact never_branch f t
  | brIf t => exact .bind never_popNat fun _ => .ite (never_branch f t) (.pure _)
  | brUnless pc => exact .bind never_popNat fun _ => .ite (.pure _) (.pure _)
  | jump pc => exact .pure _
  | brTable targets default => exact .bind never_popNat fun _ => never_branch f _
  | ret => exact .bind (.modify _) fun _ => .pure _
  | call x => exact .bind (never_funcAddr _ x) fun _ => .pure _
  | callIndirect type table => exact .bind (never_indirectCallee _ type table) fun _ => .pure _
  | plain op => exact .bind (op.never_exec _) fun _ => .pure _

/-- **Running code never fails with a link error**, nor with one that has a stack trace already. -/
theorem Frame.never_exec (f : Frame) : Never Foreign (f.exec : Exec σ Flow) := by
  refine .bind (never_instanceOf _) fun _ => ?_
  split
  · exact .throw (not_foreign_runtime _)
  · exact .bind (never_onStore Store.never_charge) fun _ => Op.never_exec f _

end

/-! ### Machines -/

/-- A host function passes its failures on as traps. -/
theorem FuncType.not_isLink_hostOutcome {t : FuncType} {outcome : Except Error (List Value)} {e : Error}
    (h : t.hostOutcome outcome = .error e) : ¬e.IsLink := by
  unfold FuncType.hostOutcome at h
  split at h
  · split at h
    · nomatch h
    · cases h
      nofun
  · cases h
    nofun
  · cases h
    nofun

theorem Invocation.never_enter {σ : Type} (inv : Invocation) (f : WasmFunc) :
    Never IsLink (inv.enter f : StoreM σ Invocation) := by
  intro s e s' he
  unfold Invocation.enter at he
  dsimp only at he
  split at he
  · cases he
    nofun
  split at he
  · cases he
    nofun
  split at he
  · cases he
    nofun
  split at he
  · cases he
    nofun
  · nomatch he

namespace Machine

variable {σ : Type}

/-- **No link error is on its way** to anybody but a host function. -/
def Insulated (m : Machine σ) : Prop :=
  ∀ e, m.control = .outcome (.error e) → e.IsLink →
    ∃ caller type next waiting, m.waiting = .host caller type next :: waiting

section

variable {s : Store σ} {e : Error} {waiting : List (Waiting σ)}

theorem insulated_error (h : ¬e.IsLink) : Insulated ⟨s, .outcome (.error e), waiting⟩ := by
  rintro e' he hlink
  cases he
  exact absurd hlink h

theorem insulated_values {values : List Value} : Insulated ⟨s, .outcome (.ok values), waiting⟩ :=
  fun _ h => nomatch Control.outcome.inj h

theorem insulated_guest {inv : Invocation} : Insulated ⟨s, .guest inv, waiting⟩ := fun _ h => nomatch h

theorem insulated_program {caller : Option Nat} {type : FuncType} {p : HostProgram σ} :
    Insulated ⟨s, .host caller type p, waiting⟩ := fun _ h => nomatch h

theorem insulated_host {control : Control σ} {caller : Option Nat} {type : FuncType}
    {next : Except Error (List Value) → HostProgram σ} :
    Insulated ⟨s, control, .host caller type next :: waiting⟩ :=
  fun _ _ _ => ⟨caller, type, next, waiting, rfl⟩

theorem insulated_fail (inv : Invocation) (h : ¬e.IsLink) : Insulated (fail s inv e waiting) :=
  insulated_error fun hlink => h (isLink_addFrames.mp hlink)

theorem insulated_callHost (s : Store σ) (inv : Invocation) (f : HostFunc σ) :
    Insulated (callHost s inv f waiting) := by
  unfold callHost
  dsimp only
  split
  · exact insulated_fail inv (not_isLink_of (not_foreign_runtime _))
  · exact insulated_program

theorem insulated_callFrom (s : Store σ) (inv : Invocation) (addr : Nat) :
    Insulated (callFrom s inv addr waiting) := by
  unfold callFrom
  split
  · next hp => exact insulated_fail inv (not_isLink_of (Store.never_pollInterrupt _ _ _ hp))
  · split
    · exact insulated_fail inv (not_isLink_of (not_foreign_runtime _))
    · next f _ =>
      split
      · exact insulated_guest
      · next he => exact insulated_fail inv (inv.never_enter f _ _ _ he)
    · exact insulated_callHost _ inv _

theorem insulated_invoke (s : Store σ) (addr : Nat) (args : List Value) :
    Insulated (invoke s addr args waiting) := by
  unfold invoke
  split
  · exact insulated_error (not_isLink_of (not_foreign_runtime _))
  · split
    · next hp => exact insulated_error (not_isLink_of (Store.never_pollInterrupt _ _ _ hp))
    · exact insulated_program
  · exact insulated_callFrom s _ addr

theorem insulated_stepGuest (s : Store σ) (inv : Invocation) : Insulated (stepGuest s inv waiting) := by
  obtain ⟨stack, frames, types⟩ := inv
  cases frames with
  | nil => exact insulated_values
  | cons f rest =>
    have hexec : Never Foreign (Activation.exec f : Exec σ (Transfer Frame)) := .map f.never_exec
    unfold stepGuest
    dsimp only
    split
    · next he => exact insulated_fail _ (not_isLink_of (hexec _ _ _ he))
    · split
      · exact insulated_guest
      · exact insulated_callFrom _ _ _
      · split
        · exact insulated_values
        · exact insulated_guest

/-- What a host function gives back may not belong to the store. -/
theorem pushResults_eq_error {values : List Value} {types : List ValueType} {stack : Stack}
    (h : pushResults s values types stack = .error e) : ∃ f, e = .ofHostFailure f := by
  induction values generalizing types stack with
  | nil => nomatch h
  | cons v values ih =>
    cases types with
    | nil => nomatch h
    | cons t types =>
      rw [pushResults, Store.toCell] at h
      split at h
      · next hc => exact ih h
      · cases h
        exact ⟨_, rfl⟩
      · next hno hc =>
        split at hc
        · cases hc
          exact absurd rfl (hno _)
        · split at hc
          · nomatch hc
          · cases hc
            exact absurd rfl (hno _)

end

/-- **A link error goes no further** than to the host function that hears of it. -/
theorem Insulated.step {m : Machine σ} (hm : m.Insulated) : m.step.Insulated := by
  obtain ⟨s, control, waiting⟩ := m
  cases control with
  | guest inv => exact insulated_stepGuest s inv
  | host caller type p =>
    cases p with
    | finish outcome =>
      rintro e he hlink
      exact absurd hlink (FuncType.not_isLink_hostOutcome (Control.outcome.inj he))
    | readMemory start length next =>
      unfold Machine.step stepHost
      dsimp only
      split <;> exact insulated_program
    | writeMemory start bytes next =>
      unfold Machine.step stepHost
      dsimp only
      split <;> exact insulated_program
    | call h args next =>
      unfold Machine.step stepHost call
      dsimp only
      split
      · exact insulated_host
      · exact insulated_invoke _ _ _
    | instantiate m entities next =>
      unfold Machine.step stepHost instantiate
      dsimp only
      split
      · exact insulated_host
      · exact insulated_host
      · exact insulated_invoke _ _ _
    | _ => exact insulated_program
  | outcome result =>
    cases waiting with
    | nil => exact hm
    | cons w waiting =>
      cases w with
      | host => exact insulated_program
      | guest inv type depth =>
        unfold Machine.step deliver
        dsimp only
        split
        · next e =>
          refine insulated_fail inv fun hlink => ?_
          obtain ⟨_, _, _, _, h⟩ := hm e rfl hlink
          nomatch h
        · split
          · next he =>
            obtain ⟨f, rfl⟩ := pushResults_eq_error he
            exact insulated_fail inv nofun
          · exact insulated_guest
      | start place =>
        cases result with
        | ok => exact insulated_values
        | error e =>
          refine insulated_error fun hlink => ?_
          obtain ⟨_, _, _, _, h⟩ := hm e rfl hlink
          nomatch h

theorem Insulated.run {m : Machine σ} (hm : m.Insulated) (n : Nat) : (m.run n).Insulated := by
  induction n generalizing m with
  | zero => exact hm
  | succ n ih =>
    unfold Machine.run
    split
    · exact hm
    · exact ih hm.step

/-- **The outcome of an insulated machine is no link error**, since nobody waits for it. -/
theorem Insulated.not_isLink_outcome {m : Machine σ} (hm : m.Insulated) {n : Nat} {e : Error}
    (h : (m.run n).outcome? = some (.error e)) : ¬e.IsLink := by
  have hrun := hm.run n
  revert h hrun
  generalize m.run n = m'
  obtain ⟨s, control, waiting⟩ := m'
  intro h hrun hlink
  cases control with
  | guest | host => nomatch h
  | outcome result =>
    cases waiting with
    | cons => nomatch h
    | nil =>
      obtain ⟨_, _, _, _, h'⟩ := hrun e (congrArg Control.outcome (Option.some.inj h)) hlink
      nomatch h'

end Machine

end WasmEngine
