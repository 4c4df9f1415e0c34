import WasmEngine.Proofs.Machine.Locality
import WasmEngine.Proofs.Machine.Soundness

/-!
# Calls stay in their part of the store

Code does the same in two stores that are alike in a domain, as long as what it calls belongs to the domain and host
functions are harmless there (`HostFunc.Harmless`): they return without touching the store, and give nothing away that
leads out of the domain. So two machines in which the same goes on, in stores that are alike, take the same steps
(`Machine.Twins.step`), and the first one leaves everything outside of the domain as it was.
-/

namespace WasmEngine

variable {σ : Type} {s₀ s t : Store σ} {D : Domain}

/-! ### Host functions -/

/-- An outcome refers to nothing outside. -/
def Domain.Grants (D : Domain) : Except Error (List Value) → Prop
  | .ok values => ∀ v ∈ values, D.Allows v
  | .error _ => True

/-- **A host function is harmless** in a domain if it does nothing but return, and gives no reference out of the domain
back as long as it is given none. -/
def HostFunc.Harmless (f : HostFunc σ) (D : Domain) : Prop :=
  ∀ args, (∀ v ∈ args, D.Allows v) → ∃ outcome, f.body args = .finish outcome ∧ D.Grants outcome

/-- **The host functions of a domain are harmless.** -/
def Store.Tame (D : Domain) (s : Store σ) : Prop :=
  ∀ (a : Nat) f, D.funcs a → s.funcs[a]? = some (.host f) → f.Harmless D

/-- What a host function gives back is checked, and stays what it was or becomes a trap. -/
theorem Domain.Grants.hostOutcome {outcome : Except Error (List Value)} (h : D.Grants outcome) (type : FuncType) :
    D.Grants (type.hostOutcome outcome) := by
  cases outcome with
  | error e => cases e <;> trivial
  | ok values =>
    unfold FuncType.hostOutcome
    dsimp only
    split
    · exact h
    · trivial

/-- Values that are read from cells of a domain. -/
theorem allows_zipWith {types : List ValueType} {cells : List Cell} (h : List.Forall₂ (s.FitsIn D) types cells) :
    ∀ v ∈ List.zipWith Value.ofCell types cells, D.Allows v := by
  induction h with
  | nil => exact fun _ hv => absurd hv List.not_mem_nil
  | cons hc _ ih => exact List.forall_mem_cons.mpr ⟨Domain.allows_ofCell hc.admits, ih⟩

/-- An invocation that has come to its end refers to nothing outside. -/
theorem Invocation.grants_values (inv : Invocation) {rcells : List Cell}
    (hr : List.Forall₂ (s.FitsIn D) inv.types.reverse rcells) (hstack : inv.stack = .of [] rcells) :
    D.Grants (.ok inv.values) := by
  unfold Invocation.values
  rw [hstack, Stack.toList_of, List.nil_append]
  refine allows_zipWith (s := s) ?_
  rw [← List.reverse_reverse inv.types]
  exact List.rel_reverse hr

/-! ### Machines -/

/-- **What goes on is tame**: a host function has nothing left to do but to return, and no outcome refers to anything
outside. -/
inductive Control.Tame (D : Domain) : Control σ → Prop
  | guest {inv : Invocation} : Tame D (.guest inv)
  | host {caller : Option Nat} {type : FuncType} {outcome : Except Error (List Value)} : D.Grants outcome →
    Tame D (.host caller type (.finish outcome))
  | outcome {result : Except Error (List Value)} : D.Grants result → Tame D (.outcome result)

/-- It is an invocation that waits. -/
inductive Waiting.Guest : Waiting σ → Prop
  | intro (inv : Invocation) (type : FuncType) (depth : Nat) : Guest (.guest inv type depth)

namespace Machine

/-- **Two machines are twins** if the same goes on in both, in stores that are alike in a domain. What goes on is
tame, and nobody waits but code. -/
structure Twins (D : Domain) (s₀ : Store σ) (m m' : Machine σ) : Prop where
  store : Store.Twins D s₀ m.store m'.store
  control : m'.control = m.control
  waiting : m'.waiting = m.waiting
  tame : m.control.Tame D
  guests : ∀ w ∈ m.waiting, w.Guest

section

variable {waiting : List (Waiting σ)} {inv : Invocation} (h : Store.Twins D s₀ s t) (hw : ∀ w ∈ waiting, w.Guest)

include h hw

theorem twins_outcome {result : Except Error (List Value)} (hr : D.Grants result) :
    Twins D s₀ ⟨s, .outcome result, waiting⟩ ⟨t, .outcome result, waiting⟩ :=
  ⟨h, rfl, rfl, .outcome hr, hw⟩

theorem twins_guest (inv : Invocation) : Twins D s₀ ⟨s, .guest inv, waiting⟩ ⟨t, .guest inv, waiting⟩ :=
  ⟨h, rfl, rfl, .guest, hw⟩

theorem twins_fail (inv : Invocation) (e : Error) : Twins D s₀ (fail s inv e waiting) (fail t inv e waiting) :=
  twins_outcome h hw trivial

/-! ### Calls -/

/-- **The same host function is called with the same arguments**, and is harmless. -/
theorem twins_callHost {f : HostFunc σ} (hf : f.Harmless D) {below args : List Cell}
    (hargs : List.Forall₂ (s.FitsIn D) f.type.params.reverse args) (hstack : inv.stack = .of below args) :
    Twins D s₀ (callHost s inv f waiting) (callHost t inv f waiting) := by
  have hcount : args.length = f.type.params.length := by
    rw [← hargs.length_eq, List.length_reverse]
  obtain ⟨hroom, hsplit⟩ := Stack.splitAt_args below hcount
  have hvalues : ∀ v ∈ List.zipWith Value.ofCell f.type.params args.reverse, D.Allows v := by
    refine allows_zipWith (s := s) ?_
    rw [← List.reverse_reverse f.type.params]
    exact List.rel_reverse hargs
  obtain ⟨outcome, hbody, hgrants⟩ := hf _ hvalues
  unfold callHost
  dsimp only
  rw [hstack, if_neg hroom, if_neg hroom, hsplit, h.alike.depth]
  dsimp only
  rw [hbody]
  refine ⟨?_, rfl, rfl, .host hgrants, List.forall_mem_cons.mpr ⟨.intro _ _ _, hw⟩⟩
  exact h.count h.alike.config h.alike.interrupted h.alike.fuel rfl _ _

omit hw in
/-- **There is the same room for another frame** in both. -/
theorem agree_enter (inv : Invocation) (f : WasmFunc) :
    Agree (Store.Twins D s₀) (fun a b => b = a) (inv.enter f s) (inv.enter f t) := by
  unfold Invocation.enter
  dsimp only
  rw [h.alike.config, h.alike.depth]
  split
  · exact .error h
  split
  · exact .error h
  split
  · exact .error h
  split
  · exact .error h
  · exact .ok rfl (h.count rfl h.alike.interrupted h.alike.fuel rfl _ _)

/-- **The same function is called**, with arguments of the domain. -/
theorem twins_callFrom (htame : s₀.Tame D) {addr : Nat} {e : FuncEntity σ} (he : s.funcs[addr]? = some e)
    (hD : D.funcs addr) {below args : List Cell} (hargs : List.Forall₂ (s.FitsIn D) e.type.params.reverse args)
    (hstack : inv.stack = .of below args) :
    Twins D s₀ (callFrom s inv addr waiting) (callFrom t inv addr waiting) := by
  unfold callFrom Store.pollInterrupt
  rw [h.alike.interrupted]
  by_cases hflag : s.interrupted = true
  · rw [if_pos hflag, if_pos hflag]
    exact twins_fail (h.count h.alike.config rfl h.alike.fuel h.alike.depth _ _) hw inv _
  rw [if_neg hflag, if_neg hflag]
  dsimp only
  rw [h.alike.funcs addr hD, he]
  cases e with
  | host f => exact twins_callHost h hw (htame addr f hD (h.spares.funcs ▸ he)) hargs hstack
  | wasm f =>
    have hagree := agree_enter h inv f
    dsimp only
    generalize inv.enter f s = r at hagree
    generalize inv.enter f t = r' at hagree
    cases hagree with
    | ok hsame htwins =>
      cases hsame
      exact twins_guest htwins hw _
    | error htwins => exact twins_fail htwins hw inv _

/-- **A call by the embedder** starts the same in both stores. -/
theorem twins_invoke (htame : s₀.Tame D) {addr : Nat} {e : FuncEntity σ} (he : s.funcs[addr]? = some e)
    (hD : D.funcs addr) {args : List Value} (hargs : List.Forall₂ (s.FitsIn D) e.type.params (args.map Value.toCell))
    (hallows : ∀ v ∈ args, D.Allows v) :
    Twins D s₀ (invoke s addr args waiting) (invoke t addr args waiting) := by
  unfold invoke
  rw [h.alike.funcs addr hD, he]
  cases e with
  | wasm f =>
    have hstack : Stack.mk (args.map Value.toCell).toArray = .of [] (args.map Value.toCell).reverse :=
      Stack.eq_of_toList (by rw [List.reverse_reverse, List.nil_append])
    exact twins_callFrom h hw htame he hD (List.rel_reverse hargs) hstack
  | host f =>
    obtain ⟨outcome, hbody, hgrants⟩ := htame addr f hD (h.spares.funcs ▸ he) args hallows
    unfold Store.pollInterrupt
    dsimp only
    rw [h.alike.interrupted]
    by_cases hflag : s.interrupted = true
    · rw [if_pos hflag, if_pos hflag]
      exact twins_outcome (h.count h.alike.config rfl h.alike.fuel h.alike.depth _ _) hw trivial
    · rw [if_neg hflag, if_neg hflag]
      dsimp only
      rw [hbody]
      exact ⟨h.count h.alike.config h.alike.interrupted h.alike.fuel h.alike.depth _ _, rfl, rfl, .host hgrants, hw⟩

omit hw in
/-- **The same arguments are accepted.** -/
theorem checkCall_eq {addr : Nat} (hD : D.funcs addr) {args : List Value} (hallows : ∀ v ∈ args, D.Allows v) :
    checkCall t ⟨t.id, addr⟩ args = checkCall s ⟨s.id, addr⟩ args := by
  have hfunc : t.func ⟨t.id, addr⟩ = s.func ⟨s.id, addr⟩ := by
    unfold Store.func Store.resolve Store.checkId
    rw [if_pos rfl, if_pos rfl, h.alike.funcs addr hD]
  unfold checkCall
  rw [hfunc]
  refine bind_congr fun e => ?_
  dsimp only
  cases checkArguments args e.type.params with
  | error => rfl
  | ok =>
    refine forM_congr fun x hx => ?_
    have hv : D.Allows x.1 := hallows _ (List.of_mem_zip hx).1
    rw [h.alike.toCell hv]

/-! ### Steps -/

/-- **Running code takes the same step** in both stores. -/
theorem twins_stepGuest (htame : s₀.Tame D) (hs : s.TypedIn D) (hruns : inv.Runs D s) :
    Twins D s₀ (stepGuest s inv waiting) (stepGuest t inv waiting) := by
  obtain ⟨stack, _, types⟩ := inv
  obtain ⟨f, frames, features, b, lower, rfl, hready, hframes⟩ := hruns
  have hexec := Frame.exec_sound hs hready
  have hagree : Exec.Concur D s₀ f.exec ⟨s, stack⟩ ⟨t, stack⟩ := hready.exec_concurs hs ⟨h, rfl⟩
  have hactivation : (Activation.exec f : Exec σ (Transfer Frame)) = f.transfer <$> f.exec := rfl
  unfold stepGuest
  dsimp only
  rw [hactivation]
  unfold Exec.Concur at hagree
  generalize hr' : f.exec ⟨t, stack⟩ = x at hagree
  cases hr : f.exec ⟨s, stack⟩ with
  | error e r =>
    rw [hr] at hagree
    obtain _ | ⟨hstore, hstack⟩ := hagree
    rw [estate_map_of_error hr, estate_map_of_error hr']
    dsimp only
    rw [hstack]
    exact twins_fail hstore hw _ e
  | ok flow r =>
    rw [hr] at hagree
    obtain ⟨⟨hflow, -⟩, hstore, hstack⟩ | _ := hagree
    obtain ⟨-, hgoes⟩ := hexec.ok_of hr
    rw [estate_map_of_ok hr, estate_map_of_ok hr', hflow]
    dsimp only
    rw [hstack]
    cases flow with
    | next | goto => exact twins_guest hstore hw _
    | call addr =>
      obtain ⟨e, lcells, args, cells, he, hD, hargs, -, hstack⟩ := hgoes
      rw [Stack.of_append] at hstack
      exact twins_callFrom hstore hw htame he hD hargs hstack
    | ret =>
      obtain ⟨rcells, hresults, hstack⟩ := hgoes
      cases hframes with
      | bottom => exact twins_outcome hstore hw (Invocation.grants_values ⟨r.stack, [], b.results⟩ hresults hstack)
      | frame => exact twins_guest hstore hw _

/-- **The same outcome is delivered.** -/
theorem twins_deliver {type : FuncType} {depth : Nat} {result : Except Error (List Value)} (hr : D.Grants result) :
    Twins D s₀ (deliver s result (.guest inv type depth) waiting)
      (deliver t result (.guest inv type depth) waiting) := by
  have hstore : Store.Twins D s₀ { s with depth } { t with depth } :=
    h.count h.alike.config h.alike.interrupted h.alike.fuel rfl _ _
  unfold deliver
  dsimp only
  cases result with
  | error e => exact twins_fail hstore hw inv e
  | ok values =>
    dsimp only
    rw [pushResults_congr fun v hv => hstore.alike.toCell (hr v hv)]
    cases pushResults { s with depth } values type.results inv.stack with
    | error e => exact twins_fail hstore hw inv e
    | ok stack => exact twins_guest hstore hw _

end

variable {final : List ValueType} {m m' : Machine σ}

/-- **Twins take the same step**, and stay sound in the domain. -/
theorem Twins.step (h : Twins D s₀ m m') (htame : s₀.Tame D) (hm : m.Sound D final) (horderly : m.Orderly)
    (hb : m.store.Bound) : Twins D s₀ m.step m'.step ∧ m.step.Sound D final := by
  obtain ⟨s, _, _⟩ := m
  obtain ⟨t, control, waiting⟩ := m'
  obtain ⟨hstore, hcontrol, hwaiting, hc, hw⟩ := h
  dsimp only at hcontrol hwaiting
  subst hcontrol hwaiting
  obtain ⟨hs, hcontrol, hpatient⟩ := hm
  cases hc with
  | guest =>
    exact ⟨twins_stepGuest hstore hw htame hs hcontrol.1,
      (safe_stepGuest hs horderly.store hb hcontrol.1 hcontrol.2 hpatient).toSound⟩
  | @host caller type outcome hgrants =>
    exact ⟨twins_outcome hstore hw (hgrants.hostOutcome type),
      (safe_outcome hs (type.fulfils_hostOutcome outcome) hcontrol hpatient).toSound⟩
  | outcome hr => cases waiting with
    | nil => exact ⟨twins_outcome hstore hw hr, hs, hcontrol, hpatient⟩
    | cons w waiting =>
      obtain ⟨hguest, hguests⟩ := List.forall_mem_cons.mp hw
      obtain ⟨inv, type, depth⟩ := hguest
      refine ⟨twins_deliver hstore hguests hr, ?_⟩
      refine (safe_deliver hs hcontrol ?_ hpatient.1 hpatient.2.1 hpatient.2.2).toSound
      rintro values rfl v hv
      exact (hr v hv).admits

/-- Nothing is instantiated on the way. -/
theorem Twins.event? (h : Twins D s₀ m m') : m.event? = none := by
  obtain ⟨s, control, waiting⟩ := m
  obtain ⟨-, -, -, hc, hw⟩ := h
  cases hc with
  | guest | host => rfl
  | outcome => cases waiting with
    | nil => rfl
    | cons w waiting =>
      obtain ⟨hguest, -⟩ := List.forall_mem_cons.mp hw
      obtain ⟨inv, type, depth⟩ := hguest
      rfl

/-- **Twins stay twins** for as long as they run. -/
theorem Twins.run (h : Twins D s₀ m m') (htame : s₀.Tame D) (hm : m.Sound D final) (horderly : m.Orderly)
    (hb : m.store.Bound) (n : Nat) : Twins D s₀ (m.run n) (m'.run n) := by
  have hall : Twins D s₀ (m.run n) (m'.run n) ∧ (m.run n).Sound D final ∧ (m.run n).Orderly ∧
      (m.run n).store.Bound := by
    induction n with
    | zero => exact ⟨h, hm, horderly, hb⟩
    | succ n ih =>
      obtain ⟨h', hm', horderly', hb'⟩ := ih
      obtain ⟨hmoves, horderly''⟩ := horderly'.step
      obtain ⟨h'', hm''⟩ := h'.step htame hm' horderly' hb'
      rw [h'.event?] at hmoves
      rw [run_succ, run_succ]
      have hb'' := (hmoves.bound_iff horderly'.store).mpr ⟨hb', fun e he => absurd he (Option.not_mem_none e)⟩
      exact ⟨h'', hm'', horderly'', hb''⟩
  exact hall.1

theorem Twins.outcome_eq (h : Twins D s₀ m m') : m'.outcome? = m.outcome? := by
  unfold outcome?
  rw [h.control, h.waiting]

end Machine

end WasmEngine
