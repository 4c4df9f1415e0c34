import WasmEngine.Proofs.Machine.Calls
import WasmEngine.Proofs.Machine.Operands

/-!
# Soundness of runs

A step of a machine that is sound leaves it sound, as long as all functions of its store are bound to their
instances and the step does not change that (`Machine.Sound.step`). If the step makes an error, then it is a
trap, or the refusal of what a host function asked for. So nothing that a run of checked code does can fail in
a way that checking was to rule out.
-/

namespace WasmEngine

variable {σ : Type} {s s' : Store σ}

/-! ### Instantiations -/

namespace Store

variable {m : Module} {entities : List Extern}

/-- **Instantiations keep types**, whatever comes of them. -/
theorem typed_instantiate (hs : s.Typed) (horderly : s.Orderly) (hv : m.Valid) (entities : List Extern) :
    (endState (instantiate m entities s)).Typed := by
  have h := instantiate_cases hv entities horderly.fresh
  generalize instantiate m entities s = r at h
  cases h with
  | refused _ _ htyped => exact htyped hs
  | stranded _ _ _ _ _ _ htyped => exact htyped hs
  | failed _ _ _ _ htyped => exact typed_release (htyped hs) _
  | made _ _ _ _ htyped _ _ => exact htyped hs

/-- **A start function** is one of the store that takes and returns nothing. -/
theorem start_of_instantiate (horderly : s.Orderly) (hv : m.Valid) {addr : Nat}
    (h : instantiate m entities s = .ok (some addr) s') :
    ∃ e, s'.funcs[addr]? = some e ∧ e.type = ⟨[], []⟩ := by
  obtain ⟨features, hm⟩ := hv.checked
  have hcases := instantiate_cases hv entities horderly.fresh
  rw [h] at hcases
  cases hcases with
  | made _ _ hmade hquiet _ hstart hnone =>
    cases hf : m.start with
    | none => nomatch hnone hf
    | some f =>
      obtain ⟨addr', haddr, he⟩ := hstart f hf
      cases he
      obtain ⟨t, ht, htype⟩ := Context.func_eq_ok.mp (hm.start f hf)
      obtain ⟨addr', haddr', e, he, hetype⟩ := forall₂_getElem? hmade.signatures ht
      rw [Array.getElem?_toList, haddr] at haddr'
      cases haddr'
      rw [hquiet.funcs_eq]
      exact ⟨e, he, Option.some.inj (hetype.symm.trans htype)⟩

end Store

namespace Machine

variable {D : Domain} {final : List ValueType} {waiting : List (Waiting σ)} {inv : Invocation}

/-! ### Code -/

/-- An invocation whose innermost frame has returned goes on with the one below, or ends. -/
theorem safe_ret {types : List ValueType} {frames : List Frame} {below rcells : List Cell} {stack : Stack}
    (hs : s.TypedIn D) (hframes : Suspended D s inv.types types frames below)
    (hr : List.Forall₂ (s.FitsIn D) types.reverse rcells) (hstack : stack = .of below rcells)
    (howes : Owes final waiting inv.types) (hw : Patient D s final waiting) :
    Safe D final (match frames with
      | [] => ⟨s, .outcome (.ok (Invocation.values (φ := Frame) ⟨stack, [], inv.types⟩)), waiting⟩
      | _ :: _ => ⟨s, .guest (Invocation.resume ⟨stack, frames, inv.types⟩), waiting⟩) := by
  cases frames with
  | nil =>
    cases hframes
    exact safe_outcome hs (Invocation.fulfils_values ⟨stack, [], inv.types⟩ hr hstack) howes hw
  | cons f frames =>
    have hruns := Invocation.runs_resume ⟨stack, f :: frames, inv.types⟩ (List.cons_ne_nil _ _)
      hframes hr hstack
    exact safe_guest hs hruns howes hw

/-- **Code that runs takes a safe step.** -/
theorem safe_stepGuest (hs : s.TypedIn D) (horderly : s.Orderly) (hb : s.Bound) (hruns : inv.Runs D s)
    (howes : Owes final waiting inv.types) (hw : Patient D s final waiting) :
    Safe D final (stepGuest s inv waiting) := by
  obtain ⟨stack, _, types⟩ := inv
  obtain ⟨f, frames, features, b, lower, rfl, hready, hframes⟩ := hruns
  have hexec := Frame.exec_sound hs hready
  have hquiet := f.keeps_exec ⟨s, stack⟩
  have hactivation : (Activation.exec f : Exec σ (Transfer Frame)) = f.transfer <$> f.exec := rfl
  unfold stepGuest
  dsimp only
  rw [hactivation]
  cases hr : f.exec ⟨s, stack⟩ with
  | error e r =>
    obtain ⟨hs', htrap⟩ := hexec.error_of hr
    rw [hr] at hquiet
    rw [estate_map_of_error hr]
    exact safe_fail hs' htrap howes (hw.mono hquiet.toExtends)
  | ok flow r =>
    obtain ⟨s', stack'⟩ := r
    obtain ⟨hs', hgoes⟩ := hexec.ok_of hr
    rw [hr] at hquiet
    have hext : s.Extends s' := hquiet.toExtends
    have hw' := hw.mono hext
    rw [estate_map_of_ok hr]
    cases flow with
    | next => exact safe_guest hs' ⟨_, frames, features, b, lower, rfl, hgoes, hframes.mono hext⟩ howes hw'
    | goto pc => exact safe_guest hs' ⟨_, frames, features, b, lower, rfl, hgoes, hframes.mono hext⟩ howes hw'
    | call addr =>
      obtain ⟨e, lcells, args, cells, he, hD, hargs, hwaits, hstack⟩ := hgoes
      have hsuspended : Suspended D s' types e.type.results (f :: frames) (lower ++ lcells ++ cells.reverse) :=
        .frame hwaits (hframes.mono hext)
      have hcall : (Invocation.mk stack' (f :: frames) types).stack =
          .of (lower ++ lcells ++ cells.reverse) args := by
        rw [← Stack.of_append, ← hstack]
      exact safe_callFrom hs' (horderly.of_quiet hquiet) (hquiet.bound_iff.mpr hb) he hD hargs hcall hsuspended
        (fun hnil => absurd hnil (List.cons_ne_nil _ _)) howes hw'
    | ret =>
      obtain ⟨rcells, hresults, hstack⟩ := hgoes
      have hret := safe_ret hs' (hframes.mono hext) hresults hstack howes hw'
      cases frames <;> exact hret

/-! ### Outcomes -/

/-- Of the store, it only matters which cells the results are. -/
theorem pushResults_congr {t : Store σ} {values : List Value} (h : ∀ v ∈ values, ∀ type, t.toCell v type = s.toCell v type)
    (types : List ValueType) (stack : Stack) : pushResults t values types stack = pushResults s values types stack := by
  induction values generalizing types stack with
  | nil => rfl
  | cons v values ih =>
    obtain ⟨hv, hvalues⟩ := List.forall_mem_cons.mp h
    cases types with
    | nil => rfl
    | cons type types =>
      unfold pushResults
      rw [hv]
      cases s.toCell v type with
      | ok c => exact ih hvalues types _
      | error e => cases e <;> rfl

/-- **Results of a host function** come on top of the operands, unless they are not of the store, which is a trap. -/
theorem pushResults_spec {values : List Value} {types : List ValueType} (htypes : values.map (·.type) = types)
    (hD : ∀ v ∈ values, D.Admits v.type v.toCell) {below ops : List Cell} :
    (∀ stack, pushResults s values types (.of below ops) = .ok stack →
      ∃ rcells, List.Forall₂ (s.FitsIn D) types.reverse rcells ∧ stack = .of below (rcells ++ ops)) ∧
    ∀ e, pushResults s values types (.of below ops) = .error e → e.trap?.isSome = true := by
  induction values generalizing types ops with
  | nil =>
    subst htypes
    rw [List.map_nil]
    unfold pushResults
    refine ⟨fun stack h => ?_, fun e h => ?_⟩ <;> cases h
    exact ⟨[], .nil, rfl⟩
  | cons v values ih =>
    subst htypes
    rw [List.map_cons]
    unfold pushResults
    cases hc : s.toCell v v.type with
    | error e =>
      refine ⟨fun _ h => ?_, fun e' h => ?_⟩ <;> cases e <;> cases h <;> rfl
    | ok c =>
      dsimp only
      rw [Stack.push_of]
      obtain ⟨hok, herror⟩ := @ih _ rfl (fun v hv => hD v (List.mem_cons_of_mem _ hv)) (c :: ops)
      refine ⟨fun stack h => ?_, herror⟩
      obtain ⟨rcells, hr, rfl⟩ := hok stack h
      refine ⟨rcells ++ [c], ?_, by rw [List.append_assoc, List.singleton_append]⟩
      rw [List.reverse_cons]
      have hadmits := hD v List.mem_cons_self
      rw [← Store.toCell_eq hc] at hadmits
      exact List.rel_append hr (.cons ⟨Store.fits_of_toCell hc, hadmits⟩ .nil)

/-- **An invocation that has waited for a host function goes on safely**, with the results that it asked for. -/
theorem safe_deliver {type : FuncType} {depth : Nat} {result : Except Error (List Value)} (hs : s.TypedIn D)
    (hr : Fulfils type.results result) (hD : ∀ values, result = .ok values → ∀ v ∈ values, D.Admits v.type v.toCell)
    (hinv : inv.Waits D s type.results)
    (howes : Owes final waiting inv.types) (hw : Patient D s final waiting) :
    Safe D final (deliver s result (.guest inv type depth) waiting) := by
  have hs' : Store.TypedIn { s with depth } D := typed_count hs s.stats depth
  have hext : s.Extends { s with depth } := (quiet_count s s.stats depth).toExtends
  have hw' := hw.mono hext
  obtain ⟨hne, below, hstack, hframes⟩ := hinv.mono hext
  unfold deliver
  cases result with
  | error e => exact safe_fail hs' hr howes hw'
  | ok values =>
    obtain ⟨hok, herror⟩ := @pushResults_spec _ { s with depth } D values type.results hr (hD values rfl) below []
    dsimp only
    rw [hstack]
    cases hpush : pushResults { s with depth } values type.results (.of below []) with
    | error e => exact safe_fail hs' (herror e hpush) howes hw'
    | ok stack =>
      obtain ⟨rcells, hresults, hstack'⟩ := hok stack hpush
      rw [List.append_nil] at hstack'
      have hruns := Invocation.runs_resume { inv with stack } hne hframes hresults hstack'
      exact safe_guest hs' hruns howes hw'

/-! ### Host functions -/

/-- A host function goes on after a request that was answered. -/
theorem safe_settle {α : Type} {act : StoreM σ α} {caller : Option Nat} {type : FuncType}
    (next : Except Error α → HostProgram σ) (hquiet : Keeps Store.Quiet act) (htyped : Store.TypedAfter act s)
    (howes : Owes final waiting type.results) (hw : Patient .all s final waiting) :
    Safe .all final ⟨(settle (act s)).2, .host caller type (next (settle (act s)).1), waiting⟩ := by
  have hs' := htyped.end_of.in_all
  have hq := hquiet s
  cases hr : act s <;> rw [hr] at hs' hq <;> exact safe_host hs' howes (hw.mono hq.toExtends)

/-- **An instantiation leaves the machine sound**, and fails as it does in the store, or by a trap of its start
function. Whoever waits for it takes whatever comes. -/
theorem sound_instantiate {m : Module} {entities : List Extern} (hs : s.Typed) (horderly : s.Orderly)
    (hv : m.Valid) (hb : s.Bound) (hstrands : ¬(Event.instantiation s m entities).Strands)
    (hasks : ∀ result, Asks final waiting result) (hw : Patient .all s final waiting) :
    (instantiate s m entities waiting).Sound .all final ∧
      ∀ e, (instantiate s m entities waiting).control = .outcome (.error e) →
        e.trap?.isSome = true ∨ ∃ s', Store.instantiate m entities s = .error e s' := by
  have hs' := (Store.typed_instantiate hs horderly hv entities).in_all
  have horderly' := Store.orderly_instantiate horderly hv entities
  have hb' := (Store.bound_instantiate horderly hv entities).mpr ⟨hb, hstrands⟩
  have hw' := hw.mono (Store.extends_instantiate horderly hv entities)
  unfold instantiate
  dsimp only
  cases hr : Store.instantiate m entities s <;> rw [hr] at hs' horderly' hb' hw'
  case error e s' =>
    refine ⟨⟨hs', hasks _, hw'⟩, fun e' he' => .inr ?_⟩
    cases he'
    exact ⟨s', rfl⟩
  case ok start s' =>
    cases start with
    | none => exact ⟨⟨hs', hasks _, hw'⟩, fun e he => nomatch he⟩
    | some addr =>
      obtain ⟨e, he, htype⟩ := Store.start_of_instantiate horderly hv hr
      have hargs : List.Forall₂ (s'.FitsIn .all) e.type.params ([].map Value.toCell) := by
        rw [htype]
        exact .nil
      have hsafe : Safe .all final (invoke s' addr [] (.start s.instances.size :: waiting)) :=
        safe_invoke hs' horderly' hb' he trivial hargs (fun result _ => hasks result) hw'
      exact ⟨hsafe.toSound, fun e he => .inl (hsafe.trap e he)⟩

/-! ### Steps -/

/-- An error that is not made but passed on, or with which something that a host function asked for is refused: a
call with arguments that do not fit, or an instantiation. -/
def Refuses : Machine σ → Error → Prop
  | ⟨s, .host _ _ (.call h args _), _⟩, e => checkCall s h args = .error e
  | ⟨s, .host _ _ (.instantiate m entities _), _⟩, e => ∃ s', Store.instantiate m entities s = .error e s'
  | ⟨_, .outcome result, _⟩, e => result = .error e
  | _, _ => False

/-- **A step of a sound machine leaves it sound**, if all functions are bound and it strands none. Errors that it
makes are traps. -/
theorem Sound.step {m : Machine σ} (hm : m.Sound .all final) (horderly : m.Orderly) (hb : m.store.Bound)
    (hstrands : ∀ e ∈ m.event?, ¬e.Strands) :
    m.step.Sound .all final ∧
      ∀ e, m.step.control = .outcome (.error e) → e.trap?.isSome = true ∨ m.Refuses e := by
  obtain ⟨s, control, waiting⟩ := m
  obtain ⟨hs, hc, hw⟩ := hm
  have hstore : s.Orderly := horderly.store
  have hsafe {m m' : Machine σ} (h : Safe .all final m') : m'.Sound .all final ∧
      ∀ e, m'.control = .outcome (.error e) → e.trap?.isSome = true ∨ m.Refuses e :=
    ⟨h.toSound, fun e he => .inl (h.trap e he)⟩
  cases control with
  | guest inv => exact hsafe (safe_stepGuest hs hstore hb hc.1 hc.2 hw)
  | host caller type p =>
    cases p with
    | finish outcome => exact hsafe (safe_outcome hs (type.fulfils_hostOutcome outcome) hc hw)
    | update change next =>
      have hquiet : s.Quiet { s with state := change s.state } := .of_entities rfl rfl rfl rfl rfl rfl rfl rfl
      exact hsafe (safe_host (hs.of_quiet hquiet rfl rfl rfl) hc (hw.mono hquiet.toExtends))
    | inspect next => exact hsafe (safe_host hs hc hw)
    | caller next => exact hsafe (safe_host hs hc hw)
    | memorySize next => exact hsafe (safe_host hs hc hw)
    | readMemory start length next =>
      refine hsafe ?_
      unfold Machine.step stepHost
      dsimp only
      split
      · exact safe_host hs hc hw
      · exact safe_settle next (Store.keeps_readMemory _ _ _) (Store.typed_perform hs.typed (.readMemory _ _ _)) hc hw
    | writeMemory start bytes next =>
      refine hsafe ?_
      unfold Machine.step stepHost
      dsimp only
      split
      · exact safe_host hs hc hw
      · exact safe_settle next (Store.keeps_writeMemory _ _ _) (Store.typed_perform hs.typed (.writeMemory _ _ _)) hc hw
    | operate request next =>
      exact hsafe (safe_settle next (Store.keeps_perform request) (Store.typed_perform hs.typed request) hc hw)
    | define funcType body next =>
      have hext : s.Extends { s with funcs := s.funcs.push (.host ⟨funcType, body⟩) } :=
        { refl_of Store.Extends s with funcs := .push (fun _ => rfl) _ }
      have hs' : Store.Typed { s with funcs := s.funcs.push (.host ⟨funcType, body⟩) } :=
        hs.typed.extend hext (fun f hf => .inl ((Array.mem_push.mp hf).elim (fun h => h) nofun))
          (fun _ => .inl) (fun _ => .inl) fun _ => .inl
      exact hsafe (safe_host hs'.in_all hc (hw.mono hext))
    | call h args next =>
      cases hcheck : checkCall s h args with
      | ok =>
        have hw' : Patient .all s final (.host caller type next :: waiting) := ⟨hc, hw⟩
        have hargs : ∀ v ∈ args, Domain.all.Admits v.type v.toCell := fun _ _ => Domain.admits_all _ _
        exact hsafe (safe_call hs hstore hb hcheck trivial hargs hw' fun _ _ _ _ => trivial)
      | error e =>
        have hcall : Machine.step ⟨s, .host caller type (.call h args next), waiting⟩ =
            ⟨s, .outcome (.error e), .host caller type next :: waiting⟩ := by
          change Machine.call s h args _ = _
          rw [Machine.call, hcheck]
        rw [hcall]
        refine ⟨⟨hs, trivial, hc, hw⟩, fun e' he => .inr ?_⟩
        cases he
        exact hcheck
    | instantiate m entities next =>
      exact sound_instantiate hs.typed hstore horderly.control.1 hb (hstrands _ rfl) (fun _ => trivial) ⟨hc, hw⟩
  | outcome result =>
    cases waiting with
    | nil => exact ⟨⟨hs, hc, hw⟩, fun e he => .inr (Control.outcome.inj he)⟩
    | cons w waiting =>
      cases w with
      | host caller type next => exact hsafe (safe_host hs hw.1 hw.2)
      | guest inv type depth =>
        exact hsafe (safe_deliver hs hc (fun _ _ _ _ => Domain.admits_all _ _) hw.1 hw.2.1 hw.2.2)
      | start place =>
        cases result with
        | ok values => exact ⟨⟨hs, hc, hw⟩, fun e he => nomatch he⟩
        | error e =>
          have hs' := (Store.typed_release hs.typed place).in_all
          refine ⟨⟨hs', hc, hw.mono (Store.extends_release place s)⟩, fun e' he => .inr ?_⟩
          cases he
          rfl

/-! ### Runs -/

section

variable {φ : Type} [Activation φ]

/-- A machine that has halted stays as it is. -/
theorem step_of_halted {m : Machine σ φ} (h : m.outcome?.isSome = true) : m.step = m := by
  obtain ⟨s, control, waiting⟩ := m
  cases control with
  | guest | host => nomatch h
  | outcome result => cases waiting with
    | nil => rfl
    | cons => nomatch h

theorem run_of_halted {m : Machine σ φ} (h : m.outcome?.isSome = true) (n : Nat) : m.run n = m := by
  cases n with
  | zero => rfl
  | succ n => rw [run, if_pos h]

/-- The last step of a run. -/
theorem run_succ (n : Nat) (m : Machine σ φ) : m.run (n + 1) = (m.run n).step := by
  induction n generalizing m with
  | zero =>
    unfold run
    split
    · next h => exact (step_of_halted h).symm
    · rfl
  | succ n ih =>
    by_cases h : m.outcome?.isSome = true
    · rw [run_of_halted h, run_of_halted h, step_of_halted h]
    · have hnext (k : Nat) : m.run (k + 1) = m.step.run k := by rw [run, if_neg h]
      rw [hnext, hnext, ih]

end

/-- **The innermost frame is guarded** whenever code runs. -/
def Guarded (m : Machine σ) : Prop :=
  ∀ inv, m.control = .guest inv → ∃ f frames, inv.frames = f :: frames ∧ f.Guarded inv.stack

theorem Sound.guarded {m : Machine σ} (hm : m.Sound .all final) : m.Guarded := by
  intro inv hinv
  have hc := hm.control
  rw [hinv] at hc
  obtain ⟨f, frames, features, b, lower, hframes, hready, -⟩ := hc.1
  exact ⟨f, frames, hframes, hready.guarded⟩

/-- **A run of a sound machine keeps it sound**, as long as no step strands functions. -/
theorem Sound.run {m : Machine σ} (hm : m.Sound .all final) (horderly : m.Orderly) (hb : m.store.Bound) {n : Nat}
    (hstrands : ∀ k < n, ∀ e ∈ (m.run k).event?, ¬e.Strands) :
    (m.run n).Sound .all final ∧ (m.run n).Orderly ∧ (m.run n).store.Bound := by
  induction n with
  | zero => exact ⟨hm, horderly, hb⟩
  | succ n ih =>
    obtain ⟨hm', horderly', hb'⟩ := ih fun k hk => hstrands k (Nat.lt_succ_of_lt hk)
    have hstep := hstrands n (Nat.lt_succ_self n)
    rw [run_succ]
    obtain ⟨hmoves, horderly''⟩ := horderly'.step
    exact ⟨(hm'.step horderly' hb' hstep).1, horderly'', (hmoves.bound_iff horderly'.store).mpr ⟨hb', hstep⟩⟩

/-- **A call with arguments that are accepted** starts a machine that is sound and in order, and whose functions are
bound. -/
theorem call_starts (hs : s.TypedIn D) (horderly : s.Orderly) (hb : s.Bound) {h : Handle .func} {args : List Value}
    (hcheck : checkCall s h args = .ok ()) {e : FuncEntity σ} (he : s.func h = .ok e) (hfunc : D.funcs h.index)
    (hargs : ∀ v ∈ args, D.Admits v.type v.toCell) :
    (call s h args [] : Machine σ).Sound D e.type.results ∧ (call s h args [] : Machine σ).Orderly ∧
      (call s h args [] : Machine σ).store.Bound := by
  have hw : Patient D s e.type.results [] := trivial
  have hsafe : Safe D e.type.results (call s h args [] : Machine σ) := by
    refine safe_call hs horderly hb hcheck hfunc hargs hw fun e' he' => ?_
    cases he.symm.trans he'
    exact fun _ hr => hr
  have hcontinues : Continues s (call s h args [] : Machine σ) :=
    continues_call horderly (fun _ hw => absurd hw List.not_mem_nil) h args
  exact ⟨hsafe.toSound, hcontinues.orderly horderly, hcontinues.quiet.bound_iff.mpr hb⟩

namespace Reached

variable {m : Machine σ} {log : List (Event σ)}

/-- **What is reached is sound**, if all its functions are bound. -/
theorem sound (h : Reached m log) (hb : m.store.Bound) : m.Sound .all [] := by
  induction h with
  | empty id config state =>
    have htyped : (Store.new id config state).Typed := {
      funcs := fun _ h => absurd h (Array.not_mem_empty _)
      tables := fun _ h => absurd h (Array.not_mem_empty _)
      globals := fun _ h => absurd h (Array.not_mem_empty _)
      instances := fun _ h => absurd h (Array.not_mem_empty _) }
    exact ⟨htyped.in_all, rfl, trivial⟩
  | program _ _ ih => exact ⟨(ih hb).typed, fun _ hr => hr, trivial⟩
  | step h ih =>
    -- what is bound now was bound before the step
    obtain ⟨hb', hstep⟩ := (h.moves.bound_iff h.orderly.store).mp hb
    exact ((ih hb').step h.orderly hb' hstep).1

/-- **Type soundness.** A call with arguments that are accepted, in a store that can be reached and whose functions are
bound, and in which no step on the way strands functions, ends with results of the types that the function has, or
with a trap. Whenever code runs, its frame is at an op of its body, which finds the operands that it takes above
the locals. No step makes an error but a trap, or the refusal of what a host function asked for. -/
theorem call_sound (hm : Reached m log) (hb : m.store.Bound) {h : Handle .func} {e : FuncEntity σ}
    (hfunc : m.store.func h = .ok e) {args : List Value} (hargs : checkCall m.store h args = .ok ()) {n : Nat}
    (hstrands : ∀ k < n, ∀ e ∈ ((call m.store h args [] : Machine σ).run k).event?, ¬e.Strands) :
    (∀ result, ((call m.store h args [] : Machine σ).run n).outcome? = some result →
      Fulfils e.type.results result) ∧
    (∀ k ≤ n, ((call m.store h args [] : Machine σ).run k).Guarded) ∧
    ∀ k < n, ∀ e, ((call m.store h args [] : Machine σ).run (k + 1)).control = .outcome (.error e) →
      e.trap?.isSome = true ∨ ((call m.store h args [] : Machine σ).run k).Refuses e := by
  obtain ⟨hsound, horderly, hb'⟩ := call_starts (hm.sound hb).typed hm.orderly.store hb hargs hfunc trivial
    fun _ _ => Domain.admits_all _ _
  have hrun (k : Nat) (hk : k ≤ n) := hsound.run horderly hb' (n := k)
    fun j hj => hstrands j (Nat.lt_of_lt_of_le hj hk)
  refine ⟨fun result hr => ?_, fun k hk => (hrun k hk).1.guarded, fun k hk e he => ?_⟩
  · have hc := (hrun n (Nat.le_refl n)).1.control
    unfold outcome? at hr
    split at hr
    · next hcontrol hwaiting =>
      rw [hcontrol, hwaiting] at hc
      cases hr
      exact hc
    · nomatch hr
  · obtain ⟨hm', horderly', hb'⟩ := hrun k (Nat.le_of_lt hk)
    rw [run_succ] at he
    exact (hm'.step horderly' hb' (hstrands k hk)).2 e he

end Reached

end Machine

/-- A module of one function, which adds one to its argument. -/
def Module.successor : Module :=
  (Module.ofBytes ⟨#[0, 97, 115, 109, 1, 0, 0, 0, 1, 6, 1, 96, 1, 127, 1, 127, 3, 2, 1, 0, 10, 9, 1, 7, 0, 32, 0, 65,
    1, 106, 11]⟩ .all {}).toOption.get (by decide +kernel)

/-- The machine behind the instantiation of that module in an empty store. -/
def Machine.counting : Machine Unit :=
  Machine.step ⟨.new 0 {} (), .host none ⟨[], []⟩ (.instantiate .successor [] fun _ => .return_ []), []⟩

theorem Machine.reached_counting :
    Machine.Reached counting [.instantiation (.new 0 {} ()) .successor []] :=
  .step (.program (.empty 0 {} ()) ⟨Module.valid_get _, fun _ => trivial⟩)

theorem Machine.bound_counting : counting.store.Bound := by
  refine reached_counting.bound (List.forall_mem_singleton.mpr ?_)
  rintro ⟨-, hbig, -⟩
  exact absurd hbig (by decide +kernel)

theorem Machine.call_counting :
    ((call counting.store ⟨0, 0⟩ [.i32 41] [] : Machine Unit).run 4).outcome? = some (.ok [.i32 42]) ∧
    ∃ e, counting.store.func ⟨0, 0⟩ = .ok e ∧ Fulfils e.type.results (.ok [.i32 42]) := by
  have hrun : ((call counting.store ⟨0, 0⟩ [.i32 41] [] : Machine Unit).run 4).outcome? =
      some (.ok [.i32 42]) := by decide +kernel
  have hargs : checkCall counting.store ⟨0, 0⟩ [.i32 41] = .ok () := by decide +kernel
  have hquiet : ∀ k < 4, ((call counting.store ⟨0, 0⟩ [.i32 41] [] : Machine Unit).run k).event?.isNone = true := by
    decide +kernel
  obtain ⟨e, he, -⟩ := checkCall_spec hargs
  have hstrands : ∀ k < 4, ∀ event ∈ ((call counting.store ⟨0, 0⟩ [.i32 41] [] : Machine Unit).run k).event?,
      ¬event.Strands := fun k hk event hevent => by
    rw [Option.isNone_iff_eq_none.mp (hquiet k hk)] at hevent
    nomatch hevent
  exact ⟨hrun, e, he, (reached_counting.call_sound bound_counting he hargs hstrands).1 _ hrun⟩

end WasmEngine
