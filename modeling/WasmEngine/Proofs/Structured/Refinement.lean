import WasmEngine.Proofs.Machine.Soundness
import WasmEngine.Proofs.Structured.Agreement

/-!
# Lowering preserves meaning

Two machines match if they have the same store, and what goes on in them goes on at the same places, in the executable
form in the one and in the code as it was read in the other (`Machine.Matches`). Functions start at the same place,
and frames that match do the same, so matching machines take the same steps (`Machine.Matches.step`). A call therefore
has the same outcome in both, and leaves the same store (`Machine.lowering_preserves`).
-/

namespace WasmEngine

variable {σ : Type} {s : Store σ}

/-! ### Frames that wait -/

/-- **Two frames that wait match** if they go on at the same place behind the call that they made. -/
structure Frame.Awaits (f : Frame) (g : StructuredFrame) : Prop where
  trace : g.trace = f.trace
  instance_ : g.instance_ = f.instance_
  resume : (f.goto (f.pc + 1)).Matches (g.goto g.code.tail)

theorem Frame.Matches.instance_ {f : Frame} {g : StructuredFrame} (h : f.Matches g) : g.instance_ = f.instance_ := by
  obtain ⟨_, _, _, -, hscope, -⟩ := h
  rw [hscope]

/-- **A function starts at the same place** in both forms. -/
theorem Frame.matches_start {f : WasmFunc} (hf : f.Declared) {body : CompiledBody}
    (hbody : f.module.body? f.index = some body) (base : Nat) :
    (Frame.start f body base).Matches (StructuredFrame.start f body base) := by
  obtain ⟨features, b, _, hbody', hof⟩ := hf.body
  cases hbody.symm.trans hbody'
  obtain ⟨type, source, htype, hsource, hlocals, hresults, hcode, rfl⟩ := hof.source
  cases htype.symm.trans hf.type
  have herase : ((f.module.source? f.index).map (·.code)).getD [] = b.code.map (·.erase) := by
    rw [hsource, hcode]
    rfl
  have hclose : ((b.code.map (·.erase)).getLast?.map (·.1)).getD 0 = b.close := by
    rw [List.getLast?_map, Option.map_map]
    rfl
  have hlabels : (StructuredFrame.start f (.ofTyped source.locals b.code b.peak) base).labels =
      [.block ⟨[], b.results⟩ (base + b.locals.length) (b.code.map (·.erase))] := by
    rw [hlocals, List.length_append, ← Nat.add_assoc, hresults, ← herase]
    rfl
  refine ⟨features, b, [], hof, rfl, ?_, ?_⟩
  · rw [← hclose, ← herase]
    rfl
  · rw [hlabels, show (StructuredFrame.start f _ base).code = _ from herase]
    exact .spot .start (List.forall_mem_singleton.mpr rfl) fun _ ho => absurd ho List.not_mem_nil

/-! ### Invocations -/

namespace Invocation

/-- Two invocations that wait match. -/
inductive Awaits : Invocation → Invocation StructuredFrame → Prop
  | intro {stack : Stack} {frames : List Frame} {frames' : List StructuredFrame} {types : List ValueType} :
    List.Forall₂ Frame.Awaits frames frames' → Awaits ⟨stack, frames, types⟩ ⟨stack, frames', types⟩

/-- **Two invocations match** if their innermost frames do, and the frames that wait. -/
inductive Matches : Invocation → Invocation StructuredFrame → Prop
  | intro {stack : Stack} {f : Frame} {g : StructuredFrame} {frames : List Frame} {frames' : List StructuredFrame}
    {types : List ValueType} : f.Matches g → List.Forall₂ Frame.Awaits frames frames' →
    Matches ⟨stack, f :: frames, types⟩ ⟨stack, g :: frames', types⟩

variable {inv : Invocation} {inv' : Invocation StructuredFrame}

theorem Awaits.trace (h : inv.Awaits inv') : inv'.trace = inv.trace := by
  obtain ⟨hframes⟩ := h
  change List.map StructuredFrame.trace _ = List.map Frame.trace _
  induction hframes with
  | nil => rfl
  | cons hf _ ih => rw [List.map_cons, List.map_cons, hf.trace, ih]

theorem Matches.trace (h : inv.Matches inv') : inv'.trace = inv.trace := by
  obtain @⟨stack, f, g, frames, frames', types, hf, hframes⟩ := h
  have hrest : Awaits ⟨stack, frames, types⟩ ⟨stack, frames', types⟩ := .intro hframes
  exact congr (congrArg List.cons hf.trace) hrest.trace

/-- Both go on behind the call. -/
theorem Awaits.resume (h : inv.Awaits inv') (hne : inv.frames ≠ []) : inv.resume.Matches inv'.resume := by
  obtain ⟨hframes⟩ := h
  cases hframes with
  | nil => exact absurd rfl hne
  | cons hf hframes => exact .intro hf.resume hframes

/-- **A call starts matching frames**, or there is no room for either. -/
theorem Awaits.enter (h : inv.Awaits inv') {f : WasmFunc} (hf : f.Declared) (s : Store σ) :
    Agree Eq Matches (inv.enter f s) (inv'.enter f s) := by
  obtain @⟨stack, frames, frames', types, hframes⟩ := h
  obtain ⟨-, -, body, hbody, -⟩ := hf.body
  have hstart := Frame.matches_start hf hbody (stack.height - f.type.params.length)
  unfold enter
  dsimp only
  rw [hbody, hframes.length_eq]
  dsimp only
  split
  · exact .error rfl
  split
  · exact .error rfl
  split
  · exact .error rfl
  exact .ok (.intro hstart hframes) rfl

end Invocation

/-! ### Machines -/

/-- The same goes on. -/
inductive Control.Matches : Control σ → Control σ StructuredFrame → Prop
  | guest {inv : Invocation} {inv' : Invocation StructuredFrame} : inv.Matches inv' → Matches (.guest inv) (.guest inv')
  | host {caller : Option Nat} {type : FuncType} {program : HostProgram σ} :
    Matches (.host caller type program) (.host caller type program)
  | outcome {result : Except Error (List Value)} : Matches (.outcome result) (.outcome result)

/-- The same waits. -/
inductive Waiting.Matches : Waiting σ → Waiting σ StructuredFrame → Prop
  | guest {inv : Invocation} {inv' : Invocation StructuredFrame} {type : FuncType} {depth : Nat} : inv.Awaits inv' →
    Matches (.guest inv type depth) (.guest inv' type depth)
  | host {caller : Option Nat} {type : FuncType} {next : Except Error (List Value) → HostProgram σ} :
    Matches (.host caller type next) (.host caller type next)
  | start {place : Nat} : Matches (.start place) (.start place)

namespace Machine

/-- **Two machines match** if the same goes on in the same store, and the same waits. -/
inductive Matches : Machine σ → Machine σ StructuredFrame → Prop
  | intro {s : Store σ} {control : Control σ} {control' : Control σ StructuredFrame} {waiting : List (Waiting σ)}
    {waiting' : List (Waiting σ StructuredFrame)} : control.Matches control' →
    List.Forall₂ Waiting.Matches waiting waiting' → Matches ⟨s, control, waiting⟩ ⟨s, control', waiting'⟩

section

variable {waiting : List (Waiting σ)} {waiting' : List (Waiting σ StructuredFrame)} {inv : Invocation}
  {inv' : Invocation StructuredFrame} (hw : List.Forall₂ Waiting.Matches waiting waiting')

include hw

/-- Both fail with the same stack trace. -/
theorem matches_fail (htrace : inv'.trace = inv.trace) (s : Store σ) (e : Error) :
    (fail s inv e waiting).Matches (fail s inv' e waiting') := by
  rw [fail, fail, htrace]
  exact .intro .outcome hw

/-! ### Calls -/

/-- **Both call the same host function**, with the same arguments. -/
theorem matches_callHost (h : inv.Awaits inv') (s : Store σ) (f : HostFunc σ) :
    (callHost s inv f waiting).Matches (callHost s inv' f waiting') := by
  have htrace := h.trace
  obtain @⟨stack, frames, frames', types, hframes⟩ := h
  have hcaller : frames'.head?.map Activation.instance_ = frames.head?.map Activation.instance_ := by
    cases hframes with
    | nil => rfl
    | cons hf => exact congrArg some hf.instance_
  unfold callHost
  dsimp only
  split
  · exact matches_fail hw htrace s _
  · rw [hcaller, hframes.length_eq]
    exact .intro .host (.cons (.guest (.intro hframes)) hw)

/-- **Both call the same function.** -/
theorem matches_callFrom (h : inv.Awaits inv') (horderly : s.Orderly) (addr : Nat) :
    (callFrom s inv addr waiting).Matches (callFrom s inv' addr waiting') := by
  unfold callFrom
  have hquiet := Store.keeps_pollInterrupt s
  cases hpoll : Store.pollInterrupt s with
  | error e s' => exact matches_fail hw h.trace s' e
  | ok _ s' =>
    rw [hpoll] at hquiet
    dsimp only
    cases he : s'.funcs[addr]? with
    | none => exact matches_fail hw h.trace s' _
    | some e => cases e with
      | host f => exact matches_callHost hw h s' f
      | wasm f =>
        have hdeclared := (horderly.of_quiet hquiet).declared f (Array.mem_of_getElem? he)
        have hagree := h.enter hdeclared s'
        dsimp only
        generalize inv.enter f s' = r at hagree
        generalize inv'.enter f s' = r' at hagree
        cases hagree with
        | ok hinv hsame =>
          cases hsame
          exact .intro (.guest hinv) hw
        | error hsame =>
          cases hsame
          exact matches_fail hw h.trace _ _

theorem matches_invoke (horderly : s.Orderly) (addr : Nat) (args : List Value) :
    (invoke s addr args waiting).Matches (invoke s addr args waiting') := by
  unfold invoke
  cases s.funcs[addr]? with
  | none => exact .intro .outcome hw
  | some e => cases e with
    | wasm f => exact matches_callFrom hw (.intro .nil) horderly addr
    | host f =>
      dsimp only
      cases Store.pollInterrupt s with
      | ok => exact .intro .host hw
      | error => exact .intro .outcome hw

theorem matches_call (horderly : s.Orderly) (h : Handle .func) (args : List Value) :
    (call s h args waiting).Matches (call s h args waiting') := by
  unfold call
  cases checkCall s h args with
  | ok => exact matches_invoke hw horderly h.index args
  | error => exact .intro .outcome hw

theorem matches_instantiate (horderly : s.Orderly) {m : Module} (hv : m.Valid) (entities : List Extern) :
    (instantiate s m entities waiting).Matches (instantiate s m entities waiting') := by
  have horderly' := Store.orderly_instantiate horderly hv entities
  unfold instantiate
  dsimp only
  cases hr : Store.instantiate m entities s with
  | error => exact .intro .outcome hw
  | ok start s' => cases start with
    | none => exact .intro .outcome hw
    | some addr =>
      rw [hr] at horderly'
      exact matches_invoke (.cons .start hw) horderly' addr []

/-! ### Steps -/

/-- **Running code takes the same step** in both forms. -/
theorem matches_stepGuest (h : inv.Matches inv') (horderly : s.Orderly) (hruns : inv.Runs .all s) :
    (stepGuest s inv waiting).Matches (stepGuest s inv' waiting') := by
  obtain @⟨stack, f, g, frames, frames', types, hf, hframes⟩ := h
  obtain ⟨_, _, features, b, lower, hcons, hready, -⟩ := hruns
  cases hcons
  have hagree : Agree Eq Frame.Agrees ((Activation.exec f : Exec σ (Transfer Frame)) ⟨s, stack⟩)
      ((Activation.exec g : Exec σ (Transfer StructuredFrame)) ⟨s, stack⟩) := hready.exec_agrees hf
  have hquiet : Running.Quiet ⟨s, stack⟩ (endState ((Activation.exec f : Exec σ (Transfer Frame)) ⟨s, stack⟩)) :=
    f.keeps_exec.map (f := f.transfer) ⟨s, stack⟩
  unfold stepGuest
  dsimp only
  generalize (Activation.exec f : Exec σ (Transfer Frame)) ⟨s, stack⟩ = r at hagree hquiet
  generalize (Activation.exec g : Exec σ (Transfer StructuredFrame)) ⟨s, stack⟩ = r' at hagree
  have htrace (stack : Stack) :
      Invocation.trace ⟨stack, g :: frames', types⟩ = Invocation.trace ⟨stack, f :: frames, types⟩ :=
    (Invocation.Matches.intro hf hframes).trace
  cases hagree with
  | error hsame =>
    cases hsame
    exact matches_fail hw (htrace _) _ _
  | ok htransfer hsame => cases hsame; cases htransfer with
    | go hgo => exact .intro (.guest (.intro hgo hframes)) hw
    | call hcaller hresume =>
      have hawaits : Frame.Awaits _ _ := ⟨hcaller.trace, hcaller.instance_, hresume⟩
      exact matches_callFrom hw (.intro (.cons hawaits hframes)) (horderly.of_quiet hquiet) _
    | ret => cases hframes with
      | nil => exact .intro .outcome hw
      | cons hframe hframes => exact .intro (.guest (.intro hframe.resume hframes)) hw

/-- An outcome is delivered to whoever waits for it. -/
theorem matches_deliver {w : Waiting σ} {w' : Waiting σ StructuredFrame} (h : w.Matches w') (s : Store σ)
    (hne : ∀ inv type depth, w = .guest inv type depth → inv.frames ≠ []) (result : Except Error (List Value)) :
    (deliver s result w waiting).Matches (deliver s result w' waiting') := by
  cases h with
  | host => exact .intro .host hw
  | start => cases result <;> exact .intro .outcome hw
  | @guest inv inv' type depth hinv =>
    have htrace := hinv.trace
    have hne := hne inv type depth rfl
    obtain @⟨stack, frames, frames', types, hframes⟩ := hinv
    unfold deliver
    cases result with
    | error e => exact matches_fail hw htrace _ e
    | ok values =>
      dsimp only
      cases pushResults { s with depth } values type.results stack with
      | error e => exact matches_fail hw htrace _ e
      | ok stack' => exact .intro (.guest (Invocation.Awaits.resume (.intro hframes) hne)) hw

/-- **Host functions take the same step.** -/
theorem matches_stepHost {caller : Option Nat} {type : FuncType} {p : HostProgram σ} (horderly : s.Orderly)
    (hp : p.WellFormed) : (stepHost s caller type p waiting).Matches (stepHost s caller type p waiting') := by
  cases p with
  | finish => exact .intro .outcome hw
  | call h args next => exact matches_call (.cons .host hw) horderly h args
  | instantiate m entities next => exact matches_instantiate (.cons .host hw) horderly hp.1 entities
  | readMemory | writeMemory =>
    unfold stepHost
    dsimp only
    split <;> exact .intro .host hw
  | _ => exact .intro .host hw

end

variable {final : List ValueType} {m : Machine σ} {m' : Machine σ StructuredFrame}

/-- **Machines that match take the same step.** -/
theorem Matches.step (h : m.Matches m') (hm : m.Sound .all final) (horderly : m.Orderly) : m.step.Matches m'.step := by
  obtain @⟨s, control, control', waiting, waiting', hcontrol, hw⟩ := h
  cases hcontrol with
  | guest h => exact matches_stepGuest hw h horderly.store hm.control.1
  | host => exact matches_stepHost hw horderly.store horderly.control
  | outcome => cases hw with
    | nil => exact .intro .outcome .nil
    | cons hwaiting hw =>
      refine matches_deliver hw hwaiting s ?_ _
      rintro inv type depth rfl
      exact hm.patient.1.1

/-- **Runs stay in step**, as long as all functions are bound. -/
theorem Matches.run (h : m.Matches m') (hm : m.Sound .all final) (horderly : m.Orderly) (hb : m.store.Bound) {n : Nat}
    (hstrands : ∀ k < n, ∀ e ∈ (m.run k).event?, ¬e.Strands) : (m.run n).Matches (m'.run n) := by
  induction n with
  | zero => exact h
  | succ n ih =>
    have hbefore : ∀ k < n, ∀ e ∈ (m.run k).event?, ¬e.Strands := fun k hk => hstrands k (Nat.lt_succ_of_lt hk)
    obtain ⟨hm', horderly', -⟩ := hm.run horderly hb hbefore
    rw [run_succ, run_succ]
    exact (ih hbefore).step hm' horderly'

/-- Machines that match have the same outcome, if they have one. -/
theorem Matches.outcome_eq (h : m.Matches m') : m'.outcome? = m.outcome? := by
  obtain ⟨hcontrol, hw⟩ := h
  cases hcontrol with
  | guest | host => rfl
  | outcome => cases hw <;> rfl

theorem Matches.store_eq (h : m.Matches m') : m'.store = m.store := by
  obtain ⟨-, -⟩ := h
  rfl

/-- **Lowering preserves meaning.** In a store that is well typed and in order, and whose functions are bound to their
instances, a call has the same outcome in both forms after any number of steps, and leaves the same store, as long as
no step on the way strands functions. -/
theorem lowering_preserves (hs : s.Typed) (horderly : s.Orderly) (hb : s.Bound) (h : Handle .func) (args : List Value)
    {n : Nat} (hstrands : ∀ k < n, ∀ e ∈ ((call s h args [] : Machine σ).run k).event?, ¬e.Strands) :
    ((call s h args [] : Machine σ StructuredFrame).run n).outcome? = ((call s h args [] : Machine σ).run n).outcome? ∧
    ((call s h args [] : Machine σ StructuredFrame).run n).store = ((call s h args [] : Machine σ).run n).store := by
  have hmatches : (call s h args [] : Machine σ).Matches (call s h args []) := matches_call .nil horderly h args
  have hrun : ((call s h args [] : Machine σ).run n).Matches
      ((call s h args [] : Machine σ StructuredFrame).run n) := by
    cases hcheck : checkCall s h args with
    | error e =>
      -- nothing runs
      have hhalted : (call s h args [] : Machine σ).outcome?.isSome = true := by
        rw [call, hcheck]
        rfl
      rw [run_of_halted hhalted, run_of_halted (hmatches.outcome_eq ▸ hhalted)]
      exact hmatches
    | ok =>
      obtain ⟨e, he, -, -⟩ := checkCall_spec hcheck
      obtain ⟨hsound, horderly', hb'⟩ := call_starts hs.in_all horderly hb hcheck he trivial
        fun _ _ => Domain.admits_all _ _
      exact hmatches.run hsound horderly' hb' hstrands
  exact ⟨hrun.outcome_eq, hrun.store_eq⟩

end Machine

/-- A module of one function, which adds up the numbers from its argument down to one. Its loop has a parameter, its
conditional has no second arm, and behind the table there is code that is never reached. -/
def Module.descending : Module :=
  (Module.ofBytes ⟨#[0, 97, 115, 109, 1, 0, 0, 0, 1, 6, 1, 96, 1, 127, 1, 127, 3, 2, 1, 0, 10, 39, 1, 37, 0, 65, 0, 3,
    0, 32, 0, 106, 32, 0, 65, 1, 107, 34, 0, 13, 0, 11, 32, 0, 4, 0, 65, 1, 106, 11, 2, 0, 32, 0, 14, 1, 0, 1, 0, 11,
    11]⟩ .all {}).toOption.get (by decide +kernel)

/-- The machine behind the instantiation of that module in an empty store. -/
def Machine.descending : Machine Unit :=
  Machine.step ⟨.new 0 {} (), .host none ⟨[], []⟩ (.instantiate .descending [] fun _ => .return_ []), []⟩

theorem Machine.lowering_descending :
    ((call descending.store ⟨0, 0⟩ [.i32 3] [] : Machine Unit StructuredFrame).run 40).outcome? =
      some (.ok [.i32 6]) := by
  have hreached : Reached descending [.instantiation (.new 0 {} ()) .descending []] :=
    .step (.program (.empty 0 {} ()) ⟨Module.valid_get _, fun _ => trivial⟩)
  have hbound : descending.store.Bound := by
    refine hreached.bound (List.forall_mem_singleton.mpr ?_)
    rintro ⟨-, hbig, -⟩
    exact absurd hbig (by decide +kernel)
  have hquiet : ∀ k < 40, ((call descending.store ⟨0, 0⟩ [.i32 3] [] : Machine Unit).run k).event?.isNone = true := by
    decide +kernel
  have hrun : ((call descending.store ⟨0, 0⟩ [.i32 3] [] : Machine Unit).run 40).outcome? = some (.ok [.i32 6]) := by
    decide +kernel
  have htyped := (hreached.sound hbound).typed.typed
  rw [(lowering_preserves htyped hreached.orderly.store hbound ⟨0, 0⟩ [.i32 3] fun k hk e he => ?_).1]
  · exact hrun
  · rw [Option.isNone_iff_eq_none.mp (hquiet k hk)] at he
    nomatch he

end WasmEngine
