import WasmEngine.Proofs.Machine.Frames
import WasmEngine.Proofs.Machine.Reached
import WasmEngine.Proofs.Machine.Binding

/-!
# Calls of checked functions

The frames of an invocation lie on the operand stack one above the other: each begins where the operands of the
one that called it end, once the arguments are taken away (`Suspended`). So a frame that returns leaves its results
just where the frame below it expects them.

A call starts a frame that is ready, hands arguments to a host function, or traps. In all cases what the caller
is owed is what the one who waits for the caller asks for (`Machine.Owes`).
-/

namespace WasmEngine

variable {σ : Type} {s s' : Store σ} {D : Domain} {f : WasmFunc} {addr : Nat}

/-! ### Frames on top of each other -/

/-- **Frames that wait**: the innermost for results of these types, and each of the others for those of the frame
above it. The outermost one returns what is asked for at the end. The cells are all there are. -/
inductive Suspended (D : Domain) (s : Store σ) (final : List ValueType) : List ValueType → List Frame → List Cell → Prop
  | bottom : Suspended D s final final [] []
  | frame {features : Features} {b : TypedBody} {f : Frame} {results : List ValueType}
    {lower lcells cells : List Cell} {frames : List Frame} :
    f.Waits D s features b lower results lcells cells → Suspended D s final b.results frames lower →
    Suspended D s final results (f :: frames) (lower ++ lcells ++ cells.reverse)

theorem Suspended.mono (h : s.Extends s') {final results : List ValueType} {frames : List Frame}
    {below : List Cell} (hf : Suspended D s final results frames below) :
    Suspended D s' final results frames below := by
  induction hf with
  | bottom => exact .bottom
  | frame hwaits _ ih => exact .frame (hwaits.mono h) ih

namespace Invocation

/-- **An invocation runs**: its innermost frame is ready, and the others wait. -/
def Runs (D : Domain) (s : Store σ) (inv : Invocation) : Prop :=
  ∃ f frames features b lower, inv.frames = f :: frames ∧ f.Ready D s features b lower inv.stack ∧
    Suspended D s inv.types b.results frames lower

/-- **An invocation waits** for results of these types. -/
def Waits (D : Domain) (s : Store σ) (inv : Invocation) (results : List ValueType) : Prop :=
  inv.frames ≠ [] ∧ ∃ below, inv.stack = .of below [] ∧ Suspended D s inv.types results inv.frames below

theorem Waits.mono (h : s.Extends s') {inv : Invocation} {results : List ValueType}
    (hi : inv.Waits D s results) : inv.Waits D s' results := by
  obtain ⟨hne, below, hstack, hframes⟩ := hi
  exact ⟨hne, below, hstack, hframes.mono h⟩

/-- **An invocation goes on** when it has got the results it waited for. -/
theorem runs_resume (inv : Invocation) {results : List ValueType} {below rcells : List Cell}
    (hne : inv.frames ≠ []) (hframes : Suspended D s inv.types results inv.frames below)
    (hr : List.Forall₂ (s.FitsIn D) results.reverse rcells) (hstack : inv.stack = .of below rcells) :
    inv.resume.Runs D s := by
  obtain ⟨stack, frames, types⟩ := inv
  cases hframes with
  | bottom => exact absurd rfl hne
  | @frame features b f _ lower lcells cells frames hwaits hrest =>
    refine ⟨f.goto (f.pc + 1), frames, features, b, lower, rfl, ?_, hrest⟩
    change Frame.Ready D s _ features b lower stack
    rw [show stack = .of (lower ++ lcells) (rcells ++ cells) by rw [Stack.of_append]; exact hstack]
    exact hwaits.ready hr

end Invocation

/-! ### Starting a function -/

/-- Arguments and fresh locals have their types. -/
theorem fits_locals {params declared : List ValueType} {args : List Cell}
    (h : List.Forall₂ (s.FitsIn D) params.reverse args) :
    List.Forall₂ (s.FitsIn D) (params ++ declared) (args.reverse ++ List.replicate declared.length 0) := by
  refine List.rel_append ?_ ?_
  · rw [← List.reverse_reverse params]
    exact List.rel_reverse h
  · induction declared with
    | nil => exact .nil
    | cons type declared ih => exact .cons (Store.fitsIn_zero type) ih

/-- **A function that is bound to its instance starts with a frame that is ready**, or traps. -/
theorem Invocation.enter_sound {inv : Invocation} {below args : List Cell} (hs : s.TypedIn D) (hf : f.Declared)
    (hbound : s.BoundAt addr f) (hinside : D.instances f.instance_)
    (hargs : List.Forall₂ (s.FitsIn D) f.type.params.reverse args) (hstack : inv.stack = .of below args)
    (hframes : Suspended D s inv.types f.type.results inv.frames below) :
    Yields (inv.enter f) s (fun inv' s' => s'.TypedIn D ∧ inv'.Runs D s' ∧ inv'.types = inv.types)
      (fun e s' => s = s' ∧ e.trap?.isSome = true) := by
  obtain ⟨features, b, body, hbody, hof⟩ := hf.body
  obtain ⟨type, source, htype, -, hlocals, hresults, -, rfl⟩ := hof.source
  cases htype.symm.trans hf.type
  obtain ⟨i, hi, hmodule, -⟩ := hbound
  have hcount : args.length = f.type.params.length := by
    rw [← hargs.length_eq, List.length_reverse]
  have hheight : inv.stack.height = below.length + f.type.params.length := by
    rw [hstack, Stack.height_of, hcount]
  unfold Yields enter
  rw [hbody]
  dsimp only
  by_cases hdepth : s.config.maxCallDepth ≤ s.depth + inv.frames.length
  · rw [if_pos hdepth]
    exact ⟨rfl, rfl⟩
  rw [if_neg hdepth, if_neg (Nat.not_lt.mpr (hheight ▸ Nat.le_add_left _ _))]
  by_cases hroom : s.config.maxValueStack < inv.stack.height +
      (CompiledBody.ofTyped source.locals b.code b.peak).locals.length +
      (CompiledBody.ofTyped source.locals b.code b.peak).maxHeight
  · rw [if_pos hroom]
    exact ⟨rfl, rfl⟩
  rw [if_neg hroom]
  have hquiet (stats : Stats) : s.Quiet { s with stats } := .of_entities rfl rfl rfl rfl rfl rfl rfl rfl
  have hlower : inv.stack.height - f.type.params.length = below.length := by omega
  have hzeros : inv.stack.pushZeros source.locals.length =
      .of (below ++ (args.reverse ++ List.replicate source.locals.length 0)) [] := by
    have hall : Stack.of below args = .of (below ++ args.reverse) [] := Stack.of_append below [] args
    rw [hstack, hall, Stack.pushZeros_of, List.append_assoc]
  change Store.TypedIn _ D ∧ Invocation.Runs D _ _ ∧ _
  refine ⟨hs.of_quiet (hquiet _) rfl rfl rfl, ⟨_, inv.frames, features, b, below, rfl, ?_, ?_⟩, rfl⟩
  · have hrests : b.Rests 0 [] := TypedBody.Visits.start.rests (List.forall_mem_singleton.mpr rfl)
      fun _ ho => absurd ho List.not_mem_nil
    refine ⟨[], _, [], hrests, ?_, hzeros⟩
    refine { hof with
      hosted := ⟨⟨i, hi, hmodule⟩, hinside⟩, results := by rw [hresults]; rfl
      base := hlower.symm, locals := ?_, operands := .nil }
    rw [hlocals]
    exact fits_locals (hargs.imp fun _ _ hc => hc.mono (hquiet _).toExtends)
  · rw [hresults]
    exact hframes.mono (hquiet _).toExtends

/-! ### Outcomes -/

/-- **What an outcome should be**: values of certain types, or a trap. -/
def Fulfils (types : List ValueType) : Except Error (List Value) → Prop
  | .ok values => values.map (·.type) = types
  | .error e => e.trap?.isSome = true

theorem Value.type_ofCell (type : ValueType) (c : Cell) : (ofCell type c).type = type := by
  cases type <;> rfl

/-- Values that are read from as many cells have their types. -/
theorem types_zipWith : ∀ {types : List ValueType} {cells : List Cell}, cells.length = types.length →
    (List.zipWith Value.ofCell types cells).map (·.type) = types
  | [], _, _ => by simp
  | type :: types, c :: cells, h => by
    rw [List.zipWith_cons_cons, List.map_cons, Value.type_ofCell, types_zipWith (Nat.succ.inj h)]

/-- An invocation that has come to its end returns what it should. -/
theorem Invocation.fulfils_values (inv : Invocation) {rcells : List Cell}
    (hr : List.Forall₂ (s.FitsIn D) inv.types.reverse rcells) (hstack : inv.stack = .of [] rcells) :
    Fulfils inv.types (.ok inv.values) := by
  refine types_zipWith ?_
  rw [hstack, Stack.toList_of, List.nil_append, List.length_reverse, ← hr.length_eq, List.length_reverse]

/-- Stack traces do not matter. -/
theorem trap_addFrames {e : Error} (he : e.trap?.isSome = true) (frames : List TraceFrame) :
    (e.addFrames frames).trap?.isSome = true := by
  cases e with
  | failure => nomatch he
  | trap => rfl

theorem firstMismatch_eq_none {values : List Value} {types : List ValueType} {index : Nat}
    (hlength : values.length = types.length) (h : firstMismatch index values types = none) :
    values.map (·.type) = types := by
  induction values generalizing types index with
  | nil => exact (List.length_eq_zero_iff.mp hlength.symm).symm
  | cons v values ih =>
    cases types with
    | nil => nomatch hlength
    | cons type types =>
      unfold firstMismatch at h
      split at h
      · next hv => rw [List.map_cons, hv, ih (Nat.succ.inj hlength) h]
      · nomatch h

/-- **Host functions return what they should**, or trap. -/
theorem FuncType.fulfils_hostOutcome (type : FuncType) (outcome : Except Error (List Value)) :
    Fulfils type.results (type.hostOutcome outcome) := by
  cases outcome with
  | error e => cases e <;> rfl
  | ok values =>
    unfold hostOutcome
    dsimp only
    split
    · next h =>
      unfold checkResults at h
      split at h
      · nomatch h
      next hlength =>
      split at h
      · nomatch h
      next hmatch => exact firstMismatch_eq_none (Decidable.not_not.mp hlength) hmatch
    · rfl

/-! ### Who waits -/

namespace Machine

/-- **What those who wait ask of an outcome**, the outermost one for results of the types `final`. A host function takes
whatever comes. -/
def Asks (final : List ValueType) : List (Waiting σ) → Except Error (List Value) → Prop
  | [], result => Fulfils final result
  | .guest _ type _ :: _, result => Fulfils type.results result
  | .host .. :: _, _ => True
  | .start _ :: waiting, result => Asks final waiting result

/-- Results of these types are what is asked for. -/
def Owes (final : List ValueType) (waiting : List (Waiting σ)) (types : List ValueType) : Prop :=
  ∀ result, Fulfils types result → Asks final waiting result

/-- **Those who wait can go on** with what they ask for, and are themselves owed to those behind them. -/
def Patient (D : Domain) (s : Store σ) (final : List ValueType) : List (Waiting σ) → Prop
  | [] => True
  | .guest inv type _ :: waiting =>
    inv.Waits D s type.results ∧ Owes final waiting inv.types ∧ Patient D s final waiting
  | .host _ type _ :: waiting => Owes final waiting type.results ∧ Patient D s final waiting
  | .start _ :: waiting => Patient D s final waiting

theorem Patient.mono (h : s.Extends s') {final : List ValueType} {waiting : List (Waiting σ)}
    (hw : Patient D s final waiting) : Patient D s' final waiting := by
  induction waiting with
  | nil => trivial
  | cons w waiting ih =>
    cases w with
    | guest => exact ⟨hw.1.mono h, hw.2.1, ih hw.2.2⟩
    | host => exact ⟨hw.1, ih hw.2⟩
    | start => exact ih hw

/-- **What goes on is sound.** -/
def Control.Sound (D : Domain) (s : Store σ) (final : List ValueType) (waiting : List (Waiting σ)) : Control σ → Prop
  | .guest inv => inv.Runs D s ∧ Owes final waiting inv.types
  | .host _ type _ => Owes final waiting type.results
  | .outcome result => Asks final waiting result

/-- **A sound machine**: its store is well typed, what goes on in it is sound, and so are those who wait. -/
structure Sound (D : Domain) (final : List ValueType) (m : Machine σ) : Prop where
  typed : m.store.TypedIn D
  control : Control.Sound D m.store final m.waiting m.control
  patient : Patient D m.store final m.waiting

/-- A sound machine in which nothing has failed but by a trap. -/
structure Safe (D : Domain) (final : List ValueType) (m : Machine σ) : Prop extends m.Sound D final where
  trap : ∀ e, m.control = .outcome (.error e) → e.trap?.isSome = true

/-! ### Calls -/

section

variable {final : List ValueType} {waiting : List (Waiting σ)} {inv : Invocation}

/-- An invocation that runs. -/
theorem safe_guest (hs : s.TypedIn D) (hruns : inv.Runs D s) (howes : Owes final waiting inv.types)
    (hw : Patient D s final waiting) : Safe D final ⟨s, .guest inv, waiting⟩ where
  typed := hs
  control := ⟨hruns, howes⟩
  patient := hw
  trap _ he := nomatch he

/-- A host function that runs. -/
theorem safe_host {caller : Option Nat} {type : FuncType} {program : HostProgram σ} (hs : s.TypedIn D)
    (howes : Owes final waiting type.results) (hw : Patient D s final waiting) :
    Safe D final ⟨s, .host caller type program, waiting⟩ where
  typed := hs
  control := howes
  patient := hw
  trap _ he := nomatch he

/-- Outcomes that are owed. -/
theorem safe_outcome {types : List ValueType} {result : Except Error (List Value)} (hs : s.TypedIn D)
    (hr : Fulfils types result) (howes : Owes final waiting types) (hw : Patient D s final waiting) :
    Safe D final ⟨s, .outcome result, waiting⟩ where
  typed := hs
  control := howes result hr
  patient := hw
  trap e he := by
    cases he
    exact hr

theorem safe_fail (hs : s.TypedIn D) {e : Error} (he : e.trap?.isSome = true)
    (howes : Owes final waiting inv.types) (hw : Patient D s final waiting) :
    Safe D final (fail s inv e waiting) :=
  have hfail : Fulfils inv.types (.error (e.addFrames inv.trace)) := trap_addFrames he _
  safe_outcome hs hfail howes hw

theorem typed_count (hs : s.TypedIn D) (stats : Stats) (depth : Nat) : Store.TypedIn { s with stats, depth } D :=
  hs.of_quiet (quiet_count s stats depth) rfl rfl rfl

/-- Either the interrupt flag is not set, or its polling traps. -/
theorem poll_cases (hs : s.TypedIn D) : Store.pollInterrupt s = .ok () s ∨
    ∃ e s', Store.pollInterrupt s = .error e s' ∧ s'.TypedIn D ∧ s.Quiet s' ∧ e.trap?.isSome = true := by
  unfold Store.pollInterrupt
  split
  · have hquiet : s.Quiet { s with interrupted := false } := .of_entities rfl rfl rfl rfl rfl rfl rfl rfl
    exact .inr ⟨_, _, rfl, hs.of_quiet hquiet rfl rfl rfl, hquiet, rfl⟩
  · exact .inl rfl

/-- **A host function is called** by an invocation, which waits for it. -/
theorem safe_callHost (hs : s.TypedIn D) {f : HostFunc σ} {below args : List Cell}
    (hargs : List.Forall₂ (s.FitsIn D) f.type.params.reverse args) (hstack : inv.stack = .of below args)
    (hne : inv.frames ≠ []) (hframes : Suspended D s inv.types f.type.results inv.frames below)
    (howes : Owes final waiting inv.types) (hw : Patient D s final waiting) :
    Safe D final (callHost s inv f waiting) := by
  have hcount : args.length = f.type.params.length := by
    rw [← hargs.length_eq, List.length_reverse]
  obtain ⟨hroom, hsplit⟩ := Stack.splitAt_args below hcount
  unfold callHost
  dsimp only
  rw [hstack, if_neg hroom, hsplit]
  have hs' := typed_count hs { s.stats with hostCalls := s.stats.hostCalls + 1 } (s.depth + inv.frames.length)
  have hext := (quiet_count s { s.stats with hostCalls := s.stats.hostCalls + 1 }
    (s.depth + inv.frames.length)).toExtends
  have hwaits : Invocation.Waits D _ { inv with stack := .of below [] } f.type.results :=
    ⟨hne, below, rfl, hframes.mono hext⟩
  exact safe_host hs' (fun _ hr => hr) ⟨hwaits, howes, hw.mono hext⟩

/-- **A function is called** by an invocation, with arguments of the right types on top of the stack. -/
theorem safe_callFrom (hs : s.TypedIn D) (horderly : s.Orderly) (hb : s.Bound) {e : FuncEntity σ}
    (he : s.funcs[addr]? = some e) (hD : D.funcs addr) {below args : List Cell}
    (hargs : List.Forall₂ (s.FitsIn D) e.type.params.reverse args) (hstack : inv.stack = .of below args)
    (hframes : Suspended D s inv.types e.type.results inv.frames below)
    (hne : inv.frames = [] → ∃ f, e = .wasm f) (howes : Owes final waiting inv.types)
    (hw : Patient D s final waiting) : Safe D final (callFrom s inv addr waiting) := by
  unfold callFrom
  rcases poll_cases hs with hpoll | ⟨e, s', hpoll, hs', hquiet, htrap⟩ <;> rw [hpoll] <;> dsimp only
  · rw [he]
    cases e with
    | host f =>
      have hne : inv.frames ≠ [] := fun hnil => by
        obtain ⟨_, hf⟩ := hne hnil
        nomatch hf
      exact safe_callHost hs hargs hstack hne hframes howes hw
    | wasm f =>
      have hdeclared := horderly.declared f (Array.mem_of_getElem? he)
      have hinside := hs.confined.funcs addr f hD he
      have henter := Invocation.enter_sound hs hdeclared (hb addr f he) hinside hargs hstack hframes
      have hquiet := keeps_enter inv f s
      dsimp only
      cases hr : inv.enter f s with
      | ok inv' s' =>
        obtain ⟨hs', hruns, htypes⟩ := henter.ok_of hr
        rw [hr] at hquiet
        exact safe_guest hs' hruns (htypes ▸ howes) (hw.mono hquiet.toExtends)
      | error e s' =>
        obtain ⟨rfl, htrap⟩ := henter.error_of hr
        exact safe_fail hs htrap howes hw
  · exact safe_fail hs' htrap howes (hw.mono hquiet.toExtends)

/-- **A function is called with values** that belong to the store. -/
theorem safe_invoke (hs : s.TypedIn D) (horderly : s.Orderly) (hb : s.Bound) {e : FuncEntity σ}
    (he : s.funcs[addr]? = some e) (hD : D.funcs addr) {args : List Value}
    (hargs : List.Forall₂ (s.FitsIn D) e.type.params (args.map Value.toCell))
    (howes : Owes final waiting e.type.results) (hw : Patient D s final waiting) :
    Safe D final (invoke s addr args waiting) := by
  unfold invoke
  rw [he]
  cases e with
  | wasm f =>
    have hstack : Stack.mk (args.map Value.toCell).toArray = .of [] (args.map Value.toCell).reverse :=
      Stack.eq_of_toList (by rw [List.reverse_reverse, List.nil_append])
    have hframes : Suspended D s f.type.results f.type.results [] [] := .bottom
    exact safe_callFrom hs horderly hb he hD (List.rel_reverse hargs) hstack hframes (fun _ => ⟨f, rfl⟩) howes hw
  | host f =>
    dsimp only
    rcases poll_cases hs with hpoll | ⟨e, s', hpoll, hs', hquiet, htrap⟩ <;> rw [hpoll] <;> dsimp only
    · have hs' := typed_count hs { s.stats with hostCalls := s.stats.hostCalls + 1 } s.depth
      have hext := (quiet_count s { s.stats with hostCalls := s.stats.hostCalls + 1 } s.depth).toExtends
      exact safe_host hs' howes (hw.mono hext)
    · have hfail : Fulfils f.type.results (.error e) := htrap
      exact safe_outcome hs' hfail howes (hw.mono hquiet.toExtends)

/-- Arguments that are accepted have the types of the parameters, and belong to the store. -/
theorem checkCall_spec {h : Handle .func} {args : List Value} (hcheck : checkCall s h args = .ok ()) :
    ∃ e, s.func h = .ok e ∧ s.funcs[h.index]? = some e ∧
      List.Forall₂ (fun type (v : Value) => v.type = type ∧ s.owns v = true) e.type.params args := by
  obtain ⟨e, he, hcheck⟩ := bind_eq_ok.mp hcheck
  refine ⟨e, he, Store.resolve_eq_ok he, ?_⟩
  dsimp only at hcheck
  split at hcheck
  · nomatch hcheck
  next hcount =>
  have hlength : args.length = e.type.params.length := by
    unfold checkArguments at hcount
    split at hcount
    · nomatch hcount
    · next h => exact Decidable.not_not.mp h
  have hcells := forM_eq_ok.mp hcheck
  refine List.forall₂_iff_get.mpr ⟨hlength.symm, fun k hk hk' => ?_⟩
  have hzip : (args[k], e.type.params[k]) ∈ args.zip e.type.params := by
    rw [← List.getElem_zip (h := by rw [List.length_zip]; omega)]
    exact List.getElem_mem _
  obtain ⟨c, hc, -⟩ := bind_eq_ok.mp (hcells _ hzip)
  unfold Store.toCell at hc
  split at hc
  · nomatch hc
  next htype =>
  split at hc
  · next howns => exact ⟨Decidable.not_not.mp htype, howns⟩
  · nomatch hc

/-- What refers to nothing outside of a domain. -/
theorem fitsIn_args {types : List ValueType} {args : List Value}
    (hargs : List.Forall₂ (fun type (v : Value) => v.type = type ∧ s.owns v = true) types args)
    (hD : ∀ v ∈ args, D.Admits v.type v.toCell) : List.Forall₂ (s.FitsIn D) types (args.map Value.toCell) := by
  induction hargs with
  | nil => exact .nil
  | cons hv _ ih =>
    obtain ⟨rfl, howns⟩ := hv
    refine .cons ⟨Store.fits_toCell howns, hD _ List.mem_cons_self⟩ ?_
    exact ih fun v hv => hD v (List.mem_cons_of_mem _ hv)

/-- **A call with arguments that are accepted** is safe. -/
theorem safe_call (hs : s.TypedIn D) (horderly : s.Orderly) (hb : s.Bound) {h : Handle .func} {args : List Value}
    (hcheck : checkCall s h args = .ok ()) (hfunc : D.funcs h.index) (hargs : ∀ v ∈ args, D.Admits v.type v.toCell)
    (hw : Patient D s final waiting) (howes : ∀ e, s.func h = .ok e → Owes final waiting e.type.results) :
    Safe D final (call s h args waiting) := by
  obtain ⟨e, he, hentity, hvalues⟩ := checkCall_spec hcheck
  unfold call
  rw [hcheck]
  exact safe_invoke hs horderly hb hentity hfunc (fitsIn_args hvalues hargs) (howes e he) hw

end

end Machine

end WasmEngine
