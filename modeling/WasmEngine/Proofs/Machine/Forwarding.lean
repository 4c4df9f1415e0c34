import WasmEngine.Proofs.Machine.Atomicity
import WasmEngine.Proofs.Machine.Deeper
import WasmEngine.Proofs.Structured.Offsets

/-!
# Functions that forward their calls

A host function can be called by the embedder, or by the code of a function that does nothing but push its parameters
and call it. Both come to the same, up to one thing. What the host function gives back is checked against its signature
in either case, but only code asks whether the references in it belong to the store, as it has to put them on the stack.

So the two calls have the same outcome exactly if the results of the direct one belong to the store
(`Machine.Reached.call_forwarded`). Else the direct call gives them all the same, while the other one traps. The host
function itself runs the same in both calls, as the one is nothing but a level deeper (`Machine.Deeper`): the function
that forwards the call is followed up to the host function (`Machine.run_forwards`), and from its end on
(`Machine.run_returns`).
-/

namespace WasmEngine

variable {σ : Type}

/-! ### Values in cells -/

theorem Cell.toRef_ofRef (a : Option Addr) : (Cell.ofRef a).toRef = a := by
  cases a with
  | none => rfl
  | some a =>
    have hne : a.setWidth 64 + 1 ≠ (0 : Cell) := by
      intro h
      have := congrArg BitVec.toNat h
      bv_omega
    rw [ofRef, toRef, if_neg hne, BitVec.add_sub_cancel, BitVec.setWidth_setWidth_of_le _ (by decide)]
    simp

/-- **A value is read back from its cell** at its type. -/
theorem Value.ofCell_toCell (v : Value) : ofCell v.type v.toCell = v := by
  cases v with
  | i32 w | f32 w => simp [type, toCell, ofCell]
  | i64 w | f64 w => rfl
  | ref t a => rw [type, toCell, ofCell, Cell.toRef_ofRef]

theorem Value.zipWith_ofCell {types : List ValueType} {values : List Value} (h : values.map (·.type) = types) :
    List.zipWith ofCell types (values.map toCell) = values := by
  subst h
  induction values with
  | nil => rfl
  | cons v values ih => rw [List.map_cons, List.map_cons, List.zipWith_cons_cons, ofCell_toCell, ih]

/-! ### Code -/

/-- The code that pushes the parameters of a function and calls another one. -/
def Instruction.forwarding (params callee : Nat) : List Instruction :=
  (List.range params).map .localGet ++ [.call callee, .end_]

theorem TypedInstruction.lower_forwarding {gets : List Nat} {callee : Nat} {code : List TypedInstruction}
    (h : code.map (·.instruction) = gets.map .localGet ++ [.call callee, .end_]) (pc : Nat)
    (starts : List (Option Nat)) :
    (lower pc starts code).1.map (·.2) = gets.map (fun x => .plain (.localGet x)) ++ [.call callee] := by
  induction gets generalizing code pc with
  | nil =>
    obtain ⟨x, rest, rfl, hx, hrest⟩ := List.map_eq_cons_iff.mp h
    obtain ⟨y, rest, rfl, hy, hrest⟩ := List.map_eq_cons_iff.mp hrest
    obtain rfl := List.map_eq_nil_iff.mp hrest
    obtain ⟨offset, i, reshapes⟩ := x
    obtain ⟨offset', i', reshapes'⟩ := y
    cases hx
    cases hy
    rfl
  | cons x gets ih =>
    obtain ⟨⟨offset, i, reshapes⟩, rest, rfl, hi, hrest⟩ := List.map_eq_cons_iff.mp h
    cases hi
    exact congrArg (.plain (.localGet x) :: ·) (ih hrest (pc + 1))

/-- **The ops of the code that forwards a call.** -/
theorem TypedBody.Of.forwarding_ops {b : TypedBody} {m : Module} {features : Features} {func : Nat}
    {body : CompiledBody} (h : b.Of m features func body) {source : FunctionBody}
    (hsource : m.source? func = some source) {params callee : Nat}
    (hcode : source.code.map (·.2) = Instruction.forwarding params callee) :
    body.ops.toList = (List.range params).map (fun x => Op.plain (.localGet x)) ++ [.call callee, .ret] := by
  obtain ⟨_, source', -, hsource', -, -, herase, rfl⟩ := h.source
  cases hsource.symm.trans hsource'
  have hinstructions : b.code.map (·.instruction) = (List.range params).map .localGet ++ [.call callee, .end_] := by
    rw [← Instruction.forwarding, ← hcode, ← herase, List.map_map]
    rfl
  change ((TypedInstruction.lower 0 [none] b.code).1 ++ [(b.close, Op.ret)]).map (·.2) = _
  rw [List.map_append, TypedInstruction.lower_forwarding hinstructions, List.append_assoc]
  rfl

/-- A parameter is pushed with each op, and the last two ops call and return. -/
theorem TypedBody.Of.forwarding_at {b : TypedBody} {m : Module} {features : Features} {func : Nat}
    {body : CompiledBody} (h : b.Of m features func body) {source : FunctionBody}
    (hsource : m.source? func = some source) {params callee : Nat}
    (hcode : source.code.map (·.2) = Instruction.forwarding params callee) :
    (∀ x < params, body.ops[x]? = some (.plain (.localGet x))) ∧
      body.ops[params]? = some (.call callee) ∧ body.ops[params + 1]? = some .ret := by
  have hlength : ((List.range params).map fun x => Op.plain (.localGet x)).length = params := by
    rw [List.length_map, List.length_range]
  have hop (x : Nat) : body.ops[x]? =
      ((List.range params).map (fun x => Op.plain (.localGet x)) ++ [.call callee, .ret])[x]? := by
    rw [← Array.getElem?_toList, h.forwarding_ops hsource hcode]
  refine ⟨fun x hx => ?_, ?_, ?_⟩
  · rw [hop, List.getElem?_append_left (by rwa [hlength]), List.getElem?_map, List.getElem?_range hx]
    rfl
  · rw [hop, List.getElem?_append_right (Nat.le_of_eq hlength), hlength, Nat.sub_self]
    rfl
  · rw [hop, List.getElem?_append_right (by omega), hlength, Nat.add_sub_cancel_left]
    rfl

/-- **A function forwards its calls** to the function at an address: as its code was read, it pushes the parameters and
calls what its instance has there. -/
def WasmFunc.Forwards (s : Store σ) (f : WasmFunc) (addr : Nat) : Prop :=
  ∃ source callee i, f.module.source? f.index = some source ∧
    source.code.map (·.2) = Instruction.forwarding f.type.params.length callee ∧
    s.instances[f.instance_]? = some i ∧ i.funcs[callee]? = some addr

/-! ### Stores on the way -/

/-- **Nothing was done but that fuel was spent**, and what goes with it. -/
def Store.Spent (s s' : Store σ) : Prop := s.Deeper { s' with depth := s'.depth + 1 }

namespace Store.Spent

variable {s s' s'' : Store σ}

theorem refl (s : Store σ) : s.Spent s := by
  refine ⟨{ s.books with depth := s.depth + 1 }, ⟨rfl, rfl, rfl, ?_⟩, rfl⟩
  change Option.Rel _ s.fuel s.fuel
  cases s.fuel with
  | none => exact .none
  | some n => exact .some (Nat.le_refl n)

theorem instances_eq (h : s.Spent s') : s'.instances = s.instances := by
  obtain ⟨b, -, hs⟩ := h
  have hinstances := congrArg (fun t : Store σ => t.instances) hs
  exact hinstances

theorem funcs_eq (h : s.Spent s') : s'.funcs = s.funcs := by
  obtain ⟨b, -, hs⟩ := h
  have hfuncs := congrArg (fun t : Store σ => t.funcs) hs
  exact hfuncs

theorem interrupted_eq (h : s.Spent s') : s'.interrupted = s.interrupted := by
  obtain ⟨b, hb, hs⟩ := h
  have hflag := congrArg (fun t : Store σ => t.interrupted) hs
  exact hflag.trans hb.interrupted

theorem depth_eq (h : s.Spent s') : s'.depth = s.depth := Nat.succ.inj (Store.Deeper.depth_eq h)

theorem count (h : s.Spent s') (stats : Stats) : s.Spent { s' with stats } :=
  Store.Deeper.count h s.stats stats

theorem charge (h : s.Spent s') (hcharge : Store.charge s' = .ok () s'') : s.Spent s'' := by
  rcases Store.Deeper.fuel_cases h with ⟨-, hs'⟩ | ⟨n, n', hs, hs', hle⟩
  · change s'.fuel = none at hs'
    cases (Store.charge_of_none hs').symm.trans hcharge
    exact h.count _
  · change s'.fuel = some n' at hs'
    cases n' with
    | zero => nomatch (Store.charge_of_zero hs').symm.trans hcharge
    | succ n' =>
      cases (Store.charge_of_some hs').symm.trans hcharge
      have hsame : { s with fuel := some n } = s := by
        rw [← hs]
      have hfuel := Store.Deeper.setFuel (h.count { s'.stats with opsExecuted := s'.stats.opsExecuted + 1 })
        (Nat.le_of_succ_le hle)
      rw [hsame] at hfuel
      exact hfuel

end Store.Spent

theorem Store.func_of {s : Store σ} {handle : Handle .func} {e : FuncEntity σ} (hid : handle.store = s.id)
    (he : s.funcs[handle.index]? = some e) : s.func handle = .ok e := by
  rw [func, resolve, checkId, if_pos hid, he]
  rfl

/-- **Functions keep their handles.** -/
theorem Store.Extends.func_eq {s s' : Store σ} (h : s.Extends s') {handle : Handle .func} {e : FuncEntity σ}
    (he : s.func handle = .ok e) : s'.func handle = .ok e := by
  have hid : handle.store = s.id := by
    by_contra hne
    rw [func, resolve, checkId, if_neg hne] at he
    cases he
  obtain ⟨_, hentity, rfl⟩ := h.funcs _ _ (Store.resolve_eq_ok he)
  exact func_of (hid.trans h.id.symm) hentity

/-- **A function starts if there is room for it.** -/
theorem Invocation.enter_of_room {s : Store σ} {inv : Invocation} {f : WasmFunc} {body : CompiledBody}
    (hbody : f.module.body? f.index = some body) (hparams : f.type.params.length ≤ inv.stack.height)
    (hroom : ¬inv.Overflows s f) : ∃ stats, inv.enter f s =
      .ok ⟨inv.stack.pushZeros body.locals.length,
        Frame.start f body (inv.stack.height - f.type.params.length) :: inv.frames, inv.types⟩ { s with stats } := by
  have hdepth : ¬s.config.maxCallDepth ≤ s.depth + inv.frames.length := fun hfull => hroom (.depth hfull)
  have hcells : ¬s.config.maxValueStack < inv.stack.height + body.locals.length + body.maxHeight :=
    fun hfull => hroom (.room hbody hparams hfull)
  unfold enter
  dsimp only
  rw [if_neg hdepth, hbody]
  dsimp only
  rw [if_neg (Nat.not_lt.mpr hparams), if_neg hcells]
  exact ⟨_, rfl⟩

namespace Machine

variable {s s' : Store σ} {f : Frame} {waiting : List (Waiting σ)}

/-- **A frame with an op that does not lack anything pays for the op.** -/
theorem charge_of_not_starves {op : Op} {i : ModuleInstance} {stack : Stack} {rest : List Frame}
    {types : List ValueType} (hop : f.body.ops[f.pc]? = some op) (hi : s.instances[f.instance_]? = some i)
    (hroom : (⟨s, .guest ⟨stack, f :: rest, types⟩, waiting⟩ : Machine σ).starves = false) :
    ∃ s', Store.charge s = .ok () s' ∧ f.exec ⟨s, stack⟩ = op.exec f ⟨s', stack⟩ := by
  cases hcharge : Store.charge s with
  | ok _ s' => exact ⟨s', rfl, Frame.exec_of_charge hi hop hcharge⟩
  | error e s' =>
    have hhas : f.hasOp s = true := by
      rw [Frame.hasOp, hi, hop]
      rfl
    obtain ⟨r', hexec⟩ := Frame.exec_of_zero (r := ⟨s, stack⟩) hhas (Store.charge_eq_error hcharge)
    have hstarved : (stepGuest s ⟨stack, f :: rest, types⟩ waiting).control.starved = false := hroom
    rw [stepGuest_of_error hexec] at hstarved
    cases hstarved

/-! ### On the way to the call -/

/-- **A function that forwards a call pushes its parameters**, one with each op. -/
theorem run_pushes {m : Machine σ} {types : List ValueType} {i : ModuleInstance} {args locals : List Cell}
    (hm : m = ⟨s', .guest ⟨.of (args ++ locals) [], [f.goto 0], types⟩, waiting⟩) (hs : s.Spent s')
    (hroom : ∀ k, (m.run k).starves = false) (hbase : f.base = 0) (hi : s.instances[f.instance_]? = some i)
    (hops : ∀ x < args.length, f.body.ops[x]? = some (.plain (.localGet x))) :
    ∀ n ≤ args.length, ∃ s', s.Spent s' ∧
      m.run n = ⟨s', .guest ⟨.of (args ++ locals) (args.take n).reverse, [f.goto n], types⟩, waiting⟩ := by
  intro n hn
  induction n with
  | zero => exact ⟨s', hs, hm⟩
  | succ n ih =>
    obtain ⟨s₁, hs₁, hrun⟩ := ih (Nat.le_of_succ_le hn)
    have hop : (f.goto n).body.ops[(f.goto n).pc]? = some (.plain (.localGet n)) := hops n hn
    have hi₁ : s₁.instances[(f.goto n).instance_]? = some i := by
      rw [hs₁.instances_eq]
      exact hi
    have hcell : (args ++ locals)[n]? = some args[n] := by
      rw [List.getElem?_append_left hn, List.getElem?_eq_getElem hn]
    have hroom := hroom n
    rw [hrun] at hroom
    obtain ⟨s₂, hcharge, hexec⟩ := charge_of_not_starves hop hi₁ hroom
    have hpushed : (Op.plain (.localGet n)).exec (f.goto n) ⟨s₂, .of (args ++ locals) (args.take n).reverse⟩ =
        .ok .next ⟨s₂, .of (args ++ locals) (args[n] :: (args.take n).reverse)⟩ := by
      have hpush : (Op.plain (.localGet n)).exec (f.goto n) ⟨s₂, .of (args ++ locals) (args.take n).reverse⟩ =
          .ok .next ⟨s₂, .push _ (Stack.get (.of (args ++ locals) (args.take n).reverse) (f.base + n))⟩ := rfl
      rw [hpush, hbase, Nat.zero_add, Stack.get_of hcell, Stack.push_of]
    have hstep : stepGuest s₁ ⟨_, [f.goto n], types⟩ waiting = _ := stepGuest_of_ok (hexec.trans hpushed)
    refine ⟨s₂, hs₁.charge hcharge, ?_⟩
    rw [run_succ, hrun]
    refine hstep.trans ?_
    rw [List.take_succ_eq_append_getElem hn, List.reverse_append]
    rfl

/-! ### Calls -/

section

variable {inv inv' : Invocation} {addr : Nat} {g : WasmFunc} (hclear : s.interrupted = false)
  (hg : s.funcs[addr]? = some (.wasm g))

include hclear hg

theorem callFrom_of_enter (henter : inv.enter g s = .ok inv' s') :
    callFrom s inv addr waiting = ⟨s', .guest inv', waiting⟩ := by
  rw [callFrom, Store.pollInterrupt_of_clear hclear]
  dsimp only
  rw [hg]
  dsimp only
  rw [henter]

theorem callFrom_of_overflows (hover : inv.Overflows s g) :
    callFrom s inv addr waiting = fail s inv (.ofCode .stackOverflow) waiting := by
  rw [callFrom, Store.pollInterrupt_of_clear hclear]
  dsimp only
  rw [hg]
  dsimp only
  rw [hover.enter]

end

/-- **A function that is called from outside starts**, unless it lacks something. -/
theorem call_enters {w : Handle .func} {g : WasmFunc} {args : List Value} (hw : s.func w = .ok (.wasm g))
    (hg : g.Declared) (hargs : checkCall s w args = .ok ()) (hclear : s.interrupted = false)
    (hstarts : (call s w args [] : Machine σ).control.starved = false) : ∃ body s₁,
      g.module.body? g.index = some body ∧ s.Spent s₁ ∧ call s w args [] =
        ⟨s₁, .guest ⟨.of (args.map Value.toCell ++ List.replicate body.locals.length 0) [],
          [(Frame.start g body 0).goto 0], g.type.results⟩, []⟩ := by
  obtain ⟨_, he, hentity, hvalues⟩ := checkCall_spec hargs
  cases hw.symm.trans he
  obtain ⟨features, b, body, hbody, hof⟩ := hg.body
  have hlength : args.length = g.type.params.length := hvalues.length_eq.symm
  have hstack : Stack.mk (args.map Value.toCell).toArray = .of (args.map Value.toCell) [] :=
    Stack.eq_of_toList (by rw [List.reverse_nil, List.append_nil])
  have hcall : call s w args [] =
      callFrom s (⟨.of (args.map Value.toCell) [], [], g.type.results⟩ : Invocation) w.index [] := by
    rw [call, hargs]
    dsimp only
    rw [invoke, hentity, ← hstack]
  rw [hcall] at hstarts ⊢
  generalize hinv : (⟨.of (args.map Value.toCell) [], [], g.type.results⟩ : Invocation) = inv at hstarts ⊢
  have hheight : inv.stack.height = g.type.params.length := by
    rw [← hinv, Stack.height_of, List.length_map, hlength]
    rfl
  have hroom : ¬inv.Overflows s g := by
    intro hover
    rw [callFrom_of_overflows hclear hentity hover] at hstarts
    cases hstarts
  obtain ⟨stats, henter⟩ := Invocation.enter_of_room hbody (Nat.le_of_eq hheight.symm) hroom
  refine ⟨body, _, hbody, (Store.Spent.refl s).count stats, (callFrom_of_enter hclear hentity henter).trans ?_⟩
  rw [hheight, Nat.sub_self, ← hinv, Stack.pushZeros_of]
  rfl

/-- **The call of a host function that is forwarded** is one level deeper than the call from outside. -/
theorem step_calls {below args : List Cell} {types : List ValueType} {i : ModuleInstance} {callee addr : Nat}
    {host : HostFunc σ} (hs : s.Spent s') (hclear : s.interrupted = false)
    (hroom : (⟨s', .guest ⟨.of below args.reverse, [f], types⟩, waiting⟩ : Machine σ).starves = false)
    (hop : f.body.ops[f.pc]? = some (.call callee)) (hi : s.instances[f.instance_]? = some i)
    (hcallee : i.funcs[callee]? = some addr) (hhost : s.funcs[addr]? = some (.host host))
    (hlength : args.length = host.type.params.length) : ∃ s₁,
      Store.Deeper { s with stats.hostCalls := s.stats.hostCalls + 1 } s₁ ∧
      (⟨s', .guest ⟨.of below args.reverse, [f], types⟩, waiting⟩ : Machine σ).step =
        ⟨s₁, .host (some f.instance_) host.type (host.body (List.zipWith Value.ofCell host.type.params args)),
          .guest ⟨.of below [], [f], types⟩ host.type s.depth :: waiting⟩ := by
  have hi' : s'.instances[f.instance_]? = some i := by rw [hs.instances_eq, hi]
  obtain ⟨s₁, hcharge, hexec⟩ := charge_of_not_starves hop hi' hroom
  have hs₁ := hs.charge hcharge
  have haddr : (Op.call callee).exec f ⟨s₁, .of below args.reverse⟩ =
      .ok (.call addr) ⟨s₁, .of below args.reverse⟩ := by
    have hi₁ : s₁.instances[f.instance_]? = some i := by rw [hs₁.instances_eq, hi]
    have hinstance : (Exec.instanceOf f.toScope : Exec σ _) ⟨s₁, .of below args.reverse⟩ = .ok i _ :=
      Exec.known_of hi₁ _
    exact estate_bind_of_ok ((estate_bind_of_ok hinstance).trans (Exec.known_of hcallee _))
  have hstep : stepGuest s' ⟨_, [f], types⟩ waiting = _ := stepGuest_of_ok (hexec.trans haddr)
  have hhost₁ : s₁.funcs[addr]? = some (.host host) := by rw [hs₁.funcs_eq, hhost]
  have hcount : args.reverse.length = host.type.params.length := by rw [List.length_reverse, hlength]
  obtain ⟨hheight, hsplit⟩ := Stack.splitAt_args below hcount
  refine ⟨_, Store.Deeper.count hs₁ _ { s₁.stats with hostCalls := s₁.stats.hostCalls + 1 }, hstep.trans ?_⟩
  change callFrom s₁ (⟨_, [f], types⟩ : Invocation) addr waiting = _
  rw [callFrom, Store.pollInterrupt_of_clear (hs₁.interrupted_eq.trans hclear)]
  dsimp only
  rw [hhost₁]
  dsimp only
  rw [callHost]
  dsimp only
  rw [if_neg hheight, hsplit, List.reverse_reverse, hs₁.depth_eq]
  rfl

/-- **What a host function gave back is put on the stack**, if it belongs to the store. -/
theorem pushResults_of_types {values : List Value} {types : List ValueType} (htypes : values.map (·.type) = types)
    (below ops : List Cell) : pushResults s values types (.of below ops) =
      if values.all s.owns then .ok (.of below ((values.map Value.toCell).reverse ++ ops))
      else .error (.ofHostFailure ⟨.value .foreignReference, {}⟩) := by
  subst htypes
  induction values generalizing ops with
  | nil => rfl
  | cons v values ih =>
    rw [List.map_cons]
    unfold pushResults Store.toCell
    rw [if_neg (not_not_intro rfl), List.all_cons]
    cases hv : s.owns v with
    | false => rfl
    | true =>
      rw [if_pos rfl]
      dsimp only
      rw [Stack.push_of, ih, Bool.true_and, List.map_cons, List.reverse_cons, List.append_assoc]
      rfl

/-! ### Outcomes -/

/-- **Two calls come to the same**: they gave the same values, or trapped for the same cause and with the same failure
of a host function. Their stack traces may differ. -/
inductive SameOutcome : Except Error (List Value) → Except Error (List Value) → Prop
  | values (values : List Value) : SameOutcome (.ok values) (.ok values)
  | traps {t t' : Trap} (place : Place) : t'.code = t.code → t'.host = t.host →
    SameOutcome (.error (.trap t place)) (.error (.trap t' place))

theorem sameOutcome_addFrames {e : Error} (he : e.trap?.isSome = true) (frames : List TraceFrame) :
    SameOutcome (.error e) (.error (e.addFrames frames)) := by
  cases e with
  | failure => nomatch he
  | trap t place => exact .traps place rfl rfl

/-- **What code takes from a host function**: no references that do not belong to the store. -/
def taken (s : Store σ) : Except Error (List Value) → Except Error (List Value)
  | .ok values => if values.all s.owns then .ok values else .error (.ofHostFailure ⟨.value .foreignReference, {}⟩)
  | .error e => .error e

/-- It is the same if all references belong to the store, and only then. -/
theorem sameOutcome_taken_iff {result result' : Except Error (List Value)} (h : SameOutcome (taken s result) result') :
    SameOutcome result result' ↔ ∀ values, result = .ok values → values.all s.owns = true := by
  cases result with
  | error e => exact ⟨fun _ _ hvalues => (nomatch hvalues), fun _ => h⟩
  | ok values =>
    cases howned : values.all s.owns with
    | true =>
      rw [taken, howned] at h
      constructor
      · intro _ values' hvalues
        cases hvalues
        exact howned
      · exact fun _ => h
    | false =>
      rw [taken, howned] at h
      constructor
      · intro hsame
        cases hsame
        nomatch h
      · intro hall
        nomatch howned.symm.trans (hall values rfl)

/-- **Returning** from the only frame ends with the values that are on top of the stack. -/
theorem step_returns {below : List Cell} {i : ModuleInstance} {values : List Value}
    (hroom : (⟨s, .guest ⟨.of below (values.map Value.toCell).reverse, [f], values.map (·.type)⟩, []⟩ :
      Machine σ).starves = false)
    (hret : f.body.ops[f.pc]? = some .ret) (hbase : f.base = 0) (hresults : f.results = values.length)
    (hi : s.instances[f.instance_]? = some i) :
    ∃ b, (⟨s, .guest ⟨.of below (values.map Value.toCell).reverse, [f], values.map (·.type)⟩, []⟩ : Machine σ).step =
      ⟨s.withBooks b, .outcome (.ok values), []⟩ := by
  obtain ⟨s₁, hcharge, hexec⟩ := charge_of_not_starves hret hi hroom
  have hbooks := Store.charge_of_ok hcharge
  generalize hcells : values.map Value.toCell = cells at hexec ⊢
  have hlength : cells.reverse.length = f.results := by
    rw [← hcells, List.length_reverse, List.length_map, hresults]
  have hleave : Op.ret.exec f ⟨s₁, .of below cells.reverse⟩ =
      .ok .ret
        ⟨{ s₁ with stats := s₁.stats.record 0 (Stack.of below cells.reverse).height }, .of [] cells.reverse⟩ := by
    have hstack : Stack.of below cells.reverse = .of [] (cells.reverse ++ below.reverse) := by
      rw [Stack.of_append, List.reverse_reverse, List.nil_append]
    have hreshape := Stack.reshape_ret [] cells.reverse below.reverse
    rw [← hstack, hlength, List.length_nil, ← hbase] at hreshape
    rw [← hreshape]
    rfl
  refine ⟨{ s₁.books with stats := s₁.stats.record 0 (Stack.of below cells.reverse).height },
    (stepGuest_of_ok (hexec.trans hleave)).trans ?_⟩
  have hvalues : (⟨.of [] cells.reverse, [], values.map (·.type)⟩ : Invocation).values = values := by
    rw [Invocation.values, Stack.toList_of, List.nil_append, List.reverse_reverse, ← hcells]
    exact Value.zipWith_ofCell rfl
  rw [hbooks]
  exact congrArg (fun values => (⟨_, .outcome (.ok values), []⟩ : Machine σ)) hvalues

/-- **A function that forwards a call returns what it was given**, if code takes that. -/
theorem run_returns {type : FuncType} {below : List Cell} {depth : Nat} {i : ModuleInstance} {m : Machine σ}
    {result : Except Error (List Value)}
    (hm : m = ⟨s, .outcome result, [.guest ⟨.of below [], [f], type.results⟩ type depth]⟩)
    (hroom : ∀ k, (m.run k).starves = false) (hresult : Fulfils type.results result)
    (hret : f.body.ops[f.pc + 1]? = some .ret) (hbase : f.base = 0) (hresults : f.results = type.results.length)
    (hi : s.instances[f.instance_]? = some i) :
    ∃ k result' b, m.run k = ⟨s.withBooks b, .outcome result', []⟩ ∧ SameOutcome (taken s result) result' := by
  have hstep : m.run 1 = deliver s result (.guest ⟨.of below [], [f], type.results⟩ type depth) [] := by
    rw [run_succ, hm]
    rfl
  cases result with
  | error e => exact ⟨1, _, { s.books with depth }, hstep, sameOutcome_addFrames hresult _⟩
  | ok values =>
    have htypes : values.map (·.type) = type.results := hresult
    have hpush : pushResults { s with depth } values type.results (.of below []) =
        if values.all s.owns then .ok (.of below ((values.map Value.toCell).reverse ++ []))
        else .error (.ofHostFailure ⟨.value .foreignReference, {}⟩) := pushResults_of_types hresult below []
    unfold deliver at hstep
    dsimp only at hstep
    by_cases howned : values.all s.owns = true
    · rw [hpush, if_pos howned, List.append_nil, ← htypes] at hstep
      rw [taken, if_pos howned]
      have hroom₁ := hroom 1
      rw [hstep] at hroom₁
      have hlength : f.results = values.length := by rw [hresults, ← htypes, List.length_map]
      obtain ⟨b, hreturns⟩ := step_returns (f := f.goto (f.pc + 1)) hroom₁ hret hbase hlength hi
      refine ⟨2, _, b, ?_, .values values⟩
      rw [run_succ, hstep]
      exact hreturns
    · rw [hpush, if_neg howned] at hstep
      rw [taken, if_neg howned]
      exact ⟨1, _, { s.books with depth }, hstep, sameOutcome_addFrames rfl _⟩

/-! ### Calls that are forwarded -/

section

variable {h w : Handle .func} {host : HostFunc σ} {g : WasmFunc} {args : List Value}

/-- **A host function that is called from outside** starts, if there is no interrupt. -/
theorem call_host (hhost : s.func h = .ok (.host host)) (hargs : checkCall s h args = .ok ())
    (hclear : s.interrupted = false) : (call s h args [] : Machine σ) =
      ⟨{ s with stats.hostCalls := s.stats.hostCalls + 1 }, .host none host.type (host.body args), []⟩ := by
  rw [call, hargs]
  dsimp only
  rw [invoke, Store.resolve_eq_ok hhost]
  dsimp only
  rw [Store.pollInterrupt_of_clear hclear]

/-- Functions of the same type accept the same arguments. -/
theorem checkCall_congr {e e' : FuncEntity σ} (he : s.func h = .ok e) (he' : s.func w = .ok e')
    (htype : e'.type = e.type) (args : List Value) : checkCall s w args = checkCall s h args := by
  unfold checkCall
  rw [he, he']
  dsimp only [bind, Except.bind]
  rw [htype]

/-- Arguments that are accepted have the types of the parameters. -/
theorem types_of_checkCall {e : FuncEntity σ} (he : s.func h = .ok e) (hargs : checkCall s h args = .ok ()) :
    args.map (·.type) = e.type.params := by
  obtain ⟨_, he', -, hvalues⟩ := checkCall_spec hargs
  cases he.symm.trans he'
  have hsame : List.Forall₂ (fun t (v : Value) => t = v.type) e.type.params args := hvalues.imp fun _ _ hv => hv.1.symm
  rw [← List.forall₂_map_right_iff, List.forall₂_eq_eq_eq] at hsame
  exact hsame.symm

/-- **The host function is called from a frame that returns behind it.** -/
theorem run_forwards (hhost : s.func h = .ok (.host host)) (hw : s.func w = .ok (.wasm g)) (hg : g.Declared)
    (hforwards : g.Forwards s h.index) (htype : g.type = host.type) (hargs : checkCall s h args = .ok ())
    (hclear : s.interrupted = false) (hroom : (call s w args [] : Machine σ).Ample) : ∃ n s₁ below f i,
      Store.Deeper { s with stats.hostCalls := s.stats.hostCalls + 1 } s₁ ∧
      (call s w args [] : Machine σ).run n = ⟨s₁, .host (some g.instance_) host.type (host.body args),
        [.guest ⟨.of below [], [f], host.type.results⟩ host.type s.depth]⟩ ∧
      f.body.ops[f.pc + 1]? = some .ret ∧ f.base = 0 ∧ f.results = host.type.results.length ∧
      s.instances[f.instance_]? = some i := by
  obtain ⟨source, callee, i, hsource, hcode, hi, hcallee⟩ := hforwards
  have hargs' : checkCall s w args = .ok () := (checkCall_congr hhost hw htype args).trans hargs
  obtain ⟨body, s₁, hbody, hs₁, hcall⟩ := call_enters hw hg hargs' hclear hroom.starts
  obtain ⟨features, b, body', hbody', hof⟩ := hg.body
  cases hbody.symm.trans hbody'
  have htypes : args.map (·.type) = host.type.params := types_of_checkCall hhost hargs
  have hread : List.zipWith Value.ofCell host.type.params (args.map Value.toCell) = args :=
    Value.zipWith_ofCell htypes
  have hlength : (args.map Value.toCell).length = host.type.params.length := by
    rw [← htypes, List.length_map, List.length_map]
  generalize args.map Value.toCell = cells at hcall hread hlength
  rw [htype, ← hlength] at hcode
  obtain ⟨hgets, hcallop, hret⟩ := hof.forwarding_at hsource hcode
  obtain ⟨s₂, hs₂, hrun⟩ := run_pushes (f := Frame.start g body 0) hcall hs₁ hroom.goesOn rfl hi hgets cells.length
    (Nat.le_refl _)
  rw [List.take_length] at hrun
  have hroom₂ := hroom.goesOn cells.length
  rw [hrun] at hroom₂
  obtain ⟨s₃, hs₃, hstep⟩ := step_calls (f := (Frame.start g body 0).goto cells.length) hs₂ hclear hroom₂ hcallop hi
    hcallee (Store.resolve_eq_ok hhost) hlength
  refine ⟨cells.length + 1, s₃, cells ++ List.replicate body.locals.length 0,
    (Frame.start g body 0).goto cells.length, i, hs₃, ?_, hret, rfl, ?_, hi⟩
  · rw [run_succ, hrun, hstep, hread, htype]
    rfl
  · rw [← htype]
    rfl

end

/-! ### Runs -/

/-- **A host function that was called from outside gives back an outcome** in a run. -/
def Gives (m : Machine σ) (type : FuncType) (outcome : Except Error (List Value)) : Prop :=
  ∃ k s caller, m.run k = ⟨s, .host caller type (.finish outcome), []⟩

/-- **Nothing is lost in a run.** -/
theorem Orderly.extends_run {m : Machine σ} (hm : m.Orderly) (n : Nat) :
    (m.run n).Orderly ∧ m.store.Extends (m.run n).store := by
  induction n with
  | zero => exact ⟨hm, refl_of Store.Extends m.store⟩
  | succ n ih =>
    obtain ⟨horderly, hextends⟩ := ih
    obtain ⟨hmoves, horderly'⟩ := horderly.step
    rw [run_succ]
    exact ⟨horderly', trans_of Store.Extends hextends (hmoves.toExtends horderly.store)⟩

theorem extends_run_call (hs : s.Orderly) (h : Handle .func) (args : List Value) (n : Nat) :
    s.Extends ((call s h args [] : Machine σ).run n).store := by
  have hstarts : Continues s (call s h args [] : Machine σ) :=
    continues_call hs (fun _ hw => absurd hw List.not_mem_nil) h args
  exact trans_of Store.Extends hstarts.quiet.toExtends ((hstarts.orderly hs).extends_run n).2

namespace Reached

variable {m : Machine σ} {log : List (Event σ)}

/-- **A host function does the same whether it is called directly or by a function that forwards its calls**, if it asks
nothing of its caller and there is enough depth, stack and fuel. The one call ends if the other one does, in stores
that differ in nothing but their books. The direct call ends with what the host function gave back, as far as that fits
its type, and they come to the same exactly if all references among these results belong to the store. If some do not,
the function that forwards the call refuses them. -/
theorem call_forwarded (hm : Reached m log) {h w : Handle .func} {host : HostFunc σ} {g : WasmFunc}
    (hhost : m.store.func h = .ok (.host host)) (hw : m.store.func w = .ok (.wasm g))
    (hforwards : g.Forwards m.store h.index) (htype : g.type = host.type) {args : List Value}
    (haloof : (host.body args).Aloof) (hargs : checkCall m.store h args = .ok ())
    (hclear : m.store.interrupted = false) (hroom : (call m.store w args [] : Machine σ).Ample) :
    (∀ k result, ((call m.store h args [] : Machine σ).run k).outcome? = some result →
      (∃ outcome, Gives (call m.store h args []) host.type outcome ∧ result = host.type.hostOutcome outcome) ∧
      Fulfils host.type.results result ∧ ∃ n result' b,
        (call m.store w args [] : Machine σ).run n =
          ⟨((call m.store h args [] : Machine σ).run k).store.withBooks b, .outcome result', []⟩ ∧
        SameOutcome (taken ((call m.store h args [] : Machine σ).run k).store result) result' ∧
        (SameOutcome result result' ↔
          ∀ values, result = .ok values → values.all ((call m.store h args [] : Machine σ).run k).store.owns = true)) ∧
    ((∀ k, ((call m.store h args [] : Machine σ).run k).outcome? = none) →
      ∀ n, ((call m.store w args [] : Machine σ).run n).outcome? = none) := by
  have horderly := hm.orderly
  have hg : g.Declared := horderly.store.declared g (Array.mem_of_getElem? (Store.resolve_eq_ok hw))
  obtain ⟨n, s₁, below, f, i, hs₁, hrun, hret, hbase, hresults, hi⟩ :=
    run_forwards hhost hw hg hforwards htype hargs hclear hroom
  have hdirect := call_host hhost hargs hclear
  have hdeeper : Machine.Deeper (.guest ⟨.of below [], [f], host.type.results⟩ host.type m.store.depth) host.type
      (call m.store h args []) ((call m.store w args [] : Machine σ).run n) := by
    rw [hdirect, hrun]
    exact .runs hs₁ haloof
  have hroom' (k : Nat) : (((call m.store w args [] : Machine σ).run n).run k).starves = false := by
    rw [← run_add]
    exact hroom.goesOn _
  constructor
  · intro k result hend
    rcases hdeeper.run hroom' k with hgoesOn | ⟨j, hj, outcome, hends⟩
    · nomatch hgoesOn.outcome_eq_none.1.symm.trans hend
    obtain ⟨s₂, s₃, hs₃, hstep, hstep'⟩ := hends.step
    rw [← run_succ] at hstep hstep'
    have hlast : (call m.store h args [] : Machine σ).run k = ⟨s₂, .outcome (host.type.hostOutcome outcome), []⟩ := by
      rw [← Nat.add_sub_of_le hj, run_add, hstep, run_of_halted rfl]
    have hgives : Gives (call m.store h args []) host.type outcome := ⟨j, hends.host⟩
    obtain ⟨i', hi', -⟩ := (extends_run_call horderly.store h args k).instances _ _ hi
    rw [hlast] at hend hi' ⊢
    cases hend
    have hi₃ : s₃.instances[f.instance_]? = some i' := by rw [hs₃.instances_eq, hi']
    have hroom₂ (l : Nat) : ((((call m.store w args [] : Machine σ).run n).run (j + 1)).run l).starves = false := by
      rw [← run_add]
      exact hroom' _
    have hfulfils := host.type.fulfils_hostOutcome outcome
    obtain ⟨l, result', b, hreturns, hsame⟩ := run_returns hstep' hroom₂ hfulfils hret hbase hresults hi₃
    obtain ⟨b₃, -, rfl⟩ := hs₃
    refine ⟨⟨outcome, hgives, rfl⟩, hfulfils, n + (j + 1) + l, result', b, ?_, hsame, sameOutcome_taken_iff hsame⟩
    rw [run_add, run_add, hreturns]
    rfl
  · intro hnever k
    by_contra hk
    have hhalted : ((call m.store w args [] : Machine σ).run k).outcome?.isSome = true :=
      Option.isSome_iff_ne_none.mpr hk
    have hlater : ((call m.store w args [] : Machine σ).run n).run k = (call m.store w args [] : Machine σ).run k := by
      rw [← run_add, Nat.add_comm, run_add, run_of_halted hhalted]
    rcases hdeeper.run hroom' k with hgoesOn | ⟨j, -, outcome, hends⟩
    · rw [hlater] at hgoesOn
      exact hk hgoesOn.outcome_eq_none.2
    · obtain ⟨s₂, -, -, hstep, -⟩ := hends.step
      have hnever := hnever (j + 1)
      rw [run_succ, hstep] at hnever
      nomatch hnever

end Reached

/-- **A call that comes to its end has enough of everything**, if nothing is lacked up to there. -/
theorem Ample.of_ends {m : Machine σ} (hstarts : m.control.starved = false) {n : Nat}
    (hends : (m.run n).outcome?.isSome = true) (hroom : ∀ k ≤ n, (m.run k).starves = false) : m.Ample where
  starts := hstarts
  goesOn k := by
    rcases Nat.le_total k n with hle | hle
    · exact hroom k hle
    · rw [← Nat.add_sub_of_le hle, run_add, run_of_halted hends]
      exact hroom n (Nat.le_refl n)

end Machine

/-! ### A reference to nothing -/

/-- The host function that takes its argument for the address of a function. -/
def HostFunc.pointing : HostFunc Unit where
  type := ⟨[.i32], [.ref .funcref]⟩
  body
    | [.i32 w] => .return_ [.ref .funcref (some w)]
    | _ => .return_ []

theorem HostFunc.wellFormed_pointing : pointing.WellFormed := by
  intro args
  unfold pointing
  dsimp only
  split <;> trivial

/-- A module that imports such a function, and has one that forwards its calls. -/
def Module.forwarder : Module :=
  (Module.ofBytes ⟨#[0, 97, 115, 109, 1, 0, 0, 0, 1, 6, 1, 96, 1, 127, 1, 112, 2, 7, 1, 1, 104, 1, 102, 0, 0, 3, 2, 1,
    0, 7, 5, 1, 1, 103, 0, 1, 10, 8, 1, 6, 0, 32, 0, 16, 0, 11]⟩ .all {}).toOption.get (by decide +kernel)

namespace Machine

/-- The machine behind the definition of that host function, which is about to instantiate that module. -/
def defining : Machine Unit :=
  Machine.step ⟨.new 0 {} (), .host none ⟨[], []⟩ (.define HostFunc.pointing.type HostFunc.pointing.body fun _ =>
    .instantiate .forwarder [.func ⟨0, 0⟩] fun _ => .return_ []), []⟩

/-- The machine behind the instantiation. -/
def forwarding : Machine Unit := defining.step

theorem reached_defining : Reached defining [] := by
  refine .step (.program (.empty 0 {} ()) ⟨HostFunc.wellFormed_pointing, fun _ => ?_⟩)
  exact ⟨Module.valid_get _, fun _ => trivial⟩

theorem host_forwarding : forwarding.store.func ⟨0, 0⟩ = .ok (.host .pointing) := by
  obtain ⟨hmoves, -⟩ := reached_defining.orderly.step
  exact (hmoves.toExtends reached_defining.orderly.store).func_eq rfl

theorem forwards_forwarding : ∃ g, forwarding.store.func ⟨0, 1⟩ = .ok (.wasm g) ∧ g.Forwards forwarding.store 0 ∧
    g.type = HostFunc.pointing.type := by
  have hwasm : (forwarding.store.funcs[1]?.bind FuncEntity.wasm?).any (fun g =>
      g.type = HostFunc.pointing.type ∧
        (g.module.source? g.index).map (·.code.map (·.2)) = some (Instruction.forwarding g.type.params.length 0) ∧
        (forwarding.store.instances[g.instance_]?).bind (·.funcs[0]?) = some 0) = true := by decide +kernel
  cases hg : forwarding.store.funcs[1]?.bind FuncEntity.wasm? with
  | none =>
    rw [hg] at hwasm
    cases hwasm
  | some g =>
    rw [hg] at hwasm
    obtain ⟨htype, hcode, hcallee⟩ := of_decide_eq_true hwasm
    obtain ⟨source, hsource, hcode⟩ := Option.map_eq_some_iff.mp hcode
    obtain ⟨i, hi, hcallee⟩ := Option.bind_eq_some_iff.mp hcallee
    have hfunc : forwarding.store.func ⟨0, 1⟩ = .ok (.wasm g) :=
      Store.func_of (by decide +kernel) (FuncEntity.bind_wasm?_eq_some.mp hg)
    exact ⟨g, hfunc, ⟨source, 0, i, hsource, hcode, hi, hcallee⟩, htype⟩

/-- There are two functions in the store, so that 1 is the address of one of them. The host function gives back 2 as
well, but not through the function that forwards its calls. -/
theorem call_forwarded_pointing :
    (∃ n result', ((call forwarding.store ⟨0, 1⟩ [.i32 1#32] [] : Machine Unit).run n).outcome? = some result' ∧
      SameOutcome (.ok [.ref .funcref (some 1#32)]) result') ∧
    ((call forwarding.store ⟨0, 0⟩ [.i32 2#32] [] : Machine Unit).run 1).outcome? =
      some (.ok [.ref .funcref (some 2#32)]) ∧
    ∃ n result', ((call forwarding.store ⟨0, 1⟩ [.i32 2#32] [] : Machine Unit).run n).outcome? = some result' ∧
      ¬SameOutcome (.ok [.ref .funcref (some 2#32)]) result' := by
  obtain ⟨g, hg, hforwards, htype⟩ := forwards_forwarding
  have hclear : forwarding.store.interrupted = false := by decide +kernel
  have hargs : ∀ k < 3, checkCall forwarding.store ⟨0, 0⟩ [.i32 (.ofNat 32 k)] = .ok () := by decide +kernel
  have hdirect : ∀ k < 3, ((call forwarding.store ⟨0, 0⟩ [.i32 (.ofNat 32 k)] [] : Machine Unit).run 1).outcome? =
      some (.ok [.ref .funcref (some (.ofNat 32 k))]) := by decide +kernel
  have howns : ∀ k < 3, (([.ref .funcref (some (.ofNat 32 k))] : List Value).all
      ((call forwarding.store ⟨0, 0⟩ [.i32 (.ofNat 32 k)] [] : Machine Unit).run 1).store.owns = true ↔ k < 2) := by
    decide +kernel
  have hstarts : ∀ k < 3, (call forwarding.store ⟨0, 1⟩ [.i32 (.ofNat 32 k)] [] : Machine Unit).control.starved =
      false := by decide +kernel
  have hends : ∀ k < 3, ((call forwarding.store ⟨0, 1⟩ [.i32 (.ofNat 32 k)] [] : Machine Unit).run 5).outcome?.isSome =
      true := by decide +kernel
  have hroom : ∀ k < 3, ∀ j ≤ 5, ((call forwarding.store ⟨0, 1⟩ [.i32 (.ofNat 32 k)] [] : Machine Unit).run j).starves =
      false := by decide +kernel
  have hreached : Reached forwarding _ := .step reached_defining
  have hcalls : ∀ k < 3, ∃ n result',
      ((call forwarding.store ⟨0, 1⟩ [.i32 (.ofNat 32 k)] [] : Machine Unit).run n).outcome? = some result' ∧
      (SameOutcome (.ok [.ref .funcref (some (.ofNat 32 k))]) result' ↔ k < 2) := by
    intro k hk
    have haloof : (HostFunc.pointing.body [.i32 (.ofNat 32 k)]).Aloof := trivial
    have hroom := Ample.of_ends (hstarts k hk) (hends k hk) (hroom k hk)
    obtain ⟨-, -, n, result', b, hrun, -, hiff⟩ := (hreached.call_forwarded host_forwarding hg hforwards htype haloof
      (hargs k hk) hclear hroom).1 1 _ (hdirect k hk)
    refine ⟨n, result', by rw [hrun]; rfl, hiff.trans ?_⟩
    rw [← howns k hk]
    exact ⟨fun hall => hall _ rfl, fun hall values hvalues => Except.ok.inj hvalues ▸ hall⟩
  obtain ⟨n, result, hrun, hsame⟩ := hcalls 1 (by decide)
  obtain ⟨n', result', hrun', hsame'⟩ := hcalls 2 (by decide)
  exact ⟨⟨n, result, hrun, hsame.mpr (by decide)⟩, hdirect 2 (by decide), n', result', hrun',
    fun h => absurd (hsame'.mp h) (by decide)⟩

end Machine

end WasmEngine
