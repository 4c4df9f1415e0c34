import WasmEngine.Proofs.Structured.Frame
import WasmEngine.Proofs.Validation.Effects

/-!
# Spots in checked code

Between any two instructions of a body that was checked there is a `Spot`: the typing there, the code that lies
ahead, the op that comes next, and for each open block where it starts. The spots of a body are those that one
comes to by going through its code (`TypedBody.Visits`).

Two things are known about the ops of a body. The ops from a spot on are those of the code that lies ahead
(`TypedBody.Visits.ops`), and the targets of branches are spots again (`TypedBody.target_spec`): the start of
a loop (`TypedBody.Begun`, found on the way to the spot), or the end of a block (`TypedBody.Landed`,
found in the code ahead).
-/

namespace WasmEngine

/-! ### Blocks in a sequence of instructions -/

/-- An instruction together with its offset. -/
def TypedInstruction.erase (x : TypedInstruction) : Nat × Instruction := (x.offset, x.instruction)

namespace Instruction

/-- Blocks within a block are left one after the other. -/
theorem behind_add (k depth : Nat) (code : List (Nat × Instruction)) :
    behind (k + depth + 1) code = behind k (behind depth code) := by
  induction code generalizing depth with
  | nil => simp [behind]
  | cons x rest ih =>
    obtain ⟨offset, i⟩ := x
    cases i with
    | block | loop | if_ => exact ih (depth + 1)
    | end_ => cases depth with
      | zero => rfl
      | succ depth => exact ih depth
    | _ => exact ih depth

theorem secondArm_behind (k depth : Nat) (code : List (Nat × Instruction)) :
    secondArm (k + depth + 1) code = secondArm k (behind depth code) := by
  induction code generalizing depth with
  | nil => simp [behind, secondArm]
  | cons x rest ih =>
    obtain ⟨offset, i⟩ := x
    cases i with
    | block | loop | if_ => exact ih (depth + 1)
    | end_ => cases depth with
      | zero => rfl
      | succ depth => exact ih depth
    | _ => exact ih depth

variable {i : Instruction} {offset : Nat} {rest : List (Nat × Instruction)}

theorem behind_flat (hi : i.isFlat = true) (depth : Nat) :
    behind depth ((offset, i) :: rest) = behind depth rest := by
  cases i <;> cases hi <;> rfl

theorem secondArm_flat (hi : i.isFlat = true) (depth : Nat) :
    secondArm depth ((offset, i) :: rest) = secondArm depth rest := by
  cases i <;> cases hi <;> rfl

theorem behind_opens {kind : FrameKind} (hi : i.kind? = some kind) :
    behind 0 ((offset, i) :: rest) = behind 0 (behind 0 rest) := by
  rw [← behind_add]
  cases i <;> cases hi <;> rfl

theorem secondArm_opens {kind : FrameKind} (hi : i.kind? = some kind) :
    secondArm 0 ((offset, i) :: rest) = secondArm 0 (behind 0 rest) := by
  rw [← secondArm_behind]
  cases i <;> cases hi <;> rfl

/-- How many ops an instruction becomes. -/
def width : Instruction → Nat
  | nop | block _ | loop _ | end_ => 0
  | _ => 1

/-- Where the open blocks start, behind an instruction: only loops have a start that matters. -/
def startsAfter (i : Instruction) (pc : Nat) (starts : List (Option Nat)) : List (Option Nat) :=
  match i with
  | block _ | if_ _ => none :: starts
  | loop _ => some pc :: starts
  | end_ => starts.tail
  | _ => starts

/-- The code at the starts of the open blocks, behind an instruction. -/
def headsAfter {α : Type} (i : Instruction) (rest : α) (heads : List α) : List α :=
  match i with
  | block _ | loop _ | if_ _ => rest :: heads
  | end_ => heads.tail
  | _ => heads

theorem startsAfter_flat (hi : i.isFlat = true) (pc : Nat) (starts : List (Option Nat)) :
    i.startsAfter pc starts = starts := by
  cases i <;> cases hi <;> rfl

theorem headsAfter_flat {α : Type} (hi : i.isFlat = true) (rest : α) (heads : List α) :
    i.headsAfter rest heads = heads := by
  cases i <;> cases hi <;> rfl

theorem startsAfter_opens {kind : FrameKind} (hi : i.kind? = some kind) (pc : Nat)
    (starts : List (Option Nat)) : ∃ start, i.startsAfter pc starts = start :: starts := by
  cases i <;> cases hi <;> exact ⟨_, rfl⟩

theorem headsAfter_opens {α : Type} {kind : FrameKind} (hi : i.kind? = some kind) (rest : α)
    (heads : List α) : i.headsAfter rest heads = rest :: heads := by
  cases i <;> cases hi <;> rfl

end Instruction

/-! ### Bodies that were checked -/

/-- **All of the code was checked**, from a typing on up to the end of the body. -/
inductive Typing.Checks (c : Context) (locals : List ValueType) :
    Typing → List TypedInstruction → Nat → Prop
  | last {t : Typing} {offset peak : Nat} : t.step c locals .end_ = .ok (.closed peak) →
    Checks c locals t [⟨offset, .end_, []⟩] peak
  | next {t t' : Typing} {x : TypedInstruction} {rest : List TypedInstruction} {peak : Nat} :
    t.step c locals x.instruction = .ok (.next t' x.reshapes) → Checks c locals t' rest peak →
    Checks c locals t (x :: rest) peak

theorem Typing.run_checks {c : Context} {locals : List ValueType} :
    ∀ {code : List (Nat × Instruction)} {last : Nat} {t : Typing} {typed : List TypedInstruction}
      {peak : Nat}, Typing.run c locals last t code = .ok (typed, peak) →
    t.Checks c locals typed peak ∧ typed.map (·.erase) = code
  | [], _, _, _, _, h => nomatch h
  | (offset, i) :: rest, last, t, typed, peak, h => by
    unfold Typing.run at h
    split at h
    · nomatch h
    · next t' reshapes hstep =>
      obtain ⟨⟨typed', peak'⟩, hrest, h⟩ := bind_eq_ok.mp h
      cases pure_eq_ok.mp h
      obtain ⟨hchecks, hcode⟩ := Typing.run_checks hrest
      exact ⟨.next hstep hchecks, congrArg ((offset, i) :: ·) hcode⟩
    · next hstep =>
      obtain rfl := Typing.step_closed hstep
      split at h
      · cases pure_eq_ok.mp h
        exact ⟨.last hstep, rfl⟩
      · nomatch h

/-! ### Ops of code -/

namespace TypedInstruction

variable (pc : Nat) (starts : List (Option Nat)) (x : TypedInstruction) (rest : List TypedInstruction)

/-- **The ops of code** are those of its first instruction and those of the rest. -/
theorem lower_ops : ∃ head : List (Nat × Op), head.length = x.instruction.width ∧
    (lower pc starts (x :: rest)).1 = head ++
      (lower (pc + x.instruction.width) (x.instruction.startsAfter pc starts) rest).1 := by
  obtain ⟨offset, i, reshapes⟩ := x
  cases i with
  | nop | block | loop | end_ => exact ⟨[], rfl, rfl⟩
  | _ => exact ⟨[_], rfl, rfl⟩

/-- An instruction that has an op gives it its offset. -/
theorem lower_op (hwidth : x.instruction.width = 1) :
    ∃ op ops, (lower pc starts (x :: rest)).1 = (x.offset, op) :: ops := by
  obtain ⟨offset, i, reshapes⟩ := x
  cases i with
  | nop | block | loop | end_ => nomatch hwidth
  | _ => exact ⟨_, _, rfl⟩

theorem lower_flat (hx : x.instruction.isFlat = true) :
    (lower pc starts (x :: rest)).2 = (lower (pc + x.instruction.width) starts rest).2 := by
  obtain ⟨offset, i, reshapes⟩ := x
  cases i <;> cases hx <;> rfl

theorem lower_opens {kind : FrameKind} (hx : x.instruction.kind? = some kind) :
    (lower pc starts (x :: rest)).2 =
      (lower (pc + x.instruction.width) (x.instruction.startsAfter pc starts) rest).2.tail := by
  obtain ⟨offset, i, reshapes⟩ := x
  cases i <;> cases hx <;> rfl

end TypedInstruction

/-! ### Bodies and their spots -/

/-- A body that was checked: what its code can refer to, the types of its parameters and locals and of its
results, and the code. -/
structure TypedBody where
  context : Context
  locals : List ValueType
  results : List ValueType
  code : List TypedInstruction
  peak : Nat
  checks : (Typing.start results).Checks context locals code peak

/-- A place between two instructions: the typing there, the code ahead, the op that comes next, and where the
open blocks start, both as ops and as code. -/
structure Spot where
  typing : Typing
  code : List TypedInstruction
  pc : Nat
  starts : List (Option Nat)
  heads : List (List TypedInstruction)

/-- The block as it is when it is entered. -/
def ControlFrame.entered (f : ControlFrame) : ControlFrame :=
  { f with operands := f.type.params.reverse.map some, unreachable := false }

theorem ControlFrame.Like.entered {f g : ControlFrame} (h : f.Like g) : g.entered = f.entered := by
  obtain ⟨hkind, htype, hbase⟩ := h
  unfold ControlFrame.entered
  cases f
  cases g
  simp_all

/-- A block that has got operands. -/
def ControlFrame.given (f : ControlFrame) (types : List ValueType) : ControlFrame :=
  { f with operands := types.reverse.map some ++ f.operands }

namespace TypedBody

variable (b : TypedBody)

/-- The ops of the code, without the return behind them. -/
def ops : List (Nat × Op) := (TypedInstruction.lower 0 [none] b.code).1

/-- **The spots of a body.** -/
inductive Visits : Spot → Prop
  | start : Visits ⟨.start b.results, b.code, 0, [none], [b.code]⟩
  | next {t t' : Typing} {x : TypedInstruction} {rest : List TypedInstruction} {pc : Nat}
    {starts : List (Option Nat)} {heads : List (List TypedInstruction)} :
    Visits ⟨t, x :: rest, pc, starts, heads⟩ →
    t.step b.context b.locals x.instruction = .ok (.next t' x.reshapes) →
    Visits ⟨t', rest, pc + x.instruction.width, x.instruction.startsAfter pc starts,
      x.instruction.headsAfter rest heads⟩

variable {b} {p : Spot}

/-- The code ahead of a spot was checked. -/
theorem Visits.checks (h : b.Visits p) : p.typing.Checks b.context b.locals p.code b.peak := by
  induction h with
  | start => exact b.checks
  | next _ hstep ih =>
    cases ih with
    | last hlast => nomatch hlast.symm.trans hstep
    | next hstep' hrest =>
      cases hstep'.symm.trans hstep
      exact hrest

/-- **The ops from a spot on** are those of the code ahead. -/
theorem Visits.ops (h : b.Visits p) : p.pc ≤ b.ops.length ∧
    b.ops.drop p.pc = (TypedInstruction.lower p.pc p.starts p.code).1 := by
  induction h with
  | start => exact ⟨Nat.zero_le _, rfl⟩
  | @next t t' x rest pc starts heads _ _ ih =>
    obtain ⟨hle, hdrop⟩ := ih
    obtain ⟨head, hlength, hops⟩ := TypedInstruction.lower_ops pc starts x rest
    rw [hops] at hdrop
    constructor
    · have hlengths := congrArg List.length hdrop
      rw [List.length_drop, List.length_append, hlength] at hlengths
      dsimp only at hle hlengths ⊢
      omega
    · rw [← List.drop_drop, hdrop, ← hlength, List.drop_left]

/-- The op at a spot. -/
theorem Visits.op {op : Nat × Op} {rest : List (Nat × Op)} (h : b.Visits p)
    (hop : (TypedInstruction.lower p.pc p.starts p.code).1 = op :: rest) : b.ops[p.pc]? = some op := by
  rw [← Nat.add_zero p.pc, ← List.getElem?_drop, h.ops.2, hop]
  rfl

/-! ### Heights -/

/-- Each block lies on the operands of those around it. -/
def Based : List ControlFrame → Prop
  | [] => True
  | f :: gs => f.base = (gs.flatMap (·.operands)).length ∧ Based gs

theorem Based.shape {t t' : Typing} {i : Instruction} (h : Based t.frames) (hs : t.Shape i t') :
    Based t'.frames := by
  cases hs with
  | stays _ houter hlike => exact ⟨by rw [hlike.base, houter]; exact h.1, houter ▸ h.2⟩
  | @opens _ kind type t₁ _ _ htakes hframe houter =>
    have hbase : t₁.frame.base = (t.outer.flatMap (·.operands)).length := htakes.like.base.trans h.1
    unfold Typing.frames
    rw [hframe, houter]
    refine ⟨?_, hbase, h.2⟩
    rw [List.flatMap_cons, List.length_append, Typing.height, hbase, Nat.add_comm]
  | switches _ _ _ hframe houter => exact ⟨by rw [hframe, houter]; exact h.1, houter ▸ h.2⟩
  | closes _ _ _ houter hframe houter' =>
    obtain ⟨-, hbase⟩ := h
    rw [houter] at hbase
    exact ⟨by rw [hframe, houter']; exact hbase.1, houter' ▸ hbase.2⟩

theorem Based.drop {frames : List ControlFrame} (h : Based frames) : ∀ n, Based (frames.drop n) := by
  induction frames with
  | nil => exact fun n => by rwa [List.drop_nil]
  | cons f gs ih =>
    intro n
    cases n with
    | zero => exact h
    | succ n => exact ih h.2 n

theorem Visits.based (h : b.Visits p) : Based p.typing.frames := by
  induction h with
  | start => exact ⟨rfl, trivial⟩
  | next _ hstep ih => exact ih.shape (Typing.step_shape hstep)

/-- The height of the stack is the number of all operands. -/
theorem Based.height {t : Typing} (h : Based t.frames) : t.height = t.operands.length := by
  rw [Typing.height, h.1, Typing.operands, Typing.frames, List.flatMap_cons, List.length_append,
    Nat.add_comm]

/-! ### Where blocks start -/

variable (b) in
/-- **The open blocks have begun**: a loop has its start at a spot, where its parameters are on the stack. The
outermost block is the body. -/
inductive Begun : List ControlFrame → List (Option Nat) → List (List TypedInstruction) → Prop
  | body {f : ControlFrame} {head : List TypedInstruction} :
    f.kind = .body → f.type = ⟨[], b.results⟩ → Begun [f] [none] [head]
  | loop {f : ControlFrame} {gs : List ControlFrame} {t : Typing} {pc : Nat} {starts : List (Option Nat)}
    {head : List TypedInstruction} {heads : List (List TypedInstruction)} :
    f.kind = .loop → t.frame = f.entered → t.outer = gs →
    b.Visits ⟨t, head, pc, some pc :: starts, head :: heads⟩ → Begun gs starts heads →
    Begun (f :: gs) (some pc :: starts) (head :: heads)
  | block {f : ControlFrame} {gs : List ControlFrame} {starts : List (Option Nat)}
    {head : List TypedInstruction} {heads : List (List TypedInstruction)} :
    f.kind ≠ .loop → f.kind ≠ .body → Begun gs starts heads →
    Begun (f :: gs) (none :: starts) (head :: heads)

theorem Begun.ne_nil {frames : List ControlFrame} {starts : List (Option Nat)}
    {heads : List (List TypedInstruction)} (h : b.Begun frames starts heads) : frames ≠ [] := by
  cases h <;> exact List.cons_ne_nil _ _

/-- A block that is in no other is the body. -/
theorem Begun.single {f : ControlFrame} {starts : List (Option Nat)}
    {heads : List (List TypedInstruction)} (h : b.Begun [f] starts heads) :
    f.kind = .body ∧ starts = [none] ∧ ∃ head, heads = [head] := by
  cases h with
  | body hkind => exact ⟨hkind, rfl, _, rfl⟩
  | loop _ _ _ _ h => exact (h.ne_nil rfl).elim
  | block _ _ h => exact (h.ne_nil rfl).elim

theorem Begun.single_type {f : ControlFrame} {starts : List (Option Nat)}
    {heads : List (List TypedInstruction)} (h : b.Begun [f] starts heads) : f.type = ⟨[], b.results⟩ := by
  cases h with
  | body _ htype => exact htype
  | loop _ _ _ _ h => exact (h.ne_nil rfl).elim
  | block _ _ h => exact (h.ne_nil rfl).elim

theorem Begun.drop {frames : List ControlFrame} {starts : List (Option Nat)}
    {heads : List (List TypedInstruction)} (h : b.Begun frames starts heads) :
    ∀ n, frames.drop n ≠ [] → b.Begun (frames.drop n) (starts.drop n) (heads.drop n) := by
  induction h with
  | body hkind htype =>
    intro n hn
    cases n with
    | zero => exact .body hkind htype
    | succ n => exact absurd List.drop_nil hn
  | loop hkind hframe houter hv h ih =>
    intro n hn
    cases n with
    | zero => exact .loop hkind hframe houter hv h
    | succ n => exact ih n hn
  | block hloop hbody h ih =>
    intro n hn
    cases n with
    | zero => exact .block hloop hbody h
    | succ n => exact ih n hn

/-- The outermost block is the body. -/
theorem Begun.results {t : Typing} {starts : List (Option Nat)} {heads : List (List TypedInstruction)}
    (h : b.Begun t.frames starts heads) : t.results = b.results := by
  obtain ⟨f, gs, peak⟩ := t
  change b.Begun (f :: gs) starts heads at h
  change (gs.getLastD f).type.results = b.results
  induction gs generalizing f starts heads with
  | nil => rw [List.getLastD_nil, h.single_type]
  | cons g gs ih =>
    rw [List.getLastD_cons]
    cases h with
    | loop _ _ _ _ h => exact ih _ h
    | block _ _ h => exact ih _ h

theorem Begun.start_eq_none {f : ControlFrame} {gs : List ControlFrame} {start : Option Nat}
    {starts : List (Option Nat)} {heads : List (List TypedInstruction)}
    (h : b.Begun (f :: gs) (start :: starts) heads) (hkind : f.kind ≠ .loop) : start = none := by
  cases h with
  | body | block => rfl
  | loop hloop => exact absurd hloop hkind

theorem Begun.cons_cons {f : ControlFrame} {gs : List ControlFrame} {starts : List (Option Nat)}
    {heads : List (List TypedInstruction)} (h : b.Begun (f :: gs) starts heads) :
    ∃ start starts' head heads', starts = start :: starts' ∧ heads = head :: heads' := by
  cases h <;> exact ⟨_, _, _, _, rfl, rfl⟩

theorem Begun.like {f g : ControlFrame} {gs : List ControlFrame} {starts : List (Option Nat)}
    {heads : List (List TypedInstruction)} (h : b.Begun (f :: gs) starts heads) (hlike : f.Like g) :
    b.Begun (g :: gs) starts heads := by
  cases h with
  | body hkind htype => exact .body (hlike.kind.trans hkind) (hlike.type.trans htype)
  | loop hkind hframe houter hv h =>
    exact .loop (hlike.kind.trans hkind) (hframe.trans hlike.entered.symm) houter hv h
  | block hloop hbody h => exact .block (hlike.kind ▸ hloop) (hlike.kind ▸ hbody) h

theorem Visits.begun (h : b.Visits p) : b.Begun p.typing.frames p.starts p.heads := by
  induction h with
  | start => exact .body rfl rfl
  | @next t t' x rest pc starts heads hv hstep ih =>
    have hshape := Typing.step_shape hstep
    have hv' := hv.next hstep
    obtain ⟨offset, i, reshapes⟩ := x
    dsimp only at hshape hv' ih ⊢
    cases hshape with
    | stays hi houter hlike =>
      have h := ih.like hlike
      rw [← houter] at h
      rwa [Instruction.startsAfter_flat hi, Instruction.headsAfter_flat hi]
    | @opens _ kind type t₁ _ hkind htakes hframe houter =>
      have h := ih.like htakes.like
      unfold Typing.frames
      rw [hframe, houter]
      cases i with
      | block | if_ =>
        cases hkind
        exact .block nofun nofun h
      | loop =>
        cases hkind
        exact .loop (t := t') rfl hframe houter hv' h
      | _ => nomatch hkind
    | switches hkind _ _ hframe houter =>
      unfold Typing.frames
      rw [hframe, houter]
      obtain ⟨f, gs, peak⟩ := t
      change b.Begun (f :: gs) starts heads at ih
      cases ih with
      | body hbody => nomatch hkind.symm.trans hbody
      | loop hloop => nomatch hkind.symm.trans hloop
      | block _ _ h => exact .block nofun nofun h
    | @closes g gs t₁ _ _ _ _ houter hframe houter' =>
      unfold Typing.frames
      rw [hframe, houter']
      have hframes : t.frames = t.frame :: g :: gs := congrArg (t.frame :: ·) houter
      rw [hframes] at ih
      have hlike : g.Like { g with operands := t.frame.type.results.reverse.map some ++ g.operands } :=
        ⟨rfl, rfl, rfl⟩
      cases ih with
      | loop _ _ _ _ h => exact h.like hlike
      | block _ _ h => exact h.like hlike

/-! ### Where blocks end -/

variable (b) in
/-- **Where a block ends**, within others: behind the code of the body, or at a spot, where its results are on
the stack. -/
inductive Closes (f : ControlFrame) : List ControlFrame → List (Option Nat) →
    List (List TypedInstruction) → Nat → List (Nat × Instruction) → Prop
  | exit : Closes f [] [] [] b.ops.length []
  | spot {g : ControlFrame} {gs : List ControlFrame} {t : Typing} {pc : Nat}
    {starts : List (Option Nat)} {heads : List (List TypedInstruction)} {rest : List TypedInstruction} :
    t.frame = g.given f.type.results → t.outer = gs → b.Visits ⟨t, rest, pc, starts, heads⟩ →
    Closes f (g :: gs) starts heads pc (rest.map (·.erase))

variable (b) in
/-- **Where the second arm of a conditional starts**: at a spot, where its parameters are on the stack. Without
one, its parameters are its results. -/
inductive Turns (f : ControlFrame) (gs : List ControlFrame) (starts : List (Option Nat))
    (heads : List (List TypedInstruction)) : Option Nat → Option (List (Nat × Instruction)) → Prop
  | arm {t : Typing} {pc : Nat} {rest : List TypedInstruction} :
    t.frame = { f.entered with kind := .elseArm } → t.outer = gs →
    b.Visits ⟨t, rest, pc, none :: starts, heads⟩ →
    Turns f gs starts heads (some pc) (some (rest.map (·.erase)))
  | none : f.type.params = f.type.results → Turns f gs starts heads none none

variable (b) in
/-- **The landings of the open blocks are right**, given the code ahead. -/
inductive Landed : List (Nat × Instruction) → List ControlFrame → List (Option Nat) →
    List (List TypedInstruction) → List Landing → Prop
  | nil {code : List (Nat × Instruction)} : Landed code [] [] [] []
  | cons {code : List (Nat × Instruction)} {f : ControlFrame} {gs : List ControlFrame}
    {start : Option Nat} {starts : List (Option Nat)} {head : List TypedInstruction}
    {heads : List (List TypedInstruction)} {landing : Landing} {landings : List Landing} :
    b.Closes f gs starts heads landing.close (Instruction.behind 0 code) →
    (f.kind = .ifArm → b.Turns f gs starts (head :: heads) landing.arm (Instruction.secondArm 0 code)) →
    Landed (Instruction.behind 0 code) gs starts heads landings →
    Landed code (f :: gs) (start :: starts) (head :: heads) (landing :: landings)

theorem Closes.congr {f g : ControlFrame} (htype : g.type = f.type) {gs : List ControlFrame}
    {starts : List (Option Nat)} {heads : List (List TypedInstruction)} {pc : Nat}
    {code : List (Nat × Instruction)} (h : b.Closes f gs starts heads pc code) :
    b.Closes g gs starts heads pc code := by
  cases h with
  | exit => exact .exit
  | spot hframe houter hv => exact .spot (hframe.trans (by rw [htype])) houter hv

theorem Turns.like {f g : ControlFrame} (hlike : f.Like g) {gs : List ControlFrame}
    {starts : List (Option Nat)} {heads : List (List TypedInstruction)} {arm : Option Nat}
    {second : Option (List (Nat × Instruction))} (h : b.Turns f gs starts heads arm second) :
    b.Turns g gs starts heads arm second := by
  cases h with
  | arm hframe houter hv => exact .arm (hframe.trans (by rw [hlike.entered])) houter hv
  | none heq => exact .none (by rw [hlike.type, heq])

/-- Landings depend only on what blocks are open and on the code behind them. -/
theorem Landed.congr {code code' : List (Nat × Instruction)} {f g : ControlFrame}
    {gs : List ControlFrame} {starts : List (Option Nat)} {heads : List (List TypedInstruction)}
    {landings : List Landing} (hbehind : Instruction.behind 0 code' = Instruction.behind 0 code)
    (hsecond : Instruction.secondArm 0 code' = Instruction.secondArm 0 code) (hlike : f.Like g)
    (h : b.Landed code (f :: gs) starts heads landings) :
    b.Landed code' (g :: gs) starts heads landings := by
  cases h with
  | cons hclose harm h =>
    refine .cons ?_ (fun hkind => ?_) ?_
    · rw [hbehind]
      exact hclose.congr hlike.type
    · rw [hsecond]
      exact (harm (hlike.kind ▸ hkind)).like hlike
    · rwa [hbehind]

/-- **The landings found in the code ahead are right.** -/
theorem Visits.landed (h : b.Visits p) : b.Landed (p.code.map (·.erase)) p.typing.frames p.starts p.heads
    (TypedInstruction.lower p.pc p.starts p.code).2 := by
  obtain ⟨t, code, pc, starts, heads⟩ := p
  have hchecks := h.checks
  dsimp only at hchecks ⊢
  -- the induction is on the code ahead, at whatever op it starts
  generalize hpeak : b.peak = peak at hchecks
  induction hchecks generalizing pc starts heads with
  | @last t offset peak hlast =>
    obtain ⟨-, -, -, -, ⟨houter, -⟩ | ⟨_, _, _, _, hp, -⟩⟩ := Typing.close_spec hlast
    · have hbegun := h.begun
      have hframes : t.frames = [t.frame] := congrArg (t.frame :: ·) houter
      rw [hframes] at hbegun ⊢
      have hpc : pc = b.ops.length := by
        have hdrop : (b.ops.drop pc).length = 0 := congrArg List.length h.ops.2
        have hle : pc ≤ b.ops.length := h.ops.1
        rw [List.length_drop] at hdrop
        omega
      obtain ⟨hkind, rfl, head, rfl⟩ := hbegun.single
      exact .cons (hpc ▸ .exit) (fun hif => by cases hkind.symm.trans hif) .nil
    · cases hp
  | @next t t' x rest peak hstep hrest ih =>
    have hv := h.next hstep
    have ih := ih _ _ _ hv hpeak
    have hshape := Typing.step_shape hstep
    have hbegun := h.begun
    obtain ⟨offset, i, reshapes⟩ := x
    dsimp only at hv ih hshape
    cases hshape with
    | stays hi houter hlike =>
      rw [Instruction.startsAfter_flat hi, Instruction.headsAfter_flat hi] at ih
      rw [TypedInstruction.lower_flat _ _ _ _ hi]
      have hframes : t'.frames = t'.frame :: t.outer := congrArg (t'.frame :: ·) houter
      rw [hframes] at ih
      exact ih.congr (Instruction.behind_flat hi 0) (Instruction.secondArm_flat hi 0) hlike.symm
    | @opens _ kind type t₁ _ hkind htakes hframe houter =>
      obtain ⟨start, hstart⟩ := Instruction.startsAfter_opens hkind pc starts
      rw [TypedInstruction.lower_opens _ _ _ _ hkind]
      have hframes : t'.frames = t'.frame :: t₁.frame :: t.outer := congrArg (t'.frame :: ·) houter
      rw [Instruction.headsAfter_opens hkind, hframes] at ih
      dsimp only at ih ⊢
      rw [hstart] at ih ⊢
      generalize (TypedInstruction.lower (pc + i.width) (start :: starts) rest).2 = landings at ih ⊢
      cases ih with
      | cons _ _ ih =>
        exact ih.congr (Instruction.behind_opens hkind) (Instruction.secondArm_opens hkind) htakes.like.symm
    | switches hkind _ _ hframe houter =>
      have hframes : t'.frames = { t.frame.entered with kind := .elseArm } :: t.outer := by
        rw [Typing.frames, hframe, houter]
        rfl
      rw [hframes] at ih
      change b.Landed _ _ starts heads (TypedInstruction.lower (pc + 1) starts rest).2 at ih
      change b.Landed _ (t.frame :: t.outer) starts heads
        (⟨((TypedInstruction.lower (pc + 1) starts rest).2.head?.map (·.close)).getD 0, some (pc + 1)⟩ ::
          (TypedInstruction.lower (pc + 1) starts rest).2.tail)
      generalize (TypedInstruction.lower (pc + 1) starts rest).2 = landings at ih ⊢
      generalize hcode : rest.map (·.erase) = code at ih
      cases ih with
      | @cons _ _ _ start starts head heads landing landings hclose _ ih =>
        have hbehind : Instruction.behind 0 (((⟨offset, .else_, reshapes⟩ : TypedInstruction) :: rest).map
            (·.erase)) = Instruction.behind 0 code := hcode ▸ rfl
        refine .cons ?_ (fun _ => ?_) ?_
        · rw [hbehind]
          refine Closes.congr ?_ hclose
          rfl
        · obtain rfl := hbegun.start_eq_none fun hloop => by cases hkind.symm.trans hloop
          have harm : b.Turns t.frame t.outer starts (head :: heads) (some (pc + 1)) (some (rest.map (·.erase))) :=
            .arm hframe houter hv
          exact harm
        · rwa [hbehind]
    | @closes g gs t₁ _ hif _ _ houter hframe houter' =>
      have hframes : t.frames = t.frame :: g :: gs := congrArg (t.frame :: ·) houter
      have hframes' : t'.frames = g.given t.frame.type.results :: gs := by
        rw [Typing.frames, hframe, houter']
        rfl
      rw [hframes'] at ih
      rw [hframes] at hbegun ⊢
      obtain ⟨start, starts, head, heads, rfl, rfl⟩ := hbegun.cons_cons
      have hlike : (g.given t.frame.type.results).Like g := ⟨rfl, rfl, rfl⟩
      refine .cons (.spot hframe houter' hv) (fun hkind => .none (hif hkind)) ?_
      exact ih.congr rfl rfl hlike

/-! ### Where branches lead -/

variable (b) in
/-- **Where a branch to a label leads**: to the start of a loop, or to the end of another block. -/
inductive Leads (frames : List ControlFrame) (starts : List (Option Nat))
    (heads : List (List TypedInstruction)) (code : List (Nat × Instruction)) (label : Nat)
    (f : ControlFrame) (pc : Nat) : Prop
  | loop {t : Typing} {head : List TypedInstruction} : f.kind = .loop → heads[label]? = some head →
    t.frame = f.entered → t.outer = frames.drop (label + 1) →
    b.Visits ⟨t, head, pc, starts.drop label, heads.drop label⟩ →
    Leads frames starts heads code label f pc
  | close : f.kind ≠ .loop →
    b.Closes f (frames.drop (label + 1)) (starts.drop (label + 1)) (heads.drop (label + 1)) pc
      (Instruction.behind label code) →
    Leads frames starts heads code label f pc

/-- **The target of a branch is where its label leads.** -/
theorem target_spec {frames : List ControlFrame} {starts : List (Option Nat)}
    {heads : List (List TypedInstruction)} {code : List (Nat × Instruction)} {landings : List Landing}
    {label : Nat} {f : ControlFrame} (hbegun : b.Begun frames starts heads)
    (hlanded : b.Landed code frames starts heads landings) (hf : frames[label]? = some f) :
    b.Leads frames starts heads code label f (labelTarget starts landings label) := by
  induction label generalizing frames starts heads code landings with
  | zero =>
    cases hlanded with
    | nil => nomatch hf
    | cons hclose _ _ =>
      cases hf
      cases hbegun with
      | body hkind => exact .close (hkind ▸ nofun) hclose
      | loop hkind hframe houter hv _ => exact .loop hkind rfl hframe houter hv
      | block hkind _ _ => exact .close hkind hclose
  | succ label ih =>
    cases hlanded with
    | nil => nomatch hf
    | @cons _ g gs start starts head heads landing landings _ _ hlanded =>
      rw [List.getElem?_cons_succ] at hf
      have hbegun' : b.Begun gs starts heads := by
        cases hbegun with
        | body => nomatch hf
        | loop _ _ _ _ h => exact h
        | block _ _ h => exact h
      have hleads := ih hbegun' hlanded hf
      change b.Leads _ _ _ _ _ f (labelTarget starts landings label)
      cases hleads with
      | loop hkind hhead hframe houter hv => exact .loop hkind hhead hframe houter hv
      | close hkind hclose =>
        rw [← Instruction.behind_add label 0] at hclose
        exact .close hkind hclose

/-! ### Bodies from validation -/

/-- **What comes of checking a body.** -/
theorem of_compile {c : Context} {func : Nat} {body : FunctionBody} {compiled : CompiledBody}
    (h : body.compile c func = .ok compiled) :
    ∃ (type : FuncType) (b : TypedBody), c.func func = .ok type ∧ b.context = c ∧
      b.locals = type.params ++ body.locals ∧ b.results = type.results ∧
      b.code.map (·.erase) = body.code ∧ compiled = .ofTyped body.locals b.code b.peak := by
  unfold FunctionBody.compile at h
  split at h
  · nomatch h
  next type htype =>
  split at h
  · nomatch h
  next typed peak hrun =>
  cases h
  obtain ⟨hchecks, hcode⟩ := Typing.run_checks hrun
  exact ⟨type, ⟨c, type.params ++ body.locals, type.results, typed, peak, hchecks⟩, htype, rfl, rfl, rfl,
    hcode, rfl⟩

end TypedBody

end WasmEngine
