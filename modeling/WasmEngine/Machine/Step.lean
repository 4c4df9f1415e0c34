import WasmEngine.Host.Signature
import WasmEngine.Machine.Exec
import WasmEngine.Store.Request

/-!
# The machine

A `Machine` is a store with what goes on in it: either WebAssembly code runs (`Control.guest`), or a host
function (`Control.host`), or a call has ended and its outcome is on the way to whoever waits for it
(`Control.outcome`). Those who wait are on a list, the innermost first: calls of WebAssembly functions that
called host functions, host functions that made calls of their own, and instantiations whose start
functions run.

`Machine.step` makes one step, and the machine halts with an outcome that nobody waits for. Host functions can call
back to any depth, but the machine itself never recurses. `Store.complete` does in a store what ends with an
outcome, such as a call.

What an active function consists of is left open (`Activation`): the machine only asks it to start, to run up to
its next effect, and to go on behind a call. A `Frame`, which is what runs unless something else is said, is at an op
of the executable form of its body.
-/

namespace WasmEngine

/-! ### Active functions -/

/-- What an active function does next: it goes on by itself, calls the function at an address and waits for it, or
returns. -/
inductive Transfer (φ : Type) where
  | go (frame : φ)
  | call (addr : Nat) (frame : φ)
  | ret

/-- What it takes to be an active WebAssembly function: it starts with its locals at a position of the operand stack,
belongs to an instance, has a line in a stack trace, runs, and goes on behind a call that it made. -/
class Activation (φ : Type) where
  start (func : WasmFunc) (body : CompiledBody) (base : Nat) : φ
  instance_ : φ → Nat
  trace : φ → TraceFrame
  exec {σ : Type} : φ → Exec σ (Transfer φ)
  resume : φ → φ

/-- The surroundings of a function that starts, whose locals begin at a position of the operand stack. -/
def Scope.start (f : WasmFunc) (base : Nat) : Scope where
  module := f.module
  func := f.index
  instance_ := f.instance_
  base
  results := f.type.results.length

namespace Frame

/-- The frame of a function that starts. -/
def start (f : WasmFunc) (body : CompiledBody) (base : Nat) : Frame where
  toScope := .start f base
  body
  pc := 0

/-- The frame at another op. -/
def goto (f : Frame) (pc : Nat) : Frame := { f with pc }

/-- What running the op that the frame is at leads to. -/
def transfer (f : Frame) : Flow → Transfer Frame
  | .next => .go (f.goto (f.pc + 1))
  | .goto pc => .go (f.goto pc)
  | .call addr => .call addr f
  | .ret => .ret

instance : Activation Frame where
  start := start
  instance_ f := f.instance_
  trace := trace
  exec f := f.transfer <$> f.exec
  resume f := f.goto (f.pc + 1)

end Frame

/-! ### States of the machine -/

/-- A call of a WebAssembly function by the embedder or by a host function: its operand stack, its active frames,
the innermost first, and the types of what it returns. -/
structure Invocation (φ : Type := Frame) where
  stack : Stack
  frames : List φ
  types : List ValueType

namespace Invocation

variable {φ : Type} [Activation φ]

/-- The stack trace of an invocation. -/
def trace (inv : Invocation φ) : List TraceFrame := inv.frames.map Activation.trace

/-- Go on behind the call that the innermost frame made. -/
def resume (inv : Invocation φ) : Invocation φ :=
  { inv with frames := match inv.frames with
      | f :: rest => Activation.resume f :: rest
      | [] => [] }

/-- The values at the bottom of the stack, which are what the invocation returns at its end. -/
def values (inv : Invocation φ) : List Value :=
  List.zipWith Value.ofCell inv.types inv.stack.cells.toList

end Invocation

/-- What goes on in a store. A running host function has the address of the instance that called it, if one
did. -/
inductive Control (σ : Type) (φ : Type := Frame) where
  | guest (invocation : Invocation φ)
  | host (caller : Option Nat) (type : FuncType) (program : HostProgram σ)
  | outcome (result : Except Error (List Value))

/-- Who waits for an outcome. An invocation waits for a host function of the given signature, and the
depth of the store is to be put back to what it was. -/
inductive Waiting (σ : Type) (φ : Type := Frame) where
  | guest (invocation : Invocation φ) (type : FuncType) (depth : Nat)
  | host (caller : Option Nat) (type : FuncType)
      (next : Except Error (List Value) → HostProgram σ)
  | start (place : Nat)

/-- A store with what goes on in it, and who waits for the outcome. -/
structure Machine (σ : Type) (φ : Type := Frame) where
  store : Store σ
  control : Control σ φ
  waiting : List (Waiting σ φ) := []

/-- What a host function gave back, once it is checked against the signature. A failure becomes a trap. -/
def FuncType.hostOutcome (t : FuncType) (outcome : Except Error (List Value)) :
    Except Error (List Value) :=
  match outcome with
  | .ok values => match checkResults values t.results with
    | .ok () => .ok values
    | .error fault => .error (.ofHostFailure ⟨.value fault, {}⟩)
  | .error (.failure f) => .error (.ofHostFailure f)
  | .error (.trap t place) => .error (.trap t place)

/-- Start a frame for a function whose arguments are on top of the stack. There must be room for another
frame and for its locals and operands. -/
def Invocation.enter {σ φ : Type} [Activation φ] (inv : Invocation φ) (f : WasmFunc) :
    StoreM σ (Invocation φ) := fun s =>
  let depth := s.depth + inv.frames.length
  if s.config.maxCallDepth ≤ depth then .error (.ofCode .stackOverflow) s
  else match f.module.body? f.index with
    | none => .error (.ofFault (.runtime (.noBody f.index))) s
    | some body =>
      let height := inv.stack.height
      if height < f.type.params.length then .error (.ofFault (.runtime .missingArguments)) s
      else if s.config.maxValueStack < height + body.locals.length + body.maxHeight then
        .error (.ofCode .stackOverflow) s
      else
        let stack := inv.stack.pushZeros body.locals.length
        let stats := { s.stats with functionCalls := s.stats.functionCalls + 1 }
        let frame : φ := Activation.start f body (height - f.type.params.length)
        .ok { inv with stack, frames := frame :: inv.frames }
          { s with stats := stats.record (depth + 1) stack.height }

namespace Machine

variable {σ φ : Type} [Activation φ]

/-! ### Calls -/

/-- An invocation ends with an error, to which it adds its stack trace. -/
def fail (s : Store σ) (inv : Invocation φ) (e : Error) (waiting : List (Waiting σ φ)) : Machine σ φ :=
  ⟨s, .outcome (.error (e.addFrames inv.trace)), waiting⟩

/-- Run a host function that an invocation called, with its arguments from the top of the stack. -/
def callHost (s : Store σ) (inv : Invocation φ) (f : HostFunc σ) (waiting : List (Waiting σ φ)) :
    Machine σ φ :=
  let height := inv.stack.height
  let count := f.type.params.length
  if height < count then fail s inv (.ofFault (.runtime .missingArguments)) waiting
  else
    let (stack, cells) := inv.stack.splitAt (height - count)
    let args := List.zipWith Value.ofCell f.type.params cells
    let depth := s.depth
    let caller := inv.frames.head?.map Activation.instance_
    let s := { s with
      stats.hostCalls := s.stats.hostCalls + 1
      depth := depth + inv.frames.length }
    ⟨s, .host caller f.type (f.body args), .guest { inv with stack } f.type depth :: waiting⟩

/-- Call the function at an address, whose arguments are on top of the stack of an invocation. Every call
polls the interrupt flag. -/
def callFrom (s : Store σ) (inv : Invocation φ) (addr : Nat) (waiting : List (Waiting σ φ)) :
    Machine σ φ :=
  match Store.pollInterrupt s with
  | .error e s => fail s inv e waiting
  | .ok () s => match s.funcs[addr]? with
    | none => fail s inv (.ofFault (.runtime (.unknown .funcAddress addr))) waiting
    | some (.wasm f) => match inv.enter f s with
      | .ok inv s => ⟨s, .guest inv, waiting⟩
      | .error e s => fail s inv e waiting
    | some (.host f) => callHost s inv f waiting

/-- Call the function at an address with arguments that are known to fit. -/
def invoke (s : Store σ) (addr : Nat) (args : List Value) (waiting : List (Waiting σ φ)) :
    Machine σ φ :=
  match s.funcs[addr]? with
  | none => ⟨s, .outcome (.error (.ofFault (.runtime (.unknown .funcAddress addr)))), waiting⟩
  | some (.host f) => match Store.pollInterrupt s with
    | .error e s => ⟨s, .outcome (.error e), waiting⟩
    | .ok () s =>
      let s := { s with stats.hostCalls := s.stats.hostCalls + 1 }
      ⟨s, .host none f.type (f.body args), waiting⟩
  | some (.wasm f) =>
    let inv : Invocation φ := ⟨⟨(args.map Value.toCell).toArray⟩, [], f.type.results⟩
    callFrom s inv addr waiting

/-- Arguments fit a function in number and type, and refer to nothing outside of its store. -/
def checkCall (s : Store σ) (h : Handle .func) (args : List Value) : Except Error Unit := do
  let type := (← s.func h).type
  match checkArguments args type.params with
  | .error fault => throw (.ofFault (.value fault))
  | .ok () => (args.zip type.params).forM fun (v, t) => do
    let _ ← s.toCell v t

/-- Call a function. Arguments that do not fit are refused, and nothing runs. -/
def call (s : Store σ) (h : Handle .func) (args : List Value) (waiting : List (Waiting σ φ)) :
    Machine σ φ :=
  match checkCall s h args with
  | .error e => ⟨s, .outcome (.error e), waiting⟩
  | .ok () => invoke s h.index args waiting

/-- Instantiate a module. If it has a start function, that runs last. The outcome holds no values. -/
def instantiate (s : Store σ) (m : Module) (entities : List Extern) (waiting : List (Waiting σ φ)) :
    Machine σ φ :=
  let place := s.instances.size
  match Store.instantiate m entities s with
  | .error e s => ⟨s, .outcome (.error e), waiting⟩
  | .ok none s => ⟨s, .outcome (.ok []), waiting⟩
  | .ok (some addr) s => invoke s addr [] (.start place :: waiting)

/-! ### Steps -/

/-- Run an invocation up to its next effect. -/
def stepGuest (s : Store σ) (inv : Invocation φ) (waiting : List (Waiting σ φ)) : Machine σ φ :=
  match inv with
  | ⟨stack, [], types⟩ => ⟨s, .outcome (.ok (Invocation.values (φ := φ) ⟨stack, [], types⟩)), waiting⟩
  | ⟨stack, f :: rest, types⟩ => match Activation.exec f ⟨s, stack⟩ with
    | .error e ⟨s, stack⟩ => fail s ⟨stack, f :: rest, types⟩ e waiting
    | .ok transfer ⟨s, stack⟩ => match transfer with
      | .go f => ⟨s, .guest ⟨stack, f :: rest, types⟩, waiting⟩
      | .call addr f => callFrom s ⟨stack, f :: rest, types⟩ addr waiting
      | .ret => match rest with
        | [] => ⟨s, .outcome (.ok (Invocation.values (φ := φ) ⟨stack, [], types⟩)), waiting⟩
        | _ :: _ => ⟨s, .guest (Invocation.resume ⟨stack, rest, types⟩), waiting⟩

/-- The first memory of the instance that called a host function. -/
def callerMemory? (s : Store σ) (caller : Option Nat) : Option Nat := do
  (← s.instances[← caller]?).memories[0]?

/-- The result and the store of a computation. -/
def settle {α : Type} : EStateM.Result Error (Store σ) α → Except Error α × Store σ
  | .ok a s => (.ok a, s)
  | .error e s => (.error e, s)

/-- Answer one request of a host function, or take its outcome. -/
def stepHost (s : Store σ) (caller : Option Nat) (type : FuncType) (p : HostProgram σ)
    (waiting : List (Waiting σ φ)) : Machine σ φ :=
  let noMemory : Error := .ofFault (.lookup .noMemory)
  let handle (addr : Nat) : Handle .memory := ⟨s.id, addr⟩
  match p with
  | .finish outcome => ⟨s, .outcome (type.hostOutcome outcome), waiting⟩
  | .update change next => ⟨{ s with state := change s.state }, .host caller type next, waiting⟩
  | .inspect next => ⟨s, .host caller type (next s.state), waiting⟩
  | .caller next => ⟨s, .host caller type (next (caller.map (⟨s.id, ·⟩))), waiting⟩
  | .memorySize next =>
    let size := do return (← s.memories[← callerMemory? s caller]?).memory.bytes.size
    ⟨s, .host caller type (next size), waiting⟩
  | .readMemory start length next => match callerMemory? s caller with
    | none => ⟨s, .host caller type (next (.error noMemory)), waiting⟩
    | some addr =>
      let (reply, s) := settle (Store.readMemory (handle addr) start length s)
      ⟨s, .host caller type (next reply), waiting⟩
  | .writeMemory start bytes next => match callerMemory? s caller with
    | none => ⟨s, .host caller type (next (.error noMemory)), waiting⟩
    | some addr =>
      let (reply, s) := settle (Store.writeMemory (handle addr) start bytes s)
      ⟨s, .host caller type (next reply), waiting⟩
  | .operate request next =>
    let (reply, s) := settle (Store.perform request s)
    ⟨s, .host caller type (next reply), waiting⟩
  | .define funcType body next =>
    let (reply, s) := settle (Store.newFunc ⟨funcType, body⟩ s)
    ⟨s, .host caller type (next reply), waiting⟩
  | .call h args next => call s h args (.host caller type next :: waiting)
  | .instantiate m entities next =>
    let h : InstanceHandle := ⟨s.id, s.instances.size⟩
    instantiate s m entities (.host caller type (fun r => next (r.map fun _ => h)) :: waiting)

/-- Put the results of a host function on the stack of the invocation that called it. They have to belong to
the store. -/
def pushResults (s : Store σ) : List Value → List ValueType → Stack → Except Error Stack
  | v :: vs, t :: ts, stack => match s.toCell v t with
    | .ok c => pushResults s vs ts (stack.push c)
    | .error (.failure f) => .error (.ofHostFailure f)
    | .error e => .error e
  | _, _, stack => .ok stack

/-- Hand an outcome to who waits for it. -/
def deliver (s : Store σ) (result : Except Error (List Value)) (w : Waiting σ φ)
    (waiting : List (Waiting σ φ)) : Machine σ φ :=
  match w with
  | .host caller type next => ⟨s, .host caller type (next result), waiting⟩
  | .start place => match result with
    | .ok values => ⟨s, .outcome (.ok values), waiting⟩
    | .error e => ⟨s.release place, .outcome (.error e), waiting⟩
  | .guest inv type depth =>
    let s := { s with depth }
    match result with
    | .error e => fail s inv e waiting
    | .ok values => match pushResults s values type.results inv.stack with
      | .error e => fail s inv e waiting
      | .ok stack => ⟨s, .guest (Invocation.resume { inv with stack }), waiting⟩

/-- The outcome of a machine that has halted. -/
def outcome? (m : Machine σ φ) : Option (Except Error (List Value)) :=
  match m.control, m.waiting with
  | .outcome result, [] => some result
  | _, _ => none

/-- One step. A machine that has halted stays as it is. -/
def step : Machine σ φ → Machine σ φ
  | ⟨s, .guest inv, waiting⟩ => stepGuest s inv waiting
  | ⟨s, .host caller type p, waiting⟩ => stepHost s caller type p waiting
  | ⟨s, .outcome result, w :: waiting⟩ => deliver s result w waiting
  | ⟨s, .outcome result, []⟩ => ⟨s, .outcome result, []⟩

/-- A number of steps, or fewer if the machine halts before. -/
def run : (steps : Nat) → Machine σ φ → Machine σ φ
  | 0, m => m
  | steps + 1, m => if m.outcome?.isSome then m else run steps m.step

end Machine

/-- More steps than any run takes that comes to an end in this world. -/
def Machine.manySteps : Nat := 0x4000000000000000

/-- Do in a store what ends with an outcome, in at most a number of steps. There is no outcome if it takes
more. -/
def Store.complete {σ φ : Type} [Activation φ] (steps : Nat) (start : Store σ → Machine σ φ) :
    StoreM σ (Option (List Value)) := fun s =>
  let m := (start s).run steps
  match m.outcome? with
  | some (.ok values) => .ok (some values) m.store
  | some (.error e) => .error e m.store
  | none => .ok none m.store

end WasmEngine
