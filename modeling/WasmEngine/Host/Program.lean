import WasmEngine.Error
import WasmEngine.Module.Basic
import WasmEngine.Store.Handle
import WasmEngine.Value

/-!
# Host functions

A host function is implemented by the embedder. What it does is given as a `HostProgram`: a tree of requests
to the store it was called from, each of which goes on with the reply, down to the values it returns or the
error it fails with. So a host function can do everything that the embedder can do from the outside, and
nothing else: also make host functions, call functions and instantiate modules while the code that called
it waits.

`StoreRequest` lists the requests that do not run any code.
-/

namespace WasmEngine

/-- A request to a store that does not run code. -/
inductive StoreRequest where
  | newMemory (limits : Limits)
  | newTable (type : TableType) (init : Value)
  | newGlobal (type : GlobalType) (init : Value)
  | newExternref (object : String)
  | readMemory (memory : Handle .memory) (start length : Nat)
  | writeMemory (memory : Handle .memory) (start : Nat) (bytes : ByteArray)
  | pokeMemory (memory : Handle .memory) (start : Nat) (byte : UInt8)
  | growMemory (memory : Handle .memory) (delta : Nat)
  | getTable (table : Handle .table) (index : Nat)
  | setTable (table : Handle .table) (index : Nat) (value : Value)
  | growTable (table : Handle .table) (delta : Nat) (init : Value)
  | getGlobal (global : Handle .global)
  | setGlobal (global : Handle .global) (value : Value)
  | setFuel (fuel : Nat)
  | addFuel (fuel : Nat)
  | resetStats
  | interrupt
  | resetInterrupt
  | externType (entity : Extern)
  | exported (module : InstanceHandle) (name : String)
  | moduleName (module : InstanceHandle)
  | funcOfValue (value : Value)

/-- What a request gives if it succeeds. -/
def StoreRequest.Result : StoreRequest → Type
  | newMemory _ => Handle .memory
  | newTable .. => Handle .table
  | newGlobal .. => Handle .global
  | newExternref _ => Value
  | readMemory .. => ByteArray
  | growMemory .. | growTable .. => Nat
  | getTable .. => Option Value
  | getGlobal _ => Value
  | externType _ => ExternType
  | exported .. => Option Extern
  | moduleName _ => Option String
  | funcOfValue _ => Option (Handle .func)
  | writeMemory .. | pokeMemory .. | setTable .. | setGlobal .. | setFuel _ | addFuel _
  | resetStats | interrupt | resetInterrupt => Unit

/-- What a host function does. `σ` is the type of the embedder's own data in the store. Memory is read
and written in the first memory of the calling instance. -/
inductive HostProgram (σ : Type) where
  | finish (outcome : Except Error (List Value))
  | update (change : σ → σ) (next : HostProgram σ)
  | inspect (next : σ → HostProgram σ)
  | caller (next : Option InstanceHandle → HostProgram σ)
  | memorySize (next : Option Nat → HostProgram σ)
  | readMemory (start length : Nat) (next : Except Error ByteArray → HostProgram σ)
  | writeMemory (start : Nat) (bytes : ByteArray) (next : Except Error Unit → HostProgram σ)
  | operate (request : StoreRequest) (next : Except Error request.Result → HostProgram σ)
  | define (type : FuncType) (body : List Value → HostProgram σ)
      (next : Except Error (Handle .func) → HostProgram σ)
  | call (func : Handle .func) (args : List Value)
      (next : Except Error (List Value) → HostProgram σ)
  | instantiate (module : Module) (imports : List Extern)
      (next : Except Error InstanceHandle → HostProgram σ)

/-- A host function: its signature, and what it does with its arguments. -/
structure HostFunc (σ : Type) where
  type : FuncType
  body : List Value → HostProgram σ

namespace HostProgram

variable {σ : Type}

/-- Return values. -/
def return_ (values : List Value) : HostProgram σ := finish (.ok values)

/-- Fail with an error. -/
def fail (e : Error) : HostProgram σ := finish (.error e)

/-- Go on with what was replied, or fail with the error that came instead. -/
def orFail {α : Type} (next : α → HostProgram σ) : Except Error α → HostProgram σ
  | .ok a => next a
  | .error e => fail e

end HostProgram

end WasmEngine
