import WasmEngine.Binary.Body
import WasmEngine.Binary.Cursor
import WasmEngine.Binary.Instruction
import WasmEngine.Binary.Leb128
import WasmEngine.Binary.LittleEndian
import WasmEngine.Binary.Module
import WasmEngine.Binary.Names
import WasmEngine.Code.Op
import WasmEngine.Code.Text
import WasmEngine.CommandLine.Argument
import WasmEngine.CommandLine.ConfigValue
import WasmEngine.CommandLine.File
import WasmEngine.CommandLine.Options
import WasmEngine.CommandLine.Run
import WasmEngine.CommandLine.Settings
import WasmEngine.CommandLine.Toml
import WasmEngine.CommandLine.Toml.Key
import WasmEngine.CommandLine.Toml.Reader
import WasmEngine.CommandLine.Toml.Scalar
import WasmEngine.CommandLine.Toml.Value
import WasmEngine.Config
import WasmEngine.Error
import WasmEngine.Fault.Category
import WasmEngine.Fault.Decode
import WasmEngine.Fault.Embedding
import WasmEngine.Fault.Validation
import WasmEngine.Features
import WasmEngine.Float.Arithmetic
import WasmEngine.Float.Decimal
import WasmEngine.Float.Format
import WasmEngine.Global
import WasmEngine.Host.Journal
import WasmEngine.Host.Program
import WasmEngine.Host.Sample
import WasmEngine.Host.Signature
import WasmEngine.Instruction.Access
import WasmEngine.Instruction.Basic
import WasmEngine.Instruction.Evaluation
import WasmEngine.Instruction.Numeric
import WasmEngine.Linker
import WasmEngine.Logging
import WasmEngine.Machine.Exec
import WasmEngine.Machine.Stack
import WasmEngine.Machine.Step
import WasmEngine.Main
import WasmEngine.Memory
import WasmEngine.Module.Basic
import WasmEngine.Module.Syntax
import WasmEngine.Module.Text
import WasmEngine.Proofs.Agree
import WasmEngine.Proofs.Binary.Blame
import WasmEngine.Proofs.Binary.Bodies
import WasmEngine.Proofs.Binary.Cursor
import WasmEngine.Proofs.Binary.Format
import WasmEngine.Proofs.Binary.Framing
import WasmEngine.Proofs.Binary.Grammar
import WasmEngine.Proofs.Binary.Groups
import WasmEngine.Proofs.Binary.Insertion
import WasmEngine.Proofs.Binary.InstructionGrammar
import WasmEngine.Proofs.Binary.Instructions
import WasmEngine.Proofs.Binary.Integers
import WasmEngine.Proofs.Binary.Leb128
import WasmEngine.Proofs.Binary.Opcodes
import WasmEngine.Proofs.Binary.Parallel
import WasmEngine.Proofs.Binary.Proposals
import WasmEngine.Proofs.Binary.Queries
import WasmEngine.Proofs.Binary.Relocation
import WasmEngine.Proofs.Binary.Shifting
import WasmEngine.Proofs.Binary.Truncation
import WasmEngine.Proofs.Binary.Widening
import WasmEngine.Proofs.Binary.Windows
import WasmEngine.Proofs.Checks
import WasmEngine.Proofs.CommandLine.Integers
import WasmEngine.Proofs.Commutes
import WasmEngine.Proofs.Float.Canonical
import WasmEngine.Proofs.Float.Exact
import WasmEngine.Proofs.Instruction.Canonical
import WasmEngine.Proofs.Instruction.Division
import WasmEngine.Proofs.Instruction.Truncation
import WasmEngine.Proofs.Keeps
import WasmEngine.Proofs.Machine.Accesses
import WasmEngine.Proofs.Machine.ActiveFrames
import WasmEngine.Proofs.Machine.Atomicity
import WasmEngine.Proofs.Machine.Binding
import WasmEngine.Proofs.Machine.Books
import WasmEngine.Proofs.Machine.Calling
import WasmEngine.Proofs.Machine.Calls
import WasmEngine.Proofs.Machine.Changes
import WasmEngine.Proofs.Machine.Counters
import WasmEngine.Proofs.Machine.Deeper
import WasmEngine.Proofs.Machine.Effects
import WasmEngine.Proofs.Machine.Failures
import WasmEngine.Proofs.Machine.Forwarding
import WasmEngine.Proofs.Machine.Frames
import WasmEngine.Proofs.Machine.Instantiation
import WasmEngine.Proofs.Machine.Interrupts
import WasmEngine.Proofs.Machine.Isolation
import WasmEngine.Proofs.Machine.Layout
import WasmEngine.Proofs.Machine.Ledger
import WasmEngine.Proofs.Machine.Linking
import WasmEngine.Proofs.Machine.Locality
import WasmEngine.Proofs.Machine.Metering
import WasmEngine.Proofs.Machine.Numbers
import WasmEngine.Proofs.Machine.OperandPeak
import WasmEngine.Proofs.Machine.Operands
import WasmEngine.Proofs.Machine.Ownership
import WasmEngine.Proofs.Machine.Paging
import WasmEngine.Proofs.Machine.Places
import WasmEngine.Proofs.Machine.PlainOps
import WasmEngine.Proofs.Machine.Programs
import WasmEngine.Proofs.Machine.Quiet
import WasmEngine.Proofs.Machine.Reached
import WasmEngine.Proofs.Machine.Rules
import WasmEngine.Proofs.Machine.Sandbox
import WasmEngine.Proofs.Machine.Soundness
import WasmEngine.Proofs.Machine.StackBound
import WasmEngine.Proofs.Machine.TableGrowth
import WasmEngine.Proofs.Machine.TableOps
import WasmEngine.Proofs.Machine.Tracing
import WasmEngine.Proofs.Machine.Untraced
import WasmEngine.Proofs.Machine.WellTyped
import WasmEngine.Proofs.Memory.Bytes
import WasmEngine.Proofs.Memory.Growth
import WasmEngine.Proofs.Module.Valid
import WasmEngine.Proofs.Store.Additions
import WasmEngine.Proofs.Store.Books
import WasmEngine.Proofs.Store.Building
import WasmEngine.Proofs.Store.Domain
import WasmEngine.Proofs.Store.Evolution
import WasmEngine.Proofs.Store.Growth
import WasmEngine.Proofs.Store.Instantiate
import WasmEngine.Proofs.Store.Locality
import WasmEngine.Proofs.Store.Paging
import WasmEngine.Proofs.Store.Requests
import WasmEngine.Proofs.Store.Segments
import WasmEngine.Proofs.Store.Typed
import WasmEngine.Proofs.Store.TypedRequests
import WasmEngine.Proofs.Store.Writes
import WasmEngine.Proofs.Structured.Agreement
import WasmEngine.Proofs.Structured.Forward
import WasmEngine.Proofs.Structured.Frame
import WasmEngine.Proofs.Structured.Matching
import WasmEngine.Proofs.Structured.Nesting
import WasmEngine.Proofs.Structured.Offsets
import WasmEngine.Proofs.Structured.Refinement
import WasmEngine.Proofs.Structured.Spots
import WasmEngine.Proofs.Structured.Targets
import WasmEngine.Proofs.Table.Cells
import WasmEngine.Proofs.Table.Growth
import WasmEngine.Proofs.Validation.Blame
import WasmEngine.Proofs.Validation.Bodies
import WasmEngine.Proofs.Validation.Covering
import WasmEngine.Proofs.Validation.Effects
import WasmEngine.Proofs.Validation.Exactness
import WasmEngine.Proofs.Validation.Heights
import WasmEngine.Proofs.Validation.Insertion
import WasmEngine.Proofs.Validation.Instructions
import WasmEngine.Proofs.Validation.Prefixes
import WasmEngine.Proofs.Validation.Proposals
import WasmEngine.Proofs.Validation.Regions
import WasmEngine.Proofs.Validation.Rests
import WasmEngine.Proofs.Validation.Spots
import WasmEngine.Proofs.Validation.TypingRules
import WasmEngine.Proofs.Validation.Widening
import WasmEngine.Session
import WasmEngine.Stats
import WasmEngine.Store.Basic
import WasmEngine.Store.Handle
import WasmEngine.Store.Instantiate
import WasmEngine.Store.Request
import WasmEngine.Table
import WasmEngine.Text.Hexadecimal
import WasmEngine.Text.Quoted
import WasmEngine.Text.Unprintable
import WasmEngine.Trap
import WasmEngine.Types
import WasmEngine.Validation.Context
import WasmEngine.Validation.Lowering
import WasmEngine.Validation.Module
import WasmEngine.Validation.Typing
import WasmEngine.Value
import WasmEngine.Value.Tagged
