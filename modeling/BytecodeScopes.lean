import BytecodeScopes.BigEndian
import BytecodeScopes.Ident
import BytecodeScopes.Fault
import BytecodeScopes.Limits
import BytecodeScopes.Event
import BytecodeScopes.Reply
import BytecodeScopes.Code
import BytecodeScopes.Interned
import BytecodeScopes.Literal.Basic
import BytecodeScopes.Literal.Table
import BytecodeScopes.Symbol
import BytecodeScopes.Handler
import BytecodeScopes.Label
import BytecodeScopes.Frames
import BytecodeScopes.ListShape
import BytecodeScopes.Nesting
import BytecodeScopes.Signature
import BytecodeScopes.Scope.Basic
import BytecodeScopes.Scope.Actions
import BytecodeScopes.Scope.Step
import BytecodeScopes.Tree.Basic
import BytecodeScopes.Tree.Lifecycle
import BytecodeScopes.Tree.Size
import BytecodeScopes.Tree.Lookup
import BytecodeScopes.Tree.Step
import BytecodeScopes.Proofs.Patching
import BytecodeScopes.Proofs.Emission.History
import BytecodeScopes.Proofs.Emission.Recorded
import BytecodeScopes.Proofs.Scope.Outcome
import BytecodeScopes.Proofs.Emission.Run
import BytecodeScopes.Proofs.Tree.Slots
import BytecodeScopes.Proofs.Tree.Subtree
import BytecodeScopes.Proofs.Tree.WellFormed
import BytecodeScopes.Proofs.Tree.Finished
import BytecodeScopes.Proofs.Tree.Size
import BytecodeScopes.Proofs.Tree.Frozen
import BytecodeScopes.Proofs.Scope.Registers
import BytecodeScopes.Proofs.Tree.Lookup
import BytecodeScopes.Proofs.Tree.Nesting
import BytecodeScopes.Proofs.Scope.Refusal
import BytecodeScopes.Proofs.Tree.Refusal
import BytecodeScopes.Proofs.Scope.Run
import BytecodeScopes.Proofs.Scope.Spans
import BytecodeScopes.Proofs.Scope.Regions
import BytecodeScopes.Proofs.Scope.Brackets
import BytecodeScopes.Proofs.Scope.Frames
import BytecodeScopes.Proofs.Scope.Independence
import BytecodeScopes.Proofs.Tree.Interleaving
import BytecodeScopes.Proofs.Tree.Abandoned
import BytecodeScopes.Proofs.Tree.Finishing
import BytecodeScopes.Proofs.Scope.Tables
import BytecodeScopes.Proofs.Tree.Capacity
import BytecodeScopes.Proofs.Tree.FinishOrder
import BytecodeScopes.Proofs.Label.Waiting
import BytecodeScopes.Proofs.Tree.SymbolRecords
import BytecodeScopes.Proofs.Tree.Numbers
import BytecodeScopes.Proofs.Label.Resolving
import BytecodeScopes.Proofs.Scope.Log
import BytecodeScopes.Proofs.Tree.Log
import BytecodeScopes.Proofs.Tree.FinishDecision
import BytecodeScopes.Proofs.Tree.LoopExits
import BytecodeScopes.Proofs.Label.Conservation
import BytecodeScopes.Proofs.Label.Operands
import BytecodeScopes.Proofs.Table.FirstSeen
import BytecodeScopes.Proofs.Table.Setters
import BytecodeScopes.Proofs.Table.Interning
import BytecodeScopes.Proofs.Table.Literals
import BytecodeScopes.Proofs.ListShape
import BytecodeScopes.Proofs.Table.HandlerBytes
import BytecodeScopes.Proofs.Tree.Release
import BytecodeScopes.Proofs.Scope.Locals
import BytecodeScopes.Proofs.Tree.Accepted
import BytecodeScopes.Proofs.Tree.Bindings
import BytecodeScopes.Proofs.Scope.Contents
import BytecodeScopes.Proofs.Signature
import BytecodeScopes.Proofs.Tree.RecordSize
