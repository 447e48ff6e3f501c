import BytecodeScopes.Frames
import BytecodeScopes.Handler
import BytecodeScopes.ListShape
import BytecodeScopes.Literal.Table
import BytecodeScopes.Nesting
import BytecodeScopes.Signature
import BytecodeScopes.Symbol

/-!
A scope: one body of code with its own registers, tables, labels and frames. A scope is built up
until it is finished or a fatal fault ends it; after that nothing changes it.
-/

namespace BytecodeScopes

/-- The record of a name: a 16-bit length, the bytes of the name, and an end byte. -/
structure WrittenName where
  bytes : Array UInt8
  deriving DecidableEq, Repr

namespace WrittenName

def ofName (name : String) : Except Fault WrittenName :=
  let bytes := name.toUTF8.data
  if bytes.size ≤ 65535 then .ok ⟨bytes⟩ else .error (.nameTooLong bytes.size)

def length (r : WrittenName) : Nat := r.bytes.size

def writtenSize (r : WrittenName) : Nat := 2 + r.length + 1

end WrittenName

namespace Record

def headerSize : Nat := 14

/-- Each scope is one record: a header, its handlers, its code, its literals and its symbols. -/
def size (codeSize : Nat) (handlers : Handlers) (literals : Literals)
    (names : List String) : Nat :=
  headerSize + handlers.writtenSize + codeSize + literals.writtenSize + Symbols.namesSize names

end Record

structure Local where
  name : String
  register : UInt8
  deriving DecidableEq, Repr

def Local.written (l : Local) : Except Fault WrittenName := WrittenName.ofName l.name

/-- What a finished scope hands on: the counts of its record header and its code. -/
structure Output where
  codeSize : Nat
  symbolCount : Nat
  literalCount : Nat
  childCount : Nat
  localCount : Nat
  registers : Nat
  code : Array UInt8
  deriving DecidableEq, Repr

inductive Phase where
  | building
  | finished (output : Output)
  | failed
  deriving DecidableEq, Repr

/-- `top` marks a scope that sees no locals outside; `height` is the registers in use and `peak` the
most that were. -/
structure Scope where
  id : ScopeId
  parent : Option ScopeId
  children : Array ScopeId := #[]
  top : Bool
  nesting : Nesting
  signature : Signature := {}
  limits : Limits
  height : Nat := 0
  peak : Nat := 0
  localCount : Nat := 0
  symbols : Symbols := {}
  locals : Array Local := #[]
  literals : Literals := .empty
  texts : TextStack := {}
  code : Code := {}
  labels : Labels := {}
  frames : Frames := {}
  handlers : Handlers := {}
  list : ListState := {}
  phase : Phase := .building

namespace Scope

def fresh (id : ScopeId) (parent : Option ScopeId) (top : Bool) (nesting : Nesting)
    (limits : Limits) : Scope :=
  { id, parent, top, nesting, limits }

def isFinished (s : Scope) : Bool :=
  match s.phase with
  | .finished _ => true
  | _ => false

def output? (s : Scope) : Option Output :=
  match s.phase with
  | .finished output => some output
  | _ => none

def position (s : Scope) : Nat := s.code.position

def local? (s : Scope) (name : String) : Option Local := s.locals.find? (·.name = name)

def writtenNames (s : Scope) : Except Fault (List WrittenName) :=
  s.locals.toList.mapM Local.written

def writtenSize (s : Scope) : Except Fault Nat :=
  match s.output? with
  | none => .error (.scopeNotFinished s.id)
  | some output =>
      if output.code.size = output.codeSize then
        .ok (Record.size output.code.size s.handlers s.literals s.symbols.names)
      else .error (.sizeMismatch output.codeSize output.code.size)

/-- A fatal fault ends the scope, and says so. -/
def abort {α : Type} (s : Scope) (fault : Fault) : Reply Scope α :=
  if fault.fatal then
    { answer := .error fault
      after := { s with phase := .failed }
      log := [.aborted s.id fault] }
  else .refuse s fault

/-- Acts on a scope that is being built; any other refuses and stays as it is. -/
@[inline] def whileBuilding {α : Type} (s : Scope) (act : Scope → Reply Scope α) :
    Reply Scope α :=
  match s.phase with
  | .building => act s
  | .finished _ => .refuse s (.scopeFinished s.id)
  | .failed => .refuse s (.scopeFailed s.id)

/-- Changes a scope that is being built in two phases, a check that only reads and a commit that
cannot fail. A fault of the check ends the scope if it is fatal. -/
@[inline] def attempt {α β : Type} (s : Scope) (check : Scope → Except Fault β)
    (commit : Scope → β → α × Scope) : Reply Scope α :=
  s.whileBuilding fun s =>
    match check s with
    | .ok plan =>
        let (a, after) := commit s plan
        .accept after a
    | .error fault => s.abort fault

@[inline] def change {α : Type} (s : Scope) (commit : Scope → α × Scope) : Reply Scope α :=
  s.whileBuilding fun s =>
    let (a, after) := commit s
    .accept after a

end Scope

end BytecodeScopes
