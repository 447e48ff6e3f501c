import BytecodeScopes.Scope.Basic

namespace BytecodeScopes.Scope

def checkHeight (s : Scope) (height : Nat) : Except Fault Unit :=
  if height ≤ s.limits.registers then .ok () else .error (.registerOverflow s.limits.registers)

def withHeight (s : Scope) (height : Nat) : Scope :=
  { s with height, peak := max s.peak height }

def setHeight (s : Scope) (height : Nat) : Reply Scope Unit :=
  s.attempt (·.checkHeight height) fun s _ => ((), s.withHeight height)

def push (s : Scope) : Reply Scope Unit := s.setHeight (s.height + 1)

def popMany (s : Scope) (n : Nat) : Reply Scope Unit :=
  s.attempt
    (fun s => if n ≤ s.height then .ok () else .error (.registerUnderflow s.height n))
    fun s _ => ((), { s with height := s.height - n })

def pop (s : Scope) : Reply Scope Unit := s.popMany 1

def emit (s : Scope) (byte : UInt8) : Reply Scope Unit :=
  s.change fun s => ((), { s with code := s.code.push byte })

def emitAll (s : Scope) (bytes : Array UInt8) : Reply Scope Unit :=
  s.change fun s => ((), { s with code := s.code.append bytes })

def emitOperand (s : Scope) (opcode : UInt8) (operand : UInt16) : Reply Scope Unit :=
  s.change fun s => ((), { s with code := (s.code.push opcode).pushWord operand })

def addLiteral (s : Scope) (kind : LiteralKind) (value : String) : Reply Scope Nat :=
  s.attempt (·.literals.checkAdd kind value) fun s _ =>
    let (i, literals) := s.literals.intern kind value
    (i, { s with literals })

def addSymbol (s : Scope) (name : String) : Reply Scope Nat :=
  s.attempt (·.symbols.checkAdd name) fun s _ =>
    let (i, symbols) := s.symbols.intern name .source
    (i, { s with symbols })

def addSetter (s : Scope) (name : String) : Reply Scope Nat :=
  s.attempt (·.symbols.checkSetter name) fun s known =>
    let (i, symbols) := s.symbols.internSetter name known
    (i, { s with symbols })

def popSetter (s : Scope) : Reply Scope (Option Setter) :=
  s.change fun s =>
    let (setter, symbols) := s.symbols.popSetter
    (setter, { s with symbols })

def pushText (s : Scope) (text : String) : Reply Scope Unit :=
  s.change fun s => ((), { s with texts := s.texts.push text })

def popText (s : Scope) : Reply Scope (Option String) :=
  s.change fun s =>
    let (text, texts) := s.texts.pop
    (text, { s with texts })

/-- The next free register, or one that is asked for. -/
inductive Placement where
  | next
  | fixed (register : UInt8)
  deriving DecidableEq, Repr

def localCapacity : Nat := 65535

def place (s : Scope) : Placement → UInt8 × Nat
  | .next => (UInt8.ofNat s.height, s.height + 1)
  | .fixed register => (register, max s.height (register.toNat + 1))

def checkDeclare (s : Scope) (name : String) (placement : Placement) : Except Fault Unit :=
  if (s.local? name).isSome then .error (.duplicateLocal name)
  else if localCapacity ≤ s.locals.size then .error (.tableFull .locals)
  else s.checkHeight (s.place placement).2

def declare (s : Scope) (name : String) (placement : Placement) : Reply Scope UInt8 :=
  s.attempt (·.checkDeclare name placement) fun s _ =>
    let (register, height) := s.place placement
    let s := s.withHeight height
    (register,
      { s with locals := s.locals.push ⟨name, register⟩, localCount := s.localCount + 1 })

def reserve (s : Scope) : Reply Scope Label :=
  s.change fun s =>
    let (label, labels, code) := s.labels.reserve s.code
    (label, { s with labels, code })

def queue (s : Scope) (label : Label) : Reply Scope Unit :=
  s.attempt (·.labels.checkQueue label) fun s _ =>
    ((), { s with labels := s.labels.enqueue label })

def dequeue (s : Scope) : Reply Scope (Option Label) :=
  s.change fun s =>
    let (label, labels) := s.labels.dequeue
    (label, { s with labels })

def checkResolve (s : Scope) (label : Label) (target : Nat) : Except Fault Int :=
  s.labels.checkResolve s.code s.limits label target

def settle (s : Scope) (label : Label) (target : Nat) (distance : Int) : Scope :=
  { s with
    labels := s.labels.settle label target
    code := s.code.overwrite label.operand (.ofInt distance) }

/-- Resolves labels to one target in order, up to the first that cannot be. -/
def resolveAll (target : Nat) : List Label → Scope → Reply Scope Unit
  | [], s => .accept s ()
  | label :: labels, s =>
      match s.checkResolve label target with
      | .error fault => s.abort fault
      | .ok distance =>
          let reply := resolveAll target labels (s.settle label target distance)
          { reply with log := Labels.resolved label target distance :: reply.log }

def resolve (s : Scope) (label : Label) (target : Nat) : Reply Scope Unit :=
  s.whileBuilding fun s => resolveAll target [label] s

def openLoop (s : Scope) : Reply Scope Unit :=
  s.change fun s => ((), { s with frames := s.frames.openLoop s.position })

def addExit (s : Scope) (label : Label) : Reply Scope Unit :=
  s.attempt (·.frames.checkLoop) fun s _ => ((), { s with frames := s.frames.pushExit label })

/-- Closes the innermost loop here and resolves its exits to here. The loop is gone even if an exit
cannot be resolved. -/
def closeLoop (s : Scope) : Reply Scope LoopFrame :=
  s.whileBuilding fun s =>
    let here := s.position
    let closed := s.frames.closeLoop here
    match closed.answer with
    | .error fault => s.abort fault
    | .ok frame =>
        (resolveAll here frame.exits.toList { s with frames := closed.after }).map fun _ => frame

def openRetry (s : Scope) : Reply Scope Unit :=
  s.change fun s => ((), { s with frames := s.frames.openRetry s.position })

def closeRetry (s : Scope) : Reply Scope Nat :=
  s.whileBuilding fun s =>
    let closed := s.frames.closeRetry
    match closed.answer with
    | .error fault => s.abort fault
    | .ok position => .accept { s with frames := closed.after } position

def openRegion (s : Scope) : Reply Scope Nat := s.change fun s => (s.position, s)

def addHandler (s : Scope) (handler : Handler) : Reply Scope Unit :=
  s.attempt (·.handlers.checkAdd) fun s _ => ((), { s with handlers := s.handlers.push handler })

def closeRegion (s : Scope) (start : Nat) (kind : HandlerKind) (target : UInt32) :
    Reply Scope Unit :=
  s.addHandler ⟨kind, UInt32.ofNat start, UInt32.ofNat s.position, target⟩

def setSignature (s : Scope) (signature : Signature) : Reply Scope Unit :=
  s.attempt (fun _ => signature.toWord) fun s _ => ((), { s with signature })

def markLoop (s : Scope) : Reply Scope Unit :=
  s.change fun s => ((), { s with nesting := s.nesting.markLoop })

def unmarkLoop (s : Scope) : Reply Scope Bool :=
  s.change fun s =>
    let (left, nesting) := s.nesting.unmarkLoop
    (left, { s with nesting })

def beginList (s : Scope) : Reply Scope ListState :=
  s.change fun s =>
    let (outer, list) := s.list.begin
    (outer, { s with list })

def restoreList (s : Scope) (outer : ListState) : Reply Scope Unit :=
  s.change fun s => ((), { s with list := s.list.restore outer })

def element (s : Scope) : Reply Scope Unit :=
  s.change fun s => ((), { s with list := s.list.element })

def splat (s : Scope) : Reply Scope Nat :=
  s.change fun s =>
    let (count, list) := s.list.mark
    (count, { s with list })

def finishList (s : Scope) : Reply Scope ListShape :=
  s.change fun s =>
    let (shape, list) := s.list.finish
    (shape, { s with list })

/-- The count of a table in a record header has 16 bits. -/
def checkCount (table : Table) (count : Nat) : Except Fault Unit :=
  if count ≤ 65535 then .ok () else .error (.tableFull table)

def checkFinish (s : Scope) : Except Fault Unit := do
  if s.labels.unresolved ≠ 0 then
    throw (.unresolvedLabels s.labels.unresolved)
  s.frames.checkClosed
  checkCount .symbols s.symbols.size
  checkCount .literals s.literals.size

def outputWith (s : Scope) (childCount : Nat) : Output where
  codeSize := s.position
  symbolCount := s.symbols.size
  literalCount := s.literals.size
  childCount := childCount
  localCount := s.localCount
  registers := s.peak
  code := s.code.bytes

/-- Hands the code over; the scope keeps its tables and is closed for good. -/
def finish (s : Scope) (childCount : Nat) : Reply Scope Unit :=
  s.whileBuilding fun s =>
    match s.checkFinish with
    | .error fault => s.abort fault
    | .ok _ =>
        let output := s.outputWith childCount
        { answer := .ok ()
          after := { s with code := {}, phase := .finished output }
          log := [.finished s.id output.codeSize output.registers] }

end BytecodeScopes.Scope
