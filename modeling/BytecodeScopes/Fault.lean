import BytecodeScopes.Ident

namespace BytecodeScopes

inductive FrameStack where
  | loops
  | retries
  deriving DecidableEq, Repr

inductive Table where
  | symbols
  | literals
  | locals
  | handlers
  | children
  deriving DecidableEq, Repr

inductive Fault where
  | registerOverflow (limit : Nat)
  | registerUnderflow (height requested : Nat)
  | duplicateLocal (name : String)
  | unresolvedLabels (count : Nat)
  | noOpenFrame (stack : FrameStack)
  | unclosedFrames (stack : FrameStack) (depth : Nat)
  | jumpOutOfRange (source target : Nat)
  | unknownLabel (id : LabelId)
  | labelResolved (id : LabelId)
  | patchOutOfBounds (offset size : Nat)
  | tableFull (table : Table)
  | nameTooLong (size : Nat)
  | tooManyParameters (group : String) (count : Nat)
  | nestingTooDeep
  | unknownScope (id : ScopeId)
  | scopeFinished (id : ScopeId)
  | scopeNotFinished (id : ScopeId)
  | scopeFailed (id : ScopeId)
  | unfinishedChild (parent child : ScopeId)
  | sizeMismatch (expected actual : Nat)
  | invalidLimits (reason : String)
  deriving DecidableEq, Repr

def FrameStack.text : FrameStack → String
  | .loops => "break"
  | .retries => "retry"

def Table.text : Table → String
  | .symbols => "symbol"
  | .literals => "literal"
  | .locals => "local variable"
  | .handlers => "exception handler"
  | .children => "child scope"

namespace Fault

/-- A repeated local variable can be reported and passed over; nothing else can. -/
def fatal : Fault → Bool
  | .duplicateLocal _ => false
  | _ => true

def message : Fault → String
  | .registerOverflow limit => s!"register stack overflow: more than {limit} registers required"
  | .registerUnderflow height requested =>
      s!"register stack underflow: cannot pop {requested} from sp {height}"
  | .duplicateLocal name => s!"local variable '{name}' already declared in this scope"
  | .unresolvedLabels count => s!"{count} jump label(s) never resolved before finish"
  | .noOpenFrame stack => s!"{stack.text} stack underflow: no open frame"
  | .unclosedFrames stack depth => s!"{depth} {stack.text} frame(s) still open at finish"
  | .jumpOutOfRange source target =>
      s!"jump from {source} to {target} does not fit a 16-bit operand"
  | .unknownLabel id => s!"unknown jump label #{id.index}"
  | .labelResolved id => s!"jump label #{id.index} already resolved"
  | .patchOutOfBounds offset size =>
      s!"patch at {offset} is outside the {size}-byte code buffer"
  | .tableFull table => s!"{table.text} table overflow"
  | .nameTooLong size => s!"name of {size} bytes exceeds the name-table record limit"
  | .tooManyParameters group count => s!"too many {group} parameters: {count}"
  | .nestingTooDeep => "variable lookup crossed more than 255 scopes"
  | .unknownScope id => s!"unknown scope {id.text}"
  | .scopeFinished id => s!"scope {id.text} is already finished"
  | .scopeNotFinished id => s!"scope {id.text} is not finished"
  | .scopeFailed id => s!"scope {id.text} was aborted by an earlier fatal error"
  | .unfinishedChild parent child =>
      s!"scope {parent.text} cannot finish before its child {child.text}"
  | .sizeMismatch expected actual =>
      s!"instruction buffer is {actual} bytes but ilen is {expected}"
  | .invalidLimits reason => s!"invalid configuration: {reason}"

end Fault

structure UnknownByte where
  enumeration : String
  byte : UInt8
  deriving DecidableEq, Repr

def UnknownByte.message (u : UnknownByte) : String :=
  s!"No discriminant in enum `{u.enumeration}` matches the value `{u.byte}`"

end BytecodeScopes
