import BytecodeScopes.Fault

namespace BytecodeScopes

inductive Event where
  | aborted (id : ScopeId) (fault : Fault)
  | created (id : ScopeId) (parent : Option ScopeId) (top : Bool)
  | finished (id : ScopeId) (codeSize registers : Nat)
  | freed (id : ScopeId) (count : Nat)
  | resolved (id : LabelId) (position target : Nat) (distance : Int)
  deriving DecidableEq, Repr

namespace Event

inductive Level where
  | warn
  | debug
  | trace
  deriving DecidableEq, Repr

def Level.text : Level → String
  | .warn => "WARN"
  | .debug => "DEBUG"
  | .trace => "TRACE"

def level : Event → Level
  | .aborted .. => .warn
  | .created .. | .finished .. | .freed .. => .debug
  | .resolved .. => .trace

def signed (distance : Int) : String :=
  if 0 ≤ distance then s!"+{distance}" else s!"{distance}"

def parentText : Option ScopeId → String
  | none => "None"
  | some id => s!"Some({id.index})"

def message : Event → String
  | .aborted id fault => s!"{id.text} aborted: {fault.message}"
  | .created id parent top =>
      s!"created {id.text} (parent: {parentText parent}, lvar_top: {top})"
  | .finished id codeSize registers =>
      s!"finished {id.text} (ilen: {codeSize}, nregs: {registers})"
  | .freed id count => s!"freed {id.text} ({count} scopes)"
  | .resolved id position target distance =>
      s!"resolved {id.text} at {position} -> {target} ({signed distance})"

def line (e : Event) : String := s!"{e.level.text} {e.message}"

end Event

end BytecodeScopes
