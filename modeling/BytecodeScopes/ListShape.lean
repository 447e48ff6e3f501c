/-!
List literals with splats. Elements are counted as they come; a splat sends the elements before it
out as one list and starts the count again. What is left at the end gives the shape of the list.
Counts have 16 bits and stop at the largest.
-/

namespace BytecodeScopes

inductive SplatPhase where
  | idle
  | before
  | after
  deriving DecidableEq, Repr

inductive ListPhase where
  | idle
  | gathering
  | split
  deriving DecidableEq, Repr

inductive ListShape where
  | whole (count : Nat)
  | split (leading trailing : Nat)
  deriving DecidableEq, Repr

/-- The list that is being put together, or none when both phases are idle. -/
structure ListState where
  splat : SplatPhase := .idle
  phase : ListPhase := .idle
  count : Nat := 0
  leading : Nat := 0
  deriving DecidableEq, Repr

namespace ListState

def countMax : Nat := 65535

def started : ListState := { splat := .before, phase := .gathering }

/-- Starts a list inside the one at hand, which is handed back to be restored later. -/
def begin (s : ListState) : ListState × ListState := (s, started)

def restore (_ outer : ListState) : ListState := outer

def element (s : ListState) : ListState := { s with count := min (s.count + 1) countMax }

def mark (s : ListState) : Nat × ListState :=
  (s.count,
    { splat := .after
      phase := .split
      count := 0
      leading := if s.splat = .after then s.leading else s.count })

def generating (s : ListState) : Bool := s.phase ≠ .idle

def shape (s : ListState) : ListShape :=
  match s.phase with
  | .split => .split s.leading s.count
  | _ => .whole s.count

def finish (s : ListState) : ListShape × ListState := (s.shape, {})

end ListState

end BytecodeScopes
