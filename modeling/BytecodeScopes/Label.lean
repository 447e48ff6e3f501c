import BytecodeScopes.Code
import BytecodeScopes.Limits

/-!
Jumps whose target is not known when they are written. A label stands for the operand of such a
jump: it is reserved as two zero bytes, may wait in a queue, and is resolved once, when the distance
to its target is written over the zeros.
-/

namespace BytecodeScopes

/-- Where the operand stands, and the position after it, from which the distance counts. -/
structure Label where
  id : LabelId
  operand : Nat
  position : Nat
  deriving DecidableEq, Repr

structure Jump where
  label : Label
  target : Option Nat
  deriving DecidableEq, Repr

/-- Jumps in the order they were reserved, the labels that wait, oldest first, and how many jumps
have no target. -/
structure Labels where
  jumps : Array Jump := #[]
  pending : Array LabelId := #[]
  unresolved : Nat := 0
  deriving DecidableEq, Repr

namespace Labels

/-- Labels are numbered by how many jumps there were before. Numbers are natural and never cut off;
they fit 32 bits below 2^32 labels, which would take more code than a record can measure. -/
def reserve (ls : Labels) (code : Code) : Label × Labels × Code :=
  let operand := code.position
  let code := code.pushWord 0
  let label : Label := ⟨⟨ls.jumps.size⟩, operand, code.position⟩
  (label,
    { ls with jumps := ls.jumps.push ⟨label, none⟩, unresolved := ls.unresolved + 1 },
    code)

/-- The jump of a label, if this very label was given out here. -/
def jump? (ls : Labels) (label : Label) : Option Jump :=
  ls.jumps[label.id.index]?.filter (·.label = label)

/-- The target of the jump that has the label's number. -/
def target? (ls : Labels) (label : Label) : Option Nat :=
  ls.jumps[label.id.index]?.bind (·.target)

def checkQueue (ls : Labels) (label : Label) : Except Fault Unit :=
  match ls.jump? label with
  | some _ => .ok ()
  | none => .error (.unknownLabel label.id)

def enqueue (ls : Labels) (label : Label) : Labels :=
  { ls with pending := ls.pending.push label.id }

def queue (ls : Labels) (label : Label) : Reply Labels Unit :=
  .attempt ls (·.checkQueue label) fun ls _ => ((), ls.enqueue label)

def dequeue (ls : Labels) : Option Label × Labels :=
  match ls.pending[0]? with
  | none => (none, ls)
  | some id =>
      (ls.jumps[id.index]?.map (·.label), { ls with pending := ls.pending.extract 1 })

def checkResolve (ls : Labels) (code : Code) (limits : Limits) (label : Label) (target : Nat) :
    Except Fault Int :=
  match ls.jump? label with
  | none => .error (.unknownLabel label.id)
  | some jump =>
      if jump.target.isSome then .error (.labelResolved label.id)
      else
        let distance : Int := (target : Int) - (label.position : Int)
        if limits.jumpMin ≤ distance ∧ distance ≤ limits.jumpMax then
          (code.checkPatch label.operand).map fun _ => distance
        else .error (.jumpOutOfRange label.position target)

/-- Gives a label its target; it waits no longer. -/
def settle (ls : Labels) (label : Label) (target : Nat) : Labels :=
  { jumps := ls.jumps.modify label.id.index fun jump => { jump with target := some target }
    pending := ls.pending.filter (· ≠ label.id)
    unresolved := ls.unresolved - 1 }

def resolved (label : Label) (target : Nat) (distance : Int) : Event :=
  .resolved label.id label.position target distance

/-- Resolves a label in a body of code, which need not be the one it was reserved in. -/
def resolve (ls : Labels) (code : Code) (limits : Limits) (label : Label) (target : Nat) :
    Reply (Labels × Code) Unit :=
  match ls.checkResolve code limits label target with
  | .ok distance =>
      { answer := .ok ()
        after := (ls.settle label target, code.overwrite label.operand (.ofInt distance))
        log := [resolved label target distance] }
  | .error fault => .refuse (ls, code) fault

end Labels

end BytecodeScopes
