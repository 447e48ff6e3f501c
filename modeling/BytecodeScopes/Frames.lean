import BytecodeScopes.Label

namespace BytecodeScopes

/-- Where a loop starts over, where it ends once that is known, and the jumps out of it. -/
structure LoopFrame where
  redo : Nat
  next : Option Nat := none
  exits : Array Label := #[]
  deriving DecidableEq, Repr

/-- Both stacks stand innermost first; a retry is the position it goes back to. -/
structure Frames where
  loops : List LoopFrame := []
  retries : List Nat := []
  deriving DecidableEq, Repr

namespace Frames

def openLoop (f : Frames) (position : Nat) : Frames :=
  { f with loops := { redo := position } :: f.loops }

def openRetry (f : Frames) (position : Nat) : Frames :=
  { f with retries := position :: f.retries }

def loop? (f : Frames) : Option LoopFrame := f.loops.head?

def retry? (f : Frames) : Option Nat := f.retries.head?

def checkLoop (f : Frames) : Except Fault Unit :=
  if f.loops.isEmpty then .error (.noOpenFrame .loops) else .ok ()

def pushExit (f : Frames) (label : Label) : Frames :=
  match f.loops with
  | [] => f
  | frame :: outer => { f with loops := { frame with exits := frame.exits.push label } :: outer }

def addExit (f : Frames) (label : Label) : Reply Frames Unit :=
  .attempt f checkLoop fun f _ => ((), f.pushExit label)

def closeLoop (f : Frames) (position : Nat) : Reply Frames LoopFrame :=
  match f.loops with
  | [] => .refuse f (.noOpenFrame .loops)
  | frame :: outer => .accept { f with loops := outer } { frame with next := some position }

def closeRetry (f : Frames) : Reply Frames Nat :=
  match f.retries with
  | [] => .refuse f (.noOpenFrame .retries)
  | position :: outer => .accept { f with retries := outer } position

def checkClosed (f : Frames) : Except Fault Unit :=
  if f.loops ≠ [] then .error (.unclosedFrames .loops f.loops.length)
  else if f.retries ≠ [] then .error (.unclosedFrames .retries f.retries.length)
  else .ok ()

end Frames

end BytecodeScopes
