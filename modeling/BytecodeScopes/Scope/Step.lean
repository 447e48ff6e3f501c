import BytecodeScopes.Scope.Actions

namespace BytecodeScopes.Scope

inductive Op where
  | push
  | pop
  | popMany (n : Nat)
  | setHeight (height : Nat)
  | emit (byte : UInt8)
  | emitAll (bytes : Array UInt8)
  | emitOperand (opcode : UInt8) (operand : UInt16)
  | addLiteral (kind : LiteralKind) (value : String)
  | addSymbol (name : String)
  | addSetter (name : String)
  | popSetter
  | pushText (text : String)
  | popText
  | declare (name : String) (placement : Placement)
  | reserve
  | queue (label : Label)
  | dequeue
  | resolve (label : Label) (target : Nat)
  | openLoop
  | addExit (label : Label)
  | closeLoop
  | openRetry
  | closeRetry
  | openRegion
  | closeRegion (start : Nat) (kind : HandlerKind) (target : UInt32)
  | addHandler (handler : Handler)
  | setSignature (signature : Signature)
  | markLoop
  | unmarkLoop
  | beginList
  | restoreList (outer : ListState)
  | element
  | splat
  | finishList
  deriving DecidableEq, Repr

inductive Answer where
  | done
  | index (i : Nat)
  | count (n : Nat)
  | position (p : Nat)
  | flag (b : Bool)
  | register (r : UInt8)
  | setter (s : Option Setter)
  | text (t : Option String)
  | label (l : Label)
  | waiting (l : Option Label)
  | loop (f : LoopFrame)
  | outer (s : ListState)
  | shape (s : ListShape)
  deriving DecidableEq, Repr

def step (s : Scope) : Op → Reply Scope Answer
  | .push => s.push.map fun _ => .done
  | .pop => s.pop.map fun _ => .done
  | .popMany n => (s.popMany n).map fun _ => .done
  | .setHeight height => (s.setHeight height).map fun _ => .done
  | .emit byte => (s.emit byte).map fun _ => .done
  | .emitAll bytes => (s.emitAll bytes).map fun _ => .done
  | .emitOperand opcode operand => (s.emitOperand opcode operand).map fun _ => .done
  | .addLiteral kind value => (s.addLiteral kind value).map .index
  | .addSymbol name => (s.addSymbol name).map .index
  | .addSetter name => (s.addSetter name).map .index
  | .popSetter => s.popSetter.map .setter
  | .pushText text => (s.pushText text).map fun _ => .done
  | .popText => s.popText.map .text
  | .declare name placement => (s.declare name placement).map .register
  | .reserve => s.reserve.map .label
  | .queue label => (s.queue label).map fun _ => .done
  | .dequeue => s.dequeue.map .waiting
  | .resolve label target => (s.resolve label target).map fun _ => .done
  | .openLoop => s.openLoop.map fun _ => .done
  | .addExit label => (s.addExit label).map fun _ => .done
  | .closeLoop => s.closeLoop.map .loop
  | .openRetry => s.openRetry.map fun _ => .done
  | .closeRetry => s.closeRetry.map .position
  | .openRegion => s.openRegion.map .position
  | .closeRegion start kind target => (s.closeRegion start kind target).map fun _ => .done
  | .addHandler handler => (s.addHandler handler).map fun _ => .done
  | .setSignature signature => (s.setSignature signature).map fun _ => .done
  | .markLoop => s.markLoop.map fun _ => .done
  | .unmarkLoop => s.unmarkLoop.map .flag
  | .beginList => s.beginList.map .outer
  | .restoreList outer => (s.restoreList outer).map fun _ => .done
  | .element => s.element.map fun _ => .done
  | .splat => s.splat.map .count
  | .finishList => s.finishList.map .shape

def run (s : Scope) (ops : List Op) : Scope := runBy step s ops

end BytecodeScopes.Scope
