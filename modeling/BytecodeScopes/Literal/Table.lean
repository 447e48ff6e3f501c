import BytecodeScopes.BigEndian
import BytecodeScopes.Interned
import BytecodeScopes.Literal.Basic
import BytecodeScopes.Reply

namespace BytecodeScopes

abbrev Literals := Interned (fun literal : Literal => literal)

namespace Literals

/-- An index of a literal has 16 bits. -/
def capacity : Nat := 65536

def checkAdd (t : Literals) (kind : LiteralKind) (value : String) : Except Fault Unit :=
  if t.admits capacity (.ofKind kind value) then .ok () else .error (.tableFull .literals)

def intern (t : Literals) (kind : LiteralKind) (value : String) : Nat × Literals :=
  t.insert (.ofKind kind value)

def add (t : Literals) (kind : LiteralKind) (value : String) : Reply Literals Nat :=
  .attempt t (·.checkAdd kind value) fun t _ => t.intern kind value

def writtenSize (t : Literals) : Nat :=
  2 + Sizes.total (t.entries.toList.map Literal.writtenSize)

end Literals

structure TextStack where
  texts : List String := []
  deriving DecidableEq, Repr

namespace TextStack

def push (stack : TextStack) (text : String) : TextStack := ⟨text :: stack.texts⟩

def pop (stack : TextStack) : Option String × TextStack :=
  match stack.texts with
  | [] => (none, stack)
  | text :: rest => (some text, ⟨rest⟩)

def top? (stack : TextStack) : Option String := stack.texts.head?

def size (stack : TextStack) : Nat := stack.texts.length

end TextStack

end BytecodeScopes
