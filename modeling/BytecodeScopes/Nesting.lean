namespace BytecodeScopes

inductive NestLevel where
  | method
  | block
  | loop
  deriving DecidableEq, Repr

/-- Levels stand innermost first. -/
structure Nesting where
  levels : List NestLevel
  deriving DecidableEq, Repr

namespace Nesting

def method : Nesting := ⟨[.method]⟩

def inBlock (outer : Nesting) : Nesting := ⟨.block :: outer.levels⟩

def markLoop (n : Nesting) : Nesting := ⟨.loop :: n.levels⟩

def unmarkLoop (n : Nesting) : Bool × Nesting :=
  match n.levels with
  | .loop :: outer => (true, ⟨outer⟩)
  | _ => (false, n)

def innermost (n : Nesting) : NestLevel := n.levels.head?.getD .method

def inLoop (n : Nesting) : Bool := n.innermost = .loop

def size (n : Nesting) : Nat := n.levels.length

def blocks (n : Nesting) : Nat :=
  (n.levels.takeWhile (· ≠ .method)).countP (· = .block)

end Nesting

end BytecodeScopes
