import BytecodeScopes.Tree.Basic

namespace BytecodeScopes

/-- How many scopes up, and the register there. -/
structure Location where
  hops : Nat
  register : UInt8
  deriving DecidableEq, Repr

namespace Tree

/-- A location's count of scopes has one byte. -/
def hopsMax : Nat := 255

def lookupFrom (t : Tree) (name : String) : Nat → ScopeId → Nat → Except Fault (Option Location)
  | 0, _, _ => .ok none
  | rounds + 1, id, hops =>
      match t.scope? id with
      | none => .error (.unknownScope id)
      | some s =>
          match s.local? name with
          | some l =>
              if hops ≤ hopsMax then .ok (some ⟨hops, l.register⟩) else .error .nestingTooDeep
          | none =>
              if s.top then .ok none
              else
                match s.parent with
                | none => .ok none
                | some parent => lookupFrom t name rounds parent (hops + 1)

/-- Enclosing scopes are older, so their numbers fall and no more rounds are needed than the number
the search starts from. -/
def lookup (t : Tree) (id : ScopeId) (name : String) : Except Fault (Option Location) :=
  t.lookupFrom name (id.index + 1) id 0

end Tree

end BytecodeScopes
