import BytecodeScopes.Tree.Lookup
import BytecodeScopes.Tree.Size

namespace BytecodeScopes.Tree

inductive Op where
  | create (parent : Option ScopeId) (top : Bool)
  | finish (id : ScopeId)
  | free (id : ScopeId)
  | scope (id : ScopeId) (op : Scope.Op)
  deriving DecidableEq, Repr

inductive Answer where
  | created (id : ScopeId)
  | finished
  | freed (count : Nat)
  | scope (answer : Scope.Answer)
  deriving DecidableEq, Repr

def step (t : Tree) : Op → Reply Tree Answer
  | .create parent top => (t.create parent top).map .created
  | .finish id => (t.finish id).map fun _ => .finished
  | .free id => (t.free id).map .freed
  | .scope id op => (t.update id (·.step op)).map .scope

def run (t : Tree) (ops : List Op) : Tree := runBy step t ops

/-- A tree that actions under sound limits lead to. -/
def Reachable (t : Tree) : Prop :=
  ∃ limits : Limits, limits.Sound ∧ ∃ ops, t = ({ limits } : Tree).run ops

end BytecodeScopes.Tree
