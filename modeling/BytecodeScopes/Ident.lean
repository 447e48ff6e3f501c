namespace BytecodeScopes

structure ScopeId where
  index : Nat
  deriving DecidableEq, Repr

structure LabelId where
  index : Nat
  deriving DecidableEq, Repr

namespace ScopeId

def next (id : ScopeId) : ScopeId := ⟨id.index + 1⟩

def compare (left right : ScopeId) : Ordering := Ord.compare left.index right.index

def text (id : ScopeId) : String := s!"scope_{id.index}"

end ScopeId

namespace LabelId

def next (id : LabelId) : LabelId := ⟨id.index + 1⟩

def compare (left right : LabelId) : Ordering := Ord.compare left.index right.index

def text (id : LabelId) : String := s!"L{id.index}"

end LabelId

end BytecodeScopes
