import BytecodeScopes.Tree.Lifecycle

namespace BytecodeScopes

namespace File

def headerSize : Nat := 32

def footerSize : Nat := 8

def size (records : Nat) : Nat := headerSize + records + footerSize

end File

namespace Tree

def scopeSize (t : Tree) (id : ScopeId) : Except Fault Nat := do
  let s ← t.scope id
  s.writtenSize

/-- The sum of the record sizes of a scope and all below it, or the first fault on the way. -/
def writtenSize (t : Tree) (id : ScopeId) : Except Fault Nat := do
  let _ ← t.scope id
  let sizes ← (t.subtree id).mapM t.scopeSize
  return Sizes.total sizes

def fileSize (t : Tree) (id : ScopeId) : Except Fault Nat :=
  (t.writtenSize id).map File.size

end Tree

end BytecodeScopes
