import BytecodeScopes.Tree.Basic

namespace BytecodeScopes.Tree

/-- A scope number has 32 bits. -/
def capacity : Nat := 4294967296

/-- The count of children in a record header has 16 bits. -/
def childCapacity : Nat := 65535

/-- Whether a scope can be created under a parent, and what the parent is nested in. -/
def checkCreate (t : Tree) (parent : Option ScopeId) : Except Fault (Option Nesting) :=
  if t.slots.size < capacity then
    match parent with
    | none => .ok none
    | some p =>
        match t.scope? p with
        | none => .error (.unknownScope p)
        | some s =>
            match s.phase with
            | .finished _ => .error (.scopeFinished p)
            | .failed => .error (.scopeFailed p)
            | .building =>
                if s.children.size < childCapacity then .ok (some s.nesting)
                else .error (.tableFull .children)
  else .error (.tableFull .children)

/-- A block is nested in what its parent is nested in; any other scope is a method. -/
def nestingUnder (outer : Option Nesting) (top : Bool) : Nesting :=
  match outer, top with
  | some outer, false => .inBlock outer
  | _, _ => .method

def link (slots : Array (Option Scope)) (parent : Option ScopeId) (child : ScopeId) :
    Array (Option Scope) :=
  match parent with
  | none => slots
  | some p =>
      slots.modify p.index (·.map fun s => { s with children := s.children.push child })

def unlink (slots : Array (Option Scope)) (parent : Option ScopeId) (child : ScopeId) :
    Array (Option Scope) :=
  match parent with
  | none => slots
  | some p =>
      slots.modify p.index
        (·.map fun s => { s with children := s.children.filter (· ≠ child) })

def create (t : Tree) (parent : Option ScopeId) (top : Bool) : Reply Tree ScopeId :=
  match t.checkCreate parent with
  | .error fault => .refuse t fault
  | .ok outer =>
      let id : ScopeId := ⟨t.slots.size⟩
      let limits := t.limits
      let scope := Scope.fresh id parent top (nestingUnder outer top) limits
      { answer := .ok id
        after := { limits, slots := (link t.slots parent id).push (some scope) }
        log := [.created id parent top] }

def hindrance? (t : Tree) (parent child : ScopeId) : Option Fault :=
  match t.scope? child with
  | none => some (.unknownScope child)
  | some s => if s.isFinished then none else some (.unfinishedChild parent child)

def checkFinish (t : Tree) (id : ScopeId) : Except Fault Nat :=
  match t.scope? id with
  | none => .error (.unknownScope id)
  | some s =>
      match s.children.findSome? (t.hindrance? id) with
      | some fault => .error fault
      | none =>
          if s.children.size ≤ childCapacity then .ok s.children.size
          else .error (.tableFull .children)

def finish (t : Tree) (id : ScopeId) : Reply Tree Unit :=
  match t.checkFinish id with
  | .error fault => .refuse t fault
  | .ok childCount => t.update id (·.finish childCount)

def childrenOf (t : Tree) (id : ScopeId) : List ScopeId :=
  match t.scope? id with
  | some s => s.children.toList
  | none => []

/-- Visits scopes and all below them, the youngest child first. Each round visits one, so as many
rounds as there are slots visit a whole tree. -/
def visit (t : Tree) : Nat → List ScopeId → List ScopeId
  | 0, _ => []
  | _ + 1, [] => []
  | rounds + 1, id :: waiting =>
      id :: visit t rounds ((t.childrenOf id).reverse ++ waiting)

def subtree (t : Tree) (id : ScopeId) : List ScopeId := t.visit t.slots.size [id]

/-- A scope can be freed unless it counts in the header of a finished parent. -/
def checkFree (t : Tree) (id : ScopeId) : Except Fault (Option ScopeId) :=
  match t.scope? id with
  | none => .error (.unknownScope id)
  | some s =>
      match s.parent with
      | none => .ok none
      | some p =>
          match t.scope? p with
          | none => .ok none
          | some parent => if parent.isFinished then .error (.scopeFinished p) else .ok (some p)

def clear (slots : Array (Option Scope)) (ids : List ScopeId) : Array (Option Scope) :=
  ids.foldl (fun slots id => slots.setIfInBounds id.index none) slots

def free (t : Tree) (id : ScopeId) : Reply Tree Nat :=
  match t.checkFree id with
  | .error fault => .refuse t fault
  | .ok parent =>
      let gone := (t.subtree id).filter fun j => (t.scope? j).isSome
      let limits := t.limits
      { answer := .ok gone.length
        after := { limits, slots := clear (unlink t.slots parent id) gone }
        log := [.freed id gone.length] }

end BytecodeScopes.Tree
