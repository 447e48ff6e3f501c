import BytecodeScopes.Scope.Step

/-!
A tree of scopes. Each scope sits in the slot of its number; the slot of a scope that was freed
stays empty, so a number is never given out again.
-/

namespace BytecodeScopes

structure Tree where
  limits : Limits := {}
  slots : Array (Option Scope) := #[]

namespace Tree

def withLimits (limits : Limits) : Except Fault Tree :=
  limits.validate.map fun _ => { limits }

def scope? (t : Tree) (id : ScopeId) : Option Scope := t.slots[id.index]?.join

def scope (t : Tree) (id : ScopeId) : Except Fault Scope :=
  match t.scope? id with
  | some s => .ok s
  | none => .error (.unknownScope id)

def scopes (t : Tree) : List Scope := t.slots.toList.filterMap id

def size (t : Tree) : Nat := t.scopes.length

def root? (t : Tree) : Option ScopeId := (t.scopes.find? (·.parent.isNone)).map (·.id)

/-- Acts on one scope. The scope leaves its slot while it changes, so it is never held twice. -/
@[inline] def update {α : Type} (t : Tree) (id : ScopeId) (act : Scope → Reply Scope α) :
    Reply Tree α :=
  if inside : id.index < t.slots.size then
    let limits := t.limits
    let (slot, slots) := t.slots.swapAt id.index none inside
    match slot with
    | none => .refuse { limits, slots } (.unknownScope id)
    | some s => (act s).embed fun s => { limits, slots := slots.setIfInBounds id.index (some s) }
  else .refuse t (.unknownScope id)

theorem update_of_scope?_some {α : Type} {t : Tree} {id : ScopeId} {s : Scope}
    (act : Scope → Reply Scope α) (present : t.scope? id = some s) :
    t.update id act =
      { answer := (act s).answer
        after := { t with slots := t.slots.setIfInBounds id.index (some (act s).after) }
        log := (act s).log } := by
  unfold scope? at present
  have inside : id.index < t.slots.size := by
    rcases Nat.lt_or_ge id.index t.slots.size with below | above
    · exact below
    · simp [Array.getElem?_eq_none above] at present
  have slot : t.slots[id.index] = some s := by
    simpa [Array.getElem?_eq_getElem inside] using present
  simp [update, inside, slot, Reply.embed, Array.setIfInBounds]

theorem update_of_scope?_none {α : Type} {t : Tree} {id : ScopeId}
    (act : Scope → Reply Scope α) (absent : t.scope? id = none) :
    t.update id act = .refuse t (.unknownScope id) := by
  unfold scope? at absent
  unfold update
  split
  · rename_i inside
    have slot : t.slots[id.index] = none := by
      simpa [Array.getElem?_eq_getElem inside] using absent
    have same : t.slots.set id.index none inside = t.slots := by
      rw [← slot]
      exact Array.set_getElem_self inside
    simp [slot, same]
  · rfl

end Tree

end BytecodeScopes
