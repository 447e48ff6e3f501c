import BytecodeScopes.Tree.Step

/-!
Which scope each slot of a tree holds after an action, said slot by slot: creating adds one scope
and a link to it, changing a scope changes one slot, and freeing empties slots and takes one link
away.
-/

namespace BytecodeScopes

theorem ScopeId.eq_of_index {first second : ScopeId} (same : first.index = second.index) :
    first = second := by
  cases first
  cases second
  cases same
  rfl

namespace Tree

theorem slot_of_scope? {t : Tree} {id : ScopeId} {s : Scope} (live : t.scope? id = some s) :
    t.slots[id.index]? = some (some s) := Option.join_eq_some_iff.mp live

theorem index_lt_of_scope? {t : Tree} {id : ScopeId} {s : Scope} (live : t.scope? id = some s) :
    id.index < t.slots.size := (Array.getElem?_eq_some_iff.mp (slot_of_scope? live)).1

theorem ext_scope? {t t' : Tree} (limits : t.limits = t'.limits)
    (size : t.slots.size = t'.slots.size) (same : ∀ id, t.scope? id = t'.scope? id) : t = t' := by
  have slots : t.slots = t'.slots := by
    apply Array.ext size
    intro i inside inside'
    have slot := same ⟨i⟩
    simp only [scope?, Array.getElem?_eq_getElem inside, Array.getElem?_eq_getElem inside',
      Option.join_some] at slot
    exact slot
  cases t
  cases t'
  cases limits
  cases slots
  rfl

theorem scope?_update {α : Type} (t : Tree) (id : ScopeId) (act : Scope → Reply Scope α)
    (j : ScopeId) :
    (t.update id act).after.scope? j =
      if j = id then (t.scope? id).map fun s => (act s).after else t.scope? j := by
  cases live : t.scope? id with
  | none =>
      rw [update_of_scope?_none act live]
      split
      · rename_i same
        rw [same]
        exact live
      · rfl
  | some s =>
      have inside := index_lt_of_scope? live
      rw [update_of_scope?_some act live, scope?, Array.getElem?_setIfInBounds]
      by_cases same : j = id
      · rw [if_pos same, if_pos (by rw [same]), if_pos (same ▸ inside)]
        rfl
      · have apart : id.index ≠ j.index := fun equal => same (ScopeId.eq_of_index equal.symm)
        rw [if_neg same, if_neg apart]
        rfl

/-- The scope with a change to its list of children if it is the parent. -/
def relinked (parent : Option ScopeId) (change : Array ScopeId → Array ScopeId) (id : ScopeId)
    (s : Scope) : Scope :=
  if parent = some id then { s with children := change s.children } else s

theorem id_relinked (parent : Option ScopeId) (change : Array ScopeId → Array ScopeId)
    (id : ScopeId) (s : Scope) : (relinked parent change id s).id = s.id := by
  unfold relinked
  split <;> rfl

theorem parent_relinked (parent : Option ScopeId) (change : Array ScopeId → Array ScopeId)
    (id : ScopeId) (s : Scope) : (relinked parent change id s).parent = s.parent := by
  unfold relinked
  split <;> rfl

theorem relinked_of_parent (id : ScopeId) (change : Array ScopeId → Array ScopeId) (s : Scope) :
    relinked (some id) change id s = { s with children := change s.children } := if_pos rfl

theorem relinked_of_ne {parent : Option ScopeId} {id : ScopeId} (apart : parent ≠ some id)
    (change : Array ScopeId → Array ScopeId) (s : Scope) :
    relinked parent change id s = s := if_neg apart

theorem map_relinked_of_ne {parent : Option ScopeId} {id : ScopeId} (apart : parent ≠ some id)
    (change : Array ScopeId → Array ScopeId) (slot : Option Scope) :
    slot.map (relinked parent change id) = slot := by
  cases slot <;> simp [relinked_of_ne apart]

private theorem slot_modify (slots : Array (Option Scope)) (p : ScopeId) (f : Scope → Scope)
    (j : ScopeId) :
    (slots.modify p.index (·.map f))[j.index]?.join =
      slots[j.index]?.join.map fun s => if some p = some j then f s else s := by
  rw [Array.getElem?_modify]
  by_cases same : p = j
  · subst same
    rw [if_pos rfl]
    cases slots[p.index]? with
    | none => rfl
    | some slot => cases slot <;> simp
  · have apart : p.index ≠ j.index := fun equal => same (ScopeId.eq_of_index equal)
    rw [if_neg apart]
    cases slots[j.index]?.join <;> simp [same]

theorem slot_link (slots : Array (Option Scope)) (parent : Option ScopeId) (child j : ScopeId) :
    (link slots parent child)[j.index]?.join =
      slots[j.index]?.join.map (relinked parent (·.push child) j) := by
  cases parent with
  | none =>
      rw [link]
      cases slots[j.index]?.join <;> rfl
  | some p => exact slot_modify slots p _ j

theorem slot_unlink (slots : Array (Option Scope)) (parent : Option ScopeId) (child j : ScopeId) :
    (unlink slots parent child)[j.index]?.join =
      slots[j.index]?.join.map (relinked parent (·.filter (· ≠ child)) j) := by
  cases parent with
  | none =>
      rw [unlink]
      cases slots[j.index]?.join <;> rfl
  | some p => exact slot_modify slots p _ j

theorem size_link (slots : Array (Option Scope)) (parent : Option ScopeId) (child : ScopeId) :
    (link slots parent child).size = slots.size := by
  cases parent with
  | none => rfl
  | some p => exact Array.size_modify

theorem scope?_create {t : Tree} {parent : Option ScopeId} {outer : Option Nesting}
    (checked : t.checkCreate parent = .ok outer) (top : Bool) (j : ScopeId) :
    (t.create parent top).after.scope? j =
      if j.index = t.slots.size then
        some (.fresh ⟨t.slots.size⟩ parent top (nestingUnder outer top) t.limits)
      else (t.scope? j).map (relinked parent (·.push ⟨t.slots.size⟩) j) := by
  rw [create, checked]
  simp only [scope?]
  rw [Array.getElem?_push, size_link]
  split
  · rfl
  · exact slot_link t.slots parent _ j

theorem scope?_create_of_live {t : Tree} {parent : Option ScopeId} {outer : Option Nesting}
    (checked : t.checkCreate parent = .ok outer) (top : Bool) {j : ScopeId} {s : Scope}
    (live : t.scope? j = some s) :
    (t.create parent top).after.scope? j =
      some (relinked parent (·.push ⟨t.slots.size⟩) j s) := by
  rw [scope?_create checked, if_neg (Nat.ne_of_lt (index_lt_of_scope? live)), live]
  rfl

theorem checkCreate_ok {t : Tree} {p : ScopeId} {outer : Option Nesting}
    (checked : t.checkCreate (some p) = .ok outer) :
    ∃ s, t.scope? p = some s ∧ s.phase = .building ∧ s.children.size < childCapacity ∧
      outer = some s.nesting := by
  unfold checkCreate at checked
  split at checked
  · simp only at checked
    split at checked
    · cases checked
    · rename_i s live
      split at checked
      · cases checked
      · cases checked
      · rename_i building
        split at checked
        · rename_i room
          cases checked
          exact ⟨s, live, building, room, rfl⟩
        · cases checked
  · cases checked

theorem create_of_error {t : Tree} {parent : Option ScopeId} {fault : Fault}
    (checked : t.checkCreate parent = .error fault) (top : Bool) :
    t.create parent top = .refuse t fault := by
  rw [create, checked]

theorem create_ok {t : Tree} {parent : Option ScopeId} {top : Bool} {id : ScopeId}
    (created : (t.create parent top).answer = .ok id) :
    id = ⟨t.slots.size⟩ ∧ ∃ outer, t.checkCreate parent = .ok outer := by
  cases checked : t.checkCreate parent with
  | error fault =>
      rw [create_of_error checked] at created
      cases created
  | ok outer =>
      rw [create, checked] at created
      cases created
      exact ⟨rfl, outer, rfl⟩

theorem slot_clear (slots : Array (Option Scope)) (ids : List ScopeId) (j : ScopeId) :
    (clear slots ids)[j.index]?.join = if j ∈ ids then none else slots[j.index]?.join := by
  induction ids generalizing slots with
  | nil => simp [clear]
  | cons id ids ih =>
      have step : clear slots (id :: ids) = clear (slots.setIfInBounds id.index none) ids := rfl
      rw [step, ih, Array.getElem?_setIfInBounds]
      by_cases later : j ∈ ids
      · rw [if_pos later, if_pos (List.mem_cons_of_mem id later)]
      · rw [if_neg later]
        by_cases same : j = id
        · subst same
          rw [if_pos rfl, if_pos List.mem_cons_self]
          split <;> rfl
        · have apart : id.index ≠ j.index := fun equal => same (ScopeId.eq_of_index equal.symm)
          have absent : j ∉ id :: ids := by simp [same, later]
          rw [if_neg apart, if_neg absent]

theorem scope?_free {t : Tree} {id : ScopeId} {parent : Option ScopeId}
    (checked : t.checkFree id = .ok parent) (j : ScopeId) :
    (t.free id).after.scope? j =
      if j ∈ t.subtree id then none
      else (t.scope? j).map (relinked parent (·.filter (· ≠ id)) j) := by
  rw [free, checked]
  simp only [scope?]
  rw [slot_clear, slot_unlink]
  by_cases below : j ∈ t.subtree id
  · rw [if_pos below]
    cases live : t.slots[j.index]?.join with
    | none => simp
    | some s => simp [below, live]
  · simp [below]

theorem free_of_error {t : Tree} {id : ScopeId} {fault : Fault}
    (checked : t.checkFree id = .error fault) : t.free id = .refuse t fault := by
  rw [free, checked]

end Tree

end BytecodeScopes
