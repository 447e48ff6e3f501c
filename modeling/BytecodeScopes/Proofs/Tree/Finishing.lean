import BytecodeScopes.Proofs.Tree.Finished

namespace BytecodeScopes

namespace Scope

def sealed (s : Scope) : Scope :=
  { s with code := {}, phase := .finished (s.outputWith s.children.size) }

theorem answer_finish {s : Scope} (building : s.phase = .building) (childCount : Nat) :
    (s.finish childCount).answer = s.checkFinish := by
  rw [finish, whileBuilding_of_building building]
  cases checked : s.checkFinish with
  | error fault => exact answer_abort s fault
  | ok done => rfl

end Scope

namespace Tree

def ChildrenFinished (t : Tree) (s : Scope) : Prop :=
  ∀ c ∈ s.children, ∃ child, t.scope? c = some child ∧ child.isFinished = true

section

variable {t : Tree} {id : ScopeId} {s : Scope}

theorem checkFinish_of_children (links : t.WellFormed) (live : t.scope? id = some s)
    (children : t.ChildrenFinished s) : t.checkFinish id = .ok s.children.size := by
  have unhindered : s.children.findSome? (t.hindrance? id) = none := by
    rw [Array.findSome?_eq_none_iff]
    intro c member
    obtain ⟨child, found, finished⟩ := children c member
    simp only [hindrance?, found, finished, if_true]
  have room : s.children.size ≤ childCapacity := (links id s live).bounded
  simp only [checkFinish, live, unhindered, if_pos room]

theorem answer_finish (links : t.WellFormed) (live : t.scope? id = some s)
    (building : s.phase = .building) (children : t.ChildrenFinished s) :
    (t.finish id).answer = s.checkFinish := by
  rw [finish, checkFinish_of_children links live children]
  dsimp only
  rw [update_of_scope?_some _ live]
  exact Scope.answer_finish building _

/-- A scope that could be finished had finished children and nothing left open, and only its own
slot changes. -/
theorem finish_ok (accepted : (t.finish id).answer = .ok ()) :
    ∃ s, t.scope? id = some s ∧ s.phase = .building ∧ t.ChildrenFinished s ∧
      s.checkFinish = .ok () ∧
      ∀ j, (t.finish id).after.scope? j = if j = id then some s.sealed else t.scope? j := by
  cases checked : t.checkFinish id with
  | error fault =>
      rw [finish, checked] at accepted
      cases accepted
  | ok childCount =>
      obtain ⟨s, live, rfl, children⟩ := checkFinish_ok checked
      have own : t.finish id = t.update id (·.finish s.children.size) := by rw [finish, checked]
      rw [own] at accepted ⊢
      rw [update_of_scope?_some _ live] at accepted
      obtain ⟨building, closed, after⟩ := Scope.finish_of_ok accepted
      refine ⟨s, live, building, children, closed, ?_⟩
      intro j
      rw [scope?_update, live, Option.map_some, after]
      rfl

end

end Tree

end BytecodeScopes
