import BytecodeScopes.Proofs.Scope.Refusal
import BytecodeScopes.Proofs.Tree.Finished

namespace BytecodeScopes.Tree

variable {t : Tree} {id : ScopeId} {s : Scope} {fault : Fault}

theorem slots_self (live : t.scope? id = some s) :
    { t with slots := t.slots.setIfInBounds id.index (some s) } = t := by
  obtain ⟨inside, slot⟩ := Array.getElem?_eq_some_iff.mp (slot_of_scope? live)
  have same : t.slots.setIfInBounds id.index (some s) = t.slots := by
    rw [Array.setIfInBounds, dif_pos inside, ← slot]
    exact Array.set_getElem_self inside
  rw [same]

theorem create_error {parent : Option ScopeId} {top : Bool}
    (refused : (t.create parent top).answer = .error fault) :
    (t.create parent top).after = t := by
  cases checked : t.checkCreate parent with
  | error early =>
      rw [create_of_error checked]
      rfl
  | ok outer =>
      rw [create, checked] at refused
      cases refused

theorem free_error (refused : (t.free id).answer = .error fault) : (t.free id).after = t := by
  cases checked : t.checkFree id with
  | error early =>
      rw [free_of_error checked]
      rfl
  | ok parent =>
      rw [free, checked] at refused
      cases refused

/-- The scope was being built, its children let it finish, and it refused by itself. -/
def Spoils (t : Tree) (id : ScopeId) (fault : Fault) (after : Tree) : Prop :=
  ∃ s, t.scope? id = some s ∧ s.phase = .building ∧ t.checkFinish id = .ok s.children.size ∧
    s.checkFinish = .error fault ∧
    after = { t with slots := t.slots.setIfInBounds id.index (some { s with phase := .failed }) }

theorem finish_error (refused : (t.finish id).answer = .error fault) :
    (t.finish id).after = t ∨ t.Spoils id fault (t.finish id).after := by
  cases checked : t.checkFinish id with
  | error early =>
      rw [finish, checked]
      exact .inl rfl
  | ok childCount =>
      obtain ⟨s, live, rfl, -⟩ := checkFinish_ok checked
      have own : t.finish id = t.update id (·.finish s.children.size) := by rw [finish, checked]
      rw [own, update_of_scope?_some _ live] at refused ⊢
      cases phase : s.phase with
      | finished output =>
          rw [Scope.finish_of_finished phase]
          exact .inl (slots_self live)
      | failed =>
          rw [Scope.finish, Scope.whileBuilding_of_failed phase]
          exact .inl (slots_self live)
      | building =>
          obtain ⟨failed, -, left⟩ := Scope.finish_error phase refused
          refine .inr ⟨s, live, phase, checked, failed, ?_⟩
          dsimp only
          rw [left]

/-- A fault leaves a scope as it was, but that it is failed if the fault is fatal; only closing a
loop may have gone halfway. Accepted actions let a scope be built further and finishing finishes it,
closed scopes refuse everything, and a tree that refuses is the same tree, but for the one scope
that refused to be finished. -/
theorem faults_contained :
    (∀ (s : Scope) (m : Scope.Move), s.phase = .building →
      (∀ fault, (s.move m).answer = .error fault →
        (∀ name, fault = .duplicateLocal name → (s.move m).after = s) ∧
        ((∀ name, fault ≠ .duplicateLocal name) →
          (s.move m).after = { s with phase := .failed } ∨
            m = .act .closeLoop ∧ s.HalfClosed fault (s.move m).after)) ∧
      (∀ op answer, m = .act op → (s.move m).answer = .ok answer →
        (s.move m).after.phase = .building) ∧
      ∀ childCount answer, m = .finish childCount → (s.move m).answer = .ok answer →
        (s.move m).after.phase = .finished (s.outputWith childCount)) ∧
    (∀ (s : Scope) (m : Scope.Move) output, s.phase = .finished output →
      (s.move m).answer = .error (.scopeFinished s.id) ∧ (s.move m).after = s) ∧
    (∀ (s : Scope) (m : Scope.Move), s.phase = .failed →
      (s.move m).answer = .error (.scopeFailed s.id) ∧ (s.move m).after = s) ∧
    (∀ (t : Tree) parent top fault, (t.create parent top).answer = .error fault →
      (t.create parent top).after = t) ∧
    (∀ (t : Tree) id fault, (t.free id).answer = .error fault → (t.free id).after = t) ∧
    ∀ (t : Tree) id fault, (t.finish id).answer = .error fault →
      (t.finish id).after = t ∨ t.Spoils id fault (t.finish id).after := by
  refine ⟨?_, ?_, ?_, fun _ _ _ _ => create_error, fun _ _ _ => free_error,
    fun _ _ _ => finish_error⟩
  · intro s m building
    refine ⟨?_, ?_, ?_⟩
    · intro fault refused
      rcases Scope.move_error building refused with stopped | ⟨fatal, closing, half⟩
      · constructor
        · rintro name rfl
          exact stopped
        · intro other
          rw [Scope.stopped, if_pos (fault.fatal_iff.mpr other)] at stopped
          exact .inl stopped
      · constructor
        · rintro name rfl
          cases fatal
        · exact fun _ => .inr ⟨closing, half⟩
    · rintro op answer rfl accepted
      exact Scope.step_ok_phase building accepted
    · rintro childCount answer rfl accepted
      obtain ⟨done, finished, -⟩ := Reply.map_eq_ok_iff.mp accepted
      obtain ⟨-, -, after⟩ := Scope.finish_of_ok finished
      exact congrArg Scope.phase after
  · intro s m output closed
    rw [Scope.move_of_finished closed]
    exact ⟨rfl, rfl⟩
  · intro s m closed
    rw [Scope.move_of_failed closed]
    exact ⟨rfl, rfl⟩

/-- A loop with two exits through the same label, of which the second finds it resolved. -/
def doubledExit : Scope :=
  (Scope.fresh ⟨0⟩ none true .method {}).run
    [.openLoop, .reserve, .addExit ⟨⟨0⟩, 0, 2⟩, .addExit ⟨⟨0⟩, 0, 2⟩, .emit 7]

theorem faults_contained_halfway :
    doubledExit.phase = .building ∧
      (doubledExit.move (.act .closeLoop)).answer = .error (.labelResolved ⟨0⟩) ∧
      doubledExit.HalfClosed (.labelResolved ⟨0⟩) (doubledExit.move (.act .closeLoop)).after := by
  have building : doubledExit.phase = .building := by decide
  have refused : (doubledExit.move (.act .closeLoop)).answer = .error (.labelResolved ⟨0⟩) := by
    decide
  have gone : (doubledExit.move (.act .closeLoop)).after.frames.loops.length = 0 := by decide
  obtain ⟨contained, -⟩ := faults_contained.1 doubledExit (.act .closeLoop) building
  rcases (contained _ refused).2 nofun with kept | ⟨-, half⟩
  · rw [kept] at gone
    exact absurd gone (by decide)
  · exact ⟨building, refused, half⟩

end BytecodeScopes.Tree
