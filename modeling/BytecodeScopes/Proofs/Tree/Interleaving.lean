import BytecodeScopes.Proofs.Scope.Run
import BytecodeScopes.Proofs.Tree.Origin

namespace BytecodeScopes.Tree

/-- The scope an action is about. A creation is about the parent. -/
def Op.addressee : Op → Option ScopeId
  | .create parent _ => parent
  | .finish id | .free id | .scope id _ => some id

def answers (t : Tree) (ops : List Op) : List (Op × Except Fault Answer) := answersBy step t ops

def accepts (t : Tree) (ops : List Op) : Bool := acceptsBy step t ops

/-- What a scope, or an empty slot, answers by itself. -/
def answersAlone (id : ScopeId) (slot : Option Scope) (actions : List Scope.Op) :
    List (Op × Except Fault Answer) :=
  match slot with
  | none => actions.map fun action => (.scope id action, .error (.unknownScope id))
  | some s => (s.answers actions).map fun answered => (.scope id answered.1, answered.2.map .scope)

def onScopes (requests : List (ScopeId × Scope.Op)) : List Op :=
  requests.map fun request => .scope request.1 request.2

def ownActions (id : ScopeId) (requests : List (ScopeId × Scope.Op)) : List Scope.Op :=
  (requests.filter (·.1 = id)).map (·.2)

section

variable (t : Tree) (id : ScopeId)

theorem ownActions_self (action : Scope.Op) (rest : List (ScopeId × Scope.Op)) :
    ownActions id ((id, action) :: rest) = action :: ownActions id rest := by
  simp [ownActions]

theorem ownActions_other {other : ScopeId} (apart : other ≠ id) (action : Scope.Op)
    (rest : List (ScopeId × Scope.Op)) :
    ownActions id ((other, action) :: rest) = ownActions id rest := by
  simp [ownActions, apart]

theorem scope?_step_self (action : Scope.Op) :
    (t.step (.scope id action)).after.scope? id =
      (t.scope? id).map fun s => (s.step action).after := by
  simp only [step, Reply.after_map, scope?_update, if_true]

theorem scope?_step_other {other : ScopeId} (apart : other ≠ id) (action : Scope.Op) :
    (t.step (.scope other action)).after.scope? id = t.scope? id := by
  simp only [step, Reply.after_map, scope?_update, if_neg apart.symm]

theorem scope?_run_onScopes (requests : List (ScopeId × Scope.Op)) :
    (t.run (onScopes requests)).scope? id =
      (t.scope? id).map (·.run (ownActions id requests)) := by
  induction requests generalizing t with
  | nil => exact Option.map_id'.symm
  | cons request rest ih =>
      obtain ⟨other, action⟩ := request
      have later := ih (t.step (.scope other action)).after
      by_cases same : other = id
      · subst same
        rw [scope?_step_self, Option.map_map] at later
        rw [ownActions_self]
        exact later
      · rw [scope?_step_other t id same] at later
        rw [ownActions_other id same]
        exact later

theorem answers_onScopes (requests : List (ScopeId × Scope.Op)) :
    (t.answers (onScopes requests)).filter (·.1.addressee = some id) =
      answersAlone id (t.scope? id) (ownActions id requests) := by
  induction requests generalizing t with
  | nil => cases slot : t.scope? id <;> rfl
  | cons request rest ih =>
      obtain ⟨other, action⟩ := request
      have later := ih (t.step (.scope other action)).after
      simp only [onScopes, List.map_cons, answers, answersBy, List.filter_cons, Op.addressee]
        at later ⊢
      by_cases same : other = id
      · subst same
        rw [scope?_step_self] at later
        simp only [decide_true, if_true, ownActions_self, later]
        cases slot : t.scope? other with
        | none =>
            rw [step, update_of_scope?_none _ slot]
            rfl
        | some s =>
            rw [step, update_of_scope?_some _ slot]
            rfl
      · rw [scope?_step_other t id same] at later
        simp only [ownActions_other id same, Option.some.injEq, same, decide_false,
          Bool.false_eq_true, if_false, later]

theorem frame_run_onScopes (requests : List (ScopeId × Scope.Op)) :
    (t.run (onScopes requests)).limits = t.limits ∧
      (t.run (onScopes requests)).slots.size = t.slots.size := by
  induction requests generalizing t with
  | nil => exact ⟨rfl, rfl⟩
  | cons request rest ih =>
      obtain ⟨limits, size⟩ := ih (t.step (.scope request.1 request.2)).after
      obtain ⟨limits', size'⟩ := frame_update t request.1 (·.step request.2)
      exact ⟨limits.trans limits', size.trans size'⟩

end

/-- A scope becomes the same and answers the same in any two sequences of actions on scopes that
hold the same actions on it in the same order, also if others fail in between. Sequences that agree
so on every scope lead to the same tree. -/
theorem scopes_independent (t : Tree) (first second : List (ScopeId × Scope.Op)) :
    (∀ id, ownActions id first = ownActions id second →
      (t.run (onScopes first)).scope? id = (t.run (onScopes second)).scope? id ∧
      (t.answers (onScopes first)).filter (·.1.addressee = some id) =
        (t.answers (onScopes second)).filter (·.1.addressee = some id)) ∧
    ((∀ id, ownActions id first = ownActions id second) →
      t.run (onScopes first) = t.run (onScopes second)) := by
  have alike : ∀ id, ownActions id first = ownActions id second →
      (t.run (onScopes first)).scope? id = (t.run (onScopes second)).scope? id := by
    intro id same
    rw [scope?_run_onScopes, scope?_run_onScopes, same]
  constructor
  · intro id same
    refine ⟨alike id same, ?_⟩
    rw [answers_onScopes, answers_onScopes, same]
  · intro same
    obtain ⟨limits, size⟩ := t.frame_run_onScopes first
    obtain ⟨limits', size'⟩ := t.frame_run_onScopes second
    exact ext_scope? (limits.trans limits'.symm) (size.trans size'.symm)
      fun id => alike id (same id)

def twoScopes : Tree := ({} : Tree).run [.create none false, .create (some ⟨0⟩) false]

/-- The block fails between actions on the root, and there is no third scope. -/
def mixed : List (ScopeId × Scope.Op) :=
  [(⟨0⟩, .emit 1), (⟨1⟩, .popMany 9), (⟨2⟩, .push), (⟨0⟩, .reserve), (⟨1⟩, .emit 3), (⟨0⟩, .emit 2)]

def sorted : List (ScopeId × Scope.Op) :=
  [(⟨2⟩, .push), (⟨1⟩, .popMany 9), (⟨1⟩, .emit 3), (⟨0⟩, .emit 1), (⟨0⟩, .reserve), (⟨0⟩, .emit 2)]

theorem scopes_independent_mixed :
    twoScopes.Reachable ∧ (∀ id, ownActions id mixed = ownActions id sorted) ∧
      (twoScopes.answers (onScopes mixed)).map (·.2.isOk) =
        [true, false, false, true, false, true] ∧
      twoScopes.run (onScopes mixed) = twoScopes.run (onScopes sorted) ∧
      (twoScopes.answers (onScopes mixed)).filter (·.1.addressee = some ⟨0⟩) =
        (twoScopes.answers (onScopes sorted)).filter (·.1.addressee = some ⟨0⟩) := by
  have same : ∀ id, ownActions id mixed = ownActions id sorted := by
    rintro ⟨_ | _ | _ | index⟩ <;> simp [ownActions, mixed, sorted]
  obtain ⟨answered, reached⟩ := scopes_independent twoScopes mixed sorted
  have sound : ({} : Limits).Sound := (Limits.validate_eq_ok_iff {}).mp (by decide)
  exact ⟨⟨{}, sound, _, rfl⟩, same, by decide, reached same, (answered ⟨0⟩ (same ⟨0⟩)).2⟩

end BytecodeScopes.Tree
