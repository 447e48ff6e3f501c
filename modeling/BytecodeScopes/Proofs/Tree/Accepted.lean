import BytecodeScopes.Proofs.Tree.Interleaving

/-!
What scopes accept in the runs of a tree. A scope is what the actions that it accepted have made of
it: what holds of a scope and the actions accepted so far, and outlasts every move and every change
of the list of children, holds at the end of a run, if it held at its start or when the scope was
created.
-/

namespace BytecodeScopes.Tree

def acceptedOn? (id : ScopeId) : Op × Except Fault Answer → Option (Scope.Op × Scope.Answer)
  | (.scope j action, .ok (.scope answer)) => if j = id then some (action, answer) else none
  | _ => none

/-- The actions of a run that a scope accepts, in order and with their answers. -/
def acceptedBy (t : Tree) (id : ScopeId) (ops : List Op) : List (Scope.Op × Scope.Answer) :=
  (t.answers ops).filterMap (acceptedOn? id)

section

variable {t : Tree} {id : ScopeId} {op : Op} {s s' : Scope}

theorem acceptedOn?_eq_some_iff {entry : Op × Except Fault Answer} {action : Scope.Op}
    {answer : Scope.Answer} :
    acceptedOn? id entry = some (action, answer) ↔
      entry = (.scope id action, .ok (.scope answer)) := by
  constructor
  · intro accepted
    unfold acceptedOn? at accepted
    split at accepted
    · split at accepted
      · cases accepted
        subst id
        rfl
      · cases accepted
    · cases accepted
  · rintro rfl
    rw [acceptedOn?, if_pos rfl]

theorem mem_acceptedBy_iff {ops : List Op} {action : Scope.Op} {answer : Scope.Answer} :
    (action, answer) ∈ t.acceptedBy id ops ↔
      (.scope id action, .ok (.scope answer)) ∈ t.answers ops := by
  simp [acceptedBy, acceptedOn?_eq_some_iff]

theorem acceptedBy_cons (t : Tree) (id : ScopeId) (op : Op) (ops : List Op) :
    t.acceptedBy id (op :: ops) =
      (acceptedOn? id (op, (t.step op).answer)).toList ++ (t.step op).after.acceptedBy id ops :=
  filterMap_answersBy_cons step (acceptedOn? id) t op ops

theorem acceptedBy_append (t : Tree) (id : ScopeId) (front back : List Op) :
    t.acceptedBy id (front ++ back) =
      t.acceptedBy id front ++ (t.run front).acceptedBy id back := by
  rw [acceptedBy, answers, answersBy_append, List.filterMap_append]
  rfl

theorem acceptedOn?_of_apart (apart : ∀ action, op ≠ .scope id action)
    (answer : Except Fault Answer) : acceptedOn? id (op, answer) = none := by
  rw [Option.eq_none_iff_forall_ne_some]
  rintro ⟨action, given⟩ accepted
  rw [acceptedOn?_eq_some_iff] at accepted
  cases accepted
  exact apart action rfl

theorem acceptedOn?_of_absent (absent : t.scope? id = none) (op : Op) :
    acceptedOn? id (op, (t.step op).answer) = none := by
  rw [Option.eq_none_iff_forall_ne_some]
  rintro ⟨action, given⟩ accepted
  obtain ⟨rfl, answered⟩ := Prod.mk.inj (acceptedOn?_eq_some_iff.mp accepted)
  rw [step, update_of_scope?_none _ absent] at answered
  cases answered

theorem acceptedOn?_self (live : t.scope? id = some s) (action : Scope.Op) :
    acceptedOn? id (.scope id action, (t.step (.scope id action)).answer) =
      s.accepted? (.act action) := by
  rw [step, update_of_scope?_some _ live]
  cases given : (s.step action).answer with
  | ok answer =>
      rw [Scope.accepted?_of_ok given]
      simp [Reply.map, Except.map, acceptedOn?]
  | error fault =>
      rw [Scope.accepted?_of_error given]
      simp [Reply.map, Except.map, acceptedOn?]

/-- A relation between scopes and the actions they have accepted that no move breaks. -/
structure Lasting (P : Scope → List (Scope.Op × Scope.Answer) → Prop) : Prop where
  moved : ∀ s m done, P s done → P (s.move m).after (done ++ (s.accepted? m).toList)
  relisted : ∀ (s : Scope) children done, P s done → P { s with children } done

variable {P : Scope → List (Scope.Op × Scope.Answer) → Prop}
  {done : List (Scope.Op × Scope.Answer)}

theorem Lasting.step (lasting : Lasting P) (before : t.scope? id = some s) (holds : P s done)
    (live : (t.step op).after.scope? id = some s') :
    P s' (done ++ (acceptedOn? id (op, (t.step op).answer)).toList) := by
  cases origin_step live with
  | created checked last => exact absurd last (ne_last before)
  | relisted found apart children =>
      rw [before] at found
      cases found
      rw [acceptedOn?_of_apart apart, Option.toList_none, List.append_nil]
      exact lasting.relisted s children done holds
  | @acted action _ found =>
      rw [before] at found
      cases found
      rw [acceptedOn?_self before]
      exact lasting.moved s (.act action) done holds
  | @finished _ childCount found checked =>
      rw [before] at found
      cases found
      have apart : ∀ action, Op.finish id ≠ .scope id action := by simp
      rw [acceptedOn?_of_apart apart]
      exact lasting.moved s (.finish childCount) done holds

theorem Lasting.run (lasting : Lasting P) (before : t.scope? id = some s)
    (done : List (Scope.Op × Scope.Answer)) (holds : P s done) (ops : List Op)
    (live : (t.run ops).scope? id = some s') : P s' (done ++ t.acceptedBy id ops) := by
  induction ops generalizing t s done with
  | nil =>
      change t.scope? id = some s' at live
      rw [before] at live
      cases live
      change P s' (done ++ [])
      rw [List.append_nil]
      exact holds
  | cons op ops ih =>
      have inside := Nat.lt_of_lt_of_le (index_lt_of_scope? before) (t.frame_step op).2
      obtain ⟨next, there⟩ := live_before_run (t := (t.step op).after) ops live inside
      rw [acceptedBy_cons, ← List.append_assoc]
      exact ih there _ (lasting.step before holds there) live

/-- The relation lasts from the creation of the scope. -/
theorem Lasting.since_creation (lasting : Lasting P)
    (fresh : ∀ id parent top nesting limits, P (.fresh id parent top nesting limits) [])
    (unborn : t.slots.size ≤ id.index) (ops : List Op)
    (live : (t.run ops).scope? id = some s') : P s' (t.acceptedBy id ops) := by
  induction ops generalizing t with
  | nil => exact absurd (index_lt_of_scope? live) (Nat.not_lt.mpr unborn)
  | cons op ops ih =>
      have absent : t.scope? id = none := by
        cases found : t.scope? id with
        | none => rfl
        | some s => exact absurd (index_lt_of_scope? found) (Nat.not_lt.mpr unborn)
      rw [acceptedBy_cons, acceptedOn?_of_absent absent, Option.toList_none, List.nil_append]
      by_cases created : (t.step op).after.slots.size ≤ id.index
      · exact ih created live
      · obtain ⟨next, there⟩ :=
          live_before_run (t := (t.step op).after) ops live (Nat.lt_of_not_le created)
        have new : P next [] := by
          cases origin_step there with
          | created checked last => exact fresh _ _ _ _ _
          | relisted before | acted before | finished before =>
              rw [absent] at before
              cases before
        exact lasting.run there [] new ops live

end

end BytecodeScopes.Tree
