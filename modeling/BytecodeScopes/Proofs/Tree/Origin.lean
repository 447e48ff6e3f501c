import BytecodeScopes.Proofs.Tree.WellFormed

/-!
Where the scopes of a tree come from. A scope there after an action is new, or it was there before
and has at most another list of children, or it is the one acted on or finished. What every move of
a scope keeps, and every list of children, therefore holds of all scopes of all trees that actions
lead to.
-/

namespace BytecodeScopes.Tree

/-- How a scope with a number comes out of an action on a tree. -/
inductive Origin (t : Tree) (j : ScopeId) : Op → Scope → Prop where
  | created {parent : Option ScopeId} {top : Bool} {outer : Option Nesting}
      (checked : t.checkCreate parent = .ok outer) (last : j = ⟨t.slots.size⟩) :
      Origin t j (.create parent top) (.fresh j parent top (nestingUnder outer top) t.limits)
  | relisted {op : Op} {s : Scope} (before : t.scope? j = some s)
      (apart : ∀ action, op ≠ .scope j action) (children : Array ScopeId) :
      Origin t j op { s with children }
  | acted {op : Scope.Op} {s : Scope} (before : t.scope? j = some s) :
      Origin t j (.scope j op) (s.step op).after
  | finished {s : Scope} {childCount : Nat} (before : t.scope? j = some s)
      (checked : t.checkFinish j = .ok childCount) :
      Origin t j (.finish j) (s.finish childCount).after

section

variable {t : Tree} {op : Op} {j : ScopeId} {s s' : Scope}

theorem Origin.kept (before : t.scope? j = some s) (apart : ∀ action, op ≠ .scope j action) :
    t.Origin j op s := .relisted before apart s.children

theorem Origin.relink (before : t.scope? j = some s) (apart : ∀ action, op ≠ .scope j action)
    (parent : Option ScopeId) (change : Array ScopeId → Array ScopeId) :
    t.Origin j op (relinked parent change j s) := by
  unfold relinked
  split
  · exact .relisted before apart _
  · exact .kept before apart

theorem origin_step (live : (t.step op).after.scope? j = some s') : t.Origin j op s' := by
  cases op with
  | create parent top =>
      have apart : ∀ action, Op.create parent top ≠ .scope j action := nofun
      change (t.create parent top).after.scope? j = some s' at live
      cases checked : t.checkCreate parent with
      | error fault =>
          rw [create_of_error checked] at live
          exact .kept live apart
      | ok outer =>
          rw [scope?_create checked] at live
          split at live
          · rename_i last
            have same : j = ⟨t.slots.size⟩ := ScopeId.eq_of_index last
            cases live
            rw [← same]
            exact .created checked same
          · obtain ⟨s, found, rfl⟩ := Option.map_eq_some_iff.mp live
            exact .relink found apart _ _
  | finish id =>
      have apart : ∀ action, Op.finish id ≠ .scope j action := nofun
      change (t.finish id).after.scope? j = some s' at live
      unfold finish at live
      cases checked : t.checkFinish id with
      | error fault =>
          rw [checked] at live
          exact .kept live apart
      | ok childCount =>
          rw [checked] at live
          dsimp only at live
          rw [scope?_update] at live
          split at live
          · rename_i same
            subst same
            obtain ⟨s, found, rfl⟩ := Option.map_eq_some_iff.mp live
            exact .finished found checked
          · exact .kept live apart
  | free id =>
      have apart : ∀ action, Op.free id ≠ .scope j action := nofun
      change (t.free id).after.scope? j = some s' at live
      cases checked : t.checkFree id with
      | error fault =>
          rw [free_of_error checked] at live
          exact .kept live apart
      | ok parent =>
          rw [scope?_free checked] at live
          split at live
          · cases live
          · obtain ⟨s, found, rfl⟩ := Option.map_eq_some_iff.mp live
            exact .relink found apart _ _
  | scope id op =>
      change (t.update id (·.step op)).after.scope? j = some s' at live
      rw [scope?_update] at live
      split at live
      · rename_i same
        subst same
        obtain ⟨s, found, rfl⟩ := Option.map_eq_some_iff.mp live
        exact .acted found
      · rename_i other
        refine .kept live ?_
        rintro action ⟨⟩
        exact other rfl

theorem size_unlink (slots : Array (Option Scope)) (parent : Option ScopeId) (child : ScopeId) :
    (unlink slots parent child).size = slots.size := by
  cases parent with
  | none => rfl
  | some p => exact Array.size_modify

theorem size_clear (slots : Array (Option Scope)) (ids : List ScopeId) :
    (clear slots ids).size = slots.size := by
  induction ids generalizing slots with
  | nil => rfl
  | cons id ids ih => exact (ih _).trans Array.size_setIfInBounds

theorem frame_update {α : Type} (t : Tree) (id : ScopeId) (act : Scope → Reply Scope α) :
    (t.update id act).after.limits = t.limits ∧
      (t.update id act).after.slots.size = t.slots.size := by
  cases live : t.scope? id with
  | none =>
      rw [update_of_scope?_none act live]
      exact ⟨rfl, rfl⟩
  | some s =>
      rw [update_of_scope?_some act live]
      exact ⟨rfl, Array.size_setIfInBounds⟩

theorem frame_step (t : Tree) (op : Op) :
    (t.step op).after.limits = t.limits ∧ t.slots.size ≤ (t.step op).after.slots.size := by
  cases op with
  | create parent top =>
      change (t.create parent top).after.limits = _ ∧ _ ≤ (t.create parent top).after.slots.size
      cases checked : t.checkCreate parent with
      | error fault =>
          rw [create_of_error checked]
          exact ⟨rfl, Nat.le_refl _⟩
      | ok outer =>
          have grown : (t.create parent top).after.slots.size = t.slots.size + 1 := by
            rw [create, checked]
            exact (Array.size_push _).trans (congrArg (· + 1) (size_link _ _ _))
          refine ⟨by rw [create, checked], ?_⟩
          rw [grown]
          exact Nat.le_succ _
  | finish id =>
      change (t.finish id).after.limits = _ ∧ _ ≤ (t.finish id).after.slots.size
      unfold finish
      cases t.checkFinish id with
      | error fault => exact ⟨rfl, Nat.le_refl _⟩
      | ok childCount =>
          obtain ⟨limits, size⟩ := frame_update t id (·.finish childCount)
          exact ⟨limits, Nat.le_of_eq size.symm⟩
  | free id =>
      change (t.free id).after.limits = _ ∧ _ ≤ (t.free id).after.slots.size
      cases checked : t.checkFree id with
      | error fault =>
          rw [free_of_error checked]
          exact ⟨rfl, Nat.le_refl _⟩
      | ok parent =>
          rw [free, checked]
          exact ⟨rfl, Nat.le_of_eq ((size_clear _ _).trans (size_unlink _ _ _)).symm⟩
  | scope id op =>
      obtain ⟨limits, size⟩ := frame_update t id (·.step op)
      exact ⟨limits, Nat.le_of_eq size.symm⟩

theorem ne_last (before : t.scope? j = some s) : j ≠ ⟨t.slots.size⟩ := by
  intro last
  have inside := index_lt_of_scope? before
  rw [last] at inside
  exact Nat.lt_irrefl _ inside

/-- What holds of all that a move or another list of children can make of a scope holds of the scope
after an action. -/
theorem survivor_step {P : Scope → Prop} (before : t.scope? j = some s)
    (live : (t.step op).after.scope? j = some s')
    (relisted : ∀ children, P { s with children }) (moved : ∀ m, P (s.move m).after) : P s' := by
  cases origin_step live with
  | created checked last => exact absurd last (ne_last before)
  | relisted found apart children =>
      rw [before] at found
      cases found
      exact relisted children
  | @acted action s found =>
      rw [before] at found
      cases found
      exact moved (.act action)
  | @finished s childCount found checked =>
      rw [before] at found
      cases found
      exact moved (.finish childCount)

theorem live_before_step (live : (t.step op).after.scope? j = some s')
    (inside : j.index < t.slots.size) : ∃ s, t.scope? j = some s := by
  cases origin_step live with
  | created checked last =>
      rw [last] at inside
      exact absurd inside (Nat.lt_irrefl _)
  | relisted before | acted before | finished before => exact ⟨_, before⟩

theorem live_before_run (ops : List Op) (live : (t.run ops).scope? j = some s')
    (inside : j.index < t.slots.size) : ∃ s, t.scope? j = some s := by
  induction ops generalizing t with
  | nil => exact ⟨s', live⟩
  | cons op ops ih =>
      obtain ⟨s, later⟩ := ih live (Nat.lt_of_lt_of_le inside (t.frame_step op).2)
      exact live_before_step later inside

end

theorem Reachable.sound {t : Tree} (reachable : t.Reachable) : t.limits.Sound := by
  obtain ⟨limits, sound, ops, rfl⟩ := reachable
  apply runBy_invariant step (P := (·.limits.Sound))
  · intro t op sound
    rw [(t.frame_step op).1]
    exact sound
  · exact sound

/-- What holds of a scope under sound limits nothing was done to, and outlasts its moves and any
change of its list of children, holds of every scope there is. -/
theorem Reachable.every_scope {P : Scope → Prop}
    (fresh : ∀ id parent top nesting limits, limits.Sound → P (.fresh id parent top nesting limits))
    (moved : ∀ s m, P s → P (s.move m).after)
    (relisted : ∀ (s : Scope) children, P s → P { s with children })
    {t : Tree} (reachable : t.Reachable) {id : ScopeId} {s : Scope}
    (live : t.scope? id = some s) : P s := by
  obtain ⟨limits, sound, ops, rfl⟩ := reachable
  let All (t : Tree) : Prop := t.limits.Sound ∧ ∀ id s, t.scope? id = some s → P s
  have all : All (({ limits } : Tree).run ops) := by
    apply runBy_invariant step (P := All)
    · rintro t op ⟨sound, holds⟩
      refine ⟨(t.frame_step op).1 ▸ sound, ?_⟩
      intro j s' live
      cases origin_step live with
      | created checked last => exact fresh _ _ _ _ _ sound
      | relisted before apart children => exact relisted _ children (holds j _ before)
      | @acted op s before => exact moved s (.act op) (holds j s before)
      | @finished s childCount before checked =>
          exact moved s (.finish childCount) (holds j s before)
    · refine ⟨sound, ?_⟩
      intro id s live
      simp [scope?] at live
  exact all.2 id s live

end BytecodeScopes.Tree
