import BytecodeScopes.Proofs.Tree.Origin

/-!
Freeing a scope takes the scope and all that stand under it, and nothing else. Freeing follows the
lists of children down; which scopes stand under another is told by their parents, going up. The two
agree in every tree that actions lead to, so no scope is missed and none is counted twice.
-/

namespace BytecodeScopes.Tree

def parent? (t : Tree) (id : ScopeId) : Option ScopeId := (t.scope? id).bind (·.parent)

/-- The second scope is the first, or its parents lead there. -/
def Under (t : Tree) (above : ScopeId) (id : ScopeId) : Prop :=
  Relation.ReflTransGen (fun c p => t.parent? c = some p) id above

namespace WellFormed

variable {t : Tree} {id : ScopeId} {s : Scope}

theorem parent?_eq_some_iff (links : t.WellFormed) {p c : ScopeId} :
    t.parent? c = some p ↔ t.Child p c := by
  constructor
  · intro up
    obtain ⟨s, live, parent⟩ := Option.bind_eq_some_iff.mp up
    obtain ⟨above, found, -, once⟩ := (links c s live).parent p parent
    have listed : c ∈ above.children.toList := List.count_pos_iff.mp (by omega)
    exact (t.child_iff p c).mpr ⟨above, found, Array.mem_toList_iff.mp listed⟩
  · intro child
    obtain ⟨s, live, parent⟩ := links.child_parent child
    exact Option.bind_eq_some_iff.mpr ⟨s, live, parent⟩

theorem under_iff_below (links : t.WellFormed) (a j : ScopeId) : t.Under a j ↔ t.Below a j := by
  have turned : (fun c p => t.parent? c = some p) = Function.swap t.Child := by
    funext c p
    exact propext links.parent?_eq_some_iff
  rw [Under, turned, Relation.reflTransGen_swap]
  rfl

theorem checkFree_of_unfinished (links : t.WellFormed) (live : t.scope? id = some s)
    (unfinished : ∀ p above, s.parent = some p → t.scope? p = some above →
      above.isFinished = false) : t.checkFree id = .ok s.parent := by
  unfold checkFree
  rw [live]
  cases upper : s.parent with
  | none => simp only [upper]
  | some p =>
      obtain ⟨above, found, -, -⟩ := (links id s live).parent p upper
      have still := unfinished p above upper found
      simp only [upper, found, still, Bool.false_eq_true, if_false]

end WellFormed

section

variable {t : Tree} {id : ScopeId} {s : Scope}

theorem checkFree_of_finished {p : ScopeId} {above : Scope} (live : t.scope? id = some s)
    (parent : s.parent = some p) (found : t.scope? p = some above)
    (finished : above.isFinished = true) : t.checkFree id = .error (.scopeFinished p) := by
  simp only [checkFree, live, parent, found, finished, if_true]

theorem free_eq (links : t.WellFormed) (live : t.scope? id = some s)
    (checked : t.checkFree id = .ok s.parent) :
    t.free id =
      { answer := .ok (t.subtree id).length
        after := { t with slots := clear (unlink t.slots s.parent id) (t.subtree id) }
        log := [.freed id (t.subtree id).length] } := by
  -- no slot below a scope is empty, so all that are visited count
  have all : (t.subtree id).filter (fun j => (t.scope? j).isSome) = t.subtree id := by
    rw [List.filter_eq_self]
    intro j visited
    obtain ⟨lower, found⟩ := links.below_live live ((links.mem_subtree_iff live j).mp visited)
    rw [found]
    rfl
  rw [free, checked]
  simp only [all]

end

/-- The slots that are emptied from a list of scopes that wait, and their number. A scope whose slot
is empty already is passed over; else its slot is emptied and its children wait before all others.
-/
inductive Empties : Array (Option Scope) → List ScopeId → Nat → Array (Option Scope) → Prop where
  | done {slots : Array (Option Scope)} : Empties slots [] 0 slots
  | pass {slots last : Array (Option Scope)} {id : ScopeId} {waiting : List ScopeId} {count : Nat}
      (gone : slots[id.index]?.join = none) (rest : Empties slots waiting count last) :
      Empties slots (id :: waiting) count last
  | take {slots last : Array (Option Scope)} {id : ScopeId} {s : Scope} {waiting : List ScopeId}
      {count : Nat} (there : slots[id.index]?.join = some s)
      (rest : Empties (slots.setIfInBounds id.index none) (s.children.toList.reverse ++ waiting)
        count last) : Empties slots (id :: waiting) (count + 1) last

namespace Empties

variable {t : Tree} {slots last last' : Array (Option Scope)} {waiting visited : List ScopeId}
  {count count' : Nat}

theorem unique (first : Empties slots waiting count last)
    (second : Empties slots waiting count' last') : count' = count ∧ last' = last := by
  induction first generalizing count' last' with
  | done =>
      cases second
      exact ⟨rfl, rfl⟩
  | pass gone _ ih =>
      cases second with
      | pass _ rest => exact ih rest
      | take there _ =>
          rw [gone] at there
          cases there
  | take there _ ih =>
      cases second with
      | pass gone _ =>
          rw [there] at gone
          cases gone
      | take there' rest =>
          rw [there] at there'
          cases there'
          obtain ⟨same, left⟩ := ih rest
          exact ⟨congrArg (· + 1) same, left⟩

theorem of_visits (walk : t.Visits waiting visited) (distinct : visited.Nodup)
    (there : ∀ j ∈ visited, ∃ s, t.scope? j = some s ∧ slots[j.index]?.join = some s) :
    Empties slots waiting visited.length (clear slots visited) := by
  induction walk generalizing slots with
  | done => exact .done
  | @next id waiting visited _ ih =>
      obtain ⟨fresh, later⟩ := List.nodup_cons.mp distinct
      obtain ⟨s, live, slot⟩ := there id List.mem_cons_self
      rw [childrenOf_of_scope? live] at ih
      refine .take slot (ih later ?_)
      intro j member
      obtain ⟨s', live', slot'⟩ := there j (List.mem_cons_of_mem id member)
      have apart : id.index ≠ j.index := by
        intro same
        rw [ScopeId.eq_of_index same] at fresh
        exact fresh member
      refine ⟨s', live', ?_⟩
      rw [Array.getElem?_setIfInBounds, if_neg apart]
      exact slot'

end Empties

namespace WellFormed

variable {t : Tree} {id : ScopeId} {s : Scope}

theorem parent_not_below (links : t.WellFormed) (live : t.scope? id = some s) {j : ScopeId}
    (below : t.Below id j) : s.parent ≠ some j := by
  intro parent
  obtain ⟨-, -, less, -⟩ := (links id s live).parent j parent
  have more := links.below_le below
  omega

theorem empties_free (links : t.WellFormed) (live : t.scope? id = some s)
    (checked : t.checkFree id = .ok s.parent) :
    Empties (unlink t.slots s.parent id) [id] (t.subtree id).length (t.free id).after.slots := by
  obtain ⟨walk, distinct⟩ := links.visits_subtree live
  rw [free_eq links live checked]
  apply Empties.of_visits walk distinct
  intro j visited
  have below := (links.mem_subtree_iff live j).mp visited
  obtain ⟨lower, found⟩ := links.below_live live below
  refine ⟨lower, found, ?_⟩
  -- the parent has lost the scope from its list, but is not among those that go
  rw [slot_unlink, map_relinked_of_ne (links.parent_not_below live below)]
  exact found

theorem scope?_free_of_under (links : t.WellFormed) (live : t.scope? id = some s)
    (checked : t.checkFree id = .ok s.parent) {j : ScopeId} (under : t.Under id j) :
    (t.free id).after.scope? j = none := by
  have visited := (links.mem_subtree_iff live j).mpr ((links.under_iff_below id j).mp under)
  rw [scope?_free checked, if_pos visited]

theorem scope?_free_of_not_under (links : t.WellFormed) (live : t.scope? id = some s)
    (checked : t.checkFree id = .ok s.parent) {j : ScopeId} (apart : ¬ t.Under id j) :
    (t.free id).after.scope? j =
      (t.scope? j).map (relinked s.parent (·.filter (· ≠ id)) j) := by
  have unseen : j ∉ t.subtree id := by
    intro visited
    exact apart ((links.under_iff_below id j).mpr ((links.mem_subtree_iff live j).mp visited))
  rw [scope?_free checked, if_neg unseen]

end WellFormed

/-- A scope that is not there, or whose parent is finished, cannot be freed, and nothing changes.
Any other is freed with all that stand under it: they are counted, emptying their slots one by one
ends so, and their slots are empty afterwards. The parent has lost the scope from its list, where
all others are in the same order, and no other scope has changed. -/
theorem free_takes_subtree {t : Tree} (reachable : t.Reachable) (id : ScopeId) :
    (t.scope? id = none → t.free id = .refuse t (.unknownScope id)) ∧
    (∀ s p above, t.scope? id = some s → s.parent = some p → t.scope? p = some above →
      above.isFinished = true → t.free id = .refuse t (.scopeFinished p)) ∧
    ∀ s, t.scope? id = some s →
      (∀ p above, s.parent = some p → t.scope? p = some above → above.isFinished = false) →
      let after := (t.free id).after
      (∃ ids : List ScopeId, ids.Nodup ∧
        (∀ j, j ∈ ids ↔ (∃ lower, t.scope? j = some lower) ∧ t.Under id j) ∧
        (t.free id).answer = .ok ids.length ∧
        ∀ count last, Empties (unlink t.slots s.parent id) [id] count last ↔
          count = ids.length ∧ last = after.slots) ∧
      (∀ j lower, t.scope? j = some lower → (after.scope? j = none ↔ t.Under id j)) ∧
      (∀ p above, s.parent = some p → t.scope? p = some above →
        after.scope? p = some { above with children := above.children.filter (· ≠ id) }) ∧
      (∀ j, ¬ t.Under id j → s.parent ≠ some j → after.scope? j = t.scope? j) ∧
      after.limits = t.limits ∧ after.slots.size = t.slots.size := by
  have links := reachable.wellFormed
  refine ⟨?_, ?_, ?_⟩
  · intro absent
    apply free_of_error
    simp only [checkFree, absent]
  · intro s p above live parent found finished
    exact free_of_error (checkFree_of_finished live parent found finished)
  intro s live unfinished after
  have checked := links.checkFree_of_unfinished live unfinished
  have empties := links.empties_free live checked
  have under_live : ∀ j, t.Under id j → ∃ lower, t.scope? j = some lower := by
    intro j under
    exact links.below_live live ((links.under_iff_below id j).mp under)
  refine ⟨⟨t.subtree id, (links.visits_subtree live).2, ?_, ?_, ?_⟩, ?_, ?_, ?_, ?_⟩
  · intro j
    rw [links.mem_subtree_iff live, ← links.under_iff_below]
    exact ⟨fun under => ⟨under_live j under, under⟩, And.right⟩
  · rw [free_eq links live checked]
  · intro count last
    constructor
    · exact empties.unique
    · rintro ⟨rfl, rfl⟩
      exact empties
  · intro j lower found
    constructor
    · intro gone
      by_contra apart
      rw [links.scope?_free_of_not_under live checked apart, found] at gone
      cases gone
    · exact links.scope?_free_of_under live checked
  · intro p above parent found
    have apart : ¬ t.Under id p := fun under =>
      links.parent_not_below live ((links.under_iff_below id p).mp under) parent
    rw [links.scope?_free_of_not_under live checked apart, found, parent, Option.map_some,
      relinked_of_parent]
  · intro j apart other
    rw [links.scope?_free_of_not_under live checked apart, map_relinked_of_ne other]
  · have left : after = { t with slots := clear (unlink t.slots s.parent id) (t.subtree id) } :=
      congrArg Reply.after (free_eq links live checked)
    rw [left]
    exact ⟨rfl, (size_clear _ _).trans (size_unlink _ _ _)⟩

/-- A method with two blocks, of which the first holds a block in a block and a finished method. -/
def branching : Tree :=
  ({} : Tree).run [.create none true, .create (some ⟨0⟩) false, .create (some ⟨1⟩) false,
    .create (some ⟨0⟩) false, .create (some ⟨1⟩) true, .create (some ⟨2⟩) false, .finish ⟨4⟩]

theorem free_takes_subtree_branching :
    branching.Reachable ∧ (branching.free ⟨1⟩).answer = .ok 4 ∧
      (∃ ids : List ScopeId, ids.Nodup ∧ ids.length = 4 ∧
        ∀ j, j ∈ ids ↔ (∃ lower, branching.scope? j = some lower) ∧ branching.Under ⟨1⟩ j) ∧
      ∃ above, branching.scope? ⟨0⟩ = some above ∧ above.children = #[⟨1⟩, ⟨3⟩] ∧
        (branching.free ⟨1⟩).after.scope? ⟨0⟩ = some { above with children := #[⟨3⟩] } := by
  have sound : ({} : Limits).Sound := (Limits.validate_eq_ok_iff {}).mp (by decide)
  have reachable : branching.Reachable := ⟨{}, sound, _, rfl⟩
  have counted : (branching.free ⟨1⟩).answer = .ok 4 := by decide +kernel
  have first : (branching.scope? ⟨1⟩).map (·.parent) = some (some ⟨0⟩) := by decide +kernel
  have root : (branching.scope? ⟨0⟩).map (fun s => (s.isFinished, s.children)) =
      some (false, #[⟨1⟩, ⟨3⟩]) := by decide +kernel
  obtain ⟨s, live, parent⟩ := Option.map_eq_some_iff.mp first
  obtain ⟨above, found, same⟩ := Option.map_eq_some_iff.mp root
  obtain ⟨unfinished, children⟩ := Prod.mk.inj same
  have allowed : ∀ p above, s.parent = some p → branching.scope? p = some above →
      above.isFinished = false := by
    intro p above' parent' found'
    rw [parent] at parent'
    cases parent'
    rw [found] at found'
    cases found'
    exact unfinished
  obtain ⟨⟨ids, distinct, member, answer, -⟩, -, relisted, -⟩ :=
    (free_takes_subtree reachable ⟨1⟩).2.2 s live allowed
  rw [counted] at answer
  have left := relisted ⟨0⟩ above parent found
  rw [children] at left
  exact ⟨reachable, counted, ⟨ids, distinct, (Except.ok.inj answer).symm, member⟩, above, found,
    children, left⟩

end BytecodeScopes.Tree
