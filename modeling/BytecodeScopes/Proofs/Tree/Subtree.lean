import BytecodeScopes.Proofs.Tree.Slots
import Mathlib.Data.List.Nodup
import Mathlib.Data.List.Perm.Subperm
import Mathlib.Logic.Relation

/-!
Trees whose links agree, and what stands below a scope in them. A scope's number is larger than its
parent's, so going down ends; a scope has one parent, so nothing is reached twice. The walk through
a subtree therefore ends by itself, having seen each scope below its start exactly once.
-/

namespace BytecodeScopes.Tree

/-- The links of one scope agree with the scopes they name. -/
structure Linked (t : Tree) (id : ScopeId) (s : Scope) : Prop where
  seated : s.id = id
  parent : ∀ p, s.parent = some p →
    ∃ above, t.scope? p = some above ∧ p.index < id.index ∧ above.children.toList.count id = 1
  children : ∀ c ∈ s.children, ∃ child, t.scope? c = some child ∧ child.parent = some id
  ordered : s.children.toList.Pairwise (·.index < ·.index)
  bounded : s.children.size ≤ 65535

def WellFormed (t : Tree) : Prop := ∀ id s, t.scope? id = some s → t.Linked id s

def Child (t : Tree) (p c : ScopeId) : Prop := c ∈ t.childrenOf p

/-- A scope, its children, their children and so on. -/
def Below (t : Tree) : ScopeId → ScopeId → Prop := Relation.ReflTransGen t.Child

theorem childrenOf_of_scope? {t : Tree} {id : ScopeId} {s : Scope} (live : t.scope? id = some s) :
    t.childrenOf id = s.children.toList := by
  rw [childrenOf, live]

theorem child_iff (t : Tree) (p c : ScopeId) :
    t.Child p c ↔ ∃ s, t.scope? p = some s ∧ c ∈ s.children := by
  rw [Child, childrenOf]
  cases live : t.scope? p with
  | none => simp
  | some s => simp

namespace WellFormed

variable {t : Tree}

theorem child_parent (links : t.WellFormed) {p c : ScopeId} (child : t.Child p c) :
    ∃ s, t.scope? c = some s ∧ s.parent = some p := by
  obtain ⟨above, live, member⟩ := (t.child_iff p c).mp child
  exact (links p above live).children c member

theorem child_lt (links : t.WellFormed) {p c : ScopeId} (child : t.Child p c) :
    p.index < c.index := by
  obtain ⟨s, live, parent⟩ := links.child_parent child
  obtain ⟨above, -, less, -⟩ := (links c s live).parent p parent
  exact less

theorem below_le (links : t.WellFormed) {a b : ScopeId} (below : t.Below a b) :
    a.index ≤ b.index := by
  induction below with
  | refl => exact Nat.le_refl _
  | tail _ child ih =>
      have less := links.child_lt child
      omega

theorem below_live (links : t.WellFormed) {a b : ScopeId} {s : Scope} (live : t.scope? a = some s)
    (below : t.Below a b) : ∃ s, t.scope? b = some s := by
  cases below with
  | refl => exact ⟨s, live⟩
  | tail _ child =>
      obtain ⟨s, live, -⟩ := links.child_parent child
      exact ⟨s, live⟩

theorem below_parent (links : t.WellFormed) {a b p : ScopeId} {s : Scope} (below : t.Below a b)
    (apart : a ≠ b) (live : t.scope? b = some s) (parent : s.parent = some p) : t.Below a p := by
  cases below with
  | refl => exact absurd rfl apart
  | tail front child =>
      obtain ⟨same, found, above⟩ := links.child_parent child
      rw [live] at found
      cases found
      rw [parent] at above
      cases above
      exact front

theorem below_total (links : t.WellFormed) {a b j : ScopeId} (first : t.Below a j)
    (second : t.Below b j) : t.Below a b ∨ t.Below b a := by
  have unique : Relator.RightUnique (Function.swap t.Child) := by
    intro c p q left right
    obtain ⟨s, live, parent⟩ := links.child_parent left
    obtain ⟨s', live', parent'⟩ := links.child_parent right
    rw [live] at live'
    cases live'
    rw [parent] at parent'
    exact Option.some.inj parent'
  have joined := Relation.ReflTransGen.total_of_right_unique unique
    (Relation.reflTransGen_swap.mpr first) (Relation.reflTransGen_swap.mpr second)
  rcases joined with down | up
  · exact .inr (Relation.reflTransGen_swap.mp down)
  · exact .inl (Relation.reflTransGen_swap.mp up)

theorem siblings_apart (links : t.WellFormed) {p a b j : ScopeId} (first : t.Child p a)
    (second : t.Child p b) (apart : a ≠ b) (belowA : t.Below a j) : ¬ t.Below b j := by
  have never : ∀ {a b : ScopeId}, t.Child p a → t.Child p b → a ≠ b → ¬ t.Below a b := by
    intro a b first second apart below
    obtain ⟨s, live, parent⟩ := links.child_parent second
    have up := links.below_le (links.below_parent below apart live parent)
    have down := links.child_lt first
    omega
  intro belowB
  rcases links.below_total belowA belowB with down | up
  · exact never first second apart down
  · exact never second first apart.symm up

end WellFormed

/-- The walk without a bound on its rounds: it visits the first scope that waits, lets the scope's
children wait before all others, and ends when none waits. -/
inductive Visits (t : Tree) : List ScopeId → List ScopeId → Prop where
  | done : Visits t [] []
  | next {id : ScopeId} {waiting visited : List ScopeId} :
      Visits t ((t.childrenOf id).reverse ++ waiting) visited →
      Visits t (id :: waiting) (id :: visited)

namespace Visits

variable {t : Tree} {waiting visited : List ScopeId}

theorem append {more after : List ScopeId} (first : t.Visits waiting visited)
    (second : t.Visits more after) : t.Visits (waiting ++ more) (visited ++ after) := by
  induction first with
  | done => exact second
  | next _ ih =>
      rw [List.append_assoc] at ih
      exact .next ih

/-- Enough rounds make the bounded walk end like the unbounded one. -/
theorem visit_eq (walk : t.Visits waiting visited) {rounds : Nat}
    (enough : visited.length ≤ rounds) : t.visit rounds waiting = visited := by
  induction walk generalizing rounds with
  | done =>
      cases rounds with
      | zero => rfl
      | succ rounds => rfl
  | next _ ih =>
      cases rounds with
      | zero => simp at enough
      | succ rounds => rw [visit, ih (Nat.le_of_succ_le_succ enough)]

theorem mem_iff (walk : t.Visits waiting visited) (j : ScopeId) :
    j ∈ visited ↔ ∃ id ∈ waiting, t.Below id j := by
  induction walk with
  | done => simp
  | @next id waiting visited _ ih =>
      rw [List.mem_cons, ih]
      constructor
      · rintro (rfl | ⟨w, member, below⟩)
        · exact ⟨j, List.mem_cons_self, .refl⟩
        · rcases List.mem_append.mp member with child | other
          · exact ⟨id, List.mem_cons_self, .head (List.mem_reverse.mp child) below⟩
          · exact ⟨w, List.mem_cons_of_mem id other, below⟩
      · rintro ⟨w, member, below⟩
        rcases List.mem_cons.mp member with rfl | other
        · rcases Relation.ReflTransGen.cases_head below with rfl | ⟨c, child, rest⟩
          · exact .inl rfl
          · exact .inr ⟨c, List.mem_append_left _ (List.mem_reverse.mpr child), rest⟩
        · exact .inr ⟨w, List.mem_append_right _ other, below⟩

theorem congr {t' : Tree} (walk : t.Visits waiting visited)
    (same : ∀ j ∈ visited, t'.childrenOf j = t.childrenOf j) : t'.Visits waiting visited := by
  induction walk with
  | done => exact .done
  | @next id waiting visited _ ih =>
      apply Visits.next
      rw [same id List.mem_cons_self]
      exact ih fun j member => same j (List.mem_cons_of_mem id member)

theorem of_each (waiting : List ScopeId)
    (each : ∀ id ∈ waiting, ∃ visited, t.Visits [id] visited) :
    ∃ visited, t.Visits waiting visited := by
  induction waiting with
  | nil => exact ⟨[], .done⟩
  | cons id waiting ih =>
      obtain ⟨front, first⟩ := each id List.mem_cons_self
      obtain ⟨back, rest⟩ := ih fun j member => each j (List.mem_cons_of_mem id member)
      exact ⟨front ++ back, first.append rest⟩

end Visits

namespace WellFormed

variable {t : Tree}

/-- The walk from any scope ends: children have larger numbers, and numbers have an end. -/
theorem visits_exists (links : t.WellFormed) (id : ScopeId) : ∃ visited, t.Visits [id] visited := by
  induction gap : t.slots.size - id.index using Nat.strongRecOn generalizing id with
  | ind n ih =>
      have each : ∀ c ∈ (t.childrenOf id).reverse, ∃ visited, t.Visits [c] visited := by
        intro c member
        have child : t.Child id c := List.mem_reverse.mp member
        have less := links.child_lt child
        obtain ⟨s, live, -⟩ := links.child_parent child
        have inside := index_lt_of_scope? live
        exact ih (t.slots.size - c.index) (by omega) c rfl
      obtain ⟨visited, walk⟩ := Visits.of_each _ each
      refine ⟨id :: visited, .next ?_⟩
      rw [List.append_nil]
      exact walk

def Apart (t : Tree) (waiting : List ScopeId) : Prop :=
  waiting.Pairwise fun a b => ∀ j, t.Below a j → ¬ t.Below b j

theorem apart_next (links : t.WellFormed) {id : ScopeId} {waiting : List ScopeId}
    (apart : Apart t (id :: waiting)) :
    Apart t ((t.childrenOf id).reverse ++ waiting) := by
  obtain ⟨first, rest⟩ := List.pairwise_cons.mp apart
  refine List.pairwise_append.mpr ⟨?_, rest, ?_⟩
  · rw [List.pairwise_reverse]
    have distinct : (t.childrenOf id).Pairwise (· ≠ ·) := by
      cases live : t.scope? id with
      | none => simp [childrenOf, live]
      | some s =>
          rw [childrenOf_of_scope? live]
          refine (links id s live).ordered.imp ?_
          rintro a b less rfl
          exact Nat.lt_irrefl _ less
    refine distinct.imp_of_mem ?_
    intro a b memberA memberB different j belowB
    exact links.siblings_apart memberB memberA different.symm belowB
  · intro c member b other j below
    have child : t.Child id c := List.mem_reverse.mp member
    exact first b other j (.head child below)

theorem nodup_visited (links : t.WellFormed) {waiting visited : List ScopeId}
    (walk : t.Visits waiting visited) (apart : Apart t waiting) : visited.Nodup := by
  induction walk with
  | done => exact List.nodup_nil
  | @next id waiting visited walk ih =>
      refine List.nodup_cons.mpr ⟨?_, ih (links.apart_next apart)⟩
      intro again
      obtain ⟨w, member, below⟩ := (walk.mem_iff id).mp again
      rcases List.mem_append.mp member with down | other
      · have child : t.Child id w := List.mem_reverse.mp down
        have less := links.child_lt child
        have more := links.below_le below
        omega
      · exact (List.pairwise_cons.mp apart).1 w other id .refl below

theorem visits_subtree (links : t.WellFormed) {id : ScopeId} {s : Scope}
    (live : t.scope? id = some s) :
    t.Visits [id] (t.subtree id) ∧ (t.subtree id).Nodup := by
  obtain ⟨visited, walk⟩ := links.visits_exists id
  have distinct := links.nodup_visited walk (List.pairwise_singleton _ _)
  have inside : visited.map ScopeId.index ⊆ List.range t.slots.size := by
    intro i member
    obtain ⟨j, seen, rfl⟩ := List.mem_map.mp member
    obtain ⟨start, only, below⟩ := (walk.mem_iff j).mp seen
    rw [List.mem_singleton.mp only] at below
    obtain ⟨s, found⟩ := links.below_live live below
    exact List.mem_range.mpr (index_lt_of_scope? found)
  have numbers : (visited.map ScopeId.index).Nodup :=
    distinct.map fun _ _ => ScopeId.eq_of_index
  have length : visited.length ≤ t.slots.size := by
    have bound := (numbers.subperm inside).length_le
    rwa [List.length_map, List.length_range] at bound
  have complete : t.subtree id = visited := walk.visit_eq length
  rw [complete]
  exact ⟨walk, distinct⟩

theorem mem_subtree_iff (links : t.WellFormed) {id : ScopeId} {s : Scope}
    (live : t.scope? id = some s) (j : ScopeId) : j ∈ t.subtree id ↔ t.Below id j := by
  rw [(links.visits_subtree live).1.mem_iff j]
  simp

end WellFormed

end BytecodeScopes.Tree
