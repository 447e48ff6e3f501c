import BytecodeScopes.Proofs.Tree.Finishing
import BytecodeScopes.Proofs.Tree.Interleaving
import Mathlib.Data.List.Induction

namespace BytecodeScopes

/-- Being built with nothing left open, and with tables that a record header can count. -/
structure Scope.Ready (s : Scope) : Prop where
  building : s.phase = .building
  resolved : s.labels.unresolved = 0
  loops : s.frames.loops = []
  retries : s.frames.retries = []
  symbols : s.symbols.size ≤ 65535
  literals : s.literals.size ≤ 65535

instance (s : Scope) : Decidable s.Ready :=
  decidable_of_iff (s.phase = .building ∧ s.labels.unresolved = 0 ∧ s.frames.loops = [] ∧
      s.frames.retries = [] ∧ s.symbols.size ≤ 65535 ∧ s.literals.size ≤ 65535)
    ⟨fun ⟨building, resolved, loops, retries, symbols, literals⟩ =>
        ⟨building, resolved, loops, retries, symbols, literals⟩,
      fun ready => ⟨ready.building, ready.resolved, ready.loops, ready.retries, ready.symbols,
        ready.literals⟩⟩

theorem Scope.Ready.checkFinish {s : Scope} (ready : s.Ready) : s.checkFinish = .ok () :=
  s.checkFinish_eq_ok_iff.mpr
    ⟨ready.resolved, ready.loops, ready.retries, ready.symbols, ready.literals⟩

theorem Scope.Ready.unfinished {s : Scope} (ready : s.Ready) : s.isFinished = false := by
  simp only [Scope.isFinished, ready.building]

namespace Tree

def finishing (order : List ScopeId) : List Op := order.map .finish

/-- All scopes below one, each once. -/
def Lists (t : Tree) (r : ScopeId) (order : List ScopeId) : Prop :=
  order.Nodup ∧ ∀ j, j ∈ order ↔ t.Below r j

/-- Every scope stands behind its children. -/
def ChildrenFirst (t : Tree) (order : List ScopeId) : Prop :=
  ∀ front id back, order = front ++ id :: back → ∀ c, t.Child id c → c ∈ front

def ReadyBelow (t : Tree) (r : ScopeId) : Prop :=
  ∀ j s, t.Below r j → t.scope? j = some s → s.Ready

section

variable {t : Tree} {r : ScopeId} {order : List ScopeId}

theorem accepts_finishing_concat (front : List ScopeId) (id : ScopeId) :
    t.accepts (finishing (front ++ [id])) = true ↔ t.accepts (finishing front) = true ∧
      ((t.run (finishing front)).finish id).answer = .ok () := by
  have split : finishing (front ++ [id]) = finishing front ++ [.finish id] := by simp [finishing]
  rw [split, accepts, acceptsBy_append, acceptsBy_cons]
  refine and_congr Iff.rfl ?_
  constructor
  · rintro ⟨⟨answer, accepted⟩, -⟩
    obtain ⟨_, finished, -⟩ := Reply.map_eq_ok_iff.mp accepted
    exact finished
  · intro finished
    exact ⟨⟨_, Reply.map_eq_ok_iff.mpr ⟨(), finished, rfl⟩⟩, rfl⟩

theorem accepts_finishing_left {front back : List ScopeId}
    (accepted : t.accepts (finishing (front ++ back)) = true) :
    t.accepts (finishing front) = true := by
  rw [finishing, List.map_append] at accepted
  exact ((acceptsBy_append step t _ _).mp accepted).1

theorem run_finishing_concat (front : List ScopeId) (id : ScopeId) :
    t.run (finishing (front ++ [id])) = ((t.run (finishing front)).finish id).after := by
  rw [finishing, List.map_append, run, runBy_append]
  rfl

theorem scope?_run_finishing (order : List ScopeId) (distinct : order.Nodup)
    (accepted : t.accepts (finishing order) = true) (j : ScopeId) :
    (t.run (finishing order)).scope? j =
      if j ∈ order then (t.scope? j).map Scope.sealed else t.scope? j := by
  induction order using List.reverseRecOn generalizing j with
  | nil => rfl
  | append_singleton front id ih =>
      obtain ⟨before, answered⟩ := (accepts_finishing_concat front id).mp accepted
      obtain ⟨distinctFront, -, apart⟩ := List.nodup_append.mp distinct
      have fresh : id ∉ front := fun member => apart id member id (List.mem_singleton_self id) rfl
      have earlier := ih distinctFront before
      obtain ⟨s, live, -, -, -, after⟩ := finish_ok answered
      have own : t.scope? id = some s := by
        rw [earlier, if_neg fresh] at live
        exact live
      rw [run_finishing_concat, after]
      by_cases same : j = id
      · simp [same, own]
      · simp [same, earlier]

theorem frame_run_finishing (t : Tree) (order : List ScopeId) :
    (t.run (finishing order)).limits = t.limits ∧
      (t.run (finishing order)).slots.size = t.slots.size := by
  induction order generalizing t with
  | nil => exact ⟨rfl, rfl⟩
  | cons id rest ih =>
      have own : (t.finish id).after.limits = t.limits ∧
          (t.finish id).after.slots.size = t.slots.size := by
        unfold finish
        cases t.checkFinish id with
        | error fault => exact ⟨rfl, rfl⟩
        | ok childCount => exact frame_update t id (·.finish childCount)
      have later := ih (t.finish id).after
      exact ⟨later.1.trans own.1, later.2.trans own.2⟩

theorem run_finishing_eq {first second : List ScopeId} (listed : t.Lists r first)
    (relisted : t.Lists r second) (accepted : t.accepts (finishing first) = true)
    (accepted' : t.accepts (finishing second) = true) :
    t.run (finishing first) = t.run (finishing second) := by
  have frame := t.frame_run_finishing first
  have frame' := t.frame_run_finishing second
  refine ext_scope? (frame.1.trans frame'.1.symm) (frame.2.trans frame'.2.symm) ?_
  intro j
  rw [scope?_run_finishing first listed.1 accepted,
    scope?_run_finishing second relisted.1 accepted']
  have member : j ∈ first ↔ j ∈ second := (listed.2 j).trans (relisted.2 j).symm
  simp only [member]

theorem childrenFirst_of_accepts (ready : t.ReadyBelow r) (listed : t.Lists r order)
    (accepted : t.accepts (finishing order) = true) : t.ChildrenFirst order := by
  rintro front id back rfl c child
  rw [← List.singleton_append, ← List.append_assoc] at accepted
  have upTo : t.accepts (finishing (front ++ [id])) = true := accepts_finishing_left accepted
  obtain ⟨before, answered⟩ := (accepts_finishing_concat front id).mp upTo
  obtain ⟨distinct, -, apart⟩ := List.nodup_append.mp listed.1
  have below : t.Below r id := (listed.2 id).mp (by simp)
  have fresh : id ∉ front := fun member => apart id member id List.mem_cons_self rfl
  have earlier := scope?_run_finishing front distinct before
  obtain ⟨s, live, -, children, -⟩ := finish_ok answered
  rw [earlier, if_neg fresh] at live
  rw [Child, childrenOf_of_scope? live, Array.mem_toList_iff] at child
  obtain ⟨lower, found, finished⟩ := children c child
  by_contra missing
  rw [earlier, if_neg missing] at found
  have under : t.Below r c := below.tail ((t.child_iff id c).mpr ⟨s, live, child⟩)
  rw [(ready c lower under found).unfinished] at finished
  cases finished

theorem accepts_of_childrenFirst (links : t.WellFormed) (ready : t.ReadyBelow r) {root : Scope}
    (live : t.scope? r = some root) (listed : t.Lists r order) (first : t.ChildrenFirst order) :
    t.accepts (finishing order) = true := by
  -- by the scopes passed so far: the next is met as it was, and its children are met finished
  have prefixes : ∀ front back, order = front ++ back → t.accepts (finishing front) = true := by
    intro front
    induction front using List.reverseRecOn with
    | nil => exact fun _ _ => rfl
    | append_singleton front id ih =>
        intro back split
        rw [List.append_assoc, List.singleton_append] at split
        have before := ih (id :: back) split
        have distinct := listed.1
        rw [split] at distinct
        obtain ⟨distinctFront, -, apart⟩ := List.nodup_append.mp distinct
        have fresh : id ∉ front := fun member => apart id member id List.mem_cons_self rfl
        have earlier := scope?_run_finishing front distinctFront before
        have below : t.Below r id := (listed.2 id).mp (by simp [split])
        obtain ⟨s, found⟩ := links.below_live live below
        have now : (t.run (finishing front)).scope? id = some s := by
          rw [earlier, if_neg fresh, found]
        have children : (t.run (finishing front)).ChildrenFinished s := by
          intro c member
          have child : t.Child id c := (t.child_iff id c).mpr ⟨s, found, member⟩
          obtain ⟨lower, there⟩ := links.below_live live (below.tail child)
          refine ⟨lower.sealed, ?_, rfl⟩
          rw [earlier, if_pos (first front id back split c child), there]
          rfl
        have fit := ready id s below found
        refine (accepts_finishing_concat front id).mpr ⟨before, ?_⟩
        rw [answer_finish (links.run _) now fit.building children, fit.checkFinish]
  exact prefixes order [] (List.append_nil order).symm

theorem childrenFirst_of_falling (links : t.WellFormed) (listed : t.Lists r order)
    (falling : order.Pairwise fun a b => b.index < a.index) : t.ChildrenFirst order := by
  rintro front id back rfl c child
  have less : id.index < c.index := links.child_lt child
  have below : t.Below r id := (listed.2 id).mp (by simp)
  have member : c ∈ front ++ id :: back := (listed.2 c).mpr (below.tail child)
  obtain ⟨-, behind, -⟩ := List.pairwise_append.mp falling
  rcases List.mem_append.mp member with ahead | later
  · exact ahead
  · rcases List.mem_cons.mp later with rfl | last
    · exact absurd less (Nat.lt_irrefl _)
    · have more := (List.pairwise_cons.mp behind).1 c last
      omega

theorem lists_of_perm (links : t.WellFormed) {root : Scope} (live : t.scope? r = some root)
    (same : order.Perm (t.subtree r)) : t.Lists r order :=
  ⟨same.nodup_iff.mpr (links.visits_subtree live).2,
    fun j => same.mem_iff.trans (links.mem_subtree_iff live j)⟩

def falling (t : Tree) (r : ScopeId) : List ScopeId :=
  (t.subtree r).mergeSort fun a b => decide (b.index ≤ a.index)

theorem falling_listed (links : t.WellFormed) {root : Scope} (live : t.scope? r = some root) :
    t.Lists r (t.falling r) ∧ (t.falling r).Pairwise fun a b => b.index < a.index := by
  have listed : t.Lists r (t.falling r) := lists_of_perm links live (List.mergeSort_perm _ _)
  refine ⟨listed, ?_⟩
  have sorted : (t.falling r).Pairwise fun a b => decide (b.index ≤ a.index) = true := by
    apply List.pairwise_mergeSort
    · intro a b c first second
      simp only [decide_eq_true_eq] at first second ⊢
      omega
    · intro a b
      simp only [Bool.or_eq_true, decide_eq_true_eq]
      omega
  refine (sorted.and listed.1).imp ?_
  intro a b ⟨le, apart⟩
  have different : a.index ≠ b.index := fun equal => apart (ScopeId.eq_of_index equal)
  have smaller := of_decide_eq_true le
  omega

end

/-- Where every scope below one is ready, an order finishes them all exactly if children come first,
as they do by falling number, and all orders that finish them all lead to the same tree. -/
theorem finish_order_irrelevant {t : Tree} (reachable : t.Reachable) {r : ScopeId} {root : Scope}
    (live : t.scope? r = some root) (ready : t.ReadyBelow r) :
    (∀ order, t.Lists r order → (t.accepts (finishing order) = true ↔ t.ChildrenFirst order)) ∧
    (∃ order, t.Lists r order ∧ order.Pairwise (fun a b => b.index < a.index) ∧
      t.ChildrenFirst order) ∧
    ∀ first second, t.Lists r first → t.Lists r second →
      t.accepts (finishing first) = true → t.accepts (finishing second) = true →
        t.run (finishing first) = t.run (finishing second) := by
  have links := reachable.wellFormed
  refine ⟨?_, ?_, ?_⟩
  · intro order listed
    exact ⟨childrenFirst_of_accepts ready listed,
      accepts_of_childrenFirst links ready live listed⟩
  · obtain ⟨listed, sorted⟩ := falling_listed links live
    exact ⟨t.falling r, listed, sorted, childrenFirst_of_falling links listed sorted⟩
  · intro first second listed relisted accepted accepted'
    exact run_finishing_eq listed relisted accepted accepted'

/-- A block with two blocks in it, of which the first holds another; the method around them has a
label that was never resolved. -/
def grove : Tree :=
  ({} : Tree).run [.create none true, .create (some ⟨0⟩) false, .create (some ⟨1⟩) false,
    .create (some ⟨1⟩) false, .create (some ⟨2⟩) false, .scope ⟨0⟩ .reserve, .scope ⟨4⟩ (.emit 7),
    .scope ⟨3⟩ .push]

theorem finish_order_irrelevant_grove :
    grove.Reachable ∧ grove.ReadyBelow ⟨1⟩ ∧
      grove.accepts (finishing [⟨4⟩, ⟨2⟩, ⟨3⟩, ⟨1⟩]) = true ∧
      grove.accepts (finishing [⟨2⟩, ⟨4⟩, ⟨3⟩, ⟨1⟩]) = false ∧
      grove.ChildrenFirst [⟨3⟩, ⟨4⟩, ⟨2⟩, ⟨1⟩] ∧
      grove.run (finishing [⟨4⟩, ⟨2⟩, ⟨3⟩, ⟨1⟩]) = grove.run (finishing [⟨3⟩, ⟨4⟩, ⟨2⟩, ⟨1⟩]) := by
  have sound : ({} : Limits).Sound := (Limits.validate_eq_ok_iff {}).mp (by decide)
  have reachable : grove.Reachable := ⟨{}, sound, _, rfl⟩
  have links := reachable.wellFormed
  have there : (grove.scope? ⟨1⟩).isSome = true := by decide +kernel
  obtain ⟨root, live⟩ := Option.isSome_iff_exists.mp there
  have each : ∀ j ∈ grove.subtree ⟨1⟩, ∀ s ∈ grove.scope? j, s.Ready := by decide +kernel
  have ready : grove.ReadyBelow ⟨1⟩ := by
    intro j s below found
    exact each j ((links.mem_subtree_iff live j).mpr below) s found
  have listed : grove.Lists ⟨1⟩ [⟨4⟩, ⟨2⟩, ⟨3⟩, ⟨1⟩] := lists_of_perm links live (by decide +kernel)
  have relisted : grove.Lists ⟨1⟩ [⟨3⟩, ⟨4⟩, ⟨2⟩, ⟨1⟩] :=
    lists_of_perm links live (by decide +kernel)
  obtain ⟨decided, -, alike⟩ := finish_order_irrelevant reachable live ready
  have accepted : grove.accepts (finishing [⟨4⟩, ⟨2⟩, ⟨3⟩, ⟨1⟩]) = true := by decide +kernel
  have accepted' : grove.accepts (finishing [⟨3⟩, ⟨4⟩, ⟨2⟩, ⟨1⟩]) = true := by decide +kernel
  exact ⟨reachable, ready, accepted, by decide +kernel, (decided _ relisted).mp accepted',
    alike _ _ listed relisted accepted accepted'⟩

end Tree

end BytecodeScopes
