import BytecodeScopes.Proofs.Tree.Finished

namespace BytecodeScopes

namespace Sizes

theorem total_perm {first second : List Nat} (same : first.Perm second) :
    total first = total second := by
  induction same with
  | nil => rfl
  | cons size _ ih => rw [total_cons, total_cons, ih]
  | swap size next sizes => simp [Nat.add_left_comm]
  | trans _ _ front back => exact front.trans back

theorem total_flatMap {α β : Type} (size : β → Nat) (parts : α → List β) (wholes : List α) :
    total ((wholes.flatMap parts).map size) =
      total (wholes.map fun whole => total ((parts whole).map size)) := by
  induction wholes with
  | nil => rfl
  | cons whole wholes ih =>
      rw [List.flatMap_cons, List.map_append, total_append, ih, List.map_cons, total_cons]

end Sizes

namespace Tree

theorem Visits.unique {t : Tree} {waiting first second : List ScopeId}
    (walk : t.Visits waiting first) (again : t.Visits waiting second) : first = second := by
  induction walk generalizing second with
  | done =>
      cases again
      rfl
  | next _ ih =>
      cases again with
      | next rest => rw [ih rest]

theorem visits_flatMap {t : Tree} (links : t.WellFormed) (waiting : List ScopeId)
    (live : ∀ id ∈ waiting, ∃ s, t.scope? id = some s) :
    t.Visits waiting (waiting.flatMap t.subtree) := by
  induction waiting with
  | nil => exact .done
  | cons id waiting ih =>
      obtain ⟨s, found⟩ := live id List.mem_cons_self
      have rest := ih fun j member => live j (List.mem_cons_of_mem id member)
      exact (links.visits_subtree found).1.append rest

theorem subtree_eq {t : Tree} (links : t.WellFormed) {id : ScopeId} {s : Scope}
    (live : t.scope? id = some s) :
    t.subtree id = id :: s.children.toList.reverse.flatMap t.subtree := by
  apply (links.visits_subtree live).1.unique
  apply Visits.next
  rw [childrenOf_of_scope? live, List.append_nil]
  apply visits_flatMap links
  intro c member
  have listed : c ∈ s.children := Array.mem_toList_iff.mp (List.mem_reverse.mp member)
  obtain ⟨child, found, -⟩ := (links id s live).children c listed
  exact ⟨child, found⟩

/-- The size of all finished code can be told by 32 bits. -/
def Small (t : Tree) : Prop :=
  ∀ s ∈ t.scopes, ∀ output ∈ s.output?, output.code.size < 4294967296

instance (t : Tree) : Decidable t.Small := by unfold Small; infer_instance

theorem mem_scopes {t : Tree} {id : ScopeId} {s : Scope} (live : t.scope? id = some s) :
    s ∈ t.scopes := by
  have slot : some s ∈ t.slots := Array.mem_of_getElem? (slot_of_scope? live)
  exact List.mem_filterMap.mpr ⟨some s, Array.mem_toList_iff.mpr slot, rfl⟩

theorem mapM_eq_ok_map {size : ScopeId → Except Fault Nat} {sizeOf : ScopeId → Nat}
    {ids : List ScopeId} (each : ∀ id ∈ ids, size id = .ok (sizeOf id)) :
    ids.mapM size = .ok (ids.map sizeOf) := by
  induction ids with
  | nil => rfl
  | cons id ids ih =>
      have rest := ih fun j member => each j (List.mem_cons_of_mem id member)
      rw [List.mapM_cons, each id List.mem_cons_self, rest]
      rfl

theorem writtenSize_of_each {t : Tree} {id : ScopeId} {s : Scope} (live : t.scope? id = some s)
    {sizeOf : ScopeId → Nat} (each : ∀ j ∈ t.subtree id, t.scopeSize j = .ok (sizeOf j)) :
    t.writtenSize id = .ok (Sizes.total ((t.subtree id).map sizeOf)) := by
  rw [writtenSize_eq live, mapM_eq_ok_map each]
  rfl

def ownSize (t : Tree) (id : ScopeId) : Nat := (t.scopeSize id).toOption.getD 0

def totalSize (t : Tree) (id : ScopeId) : Nat := Sizes.total ((t.subtree id).map t.ownSize)

theorem totalSize_eq {t : Tree} (links : t.WellFormed) {id : ScopeId} {s : Scope}
    (live : t.scope? id = some s) :
    t.totalSize id = t.ownSize id + Sizes.total (s.children.toList.map t.totalSize) := by
  have reordered : (s.children.toList.reverse.map t.totalSize).Perm
      (s.children.toList.map t.totalSize) := s.children.toList.reverse_perm.map t.totalSize
  calc t.totalSize id
      = t.ownSize id +
          Sizes.total ((s.children.toList.reverse.flatMap t.subtree).map t.ownSize) := by
        rw [totalSize, subtree_eq links live, List.map_cons, Sizes.total_cons]
    _ = t.ownSize id + Sizes.total (s.children.toList.reverse.map t.totalSize) := by
        rw [Sizes.total_flatMap]
        rfl
    _ = t.ownSize id + Sizes.total (s.children.toList.map t.totalSize) := by
        rw [Sizes.total_perm reordered]

section

variable {t : Tree} {id : ScopeId} {s : Scope}

theorem scopeSize_of_finished (settled : t.AllSettled) (small : t.Small)
    (live : t.scope? id = some s) (finished : s.isFinished = true) :
    t.scopeSize id = .ok (t.ownSize id) := by
  obtain ⟨output, given⟩ := output?_of_isFinished finished
  have fits : output.code.size < 4294967296 := small s (mem_scopes live) output given
  have size : t.scopeSize id =
      .ok (Record.size output.code.size s.handlers s.literals s.symbols.names) := by
    rw [scopeSize_eq live, (settled id s output live given).writtenSize given fits]
  rw [ownSize, size]
  rfl

theorem scopeSize_below (settled : t.AllSettled) (small : t.Small) (live : t.scope? id = some s)
    (finished : s.isFinished = true) {j : ScopeId} (below : t.Below id j) :
    t.scopeSize j = .ok (t.ownSize j) := by
  obtain ⟨lower, found, closed⟩ := settled.below_finished live finished below
  exact scopeSize_of_finished settled small found closed

theorem writtenSize_of_finished (links : t.WellFormed) (settled : t.AllSettled) (small : t.Small)
    (live : t.scope? id = some s) (finished : s.isFinished = true) :
    t.writtenSize id = .ok (t.totalSize id) := by
  apply writtenSize_of_each live
  intro j visited
  exact scopeSize_below settled small live finished ((links.mem_subtree_iff live j).mp visited)

theorem writtenSize_of_unfinished (links : t.WellFormed) (live : t.scope? id = some s)
    (unfinished : s.isFinished = false) : t.writtenSize id = .error (.scopeNotFinished id) := by
  have absent : s.output? = none := by
    rw [Scope.isFinished_eq] at unfinished
    simpa using unfinished
  have own : t.scopeSize id = .error (.scopeNotFinished id) := by
    rw [scopeSize_eq live, Scope.writtenSize, absent, (links id s live).seated]
  -- the scope itself is visited first
  rw [writtenSize_eq live, subtree_eq links live, List.mapM_cons, own]
  rfl

end

/-- The walk ends having seen each scope below once, it gives a size exactly for finished scopes,
and that size is the recursive sum. -/
theorem size_is_recursive_sum {t : Tree} (reachable : t.Reachable) (small : t.Small)
    {id : ScopeId} {s : Scope} (live : t.scope? id = some s) :
    t.Visits [id] (t.subtree id) ∧
    ((∃ size, t.writtenSize id = .ok size) ↔ s.isFinished = true) ∧
    (s.isFinished = false → t.writtenSize id = .error (.scopeNotFinished id)) ∧
    (∀ size, t.writtenSize id = .ok size →
      (∃ own sizes, t.scopeSize id = .ok own ∧
        s.children.toList.mapM t.writtenSize = .ok sizes ∧ size = own + Sizes.total sizes) ∧
      ∀ ids : List ScopeId, ids.Nodup → (∀ j, j ∈ ids ↔ t.Below id j) →
        ∃ sizes, ids.mapM t.scopeSize = .ok sizes ∧ size = Sizes.total sizes) ∧
    ∀ expected actual, t.writtenSize id ≠ .error (.sizeMismatch expected actual) := by
  have links := reachable.wellFormed
  have settled := reachable.settled
  have walk := links.visits_subtree live
  cases finished : s.isFinished with
  | false =>
      have refused := writtenSize_of_unfinished links live finished
      rw [refused]
      refine ⟨walk.1, ?_, fun _ => rfl, ?_, nofun⟩
      · simp
      · intro size impossible
        cases impossible
  | true =>
      have total := writtenSize_of_finished links settled small live finished
      have each : ∀ j, t.Below id j → t.scopeSize j = .ok (t.ownSize j) :=
        fun j below => scopeSize_below settled small live finished below
      have children : ∀ c ∈ s.children.toList, t.writtenSize c = .ok (t.totalSize c) := by
        intro c member
        have child : t.Child id c :=
          (t.child_iff id c).mpr ⟨s, live, Array.mem_toList_iff.mp member⟩
        obtain ⟨lower, found, closed⟩ := settled.below_finished live finished (.single child)
        exact writtenSize_of_finished links settled small found closed
      rw [total]
      refine ⟨walk.1, by simp, nofun, ?_, nofun⟩
      rintro size ⟨⟩
      constructor
      · exact ⟨t.ownSize id, s.children.toList.map t.totalSize, each id .refl,
          mapM_eq_ok_map children, totalSize_eq links live⟩
      · intro ids distinct members
        have listed : (t.subtree id).Perm ids := by
          refine (List.perm_ext_iff_of_nodup walk.2 distinct).mpr ?_
          intro j
          rw [links.mem_subtree_iff live, members]
        refine ⟨ids.map t.ownSize, ?_, ?_⟩
        · exact mapM_eq_ok_map fun j member => each j ((members j).mp member)
        · exact Sizes.total_perm (listed.map t.ownSize)

/-- A scope with two children, of which the first has a child, all finished; a third child of the
scope was freed before. -/
def nested : Tree :=
  ({} : Tree).run [.create none true, .create (some ⟨0⟩) false, .create (some ⟨0⟩) false,
    .create (some ⟨0⟩) false, .create (some ⟨1⟩) false, .scope ⟨4⟩ (.emit 7), .free ⟨2⟩,
    .scope ⟨3⟩ (.emitOperand 5 258), .finish ⟨4⟩, .finish ⟨1⟩, .finish ⟨3⟩, .finish ⟨0⟩]

theorem size_is_recursive_sum_nested :
    nested.Reachable ∧ nested.Small ∧ (nested.writtenSize ⟨0⟩).toOption = some 84 ∧
      ∃ s own sizes, nested.scope? ⟨0⟩ = some s ∧ s.isFinished = true ∧
        nested.scopeSize ⟨0⟩ = .ok own ∧ s.children.toList.mapM nested.writtenSize = .ok sizes ∧
        84 = own + Sizes.total sizes := by
  have sound : ({} : Limits).Sound := (Limits.validate_eq_ok_iff {}).mp (by decide)
  have reachable : nested.Reachable := ⟨{}, sound, _, rfl⟩
  have small : nested.Small := by decide +kernel
  have there : (nested.scope? ⟨0⟩).map (·.isFinished) = some true := by decide +kernel
  have value : (nested.writtenSize ⟨0⟩).toOption = some 84 := by decide +kernel
  obtain ⟨s, live, finished⟩ := Option.map_eq_some_iff.mp there
  obtain ⟨-, sized, -, sum, -⟩ := size_is_recursive_sum reachable small live
  obtain ⟨size, total⟩ := sized.mpr finished
  obtain ⟨⟨own, sizes, alone, children, rfl⟩, -⟩ := sum size total
  rw [total] at value
  exact ⟨reachable, small, by rw [total]; exact value, s, own, sizes, live, finished, alone,
    children, (Option.some.inj value).symm⟩

end Tree

end BytecodeScopes
