import BytecodeScopes.Proofs.Tree.Size

namespace BytecodeScopes.Tree

/-- Whether none of a sequence of actions is a freeing that takes the scope. -/
def spares (t : Tree) (id : ScopeId) : List Op → Bool
  | [] => true
  | op :: ops => !t.releases id op && spares (t.step op).after id ops

section

variable {t t' : Tree} {id : ScopeId} {s : Scope}

theorem childrenOf_congr {j : ScopeId} (same : t'.scope? j = t.scope? j) :
    t'.childrenOf j = t.childrenOf j := by
  rw [childrenOf, childrenOf, same]

theorem scopeSize_congr {j : ScopeId} (same : t'.scope? j = t.scope? j) :
    t'.scopeSize j = t.scopeSize j := by
  rw [scopeSize, scopeSize, Tree.scope, Tree.scope, same]

theorem below_congr (same : ∀ j, t.Below id j → t'.scope? j = t.scope? j) (j : ScopeId) :
    t'.Below id j ↔ t.Below id j := by
  constructor
  · intro below
    induction below with
    | refl => exact .refl
    | tail _ child ih =>
        rw [Child, childrenOf_congr (same _ ih)] at child
        exact ih.tail child
  · intro below
    induction below with
    | refl => exact .refl
    | tail front child ih =>
        rw [Child, ← childrenOf_congr (same _ front)] at child
        exact ih.tail child

theorem subtree_congr (links : t.WellFormed) (links' : t'.WellFormed) (live : t.scope? id = some s)
    (same : ∀ j, t.Below id j → t'.scope? j = t.scope? j) : t'.subtree id = t.subtree id := by
  have live' : t'.scope? id = some s := (same id .refl).trans live
  have walk : t'.Visits [id] (t.subtree id) := by
    apply (links.visits_subtree live).1.congr
    intro j visited
    exact childrenOf_congr (same j ((links.mem_subtree_iff live j).mp visited))
  exact (links'.visits_subtree live').1.unique walk

theorem writtenSize_of_same (links : t.WellFormed) (settled : t.AllSettled) (small : t.Small)
    (links' : t'.WellFormed) (live : t.scope? id = some s) (finished : s.isFinished = true)
    (same : ∀ j, t.Below id j → t'.scope? j = t.scope? j) :
    t'.writtenSize id = .ok (t.totalSize id) := by
  have alike := subtree_congr links links' live same
  have each : ∀ j ∈ t'.subtree id, t'.scopeSize j = .ok (t.ownSize j) := by
    intro j visited
    rw [alike, links.mem_subtree_iff live] at visited
    rw [scopeSize_congr (same j visited)]
    exact scopeSize_below settled small live finished visited
  rw [writtenSize_of_each ((same id .refl).trans live) each, alike]
  rfl

end

section

variable {t : Tree} {id : ScopeId} {s : Scope}

/-- A freeing that takes a scope below a finished one starts at or above the finished one: the
parents in between are finished and hold on to their children. -/
theorem below_of_checkFree (links : t.WellFormed) (settled : t.AllSettled)
    (live : t.scope? id = some s) (finished : s.isFinished = true) {j k : ScopeId}
    {parent : Option ScopeId} (checked : t.checkFree k = .ok parent) (below : t.Below id j)
    (taken : t.Below k j) : t.Below k id := by
  rcases links.below_total below taken with down | up
  · cases down with
    | refl => exact .refl
    | @tail p _ front child =>
        obtain ⟨freed, start, named, unfinished⟩ := links.checkFree_ok checked
        obtain ⟨same, found, above⟩ := links.child_parent child
        rw [start] at found
        cases found
        obtain ⟨upper, there, closed⟩ := settled.below_finished live finished front
        have still := unfinished p upper (named.symm.trans above) there
        rw [closed] at still
        cases still
  · exact up

theorem releases_below (links : t.WellFormed) (settled : t.AllSettled)
    (live : t.scope? id = some s) (finished : s.isFinished = true) {j : ScopeId}
    (below : t.Below id j) (op : Op) (spared : t.releases id op = false) :
    t.releases j op = false := by
  cases op with
  | free k =>
      obtain ⟨lower, found⟩ := links.below_live live below
      rw [releases] at spared ⊢
      cases checked : t.checkFree k with
      | error fault =>
          rw [free_of_error checked]
          change (t.scope? j).isNone = false
          rw [found]
          rfl
      | ok parent =>
          obtain ⟨freed, start, -, -⟩ := links.checkFree_ok checked
          have outside : j ∉ t.subtree k := by
            intro member
            have up := below_of_checkFree links settled live finished checked below
              ((links.mem_subtree_iff start j).mp member)
            rw [scope?_free checked, if_pos ((links.mem_subtree_iff start id).mpr up)] at spared
            cases spared
          rw [scope?_free checked, if_neg outside, found]
          rfl
  | _ => rfl

theorem frozen_step (links : t.WellFormed) (settled : t.AllSettled) (live : t.scope? id = some s)
    (finished : s.isFinished = true) (op : Op) (spared : t.releases id op = false) {j : ScopeId}
    (below : t.Below id j) : (t.step op).after.scope? j = t.scope? j := by
  obtain ⟨lower, found, closed⟩ := settled.below_finished live finished below
  obtain ⟨output, given⟩ := output?_of_isFinished closed
  rw [found]
  exact finished_step links found given op
    (releases_below links settled live finished below op spared)

theorem frozen_run (links : t.WellFormed) (settled : t.AllSettled) (live : t.scope? id = some s)
    (finished : s.isFinished = true) (ops : List Op) (spared : t.spares id ops = true) {j : ScopeId}
    (below : t.Below id j) : (t.run ops).scope? j = t.scope? j := by
  induction ops generalizing t with
  | nil => rfl
  | cons op ops ih =>
      rw [spares, Bool.and_eq_true, Bool.not_eq_true'] at spared
      have kept : ∀ j, t.Below id j → (t.step op).after.scope? j = t.scope? j :=
        fun j => frozen_step links settled live finished op spared.1
      calc (t.run (op :: ops)).scope? j
          = (t.step op).after.scope? j :=
            ih (links.step op) (settled.step links op) ((kept id .refl).trans live) spared.2
              ((below_congr kept j).mpr below)
        _ = t.scope? j := kept j below

end

/-- All below a finished scope is finished, its header counts its children, and until it is freed
nothing below it changes, nor do the sizes it has been given. -/
theorem finished_is_frozen {t : Tree} (reachable : t.Reachable) (small : t.Small) {id : ScopeId}
    {s : Scope} {output : Output} (live : t.scope? id = some s)
    (given : s.output? = some output) :
    (∀ j, t.Below id j → ∃ lower, t.scope? j = some lower ∧ lower.isFinished = true) ∧
    output.childCount = s.children.size ∧
    ∃ total, t.writtenSize id = .ok total ∧ t.fileSize id = .ok (File.size total) ∧
      ∀ ops, t.spares id ops = true →
        (∀ j, (t.run ops).Below id j ↔ t.Below id j) ∧
        (∀ j, t.Below id j → (t.run ops).scope? j = t.scope? j) ∧
        (t.run ops).writtenSize id = .ok total ∧
        (t.run ops).fileSize id = .ok (File.size total) := by
  have links := reachable.wellFormed
  have settled := reachable.settled
  have finished : s.isFinished = true := by
    rw [Scope.isFinished_eq, given]
    rfl
  have size := writtenSize_of_finished links settled small live finished
  refine ⟨fun j => settled.below_finished live finished,
    (settled id s output live given).counted, t.totalSize id, size, ?_, ?_⟩
  · rw [fileSize, size]
    rfl
  · intro ops spared
    have kept : ∀ j, t.Below id j → (t.run ops).scope? j = t.scope? j :=
      fun j => frozen_run links settled live finished ops spared
    have later := writtenSize_of_same links settled small (links.run ops) live finished kept
    refine ⟨below_congr kept, kept, later, ?_⟩
    rw [fileSize, later]
    rfl

def laterOps : List Op :=
  [.scope ⟨4⟩ (.emit 9), .create (some ⟨1⟩) false, .free ⟨4⟩, .free ⟨1⟩, .create none true,
    .create (some ⟨5⟩) false, .finish ⟨0⟩, .free ⟨5⟩]

theorem finished_is_frozen_nested :
    nested.Reachable ∧ nested.Small ∧ nested.spares ⟨1⟩ laterOps = true ∧
      ∃ s output total, nested.scope? ⟨1⟩ = some s ∧ s.output? = some output ∧
        output.childCount = s.children.size ∧ nested.writtenSize ⟨1⟩ = .ok total ∧
        (nested.run laterOps).scope? ⟨1⟩ = some s ∧
        (nested.run laterOps).writtenSize ⟨1⟩ = .ok total := by
  have sound : ({} : Limits).Sound := (Limits.validate_eq_ok_iff {}).mp (by decide)
  have reachable : nested.Reachable := ⟨{}, sound, _, rfl⟩
  have small : nested.Small := by decide +kernel
  have spared : nested.spares ⟨1⟩ laterOps = true := by decide +kernel
  have there : (nested.scope? ⟨1⟩).map (·.isFinished) = some true := by decide +kernel
  obtain ⟨s, live, finished⟩ := Option.map_eq_some_iff.mp there
  obtain ⟨output, given⟩ := output?_of_isFinished finished
  obtain ⟨-, counted, total, size, -, frozen⟩ := finished_is_frozen reachable small live given
  obtain ⟨-, kept, later, -⟩ := frozen laterOps spared
  exact ⟨reachable, small, spared, s, output, total, live, given, counted, size,
    (kept ⟨1⟩ .refl).trans live, later⟩

end BytecodeScopes.Tree
