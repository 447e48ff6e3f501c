import BytecodeScopes.Proofs.Scope.Outcome
import BytecodeScopes.Proofs.Tree.Subtree

namespace BytecodeScopes.Tree

theorem sites_update {α : Type} (t : Tree) (id : ScopeId) {act : Scope → Reply Scope α}
    (kept : ∀ s, (act s).after.site = s.site) (j : ScopeId) :
    ((t.update id act).after.scope? j).map Scope.site = (t.scope? j).map Scope.site := by
  rw [scope?_update]
  split
  · rename_i same
    subst same
    cases t.scope? j with
    | none => rfl
    | some s => simp only [Option.map_some, kept]
  · rfl

theorem sites_finish (t : Tree) (id j : ScopeId) :
    ((t.finish id).after.scope? j).map Scope.site = (t.scope? j).map Scope.site := by
  unfold finish
  cases t.checkFinish id with
  | error fault => rfl
  | ok childCount => exact sites_update t id (fun s => s.site_finish childCount) j

namespace WellFormed

variable {t : Tree}

theorem of_sites {t' : Tree} (links : t.WellFormed)
    (same : ∀ j, (t'.scope? j).map Scope.site = (t.scope? j).map Scope.site) : t'.WellFormed := by
  have back : ∀ j s', t'.scope? j = some s' → ∃ s, t.scope? j = some s ∧ s.site = s'.site := by
    intro j s' live
    have equal := same j
    rw [live, Option.map_some] at equal
    exact Option.map_eq_some_iff.mp equal.symm
  have forth : ∀ j s, t.scope? j = some s → ∃ s', t'.scope? j = some s' ∧ s'.site = s.site := by
    intro j s live
    have equal := same j
    rw [live, Option.map_some] at equal
    exact Option.map_eq_some_iff.mp equal
  intro id s' live'
  obtain ⟨s, live, site⟩ := back id s' live'
  have linked := links id s live
  have children : s.children = s'.children := congrArg Scope.Site.children site
  constructor
  case seated => exact (congrArg Scope.Site.id site).symm.trans linked.seated
  case parent =>
    intro p above
    obtain ⟨upper, found, less, once⟩ :=
      linked.parent p ((congrArg Scope.Site.parent site).trans above)
    obtain ⟨upper', found', site'⟩ := forth p upper found
    have listed : upper'.children = upper.children := congrArg Scope.Site.children site'
    exact ⟨upper', found', less, by rw [listed]; exact once⟩
  case children =>
    intro c member
    obtain ⟨child, found, parent⟩ := linked.children c (children ▸ member)
    obtain ⟨child', found', site'⟩ := forth c child found
    exact ⟨child', found', (congrArg Scope.Site.parent site').trans parent⟩
  case ordered => exact children ▸ linked.ordered
  case bounded => exact children ▸ linked.bounded

theorem update {α : Type} (links : t.WellFormed) (id : ScopeId) {act : Scope → Reply Scope α}
    (kept : ∀ s, (act s).after.site = s.site) : (t.update id act).after.WellFormed :=
  links.of_sites (sites_update t id kept)

theorem finish (links : t.WellFormed) (id : ScopeId) : (t.finish id).after.WellFormed :=
  links.of_sites (sites_finish t id)

theorem create_children (links : t.WellFormed) {parent : Option ScopeId}
    {outer : Option Nesting} (checked : t.checkCreate parent = .ok outer) (top : Bool)
    {id : ScopeId} {s : Scope} (live : t.scope? id = some s) {c : ScopeId}
    (member : c ∈ (relinked parent (·.push ⟨t.slots.size⟩) id s).children) :
    ∃ child, (t.create parent top).after.scope? c = some child ∧ child.parent = some id := by
  have listed : c ∈ s.children ∨ parent = some id ∧ c = ⟨t.slots.size⟩ := by
    by_cases adopts : parent = some id
    · rw [adopts, relinked_of_parent, Array.mem_push] at member
      exact member.imp_right fun last => ⟨adopts, last⟩
    · rw [relinked_of_ne adopts] at member
      exact .inl member
  rcases listed with older | ⟨rfl, rfl⟩
  · obtain ⟨child, found, above⟩ := (links id s live).children c older
    exact ⟨_, scope?_create_of_live checked top found, (parent_relinked _ _ c child).trans above⟩
  · rw [scope?_create checked, if_pos rfl]
    exact ⟨_, rfl, rfl⟩

theorem children_lt (links : t.WellFormed) {id : ScopeId} {s : Scope}
    (live : t.scope? id = some s) {c : ScopeId} (listed : c ∈ s.children) :
    c.index < t.slots.size := by
  obtain ⟨child, found, -⟩ := (links id s live).children c listed
  exact index_lt_of_scope? found

theorem create_linked (links : t.WellFormed) {parent : Option ScopeId} {outer : Option Nesting}
    (checked : t.checkCreate parent = .ok outer) (top : Bool) {id : ScopeId} {s : Scope}
    (live : t.scope? id = some s) :
    (t.create parent top).after.Linked id (relinked parent (·.push ⟨t.slots.size⟩) id s) := by
  have linked := links id s live
  constructor
  case seated => exact (id_relinked _ _ id s).trans linked.seated
  case parent =>
    intro p above
    obtain ⟨upper, found, less, once⟩ :=
      linked.parent p ((parent_relinked _ _ id s).symm.trans above)
    refine ⟨_, scope?_create_of_live checked top found, less, ?_⟩
    by_cases adopts : parent = some p
    · have older : (⟨t.slots.size⟩ : ScopeId) ≠ id := by
        rintro rfl
        exact Nat.lt_irrefl _ (index_lt_of_scope? live)
      rw [adopts, relinked_of_parent, Array.toList_push, List.count_append, once,
        List.count_singleton, if_neg (by simpa using older)]
    · rw [relinked_of_ne adopts]
      exact once
  case children => exact fun c member => links.create_children checked top live member
  case ordered =>
    by_cases adopts : parent = some id
    · subst adopts
      rw [relinked_of_parent, Array.toList_push, List.pairwise_append]
      refine ⟨linked.ordered, List.pairwise_singleton _ _, ?_⟩
      intro c listed new last
      rw [List.mem_singleton.mp last]
      exact links.children_lt live (Array.mem_toList_iff.mp listed)
    · rw [relinked_of_ne adopts]
      exact linked.ordered
  case bounded =>
    by_cases adopts : parent = some id
    · subst adopts
      obtain ⟨s', found, -, room, -⟩ := checkCreate_ok checked
      rw [live] at found
      cases found
      rw [relinked_of_parent, Array.size_push]
      exact room
    · rw [relinked_of_ne adopts]
      exact linked.bounded

theorem fresh_linked (links : t.WellFormed) {parent : Option ScopeId} {outer : Option Nesting}
    (checked : t.checkCreate parent = .ok outer) (top : Bool) :
    (t.create parent top).after.Linked ⟨t.slots.size⟩
      (.fresh ⟨t.slots.size⟩ parent top (nestingUnder outer top) t.limits) := by
  constructor
  case seated => rfl
  case parent =>
    intro p above
    have adopts : parent = some p := above
    subst adopts
    obtain ⟨upper, found, -, -, -⟩ := checkCreate_ok checked
    have absent : (⟨t.slots.size⟩ : ScopeId) ∉ upper.children.toList := by
      intro listed
      exact Nat.lt_irrefl _ (links.children_lt found (Array.mem_toList_iff.mp listed))
    refine ⟨_, scope?_create_of_live checked top found, index_lt_of_scope? found, ?_⟩
    rw [relinked_of_parent, Array.toList_push, List.count_append,
      List.count_eq_zero_of_not_mem absent, List.count_singleton_self]
  case children => exact fun c member => absurd member (Array.not_mem_empty c)
  case ordered => exact List.Pairwise.nil
  case bounded => exact Nat.zero_le _

theorem create (links : t.WellFormed) (parent : Option ScopeId) (top : Bool) :
    (t.create parent top).after.WellFormed := by
  cases checked : t.checkCreate parent with
  | error fault =>
      rw [create_of_error checked]
      exact links
  | ok outer =>
      intro id s live
      rw [scope?_create checked] at live
      split at live
      · rename_i last
        have same : id = ⟨t.slots.size⟩ := ScopeId.eq_of_index last
        cases live
        rw [same]
        exact links.fresh_linked checked top
      · obtain ⟨older, found, rfl⟩ := Option.map_eq_some_iff.mp live
        exact links.create_linked checked top found

theorem checkFree_ok (links : t.WellFormed) {id : ScopeId} {parent : Option ScopeId}
    (checked : t.checkFree id = .ok parent) :
    ∃ s, t.scope? id = some s ∧ s.parent = parent ∧
      ∀ p above, parent = some p → t.scope? p = some above → above.isFinished = false := by
  unfold checkFree at checked
  cases live : t.scope? id with
  | none =>
      rw [live] at checked
      cases checked
  | some s =>
      rw [live] at checked
      refine ⟨s, rfl, ?_⟩
      cases upper : s.parent with
      | none =>
          simp only [upper] at checked
          cases checked
          refine ⟨rfl, ?_⟩
          intro p above named
          cases named
      | some p =>
          obtain ⟨above, found, -, -⟩ := (links id s live).parent p upper
          simp only [upper, found] at checked
          split at checked
          · cases checked
          · rename_i unfinished
            cases checked
            refine ⟨rfl, ?_⟩
            rintro q above' ⟨⟩ found'
            rw [found] at found'
            cases found'
            simpa using unfinished

theorem child_stays (links : t.WellFormed) {id p c : ScopeId} (stays : ¬ t.Below id p)
    (child : t.Child p c) (apart : c ≠ id) : ¬ t.Below id c := by
  intro below
  obtain ⟨s, live, parent⟩ := links.child_parent child
  exact stays (links.below_parent below apart.symm live parent)

/-- Only the parent of a scope lists it, so all lists lose it alike. -/
theorem children_unlinked (links : t.WellFormed) {id : ScopeId} {freed : Scope}
    (start : t.scope? id = some freed) {j : ScopeId} {s : Scope} (live : t.scope? j = some s) :
    (relinked freed.parent (·.filter (· ≠ id)) j s).children = s.children.filter (· ≠ id) := by
  by_cases loses : freed.parent = some j
  · rw [loses, relinked_of_parent]
  · rw [relinked_of_ne loses, eq_comm, Array.filter_eq_self]
    intro c member
    rw [decide_eq_true_eq]
    rintro rfl
    obtain ⟨child, found, above⟩ := (links j s live).children c member
    rw [start] at found
    cases found
    exact loses above

theorem free_linked (links : t.WellFormed) {id : ScopeId} {freed : Scope}
    (start : t.scope? id = some freed) (checked : t.checkFree id = .ok freed.parent)
    {j : ScopeId} {s : Scope} (live : t.scope? j = some s) (stays : ¬ t.Below id j) :
    (t.free id).after.Linked j (relinked freed.parent (·.filter (· ≠ id)) j s) := by
  have linked := links j s live
  have kept : ∀ k, ¬ t.Below id k → (t.free id).after.scope? k =
      (t.scope? k).map (relinked freed.parent (·.filter (· ≠ id)) k) := by
    intro k outside
    have unseen : k ∉ t.subtree id := fun member =>
      outside ((links.mem_subtree_iff start k).mp member)
    rw [scope?_free checked, if_neg unseen]
  constructor
  case seated => exact (id_relinked _ _ j s).trans linked.seated
  case parent =>
    intro p above
    obtain ⟨upper, found, less, once⟩ :=
      linked.parent p ((parent_relinked _ _ j s).symm.trans above)
    have listed : j ∈ upper.children.toList := List.count_pos_iff.mp (by omega)
    have child : t.Child p j := by
      rw [Child, childrenOf_of_scope? found]
      exact listed
    have upperStays : ¬ t.Below id p := fun below => stays (below.tail child)
    have different : j ≠ id := by
      rintro rfl
      exact stays .refl
    refine ⟨relinked freed.parent (·.filter (· ≠ id)) p upper, ?_, less, ?_⟩
    · rw [kept p upperStays, found]
      rfl
    · rw [links.children_unlinked start found, Array.toList_filter,
        List.count_filter (by simpa using different)]
      exact once
  case children =>
    intro c member
    rw [links.children_unlinked start live, Array.mem_filter, decide_eq_true_eq] at member
    obtain ⟨listed, different⟩ := member
    obtain ⟨child, found, above⟩ := linked.children c listed
    have outside : ¬ t.Below id c :=
      links.child_stays stays ((t.child_iff j c).mpr ⟨s, live, listed⟩) different
    rw [kept c outside, found]
    exact ⟨_, rfl, (parent_relinked _ _ c child).trans above⟩
  case ordered =>
    rw [links.children_unlinked start live, Array.toList_filter]
    exact linked.ordered.filter _
  case bounded =>
    rw [links.children_unlinked start live]
    exact Nat.le_trans Array.size_filter_le linked.bounded

theorem free (links : t.WellFormed) (id : ScopeId) : (t.free id).after.WellFormed := by
  cases checked : t.checkFree id with
  | error fault =>
      rw [free_of_error checked]
      exact links
  | ok parent =>
      obtain ⟨freed, start, rfl, -⟩ := links.checkFree_ok checked
      intro j s live
      rw [scope?_free checked] at live
      split at live
      · cases live
      · rename_i outside
        obtain ⟨before, found, rfl⟩ := Option.map_eq_some_iff.mp live
        exact links.free_linked start checked found
          (fun below => outside ((links.mem_subtree_iff start j).mpr below))

theorem step (links : t.WellFormed) (op : Op) : (t.step op).after.WellFormed := by
  cases op with
  | create parent top => exact links.create parent top
  | finish id => exact links.finish id
  | free id => exact links.free id
  | scope id op => exact links.update id fun s => s.site_step op

end WellFormed

theorem wellFormed_empty (limits : Limits) : ({ limits } : Tree).WellFormed := by
  intro id s live
  simp [scope?] at live

theorem WellFormed.run {t : Tree} (links : t.WellFormed) (ops : List Op) :
    (t.run ops).WellFormed := runBy_invariant Tree.step (fun _ op links => links.step op) links ops

/-- What holds of every tree without scopes and outlasts each action holds of every tree that
actions lead to. -/
theorem Reachable.invariant {P : Tree → Prop} (empty : ∀ limits : Limits, P { limits })
    (kept : ∀ t op, P t → P (t.step op).after) {t : Tree} (reachable : t.Reachable) : P t := by
  obtain ⟨limits, -, ops, rfl⟩ := reachable
  exact runBy_invariant step kept (empty limits) ops

theorem Reachable.wellFormed {t : Tree} (reachable : t.Reachable) : t.WellFormed :=
  reachable.invariant wellFormed_empty fun _ op links => links.step op

theorem scopeSize_eq {t : Tree} {id : ScopeId} {s : Scope} (live : t.scope? id = some s) :
    t.scopeSize id = s.writtenSize := by
  rw [scopeSize, Tree.scope, live]
  rfl

theorem writtenSize_eq {t : Tree} {id : ScopeId} {s : Scope} (live : t.scope? id = some s) :
    t.writtenSize id = ((t.subtree id).mapM t.scopeSize).map Sizes.total := by
  rw [writtenSize, Tree.scope, live]
  cases (t.subtree id).mapM t.scopeSize <;> rfl

theorem fault_of_mapM {size : ScopeId → Except Fault Nat} {ids : List ScopeId} {fault : Fault}
    (failed : ids.mapM size = .error fault) : ∃ id ∈ ids, size id = .error fault := by
  induction ids with
  | nil => cases failed
  | cons id ids ih =>
      rw [List.mapM_cons] at failed
      cases first : size id with
      | error early =>
          rw [first] at failed
          cases failed
          exact ⟨id, List.mem_cons_self, first⟩
      | ok own =>
          cases rest : ids.mapM size with
          | error late =>
              rw [first, rest] at failed
              cases failed
              obtain ⟨j, member, found⟩ := ih rest
              exact ⟨j, List.mem_cons_of_mem id member, found⟩
          | ok sizes =>
              rw [first, rest] at failed
              cases failed

namespace WellFormed

variable {t : Tree} {id : ScopeId} {s : Scope}

theorem hindrance?_known (links : t.WellFormed) (live : t.scope? id = some s) {c : ScopeId}
    (member : c ∈ s.children) (missing : ScopeId) :
    t.hindrance? id c ≠ some (.unknownScope missing) := by
  obtain ⟨child, found, -⟩ := (links id s live).children c member
  rw [hindrance?, found]
  dsimp only
  split <;> nofun

theorem finish_known (links : t.WellFormed) (live : t.scope? id = some s) (missing : ScopeId) :
    (t.finish id).answer ≠ .error (.unknownScope missing) := by
  unfold Tree.finish checkFinish
  rw [live]
  dsimp only
  cases hindered : s.children.findSome? (t.hindrance? id) with
  | some fault =>
      rintro ⟨⟩
      obtain ⟨c, member, found⟩ := Array.exists_of_findSome?_eq_some hindered
      exact links.hindrance?_known live member missing found
  | none =>
      have room : s.children.size ≤ childCapacity := (links id s live).bounded
      dsimp only
      rw [if_pos room]
      dsimp only
      rw [update_of_scope?_some _ live]
      exact s.finish_known s.children.size missing

theorem lookupFrom_known (links : t.WellFormed) (name : String) (rounds hops : Nat)
    (live : t.scope? id = some s) (missing : ScopeId) :
    t.lookupFrom name rounds id hops ≠ .error (.unknownScope missing) := by
  induction rounds generalizing id s hops with
  | zero => nofun
  | succ rounds ih =>
      rw [lookupFrom, live]
      dsimp only
      cases s.local? name with
      | some l =>
          dsimp only
          split <;> nofun
      | none =>
          dsimp only
          split
          · nofun
          · cases parent : s.parent with
            | none => nofun
            | some p =>
                obtain ⟨above, found, -, -⟩ := (links id s live).parent p parent
                exact ih (hops + 1) found

theorem writtenSize_known (links : t.WellFormed) (live : t.scope? id = some s)
    (missing : ScopeId) : t.writtenSize id ≠ .error (.unknownScope missing) := by
  rw [writtenSize_eq live]
  cases sizes : (t.subtree id).mapM t.scopeSize with
  | ok sizes => nofun
  | error fault =>
      rintro ⟨⟩
      obtain ⟨j, visited, failed⟩ := fault_of_mapM sizes
      obtain ⟨below, found⟩ := links.below_live live ((links.mem_subtree_iff live j).mp visited)
      rw [scopeSize_eq found] at failed
      exact below.writtenSize_known missing failed

end WellFormed

/-- Whatever was created, finished, freed and changed, the links of a tree agree, and nothing asked
about a scope that is there runs into one that is not. -/
theorem links_agree {t : Tree} (reachable : t.Reachable) :
    (∀ id s, t.scope? id = some s →
      s.id = id ∧
      (∀ p, s.parent = some p → ∃ above, t.scope? p = some above ∧ p.index < id.index ∧
        above.children.toList.count id = 1) ∧
      (∀ c ∈ s.children, ∃ child, t.scope? c = some child ∧ child.parent = some id) ∧
      s.children.toList.Pairwise (·.index < ·.index) ∧ s.children.size ≤ 65535) ∧
    ∀ id s, t.scope? id = some s → ∀ missing,
      (t.finish id).answer ≠ .error (.unknownScope missing) ∧
      (∀ name, t.lookup id name ≠ .error (.unknownScope missing)) ∧
      t.writtenSize id ≠ .error (.unknownScope missing) := by
  have links := reachable.wellFormed
  constructor
  · intro id s live
    have linked := links id s live
    exact ⟨linked.seated, linked.parent, linked.children, linked.ordered, linked.bounded⟩
  · intro id s live missing
    exact ⟨links.finish_known live missing,
      fun name => links.lookupFrom_known name (id.index + 1) 0 live missing,
      links.writtenSize_known live missing⟩

/-- Four scopes, of which the second is freed with the third below it. -/
def pruned : Tree :=
  ({} : Tree).run [.create none true, .create (some ⟨0⟩) false, .create (some ⟨1⟩) false,
    .create (some ⟨0⟩) false, .scope ⟨3⟩ (.emit 7), .free ⟨1⟩, .finish ⟨0⟩, .finish ⟨3⟩]

theorem links_agree_pruned :
    pruned.Reachable ∧ (pruned.scope? ⟨0⟩).map (·.children.toList) = some [⟨3⟩] ∧
      (pruned.scope? ⟨1⟩).isNone ∧ (pruned.scope? ⟨2⟩).isNone ∧
      ∃ above, pruned.scope? ⟨0⟩ = some above ∧ above.children.toList.count ⟨3⟩ = 1 := by
  have sound : ({} : Limits).Sound := (Limits.validate_eq_ok_iff {}).mp (by decide)
  have reachable : pruned.Reachable := ⟨{}, sound, _, rfl⟩
  have there : (pruned.scope? ⟨3⟩).map (·.parent) = some (some ⟨0⟩) := by decide +kernel
  obtain ⟨s, live, parent⟩ := Option.map_eq_some_iff.mp there
  obtain ⟨-, above, -⟩ := (links_agree reachable).1 ⟨3⟩ s live
  obtain ⟨upper, found, -, once⟩ := above ⟨0⟩ parent
  exact ⟨reachable, by decide +kernel, by decide +kernel, by decide +kernel, upper, found, once⟩

end BytecodeScopes.Tree
