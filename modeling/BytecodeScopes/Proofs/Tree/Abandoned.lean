import BytecodeScopes.Proofs.Tree.Interleaving

/-!
A scope that is created, built upon and freed again. What is done to it and to the scopes created
under it stays behind its slot: the older scopes do not change, and every newer one stands below it.
Freeing it therefore takes all that was done, and leaves the tree there was with more empty slots.
-/

namespace BytecodeScopes.Tree

section

variable {t : Tree} {op : Op} {j k : ScopeId} {s s' : Scope}

theorem scope?_step_older (links : t.WellFormed) (addressed : op.addressee = some k)
    (older : j.index < k.index) (inside : j.index < t.slots.size)
    (unlisted : ∀ s, op = .free k → t.scope? k = some s → s.parent ≠ some j) :
    (t.step op).after.scope? j = t.scope? j := by
  have other : j ≠ k := by
    intro same
    rw [same] at older
    exact Nat.lt_irrefl _ older
  cases op with
  | create upper top =>
      change upper = some k at addressed
      subst addressed
      change (t.create (some k) top).after.scope? j = t.scope? j
      cases checked : t.checkCreate (some k) with
      | error fault =>
          rw [create_of_error checked]
          rfl
      | ok outer =>
          have apart : some k ≠ some j := by simp [other.symm]
          rw [scope?_create checked, if_neg (Nat.ne_of_lt inside), map_relinked_of_ne apart]
  | finish id =>
      change some id = some k at addressed
      cases addressed
      change (t.finish k).after.scope? j = t.scope? j
      unfold finish
      cases t.checkFinish k with
      | error fault => rfl
      | ok childCount => simp only [scope?_update, if_neg other]
  | free id =>
      change some id = some k at addressed
      cases addressed
      change (t.free k).after.scope? j = t.scope? j
      cases checked : t.checkFree k with
      | error fault =>
          rw [free_of_error checked]
          rfl
      | ok parent =>
          obtain ⟨freed, start, rfl, -⟩ := links.checkFree_ok checked
          have outside : j ∉ t.subtree k := by
            intro member
            have above := links.below_le ((links.mem_subtree_iff start j).mp member)
            omega
          rw [scope?_free checked, if_neg outside, map_relinked_of_ne (unlisted freed rfl start)]
  | scope id action =>
      change some id = some k at addressed
      cases addressed
      exact scope?_step_other t j other.symm action

theorem live_of_sites {t' : Tree}
    (sites : (t'.scope? j).map Scope.site = (t.scope? j).map Scope.site)
    (before : t.scope? j = some s) : ∃ s', t'.scope? j = some s' := by
  rw [before] at sites
  obtain ⟨s', live, -⟩ := Option.map_eq_some_iff.mp sites
  exact ⟨s', live⟩

theorem live_step (links : t.WellFormed) (before : t.scope? j = some s)
    (stays : ∀ k, op = .free k → ¬ t.Below k j) : ∃ s', (t.step op).after.scope? j = some s' := by
  cases op with
  | create parent top =>
      change ∃ s', (t.create parent top).after.scope? j = some s'
      cases checked : t.checkCreate parent with
      | error fault =>
          rw [create_of_error checked]
          exact ⟨s, before⟩
      | ok outer => exact ⟨_, scope?_create_of_live checked top before⟩
  | finish id => exact live_of_sites (sites_finish t id j) before
  | free id =>
      change ∃ s', (t.free id).after.scope? j = some s'
      cases checked : t.checkFree id with
      | error fault =>
          rw [free_of_error checked]
          exact ⟨s, before⟩
      | ok parent =>
          obtain ⟨freed, start, -, -⟩ := links.checkFree_ok checked
          have outside : j ∉ t.subtree id := fun member =>
            stays id rfl ((links.mem_subtree_iff start j).mp member)
          rw [scope?_free checked, if_neg outside, before]
          exact ⟨_, rfl⟩
  | scope id action =>
      exact live_of_sites (sites_update t id (fun s => s.site_step action) j) before

theorem parent_step (before : t.scope? j = some s)
    (live : (t.step op).after.scope? j = some s') : s'.parent = s.parent := by
  apply survivor_step (P := (·.parent = s.parent)) before live
  · exact fun _ => rfl
  · exact fun m => congrArg Scope.Site.parent (s.site_move m)

theorem created_last (answered : (t.step op).answer = .ok (.created k)) : k = ⟨t.slots.size⟩ := by
  cases op with
  | create parent top =>
      obtain ⟨id, created, same⟩ := Reply.map_eq_ok_iff.mp answered
      cases same
      exact (create_ok created).1
  | finish | free | scope =>
      obtain ⟨found, -, other⟩ := Reply.map_eq_ok_iff.mp answered
      cases other

end

def joined (family : List ScopeId) : Except Fault Answer → List ScopeId
  | .ok (.created id) => id :: family
  | _ => family

/-- Whether actions are only about scopes of a family and those created under them on the way. -/
def keepsTo (t : Tree) (family : List ScopeId) : List Op → Bool
  | [] => true
  | op :: ops =>
      op.addressee.any (fun id => id ∈ family) &&
        (t.step op).after.keepsTo (joined family (t.step op).answer) ops

/-- A tree that differs from another only from the slot of one scope on. The scope is there, under
its parent, and no newer scope hangs from an older one. -/
structure Walled (base : Tree) (c : ScopeId) (parent : Option ScopeId) (t : Tree) : Prop where
  links : t.WellFormed
  limits : t.limits = base.limits
  outside : ∀ j, j.index < c.index → t.scope? j = base.scope? j
  root : ∃ s, t.scope? c = some s ∧ s.parent = parent
  inside : ∀ j s, t.scope? j = some s → c.index < j.index →
    ∃ q, s.parent = some q ∧ c.index ≤ q.index

namespace Walled

variable {base t : Tree} {c k : ScopeId} {parent : Option ScopeId} {op : Op}

theorem index_lt (walled : Walled base c parent t) : c.index < t.slots.size := by
  obtain ⟨s, live, -⟩ := walled.root
  exact index_lt_of_scope? live

theorem step (walled : Walled base c parent t) (addressed : op.addressee = some k)
    (newer : c.index ≤ k.index) (kept : op ≠ .free c) :
    Walled base c parent (t.step op).after := by
  obtain ⟨root, live, above⟩ := walled.root
  constructor
  case links => exact walled.links.step op
  case limits => exact (t.frame_step op).1.trans walled.limits
  case outside =>
    intro j older
    have present : j.index < t.slots.size := Nat.lt_trans older walled.index_lt
    rw [← walled.outside j older]
    apply scope?_step_older walled.links addressed (Nat.lt_of_lt_of_le older newer) present
    -- Only a freeing reaches beyond its own scope, to the parent; here the parent is newer.
    intro s freeing found listed
    have apart : c.index ≠ k.index := by
      intro equal
      rw [freeing, ScopeId.eq_of_index equal] at kept
      exact kept rfl
    obtain ⟨q, upper, within⟩ := walled.inside k s found (Nat.lt_of_le_of_ne newer apart)
    rw [listed] at upper
    cases upper
    omega
  case root =>
    have stays : ∀ id, op = .free id → ¬ t.Below id c := by
      rintro id rfl below
      have le := walled.links.below_le below
      cases addressed
      exact kept (by rw [ScopeId.eq_of_index (Nat.le_antisymm le newer)])
    obtain ⟨after, found⟩ := live_step walled.links live stays
    exact ⟨after, found, (parent_step live found).trans above⟩
  case inside =>
    intro j s' found deeper
    by_cases new : t.slots.size ≤ j.index
    · cases origin_step found with
      | @created upper top outer checked last =>
          exact ⟨k, addressed, newer⟩
      | relisted before | acted before | finished before =>
          exact absurd (index_lt_of_scope? before) (Nat.not_lt.mpr new)
    · obtain ⟨s, before⟩ := live_before_step found (Nat.lt_of_not_le new)
      obtain ⟨q, upper, within⟩ := walled.inside j s before deeper
      exact ⟨q, (parent_step before found).trans upper, within⟩

theorem joined_newer (walled : Walled base c parent t) {family : List ScopeId}
    (newer : ∀ k ∈ family, c.index ≤ k.index) (op : Op) :
    ∀ k ∈ joined family (t.step op).answer, c.index ≤ k.index := by
  intro k member
  unfold joined at member
  split at member
  · rename_i id answered
    rcases List.mem_cons.mp member with rfl | older
    · rw [created_last answered]
      exact Nat.le_of_lt walled.index_lt
    · exact newer k older
  · exact newer k member

theorem run (walled : Walled base c parent t) {family : List ScopeId}
    (newer : ∀ k ∈ family, c.index ≤ k.index) (ops : List Op)
    (within : t.keepsTo family ops = true) (kept : .free c ∉ ops) :
    Walled base c parent (t.run ops) := by
  induction ops generalizing t family with
  | nil => exact walled
  | cons op ops ih =>
      simp only [keepsTo, Bool.and_eq_true, Option.any_eq_true, decide_eq_true_eq] at within
      obtain ⟨⟨k, addressed, member⟩, later⟩ := within
      rw [List.mem_cons, not_or] at kept
      exact ih (walled.step addressed (newer k member) (Ne.symm kept.1))
        (walled.joined_newer newer op) later kept.2

theorem below (walled : Walled base c parent t) {j : ScopeId} {s : Scope}
    (live : t.scope? j = some s) (newer : c.index ≤ j.index) : t.Below c j := by
  -- on the number: the parent of a newer scope is newer too, or the scope itself
  induction number : j.index using Nat.strongRecOn generalizing j s with
  | ind n ih =>
      rcases Nat.lt_or_eq_of_le newer with deeper | equal
      · obtain ⟨q, upper, within⟩ := walled.inside j s live deeper
        obtain ⟨above, found, less, once⟩ := (walled.links j s live).parent q upper
        have child : t.Child q j := by
          rw [Child, childrenOf_of_scope? found]
          exact List.count_pos_iff.mp (by omega)
        exact (ih q.index (number ▸ less) found within rfl).tail child
      · rw [ScopeId.eq_of_index equal]
        exact .refl

end Walled

section

variable {t : Tree} {parent : Option ScopeId} {top : Bool} {outer : Option Nesting} {c : ScopeId}

theorem walled_create (links : t.WellFormed) (checked : t.checkCreate parent = .ok outer) :
    Walled (t.create parent top).after ⟨t.slots.size⟩ parent (t.create parent top).after where
  links := links.create parent top
  limits := rfl
  outside := fun _ _ => rfl
  root := by
    rw [scope?_create checked, if_pos rfl]
    exact ⟨_, rfl, rfl⟩
  inside := by
    intro j s live newer
    rw [scope?_create checked, if_neg (Nat.ne_of_gt newer)] at live
    obtain ⟨before, found, -⟩ := Option.map_eq_some_iff.mp live
    exact absurd (index_lt_of_scope? found) (Nat.lt_asymm newer)

theorem checkFree_of_walled (checked : t.checkCreate parent = .ok outer) {last : Tree}
    (walled : Walled (t.create parent top).after ⟨t.slots.size⟩ parent last) :
    last.checkFree ⟨t.slots.size⟩ = .ok parent := by
  obtain ⟨s, live, above⟩ := walled.root
  cases parent with
  | none => simp only [checkFree, live, above]
  | some p =>
      obtain ⟨upper, before, building, -⟩ := checkCreate_ok checked
      -- the parent is being built as it was when it got the child
      have found : last.scope? p = some (relinked (some p) (·.push ⟨t.slots.size⟩) p upper) := by
        rw [walled.outside p (index_lt_of_scope? before)]
        exact scope?_create_of_live checked top before
      have still : (relinked (some p) (·.push ⟨t.slots.size⟩) p upper).isFinished = false := by
        rw [relinked_of_parent, Scope.isFinished]
        simp only [building]
      simp only [checkFree, live, above, found, still, Bool.false_eq_true, if_false]

theorem relinked_back (links : t.WellFormed) {j : ScopeId} {s : Scope}
    (live : t.scope? j = some s) (parent : Option ScopeId) :
    relinked parent (·.filter (· ≠ ⟨t.slots.size⟩)) j
      (relinked parent (·.push ⟨t.slots.size⟩) j s) = s := by
  by_cases lists : parent = some j
  · have others : ∀ child ∈ s.children, decide (child ≠ ⟨t.slots.size⟩) = true := by
      intro child member
      rw [decide_eq_true_eq]
      rintro rfl
      exact Nat.lt_irrefl _ (links.children_lt live member)
    rw [lists, relinked_of_parent, relinked_of_parent]
    simp only [Array.filter_push, ne_eq, not_true_eq_false, decide_false, Bool.false_eq_true,
      if_false]
    rw [Array.filter_eq_self.mpr others]
  · rw [relinked_of_ne lists, relinked_of_ne lists]

theorem scope?_free_walled (links : t.WellFormed) (checked : t.checkCreate parent = .ok outer)
    {last : Tree} (walled : Walled (t.create parent top).after ⟨t.slots.size⟩ parent last)
    (j : ScopeId) : (last.free ⟨t.slots.size⟩).after.scope? j = t.scope? j := by
  obtain ⟨root, start, -⟩ := walled.root
  have taken := walled.links.mem_subtree_iff start j
  rw [scope?_free (checkFree_of_walled checked walled)]
  by_cases older : j.index < t.slots.size
  · have stays : j ∉ last.subtree ⟨t.slots.size⟩ := by
      intro member
      exact Nat.not_lt.mpr (walled.links.below_le (taken.mp member)) older
    rw [if_neg stays, walled.outside j older, scope?_create checked, if_neg (Nat.ne_of_lt older),
      Option.map_map]
    cases live : t.scope? j with
    | none => rfl
    | some s => exact congrArg some (relinked_back links live parent)
  · have absent : t.scope? j = none := by
      cases found : t.scope? j with
      | none => rfl
      | some s => exact absurd (index_lt_of_scope? found) older
    rw [absent]
    cases live : last.scope? j with
    | none => simp
    | some s => rw [if_pos (taken.mpr (walled.below live (Nat.le_of_not_lt older)))]

/-- A tree with more slots that hold nothing. -/
def padded (t : Tree) (unused : Nat) : Tree :=
  { t with slots := t.slots ++ Array.replicate unused none }

theorem scope?_padded (t : Tree) (unused : Nat) (j : ScopeId) :
    (t.padded unused).scope? j = t.scope? j := by
  by_cases inside : j.index < t.slots.size
  · simp [scope?, padded, Array.getElem?_append_left inside]
  · have outside : t.slots.size ≤ j.index := Nat.le_of_not_lt inside
    simp only [scope?, padded, Array.getElem?_append_right outside, Array.getElem?_eq_none outside,
      Array.getElem?_replicate]
    split <;> rfl

theorem free_walled (links : t.WellFormed) (checked : t.checkCreate parent = .ok outer)
    {last : Tree} (walled : Walled (t.create parent top).after ⟨t.slots.size⟩ parent last) :
    ∃ unused, (last.free ⟨t.slots.size⟩).after = t.padded unused := by
  obtain ⟨limits, grown⟩ := last.frame_step (.free ⟨t.slots.size⟩)
  have larger : t.slots.size < (last.free ⟨t.slots.size⟩).after.slots.size :=
    Nat.lt_of_lt_of_le walled.index_lt grown
  refine ⟨(last.free ⟨t.slots.size⟩).after.slots.size - t.slots.size, ?_⟩
  apply ext_scope?
  · calc (last.free ⟨t.slots.size⟩).after.limits
        = last.limits := limits
      _ = (t.create parent top).after.limits := walled.limits
      _ = t.limits := (t.frame_step (.create parent top)).1
  · simp only [padded, Array.size_append, Array.size_replicate]
    omega
  · intro j
    rw [scope?_free_walled links checked walled, scope?_padded]

theorem answer_free (links : t.WellFormed) {s : Scope} (live : t.scope? c = some s)
    (checked : t.checkFree c = .ok parent) :
    ∃ ids : List ScopeId, ids.Nodup ∧
      (∀ j, j ∈ ids ↔ t.Below c j ∧ (t.scope? j).isSome = true) ∧
      (t.free c).answer = .ok ids.length := by
  refine ⟨(t.subtree c).filter fun j => (t.scope? j).isSome, ?_, ?_, ?_⟩
  · exact (links.visits_subtree live).2.filter _
  · intro j
    rw [List.mem_filter, links.mem_subtree_iff live]
  · rw [free, checked]

end

/-- A scope that was created, and acted on with the scopes created under it, can be freed. Freeing
counts the scopes there are below it, and leaves those there were before, as they were. -/
theorem abandoned_leaves_no_trace {t : Tree} (reachable : t.Reachable) {parent : Option ScopeId}
    {top : Bool} {c : ScopeId} (created : (t.create parent top).answer = .ok c) (ops : List Op)
    (within : (t.create parent top).after.keepsTo [c] ops = true) (kept : .free c ∉ ops) :
    let last := (t.create parent top).after.run ops
    (∃ ids : List ScopeId, ids.Nodup ∧
      (∀ j, j ∈ ids ↔ last.Below c j ∧ (last.scope? j).isSome = true) ∧
      (last.free c).answer = .ok ids.length) ∧
    (∀ j, (last.free c).after.scope? j = t.scope? j) ∧
    ∃ unused, (last.free c).after = t.padded unused := by
  intro last
  have links := reachable.wellFormed
  obtain ⟨rfl, outer, checked⟩ := create_ok created
  have walled : Walled (t.create parent top).after ⟨t.slots.size⟩ parent last :=
    (walled_create links checked).run (by simp) ops within kept
  obtain ⟨root, live, -⟩ := walled.root
  exact ⟨answer_free walled.links live (checkFree_of_walled checked walled),
    scope?_free_walled links checked walled, free_walled links checked walled⟩

def workbench : Tree :=
  ({} : Tree).run [.create none true, .scope ⟨0⟩ (.emit 1), .create (some ⟨0⟩) false, .finish ⟨1⟩]

/-- Scopes created under a third one, of which one fails, one is finished and one is freed. -/
def abandonedOps : List Op :=
  [.scope ⟨2⟩ (.emit 5), .create (some ⟨2⟩) false, .create (some ⟨3⟩) false,
    .scope ⟨4⟩ (.popMany 9), .create (some ⟨3⟩) true, .finish ⟨5⟩, .finish ⟨2⟩, .free ⟨4⟩,
    .create (some ⟨4⟩) false, .create (some ⟨2⟩) true, .scope ⟨6⟩ (.emit 7)]

theorem abandoned_leaves_no_trace_nested :
    workbench.Reachable ∧ (workbench.create (some ⟨0⟩) false).answer = .ok ⟨2⟩ ∧
      (workbench.create (some ⟨0⟩) false).after.keepsTo [⟨2⟩] abandonedOps = true ∧
      .free ⟨2⟩ ∉ abandonedOps ∧
      ∃ last, last = (workbench.create (some ⟨0⟩) false).after.run abandonedOps ∧
        (last.free ⟨2⟩).answer = .ok 4 ∧
        ∃ unused, (last.free ⟨2⟩).after = workbench.padded unused := by
  have sound : ({} : Limits).Sound := (Limits.validate_eq_ok_iff {}).mp (by decide)
  have reachable : workbench.Reachable := ⟨{}, sound, _, rfl⟩
  have created : (workbench.create (some ⟨0⟩) false).answer = .ok ⟨2⟩ := by decide +kernel
  have within : (workbench.create (some ⟨0⟩) false).after.keepsTo [⟨2⟩] abandonedOps = true := by
    decide +kernel
  have kept : Op.free ⟨2⟩ ∉ abandonedOps := by decide
  obtain ⟨-, -, restored⟩ := abandoned_leaves_no_trace reachable created abandonedOps within kept
  exact ⟨reachable, created, within, kept, _, rfl, by decide +kernel, restored⟩

end BytecodeScopes.Tree
