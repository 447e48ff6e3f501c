import BytecodeScopes.Proofs.Tree.Origin

namespace BytecodeScopes.Tree

section

variable {t : Tree} {j : ScopeId} {s : Scope} {output : Output}

theorem finished_update {α : Type} (live : t.scope? j = some s) (id : ScopeId)
    {act : Scope → Reply Scope α} (kept : (act s).after = s) :
    (t.update id act).after.scope? j = some s := by
  rw [scope?_update]
  split
  · rename_i same
    rw [← same, live, Option.map_some, kept]
  · exact live

theorem finished_create (live : t.scope? j = some s) (given : s.output? = some output)
    (parent : Option ScopeId) (top : Bool) :
    (t.create parent top).after.scope? j = some s := by
  cases checked : t.checkCreate parent with
  | error fault =>
      rw [create_of_error checked]
      exact live
  | ok outer =>
      have apart : parent ≠ some j := by
        rintro rfl
        obtain ⟨above, found, building, -⟩ := checkCreate_ok checked
        rw [live] at found
        cases found
        rw [Scope.phase_of_output? given] at building
        cases building
      rw [scope?_create_of_live checked top live, relinked_of_ne apart]

theorem finished_finish (live : t.scope? j = some s) (given : s.output? = some output)
    (id : ScopeId) : (t.finish id).after.scope? j = some s := by
  unfold finish
  cases t.checkFinish id with
  | error fault => exact live
  | ok childCount =>
      apply finished_update live
      rw [Scope.finish_of_finished (Scope.phase_of_output? given)]
      rfl

/-- A parent that is finished keeps its children from being freed, so its list of them stays. -/
theorem finished_free (links : t.WellFormed) (live : t.scope? j = some s)
    (given : s.output? = some output) (id : ScopeId) :
    (t.free id).after.scope? j = some s ∨ (t.free id).after.scope? j = none := by
  cases checked : t.checkFree id with
  | error fault =>
      rw [free_of_error checked]
      exact .inl live
  | ok parent =>
      obtain ⟨freed, start, -, unfinished⟩ := links.checkFree_ok checked
      have apart : parent ≠ some j := by
        rintro rfl
        have still := unfinished j s rfl live
        rw [Scope.isFinished_eq, given] at still
        cases still
      rw [scope?_free checked]
      split
      · exact .inr rfl
      · rw [live, Option.map_some, relinked_of_ne apart]
        exact .inl rfl

/-- Whether an action is a freeing that takes the scope. -/
def releases (t : Tree) (id : ScopeId) : Op → Bool
  | .free k => ((t.free k).after.scope? id).isNone
  | _ => false

theorem finished_step (links : t.WellFormed) (live : t.scope? j = some s)
    (given : s.output? = some output) (op : Op) (spared : t.releases j op = false) :
    (t.step op).after.scope? j = some s := by
  cases op with
  | create parent top => exact finished_create live given parent top
  | finish id => exact finished_finish live given id
  | free id =>
      rcases finished_free links live given id with kept | gone
      · exact kept
      · rw [releases, gone] at spared
        cases spared
  | scope id op =>
      apply finished_update live
      rw [Scope.step_of_finished (Scope.phase_of_output? given)]
      rfl

end

theorem checkFinish_ok {t : Tree} {id : ScopeId} {childCount : Nat}
    (checked : t.checkFinish id = .ok childCount) :
    ∃ s, t.scope? id = some s ∧ childCount = s.children.size ∧
      ∀ c ∈ s.children, ∃ child, t.scope? c = some child ∧ child.isFinished = true := by
  unfold checkFinish at checked
  cases live : t.scope? id with
  | none =>
      rw [live] at checked
      cases checked
  | some s =>
      rw [live] at checked
      dsimp only at checked
      cases hindered : s.children.findSome? (t.hindrance? id) with
      | some fault =>
          rw [hindered] at checked
          cases checked
      | none =>
          rw [hindered] at checked
          dsimp only at checked
          split at checked
          · cases checked
            refine ⟨s, rfl, rfl, ?_⟩
            intro c member
            have clear := Array.findSome?_eq_none_iff.mp hindered c member
            unfold hindrance? at clear
            cases found : t.scope? c with
            | none =>
                rw [found] at clear
                cases clear
            | some child =>
                rw [found] at clear
                exact ⟨child, rfl, by simpa using clear⟩
          · cases checked

def Finishes (t : Tree) (op : Op) (id : ScopeId) (output : Output) : Prop :=
  op = .finish id ∧ ∃ s, t.scope? id = some s ∧ t.checkFinish id = .ok s.children.size ∧
    output = s.outputWith s.children.size

/-- A scope finished after an action was finished before it, or the action finished it. -/
theorem output_step {t : Tree} {op : Op} {j : ScopeId} {s' : Scope} {output : Output}
    (live : (t.step op).after.scope? j = some s') (given : s'.output? = some output) :
    (∃ s, t.scope? j = some s ∧ s.output? = some output) ∨ t.Finishes op j output := by
  cases origin_step live with
  | created checked last => cases given
  | @relisted op s before apart children => exact .inl ⟨s, before, given⟩
  | @acted op s before =>
      rw [Scope.output?_step] at given
      exact .inl ⟨s, before, given⟩
  | @finished s childCount before checked =>
      rcases s.output?_finish childCount with same | ⟨-, -, fresh⟩
      · exact .inl ⟨s, before, same ▸ given⟩
      · obtain ⟨found, there, rfl, -⟩ := checkFinish_ok checked
        rw [before] at there
        cases there
        rw [fresh] at given
        cases given
        exact .inr ⟨rfl, s, before, checked, rfl⟩

/-- What a finished scope handed on agrees with its tree. -/
structure Settled (t : Tree) (s : Scope) (output : Output) : Prop where
  counted : output.childCount = s.children.size
  measured : output.codeSize = min output.code.size 4294967295
  children : ∀ c ∈ s.children, ∃ child, t.scope? c = some child ∧ child.isFinished = true

theorem Settled.writtenSize {t : Tree} {s : Scope} {output : Output} (settled : t.Settled s output)
    (given : s.output? = some output) (small : output.code.size < 4294967296) :
    s.writtenSize = .ok (Record.size output.code.size s.handlers s.literals s.symbols.names) := by
  have measured := settled.measured
  have agree : output.code.size = output.codeSize := by omega
  rw [Scope.writtenSize, given]
  exact if_pos agree

def AllSettled (t : Tree) : Prop :=
  ∀ id s output, t.scope? id = some s → s.output? = some output → t.Settled s output

theorem output?_of_isFinished {s : Scope} (finished : s.isFinished = true) :
    ∃ output, s.output? = some output := by
  rw [Scope.isFinished_eq] at finished
  exact Option.isSome_iff_exists.mp finished

theorem releases_of_live {t : Tree} {op : Op} {j : ScopeId} {s : Scope}
    (live : (t.step op).after.scope? j = some s) : t.releases j op = false := by
  cases op with
  | free id =>
      change (t.free id).after.scope? j = some s at live
      rw [releases, live]
      rfl
  | _ => rfl

theorem children_finished_step {t : Tree} (links : t.WellFormed) (op : Op) {j : ScopeId} {s : Scope}
    (after : (t.step op).after.scope? j = some s)
    (children : ∀ c ∈ s.children, ∃ child, t.scope? c = some child ∧ child.isFinished = true) :
    ∀ c ∈ s.children, ∃ child, (t.step op).after.scope? c = some child ∧
      child.isFinished = true := by
  intro c member
  obtain ⟨child, found, finished⟩ := children c member
  obtain ⟨later, there, -⟩ := ((links.step op) j s after).children c member
  obtain ⟨output, given⟩ := output?_of_isFinished finished
  exact ⟨child, finished_step links found given op (releases_of_live there), finished⟩

theorem AllSettled.step {t : Tree} (settled : t.AllSettled) (links : t.WellFormed) (op : Op) :
    (t.step op).after.AllSettled := by
  intro j s' output live given
  rcases output_step live given with ⟨s, found, before⟩ | ⟨rfl, s, found, checked, rfl⟩
  · have kept := finished_step links found before op (releases_of_live live)
    rw [live] at kept
    cases kept
    have now := settled j s' output found before
    exact ⟨now.counted, now.measured, children_finished_step links op live now.children⟩
  · obtain ⟨same, there, -, children⟩ := checkFinish_ok checked
    rw [found] at there
    cases there
    have listed : s'.children = s.children := by
      have sites := sites_finish t j j
      change (t.finish j).after.scope? j = some s' at live
      rw [live, found] at sites
      exact congrArg Scope.Site.children (Option.some.inj sites)
    rw [← listed] at children
    constructor
    case counted =>
      rw [listed]
      rfl
    case measured => rfl
    case children => exact children_finished_step links _ live children

theorem allSettled_empty (limits : Limits) : ({ limits } : Tree).AllSettled := by
  intro id s output live
  simp [scope?] at live

theorem allSettled_run (limits : Limits) (ops : List Op) :
    (({ limits } : Tree).run ops).AllSettled := by
  have both := runBy_invariant step (P := fun t => t.WellFormed ∧ t.AllSettled)
    (fun _ op holds => ⟨holds.1.step op, holds.2.step holds.1 op⟩)
    ⟨wellFormed_empty limits, allSettled_empty limits⟩ ops
  exact both.2

theorem Reachable.settled {t : Tree} (reachable : t.Reachable) : t.AllSettled := by
  obtain ⟨limits, -, ops, rfl⟩ := reachable
  exact allSettled_run limits ops

theorem AllSettled.below_finished {t : Tree} (settled : t.AllSettled) {id j : ScopeId} {s : Scope}
    (live : t.scope? id = some s) (finished : s.isFinished = true) (below : t.Below id j) :
    ∃ lower, t.scope? j = some lower ∧ lower.isFinished = true := by
  induction below with
  | refl => exact ⟨s, live, finished⟩
  | tail _ child ih =>
      obtain ⟨above, found, closed⟩ := ih
      obtain ⟨same, there, member⟩ := (t.child_iff _ _).mp child
      rw [found] at there
      cases there
      obtain ⟨output, given⟩ := output?_of_isFinished closed
      exact (settled _ above output found given).children _ member

end BytecodeScopes.Tree
