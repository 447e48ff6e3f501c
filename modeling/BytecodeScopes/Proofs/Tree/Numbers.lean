import BytecodeScopes.Proofs.Tree.Abandoned

namespace BytecodeScopes.Tree

def Answer.created? : Answer → Option ScopeId
  | .created id => some id
  | _ => none

def given? (answer : Except Fault Answer) : Option ScopeId := answer.toOption.bind Answer.created?

/-- The numbers that a run gives out, in order. -/
def givenOut (t : Tree) (ops : List Op) : List ScopeId :=
  (t.answers ops).filterMap fun answered => given? answered.2

section

variable {t : Tree} {id : ScopeId}

theorem given?_eq_some_iff {answer : Except Fault Answer} :
    given? answer = some id ↔ answer = .ok (.created id) := by
  cases answer with
  | error fault => simp [given?, Except.toOption]
  | ok answer => cases answer <;> simp [given?, Except.toOption, Answer.created?]

theorem given?_map {α : Type} (answer : Except Fault α) {f : α → Answer}
    (other : ∀ a, (f a).created? = none) : given? (answer.map f) = none := by
  cases answer with
  | error fault => rfl
  | ok a => exact other a

theorem size_create_of_ok {parent : Option ScopeId} {top : Bool} {outer : Option Nesting}
    (checked : t.checkCreate parent = .ok outer) :
    (t.create parent top).after.slots.size = t.slots.size + 1 := by
  rw [create, checked]
  exact (Array.size_push _).trans (congrArg (· + 1) (size_link _ _ _))

theorem size_step (t : Tree) (op : Op) :
    (t.step op).after.slots.size = t.slots.size + (given? (t.step op).answer).toList.length := by
  cases op with
  | create parent top =>
      cases checked : t.checkCreate parent with
      | error fault =>
          rw [step, create_of_error checked]
          rfl
      | ok outer =>
          have answered : (t.step (.create parent top)).answer = .ok (.created ⟨t.slots.size⟩) := by
            rw [step, create, checked]
            rfl
          rw [given?_eq_some_iff.mpr answered]
          exact size_create_of_ok checked
  | finish id =>
      have none : given? (t.step (.finish id)).answer = none := given?_map _ fun _ => rfl
      rw [none]
      change (t.finish id).after.slots.size = t.slots.size
      unfold finish
      cases t.checkFinish id with
      | error fault => rfl
      | ok childCount => exact (frame_update t id _).2
  | free id =>
      have none : given? (t.step (.free id)).answer = none := given?_map _ fun _ => rfl
      rw [none]
      change (t.free id).after.slots.size = t.slots.size
      cases checked : t.checkFree id with
      | error fault =>
          rw [free_of_error checked]
          rfl
      | ok parent =>
          rw [free, checked]
          exact (size_clear _ _).trans (size_unlink _ _ _)
  | scope id action =>
      have none : given? (t.step (.scope id action)).answer = none := given?_map _ fun _ => rfl
      rw [none]
      exact (frame_update t id _).2

theorem givenOut_cons (t : Tree) (op : Op) (ops : List Op) :
    t.givenOut (op :: ops) =
      (given? (t.step op).answer).toList ++ (t.step op).after.givenOut ops :=
  filterMap_answersBy_cons step (fun answered => given? answered.2) t op ops

theorem givenOut_eq (t : Tree) (ops : List Op) :
    t.givenOut ops = (List.range' t.slots.size (t.givenOut ops).length).map ScopeId.mk := by
  induction ops generalizing t with
  | nil => rfl
  | cons op ops ih =>
      have later := ih (t.step op).after
      rw [size_step] at later
      rw [givenOut_cons]
      cases given : given? (t.step op).answer with
      | none =>
          rw [given] at later
          exact later
      | some id =>
          have last : id = ⟨t.slots.size⟩ := created_last (given?_eq_some_iff.mp given)
          rw [given] at later
          simp only [Option.toList_some, List.singleton_append, List.length_cons, List.range'_succ,
            List.map_cons, last, List.length_nil] at later ⊢
          exact congrArg _ later

end

/-- Every request about the number is refused and changes nothing, and no scope points to it. Only a
creation looks first whether there is a number left to give out. -/
structure Gone (t : Tree) (id : ScopeId) : Prop where
  access : t.scope id = .error (.unknownScope id)
  act : ∀ action, t.step (.scope id action) = .refuse t (.unknownScope id)
  createUnder : ∀ top, t.step (.create (some id) top) =
    .refuse t (if t.slots.size < capacity then .unknownScope id else .tableFull .children)
  finish : t.step (.finish id) = .refuse t (.unknownScope id)
  free : t.step (.free id) = .refuse t (.unknownScope id)
  lookup : ∀ name, t.lookup id name = .error (.unknownScope id)
  scopeSize : t.scopeSize id = .error (.unknownScope id)
  writtenSize : t.writtenSize id = .error (.unknownScope id)
  fileSize : t.fileSize id = .error (.unknownScope id)
  unlisted : ∀ j s, t.scope? j = some s → id ∉ s.children
  unparented : ∀ j s, t.scope? j = some s → s.parent ≠ some id

section

variable {t : Tree} {id k : ScopeId}

theorem scope_of_absent (absent : t.scope? id = none) : t.scope id = .error (.unknownScope id) := by
  rw [Tree.scope, absent]

theorem create_of_absent (absent : t.scope? id = none) (top : Bool) :
    t.create (some id) top =
      .refuse t (if t.slots.size < capacity then .unknownScope id else .tableFull .children) := by
  apply create_of_error
  unfold checkCreate
  by_cases room : t.slots.size < capacity
  · rw [if_pos room, if_pos room]
    simp only [absent]
  · rw [if_neg room, if_neg room]

theorem writtenSize_of_absent (absent : t.scope? id = none) :
    t.writtenSize id = .error (.unknownScope id) := by
  rw [Tree.writtenSize, scope_of_absent absent]
  rfl

theorem gone_of_absent (links : t.WellFormed) (absent : t.scope? id = none) : t.Gone id where
  access := scope_of_absent absent
  act := by
    intro action
    rw [step, update_of_scope?_none _ absent]
    rfl
  createUnder := by
    intro top
    rw [step, create_of_absent absent]
    rfl
  finish := by
    rw [step, Tree.finish, checkFinish, absent]
    rfl
  free := by
    rw [step, Tree.free, checkFree, absent]
    rfl
  lookup := by
    intro name
    rw [Tree.lookup, lookupFrom, absent]
  scopeSize := by
    rw [Tree.scopeSize, scope_of_absent absent]
    rfl
  writtenSize := writtenSize_of_absent absent
  fileSize := by
    rw [Tree.fileSize, writtenSize_of_absent absent]
    rfl
  -- links lead to scopes that are there
  unlisted := by
    intro j s live listed
    obtain ⟨child, found, -⟩ := (links j s live).children id listed
    rw [absent] at found
    cases found
  unparented := by
    intro j s live above
    obtain ⟨parent, found, -, -⟩ := (links j s live).parent id above
    rw [absent] at found
    cases found

theorem absent_of_freed (links : t.WellFormed) {count : Nat} (freed : (t.free k).answer = .ok count)
    (below : t.Below k id) : id.index < t.slots.size ∧ (t.free k).after.scope? id = none := by
  cases checked : t.checkFree k with
  | error fault =>
      rw [free_of_error checked] at freed
      cases freed
  | ok parent =>
      obtain ⟨start, live, -, -⟩ := links.checkFree_ok checked
      obtain ⟨lower, found⟩ := links.below_live live below
      refine ⟨index_lt_of_scope? found, ?_⟩
      rw [scope?_free checked, if_pos ((links.mem_subtree_iff live id).mpr below)]

theorem absent_run (absent : t.scope? id = none) (inside : id.index < t.slots.size)
    (ops : List Op) : (t.run ops).scope? id = none := by
  cases found : (t.run ops).scope? id with
  | none => rfl
  | some s =>
      obtain ⟨before, live⟩ := live_before_run ops found inside
      rw [absent] at live
      cases live

end

/-- Creations give out 0, 1, 2 and so on, each once. A number that a freeing took, its own or that
of a scope above it, is gone for the rest of the run. -/
theorem numbers_never_reused (limits : Limits) (ops : List Op) :
    let start : Tree := { limits }
    start.givenOut ops = (List.range (start.givenOut ops).length).map ScopeId.mk ∧
    (start.givenOut ops).Nodup ∧
    ∀ front k back count id, ops = front ++ .free k :: back →
      ((start.run front).free k).answer = .ok count → (start.run front).Below k id →
        (start.run ops).Gone id := by
  intro start
  have links : start.WellFormed := wellFormed_empty limits
  have numbers : start.givenOut ops =
      (List.range (start.givenOut ops).length).map ScopeId.mk := by
    rw [List.range_eq_range']
    exact givenOut_eq start ops
  refine ⟨numbers, ?_, ?_⟩
  · rw [numbers]
    exact List.Nodup.map (fun _ _ same => congrArg ScopeId.index same) List.nodup_range
  · rintro front k back count id rfl freed below
    apply gone_of_absent (links.run _)
    obtain ⟨inside, absent⟩ := absent_of_freed (links.run front) freed below
    have later : id.index < ((start.run front).free k).after.slots.size :=
      Nat.lt_of_lt_of_le inside ((start.run front).frame_step (.free k)).2
    rw [run, runBy_append]
    exact absent_run absent later back

/-- A block with a block in it is freed between creations, of which some are refused. -/
def beforeFreeing : List Op :=
  [.create none true, .create (some ⟨0⟩) false, .create (some ⟨1⟩) false, .create (some ⟨7⟩) true]

def afterFreeing : List Op :=
  [.create (some ⟨2⟩) false, .create (some ⟨0⟩) false, .scope ⟨3⟩ (.emit 1), .finish ⟨2⟩]

theorem numbers_never_reused_nested :
    ∃ start last : Tree, start = {} ∧
      last = start.run (beforeFreeing ++ .free ⟨1⟩ :: afterFreeing) ∧
      start.givenOut (beforeFreeing ++ .free ⟨1⟩ :: afterFreeing) = [⟨0⟩, ⟨1⟩, ⟨2⟩, ⟨3⟩] ∧
      (start.givenOut (beforeFreeing ++ .free ⟨1⟩ :: afterFreeing)).Nodup ∧
      ((start.run beforeFreeing).free ⟨1⟩).answer = .ok 2 ∧
      (start.run beforeFreeing).Below ⟨1⟩ ⟨2⟩ ∧ last.Gone ⟨2⟩ := by
  have listed : (⟨2⟩ : ScopeId) ∈ (({} : Tree).run beforeFreeing).childrenOf ⟨1⟩ := by
    decide +kernel
  have below : (({} : Tree).run beforeFreeing).Below ⟨1⟩ ⟨2⟩ := .single listed
  have released : ((({} : Tree).run beforeFreeing).free ⟨1⟩).answer = .ok 2 := by decide +kernel
  obtain ⟨-, once, gone⟩ := numbers_never_reused {} (beforeFreeing ++ .free ⟨1⟩ :: afterFreeing)
  exact ⟨_, _, rfl, rfl, by decide +kernel, once, released, below,
    gone beforeFreeing ⟨1⟩ afterFreeing 2 ⟨2⟩ rfl released below⟩

end BytecodeScopes.Tree
