import BytecodeScopes.Proofs.Scope.Log
import BytecodeScopes.Proofs.Scope.Run
import BytecodeScopes.Proofs.Tree.Refusal

namespace BytecodeScopes.Tree

def phase? (t : Tree) (id : ScopeId) : Option Phase := (t.scope? id).map (·.phase)

/-- The action brings the scope into a phase it was not in. -/
def Turns (t : Tree) (op : Op) (id : ScopeId) (phase : Phase) : Prop :=
  t.phase? id ≠ some phase ∧ (t.step op).after.phase? id = some phase

def Gains (t : Tree) (op : Op) (id : ScopeId) (label : Label) (target : Nat) : Prop :=
  ∃ s s', t.scope? id = some s ∧ (t.step op).after.scope? id = some s' ∧
    s.labels.Gains s'.labels label target

def pursued (t : Tree) : Op → List Label
  | .scope id action =>
      match t.scope? id with
      | some s => s.pursued action
      | none => []
  | _ => []

structure Trace where
  scope : ScopeId
  label : Label
  target : Nat
  deriving DecidableEq, Repr

def Trace.event (trace : Trace) : Event :=
  .resolved trace.label.id trace.label.position trace.target (trace.target - trace.label.position)

/-- The labels that get their target by the action, each once and in the order it sets out to
resolve them. -/
structure Traced (t : Tree) (op : Op) (traces : List Trace) : Prop where
  ordered : traces.map (·.label) <+: t.pursued op
  once : (traces.map fun trace => (trace.scope, trace.label)).Nodup
  resolved : ∀ trace, trace ∈ traces ↔ t.Gains op trace.scope trace.label trace.target

/-- The one event, if any, that tells what else the action did. -/
structure Ended (t : Tree) (op : Op) (last : Option Event) : Prop where
  other : ∀ event, last = some event → event.level ≠ .trace
  aborted : ∀ id, t.Turns op id .failed ↔ ∃ fault, last = some (.aborted id fault)
  spoiled : ∀ id fault, last = some (.aborted id fault) →
    t.phase? id = some .building ∧ (t.step op).answer = .error fault
  finished : ∀ id codeSize registers, last = some (.finished id codeSize registers) ↔
    ∃ output, t.Turns op id (.finished output) ∧
      codeSize = output.codeSize ∧ registers = output.registers
  created : ∀ id parent top, last = some (.created id parent top) ↔
    op = .create parent top ∧ (t.step op).answer = .ok (.created id)
  freed : ∀ id count, last = some (.freed id count) ↔
    op = .free id ∧ (t.step op).answer = .ok (.freed count)

/-- What the action tells are the labels it resolved and at most one event after them, and both
account for what it changes. -/
structure Accounts (t : Tree) (op : Op) (traces : List Trace) (last : Option Event) : Prop
    extends t.Traced op traces, t.Ended op last where
  told : (t.step op).log = traces.map Trace.event ++ last.toList

section

variable {t : Tree} {op : Op} {id : ScopeId} {s : Scope}

theorem traced_nil (gains : ∀ j label target, ¬ t.Gains op j label target) : t.Traced op [] where
  ordered := List.nil_prefix
  once := List.nodup_nil
  resolved := by simp [gains]

theorem accounts_of_refused {fault : Fault} (refused : t.step op = .refuse t fault) :
    t.Accounts op [] none := by
  have same : (t.step op).after = t := by rw [refused]; rfl
  have answer : (t.step op).answer = .error fault := by rw [refused]; rfl
  have still : ∀ id phase, ¬ t.Turns op id phase := by
    rintro id phase ⟨before, after⟩
    rw [same] at after
    exact before after
  have kept : ∀ id label target, ¬ t.Gains op id label target := by
    rintro id label target ⟨s, s', before, after, gained⟩
    rw [same, before] at after
    cases after
    exact s.labels.not_gains_self label target gained
  have ended : t.Ended op none := by constructor <;> simp [still, answer]
  exact ⟨traced_nil kept, ended, by rw [refused]; rfl⟩

section

variable (acts : ∀ id action, op ≠ .scope id action) (finishes : ∀ id, op ≠ .finish id)

include acts finishes

theorem scope?_step_of_apart {j : ScopeId} {s' : Scope}
    (live : (t.step op).after.scope? j = some s') :
    (t.scope? j = none ∧ s'.phase = .building) ∨
      ∃ s, t.scope? j = some s ∧ s'.phase = s.phase ∧ s'.labels = s.labels := by
  cases origin_step live with
  | created checked last =>
      refine .inl ⟨?_, rfl⟩
      -- a new scope has a number that no scope had
      cases before : t.scope? j with
      | none => rfl
      | some s =>
          have inside := index_lt_of_scope? before
          rw [last] at inside
          exact absurd inside (Nat.lt_irrefl _)
  | @relisted _ s before apart children => exact .inr ⟨s, before, rfl, rfl⟩
  | acted before => exact absurd rfl (acts _ _)
  | finished before checked => exact absurd rfl (finishes _)

theorem not_turns_of_apart (j : ScopeId) (phase : Phase) (closed : phase ≠ .building) :
    ¬ t.Turns op j phase := by
  rintro ⟨before, after⟩
  obtain ⟨s', live, rfl⟩ := Option.map_eq_some_iff.mp after
  rcases scope?_step_of_apart acts finishes live with ⟨-, building⟩ | ⟨s, found, same, -⟩
  · exact closed building
  · rw [phase?, found, Option.map_some, same] at before
    exact before rfl

theorem not_gains_of_apart (j : ScopeId) (label : Label) (target : Nat) :
    ¬ t.Gains op j label target := by
  rintro ⟨s, s', before, after, gained⟩
  rcases scope?_step_of_apart acts finishes after with ⟨absent, -⟩ | ⟨same, found, -, labels⟩
  · rw [before] at absent
    cases absent
  · rw [before] at found
    cases found
    rw [labels] at gained
    exact s.labels.not_gains_self label target gained

theorem accounts_of_apart {event : Event} (told : (t.step op).log = [event])
    (created : ∀ id parent top, event = .created id parent top ↔
      op = .create parent top ∧ (t.step op).answer = .ok (.created id))
    (freed : ∀ id count, event = .freed id count ↔
      op = .free id ∧ (t.step op).answer = .ok (.freed count))
    (level : event.level = .debug) (unfinished : ∀ id codeSize registers,
      event ≠ .finished id codeSize registers) : t.Accounts op [] (some event) := by
  have turns : ∀ j phase, phase ≠ .building → ¬ t.Turns op j phase :=
    not_turns_of_apart acts finishes
  have unspoiled : ∀ id fault, event ≠ .aborted id fault := by
    rintro id fault rfl
    cases level
  have ended : t.Ended op (some event) := by
    constructor <;> simp [turns, created, freed, level, unfinished, unspoiled]
  exact ⟨traced_nil (not_gains_of_apart acts finishes), ended, told⟩

end

theorem accounts_create (t : Tree) (parent : Option ScopeId) (top : Bool) :
    ∃ last, t.Accounts (.create parent top) [] last := by
  cases checked : t.checkCreate parent with
  | error fault =>
      have refused : t.step (.create parent top) = .refuse t fault := by
        rw [step, create_of_error checked]
        rfl
      exact ⟨none, accounts_of_refused refused⟩
  | ok outer =>
      have told : (t.step (.create parent top)).log = [.created ⟨t.slots.size⟩ parent top] := by
        rw [step, create, checked]
        rfl
      have answer : (t.step (.create parent top)).answer = .ok (.created ⟨t.slots.size⟩) := by
        rw [step, create, checked]
        rfl
      refine ⟨_, accounts_of_apart (by simp) (by simp) told ?_ (by simp) rfl (by simp)⟩
      intro id above outermost
      rw [answer]
      constructor
      · rintro ⟨⟩
        exact ⟨rfl, rfl⟩
      · rintro ⟨⟨⟩, ⟨⟩⟩
        rfl

theorem accounts_free (t : Tree) (id : ScopeId) : ∃ last, t.Accounts (.free id) [] last := by
  cases checked : t.checkFree id with
  | error fault =>
      have refused : t.step (.free id) = .refuse t fault := by
        rw [step, free_of_error checked]
        rfl
      exact ⟨none, accounts_of_refused refused⟩
  | ok parent =>
      let gone := (t.subtree id).filter fun j => (t.scope? j).isSome
      have told : (t.step (.free id)).log = [.freed id gone.length] := by
        rw [step, free, checked]
        rfl
      have answer : (t.step (.free id)).answer = .ok (.freed gone.length) := by
        rw [step, free, checked]
        rfl
      refine ⟨_, accounts_of_apart (by simp) (by simp) told (by simp) ?_ rfl (by simp)⟩
      intro freed count
      rw [answer]
      constructor
      · rintro ⟨⟩
        exact ⟨rfl, rfl⟩
      · rintro ⟨⟨⟩, ⟨⟩⟩
        rfl

section

variable {α : Type} {act : Scope → Reply Scope α}
  (acted : (t.step op).after = (t.update id act).after) (live : t.scope? id = some s)

include acted live

theorem turns_update (building : s.phase = .building) (j : ScopeId) {phase : Phase}
    (closed : phase ≠ .building) :
    t.Turns op j phase ↔ j = id ∧ (act s).after.phase = phase := by
  rw [Turns, acted, phase?, phase?, scope?_update]
  by_cases same : j = id
  · subst same
    rw [live, if_pos rfl]
    simp [building, closed.symm]
  · rw [if_neg same]
    simp [same]

theorem gains_update (j : ScopeId) (label : Label) (target : Nat) :
    t.Gains op j label target ↔ j = id ∧ s.labels.Gains (act s).after.labels label target := by
  rw [Gains, acted]
  simp only [scope?_update]
  by_cases same : j = id
  · subst same
    simp [live]
  · simp only [same, false_and, iff_false]
    rintro ⟨first, second, before, after, gained⟩
    rw [before] at after
    cases after
    exact first.labels.not_gains_self label target gained

end

theorem accounts_of_refusing {α : Type} {act : Scope → Reply Scope α} {f : α → Answer}
    {fault : Fault} (live : t.scope? id = some s) (refused : act s = .refuse s fault)
    (own : t.step op = (t.update id act).map f) : t.Accounts op [] none := by
  have same : t.update id act = .refuse t fault := by
    rw [update_of_scope?_some act live, refused]
    exact congrArg (fun after => (⟨.error fault, after, []⟩ : Reply Tree α)) (slots_self live)
  have refuses : t.step op = .refuse t fault := by
    rw [own, same]
    rfl
  exact accounts_of_refused refuses

theorem accounts_finish_of_building (links : t.WellFormed) (live : t.scope? id = some s)
    (building : s.phase = .building) {childCount : Nat}
    (own : t.step (.finish id) = (t.update id (·.finish childCount)).map fun _ => .finished) :
    ∃ last, t.Accounts (.finish id) [] last := by
  have seated : s.id = id := (links id s live).seated
  have acted : (t.step (.finish id)).after = (t.update id (·.finish childCount)).after := by
    rw [own, Reply.after_map]
  have turns := turns_update acted live building
  have gains : ∀ j label target, ¬ t.Gains (.finish id) j label target := by
    intro j label target
    have labels : (s.finish childCount).after.labels = s.labels :=
      Scope.after_finish (P := (·.labels = s.labels)) childCount rfl rfl fun _ _ => rfl
    rw [gains_update acted live, labels]
    exact fun gained => s.labels.not_gains_self label target gained.2
  rw [update_of_scope?_some (·.finish childCount) live] at own
  cases closed : s.checkFinish with
  | error fault =>
      rw [Scope.finish_of_unclosed building closed] at turns own
      have told : (t.step (.finish id)).log = [.aborted id fault] := by rw [own, seated]; rfl
      have answer : (t.step (.finish id)).answer = .error fault := by rw [own]; rfl
      have before : t.phase? id = some .building := by rw [phase?, live, Option.map_some, building]
      refine ⟨some (.aborted id fault), traced_nil gains, ?_, told⟩
      constructor
      case spoiled =>
        rintro _ _ ⟨⟩
        exact ⟨before, answer⟩
      all_goals simp [turns, Event.level, eq_comm]
  | ok done =>
      rw [Scope.finish_of_closed building closed] at turns own
      let output := s.outputWith childCount
      have told : (t.step (.finish id)).log = [.finished id output.codeSize output.registers] := by
        rw [own, seated]
        rfl
      refine ⟨some (.finished id output.codeSize output.registers), traced_nil gains, ?_, told⟩
      constructor
      case finished =>
        intro j codeSize registers
        constructor
        · rintro ⟨⟩
          exact ⟨output, (turns id (by simp)).mpr ⟨rfl, rfl⟩, rfl, rfl⟩
        · rintro ⟨given, turned, rfl, rfl⟩
          obtain ⟨rfl, ⟨⟩⟩ := (turns j (by simp)).mp turned
          rfl
      all_goals simp [turns, Event.level]

theorem accounts_finish (links : t.WellFormed) (id : ScopeId) :
    ∃ last, t.Accounts (.finish id) [] last := by
  cases checked : t.checkFinish id with
  | error fault =>
      have refused : t.step (.finish id) = .refuse t fault := by
        rw [step, finish, checked]
        rfl
      exact ⟨none, accounts_of_refused refused⟩
  | ok childCount =>
      have own : t.step (.finish id) =
          (t.update id (·.finish childCount)).map fun _ => .finished := by
        rw [step, finish, checked]
      obtain ⟨s, live, -⟩ := checkFinish_ok checked
      cases phase : s.phase with
      | building => exact accounts_finish_of_building links live phase own
      | finished output =>
          exact ⟨none, accounts_of_refusing live (Scope.whileBuilding_of_finished phase _) own⟩
      | failed =>
          exact ⟨none, accounts_of_refusing live (Scope.whileBuilding_of_failed phase _) own⟩

theorem traced_act (live : t.scope? id = some s) {action : Scope.Op} {done : List Label}
    {target : Nat} (reports : s.Reports action done target) :
    t.Traced (.scope id action) (done.map fun label => ⟨id, label, target⟩) := by
  have acted : (t.step (.scope id action)).after = (t.update id (·.step action)).after := rfl
  constructor
  case ordered =>
    rw [List.map_map, pursued, live]
    exact (List.map_id done).symm ▸ reports.ordered
  case once =>
    rw [List.map_map]
    refine List.Nodup.map ?_ reports.once
    intro first second same
    exact (Prod.mk.inj same).2
  case resolved =>
    rintro ⟨scope, label, reached⟩
    rw [gains_update acted live, reports.gained]
    simp only [List.mem_map, Trace.mk.injEq]
    constructor
    · rintro ⟨_, member, rfl, rfl, rfl⟩
      exact ⟨rfl, member, rfl⟩
    · rintro ⟨rfl, member, rfl⟩
      exact ⟨label, member, rfl, rfl, rfl⟩

theorem ended_act (links : t.WellFormed) (live : t.scope? id = some s)
    (building : s.phase = .building) (action : Scope.Op) :
    t.Ended (.scope id action) (s.abortLog (s.step action).answer).head? := by
  have seated : s.id = id := (links id s live).seated
  have acted : (t.step (.scope id action)).after = (t.update id (·.step action)).after := rfl
  have turns := turns_update acted live building
  constructor
  case other =>
    intro event found
    obtain ⟨fault, -, -, rfl⟩ := Scope.head?_abortLog_eq_some_iff.mp found
    simp [Event.level]
  case aborted =>
    intro j
    rw [turns j (by simp), Scope.phase_step_failed_iff building]
    simp only [Scope.head?_abortLog_eq_some_iff, seated]
    constructor
    · rintro ⟨rfl, fault, answer, fatal⟩
      exact ⟨fault, fault, answer, fatal, rfl⟩
    · rintro ⟨fault, _, answer, fatal, ⟨⟩⟩
      exact ⟨rfl, fault, answer, fatal⟩
  case spoiled =>
    intro j reason found
    obtain ⟨fault, answer, -, same⟩ := Scope.head?_abortLog_eq_some_iff.mp found
    rw [seated] at same
    cases same
    rw [phase?, live, step, update_of_scope?_some _ live, Reply.map]
    exact ⟨congrArg some building, congrArg (Except.map _) answer⟩
  case finished =>
    intro j codeSize registers
    -- no action but finishing hands the code on
    have unfinished : ∀ output, (s.step action).after.phase ≠ .finished output := by
      intro output finished
      have none := Scope.output?_step s action
      rw [Scope.output?_of_building building, Scope.output?, finished] at none
      cases none
    simp [Scope.head?_abortLog_eq_some_iff, turns, unfinished]
  case created => simp [Scope.head?_abortLog_eq_some_iff]
  case freed => simp [Scope.head?_abortLog_eq_some_iff]

theorem accounts_act_of_building (links : t.WellFormed) (live : t.scope? id = some s)
    (building : s.phase = .building) (action : Scope.Op) :
    ∃ traces last, t.Accounts (.scope id action) traces last := by
  obtain ⟨done, target, reports⟩ := Scope.reports_step building action
  refine ⟨_, _, traced_act live reports, ended_act links live building action, ?_⟩
  rw [step, update_of_scope?_some _ live, Scope.abortLog_toList, List.map_map]
  exact reports.told

theorem accounts_act (links : t.WellFormed) (id : ScopeId) (action : Scope.Op) :
    ∃ traces last, t.Accounts (.scope id action) traces last := by
  cases live : t.scope? id with
  | none =>
      have refused : t.step (.scope id action) = .refuse t (.unknownScope id) := by
        rw [step, update_of_scope?_none _ live]
        rfl
      exact ⟨[], none, accounts_of_refused refused⟩
  | some s =>
      cases phase : s.phase with
      | building => exact accounts_act_of_building links live phase action
      | finished output =>
          exact ⟨[], none, accounts_of_refusing live (Scope.step_of_finished phase action) rfl⟩
      | failed =>
          exact ⟨[], none, accounts_of_refusing live (Scope.step_of_failed phase action) rfl⟩

end

/-- In every run what an action tells accounts for what it changes, in these lines. -/
theorem log_accounts_for_changes :
    (∀ (limits : Limits) (ops : List Op) (op : Op),
      ∃ traces last, (({ limits } : Tree).run ops).Accounts op traces last) ∧
    (∀ id fault, (Event.aborted id fault).line =
      "WARN " ++ s!"{id.text} aborted: {fault.message}") ∧
    (∀ id codeSize registers, (Event.finished id codeSize registers).line =
      "DEBUG " ++ s!"finished {id.text} (ilen: {codeSize}, nregs: {registers})") ∧
    (∀ id parent top, (Event.created id parent top).line =
      "DEBUG " ++ s!"created {id.text} (parent: {Event.parentText parent}, lvar_top: {top})") ∧
    (∀ id count, (Event.freed id count).line =
      "DEBUG " ++ s!"freed {id.text} ({count} scopes)") ∧
    ∀ id position target distance, (Event.resolved id position target distance).line =
      "TRACE " ++ s!"resolved {id.text} at {position} -> {target} ({Event.signed distance})" := by
  refine ⟨?_, ?_⟩
  · intro limits ops op
    have links := (wellFormed_empty limits).run ops
    cases op with
    | create parent top => exact ⟨[], accounts_create _ parent top⟩
    | finish id => exact ⟨[], accounts_finish links id⟩
    | free id => exact ⟨[], accounts_free _ id⟩
    | scope id action => exact accounts_act links id action
  · refine ⟨?_, ?_, ?_, ?_, ?_⟩
    · intro id fault
      rfl
    · intro id codeSize registers
      rfl
    · intro id parent top
      rfl
    · intro id count
      rfl
    · intro id position target distance
      rfl

/-- A loop with two exits through the same label, and one byte after the jump. -/
def beforeClosing : List Op :=
  .create none true :: [Scope.Op.openLoop, .reserve, .addExit ⟨⟨0⟩, 0, 2⟩, .addExit ⟨⟨0⟩, 0, 2⟩,
    .emit 7].map (.scope ⟨0⟩)

/-- Closing the loop resolves the label and then finds it resolved. -/
example :
    ((({} : Tree).run beforeClosing).step (.scope ⟨0⟩ .closeLoop)).log.map Event.line =
      ["TRACE resolved L0 at 2 -> 3 (+1)",
        "WARN scope_0 aborted: jump label #0 already resolved"] := by
  decide +kernel

end BytecodeScopes.Tree
