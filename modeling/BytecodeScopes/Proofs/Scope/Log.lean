import BytecodeScopes.Proofs.Label.Resolving

namespace BytecodeScopes

namespace Labels

variable {before after : Labels}

/-- The label was given out here, had no target before and has one after. -/
def Gains (before after : Labels) (label : Label) (target : Nat) : Prop :=
  before.jump? label = some ⟨label, none⟩ ∧ after.jump? label = some ⟨label, some target⟩

theorem not_gains_of_kept
    (kept : ∀ label jump, before.jump? label = some jump → after.jump? label = some jump)
    (label : Label) (target : Nat) : ¬ before.Gains after label target := by
  rintro ⟨free, targeted⟩
  rw [kept label _ free] at targeted
  cases targeted

theorem not_gains_self (ls : Labels) (label : Label) (target : Nat) :
    ¬ ls.Gains ls label target := not_gains_of_kept (fun _ _ found => found) label target

theorem Resolves.gains_iff {limits : Limits} {target : Nat} {labels : List Label}
    {first last : Labels × Code} (resolves : Resolves limits target labels first last)
    (label : Label) (reached : Nat) :
    first.1.Gains last.1 label reached ↔ label ∈ labels ∧ reached = target := by
  constructor
  · rintro ⟨free, targeted⟩
    rw [resolves.jump?] at targeted
    split at targeted
    · rename_i member
      cases targeted
      exact ⟨member, rfl⟩
    · rw [free] at targeted
      cases targeted
  · rintro ⟨member, rfl⟩
    refine ⟨resolves.untargeted label member, ?_⟩
    rw [resolves.jump?, if_pos member]

end Labels

namespace Scope

variable {α β : Type} {s : Scope} {op : Op}

def Op.resolves : Op → Bool
  | .resolve _ _ | .closeLoop => true
  | _ => false

/-- The reply tells the fault it answers if that is fatal, and nothing else. -/
def Candid (s : Scope) (reply : Reply Scope α) : Prop := reply.log = s.abortLog reply.answer

theorem abortLog_map (s : Scope) (f : α → β) (answer : Except Fault α) :
    s.abortLog (answer.map f) = s.abortLog answer := by
  cases answer <;> rfl

theorem Candid.map {reply : Reply Scope α} (candid : s.Candid reply) (f : α → β) :
    s.Candid (reply.map f) := candid.trans (s.abortLog_map f reply.answer).symm

theorem candid_change (building : s.phase = .building) (commit : Scope → α × Scope) :
    s.Candid (s.change commit) := by
  rw [change_of_building building]
  rfl

theorem candid_attempt (building : s.phase = .building) (check : Scope → Except Fault β)
    (commit : Scope → β → α × Scope) : s.Candid (s.attempt check commit) := by
  cases checked : check s with
  | ok plan =>
      rw [attempt_of_ok building checked]
      rfl
  | error fault =>
      rw [attempt_of_error building checked]
      exact log_abort s fault

theorem candid_closeRetry (building : s.phase = .building) : s.Candid s.closeRetry := by
  rw [closeRetry, whileBuilding_of_building building]
  cases frames : s.frames.retries with
  | nil =>
      simp only [Frames.closeRetry, frames]
      exact log_abort s _
  | cons position outer =>
      simp only [Frames.closeRetry, frames]
      rfl

theorem candid_step (building : s.phase = .building) (quiet : op.resolves = false) :
    s.Candid (s.step op) := by
  cases op with
  | push | pop | popMany | setHeight | declare | addLiteral | addSymbol | addSetter | queue |
    addExit | closeRegion | addHandler | setSignature =>
      exact (candid_attempt building _ _).map _
  | emit | emitAll | emitOperand | popSetter | pushText | popText | reserve | dequeue | openLoop |
    openRetry | openRegion | markLoop | unmarkLoop | beginList | restoreList | element | splat |
    finishList => exact (candid_change building _).map _
  | closeRetry => exact (candid_closeRetry building).map _
  | resolve | closeLoop => cases quiet

theorem jump?_step_of_quiet (quiet : op.resolves = false) {label : Label} {jump : Jump}
    (found : s.labels.jump? label = some jump) :
    (s.step op).after.labels.jump? label = some jump := by
  let Kept (after : Scope) : Prop := after.labels.jump? label = some jump
  by_cases touched : .body ∈ op.touches
  · cases op with
    | emit | emitAll | emitOperand => exact after_change (P := Kept) found fun _ => found
    | reserve => exact after_change (P := Kept) found fun _ => Labels.jump?_reserve found s.code
    | dequeue =>
        exact after_change (P := Kept) found fun _ => (s.labels.jump?_dequeue label).trans found
    | queue => exact after_attempt (P := Kept) found (fun _ => found) fun _ _ _ => found
    | resolve | closeLoop => cases quiet
    | _ => simp [Op.touches] at touched
  · rw [(body_step touched).2]
    exact found

/-- The labels that an action sets out to resolve, in order. -/
def pursued (s : Scope) : Op → List Label
  | .resolve label _ => [label]
  | .closeLoop =>
      match s.frames.loop? with
      | some frame => frame.exits.toList
      | none => []
  | _ => []

/-- An action tells of the labels that got their target by it, each once and in order, and then of
the fault that stopped the scope. -/
structure Reports (s : Scope) (op : Op) (done : List Label) (target : Nat) : Prop where
  told : (s.step op).log = Labels.resolvedLog target done ++ s.abortLog (s.step op).answer
  ordered : done <+: s.pursued op
  once : done.Nodup
  gained : ∀ label reached,
    s.labels.Gains (s.step op).after.labels label reached ↔ label ∈ done ∧ reached = target

theorem reports_of_quiet (building : s.phase = .building) (quiet : op.resolves = false) :
    s.Reports op [] 0 where
  told := candid_step building quiet
  ordered := List.nil_prefix
  once := List.nodup_nil
  gained := by
    intro label reached
    have none := Labels.not_gains_of_kept (fun _ _ found => s.jump?_step_of_quiet quiet found)
      label reached
    simp [none]

theorem step_resolves (building : s.phase = .building) (resolving : op.resolves = true) :
    ∃ done target, done <+: s.pursued op ∧
      Labels.Resolves s.limits target done (s.labels, s.code)
        ((s.step op).after.labels, (s.step op).after.code) ∧
      (s.step op).log = Labels.resolvedLog target done ++ s.abortLog (s.step op).answer := by
  cases op with
  | resolve label target =>
      have reply : s.step (.resolve label target) =
          (resolveAll target [label] s).map fun _ => .done := by
        rw [step, resolve, whileBuilding_of_building building]
      obtain ⟨done, rest, split, resolves, -, told⟩ := resolveAll_resolves target [label] s
      rw [reply]
      refine ⟨done, target, ⟨rest, split.symm⟩, resolves, ?_⟩
      exact told.trans (congrArg _ (s.abortLog_map _ _).symm)
  | closeLoop =>
      cases frames : s.frames.loops with
      | nil =>
          have reply : s.step .closeLoop = (s.abort (.noOpenFrame .loops)).map .loop := by
            rw [step, closeLoop_of_nil building frames]
          rw [reply, Reply.after_map]
          refine ⟨[], s.position, List.nil_prefix, ?_, ?_⟩
          · exact after_abort (P := fun after => Labels.Resolves s.limits s.position []
              (s.labels, s.code) (after.labels, after.code)) _ (.none _) (.none _)
          · exact Candid.map (log_abort s (.noOpenFrame .loops)) Answer.loop
      | cons frame outer =>
          let inner : Scope := { s with frames := { s.frames with loops := outer } }
          have reply : s.step .closeLoop = ((resolveAll s.position frame.exits.toList inner).map
              fun _ => { frame with next := some s.position }).map .loop := by
            rw [step, closeLoop_of_cons building frames]
          have exits : s.pursued .closeLoop = frame.exits.toList := by
            simp only [pursued, Frames.loop?, frames, List.head?_cons]
          obtain ⟨done, rest, split, resolves, -, told⟩ :=
            resolveAll_resolves s.position frame.exits.toList inner
          rw [reply, exits]
          refine ⟨done, s.position, ⟨rest, split.symm⟩, resolves, told.trans (congrArg _ ?_)⟩
          exact ((s.abortLog_map _ _).trans (s.abortLog_map _ _)).symm
  | _ => cases resolving

theorem reports_step (building : s.phase = .building) (op : Op) :
    ∃ done target, s.Reports op done target := by
  cases resolving : op.resolves with
  | false => exact ⟨[], 0, reports_of_quiet building resolving⟩
  | true =>
      obtain ⟨done, target, ordered, resolves, told⟩ := step_resolves building resolving
      exact ⟨done, target, told, ordered, resolves.nodup, resolves.gains_iff⟩

theorem phase_step_error {fault : Fault} (building : s.phase = .building)
    (refused : (s.step op).answer = .error fault) :
    (s.step op).after.phase = if fault.fatal then .failed else .building := by
  have moved : (s.move (.act op)).answer = .error fault := refused
  rcases move_error building moved with stopped | ⟨fatal, -, half⟩
  · change (s.step op).after = s.stopped fault at stopped
    rw [stopped, Scope.stopped]
    split
    · rfl
    · exact building
  · obtain ⟨_, _, _, _, _, _, _, -, -, -, -, left⟩ := half
    change (s.step op).after = _ at left
    rw [left, if_pos fatal]

theorem phase_step_failed_iff (building : s.phase = .building) (op : Op) :
    (s.step op).after.phase = .failed ↔
      ∃ fault, (s.step op).answer = .error fault ∧ fault.fatal = true := by
  cases answer : (s.step op).answer with
  | ok a =>
      have still := step_ok_phase building answer
      simp [still]
  | error fault =>
      have phase := phase_step_error building answer
      cases fatal : fault.fatal with
      | true => simp [phase, fatal]
      | false => simp [phase, fatal]

theorem finish_of_closed (building : s.phase = .building) (checked : s.checkFinish = .ok ())
    (childCount : Nat) :
    s.finish childCount =
      { answer := .ok ()
        after := { s with code := {}, phase := .finished (s.outputWith childCount) }
        log := [.finished s.id (s.outputWith childCount).codeSize
          (s.outputWith childCount).registers] } := by
  rw [finish, whileBuilding_of_building building, checked]

theorem finish_of_unclosed {fault : Fault} (building : s.phase = .building)
    (checked : s.checkFinish = .error fault) (childCount : Nat) :
    s.finish childCount =
      { answer := .error fault
        after := { s with phase := .failed }
        log := [.aborted s.id fault] } := by
  rw [finish, whileBuilding_of_building building, checked]
  exact if_pos (checkFinish_fatal checked)

theorem abortLog_toList (s : Scope) (answer : Except Fault α) :
    (s.abortLog answer).head?.toList = s.abortLog answer := by
  cases answer with
  | ok a => rfl
  | error fault =>
      rw [abortLog]
      split <;> rfl

theorem head?_abortLog_eq_some_iff {answer : Except Fault α} {event : Event} :
    (s.abortLog answer).head? = some event ↔
      ∃ fault, answer = .error fault ∧ fault.fatal = true ∧ event = .aborted s.id fault := by
  cases answer with
  | ok a => simp [abortLog]
  | error fault =>
      cases fatal : fault.fatal with
      | false => simp [abortLog, fatal]
      | true =>
          rw [abortLog, if_pos fatal]
          constructor
          · rintro ⟨⟩
            exact ⟨fault, rfl, fatal, rfl⟩
          · rintro ⟨_, ⟨⟩, -, rfl⟩
            rfl

end Scope

end BytecodeScopes
