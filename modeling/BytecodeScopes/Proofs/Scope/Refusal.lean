import BytecodeScopes.Proofs.Scope.Outcome

/-!
What a refused action leaves behind. Actions check before they change anything, so a fault stops the
scope as it is, or leaves it if it is not fatal. Closing a loop is the one exception: it takes the
frame first, and then resolves exits one by one up to the first that cannot be.
-/

namespace BytecodeScopes

/-- Labels resolved to one target one after another, from the labels and code there were to those
that are left. -/
inductive Labels.Resolves (limits : Limits) (target : Nat) :
    List Label → Labels × Code → Labels × Code → Prop where
  | none (state : Labels × Code) : Resolves limits target [] state state
  | next {ls : Labels} {code : Code} {label : Label} {labels : List Label} {last : Labels × Code}
      (accepted : (ls.resolve code limits label target).answer = .ok ())
      (rest : Resolves limits target labels (ls.resolve code limits label target).after last) :
      Resolves limits target (label :: labels) (ls, code) last

theorem Fault.fatal_iff (fault : Fault) :
    fault.fatal = true ↔ ∀ name, fault ≠ .duplicateLocal name := by
  cases fault <;> simp [Fault.fatal]

namespace Reply

variable {σ α β : Type} {reply : Reply σ α} {f : α → β}

theorem map_eq_error_iff {fault : Fault} :
    (reply.map f).answer = .error fault ↔ reply.answer = .error fault := by
  cases answer : reply.answer <;> simp [Reply.map, answer, Except.map]

theorem map_eq_ok_iff {b : β} :
    (reply.map f).answer = .ok b ↔ ∃ a, reply.answer = .ok a ∧ f a = b := by
  cases answer : reply.answer <;> simp [Reply.map, answer, Except.map]

end Reply

namespace Scope

variable {α β : Type} {s : Scope}

def stopped (s : Scope) (fault : Fault) : Scope :=
  if fault.fatal then { s with phase := .failed } else s

theorem abort_after (s : Scope) (fault : Fault) :
    (s.abort (α := α) fault).after = s.stopped fault := by
  unfold abort stopped
  split <;> rfl

/-- A refused action only stops the scope, and an accepted one lets it be built further. -/
structure Clean (s : Scope) (reply : Reply Scope α) : Prop where
  refused : ∀ fault, reply.answer = .error fault → reply.after = s.stopped fault
  accepted : ∀ answer, reply.answer = .ok answer → reply.after.phase = .building

theorem Clean.map {reply : Reply Scope α} (clean : s.Clean reply) (f : α → β) :
    s.Clean (reply.map f) where
  refused := fun fault refused => clean.refused fault (Reply.map_eq_error_iff.mp refused)
  accepted := by
    intro b accepted
    obtain ⟨a, answer, -⟩ := Reply.map_eq_ok_iff.mp accepted
    exact clean.accepted a answer

theorem clean_abort (s : Scope) (fault : Fault) : s.Clean (s.abort (α := α) fault) where
  refused := by
    intro found refused
    rw [answer_abort] at refused
    cases refused
    exact abort_after s fault
  accepted := by
    intro answer accepted
    rw [answer_abort] at accepted
    cases accepted

theorem clean_accept {after : Scope} (building : after.phase = .building) (a : α) :
    s.Clean (.accept after a) where
  refused := nofun
  accepted := fun _ _ => building

theorem clean_change (building : s.phase = .building) {commit : Scope → α × Scope}
    (kept : (commit s).2.phase = .building) : s.Clean (s.change commit) := by
  rw [change_of_building building]
  exact clean_accept kept _

theorem clean_attempt (building : s.phase = .building) {check : Scope → Except Fault β}
    {commit : Scope → β → α × Scope} (kept : ∀ plan, (commit s plan).2.phase = .building) :
    s.Clean (s.attempt check commit) := by
  cases checked : check s with
  | ok plan =>
      rw [attempt_of_ok building checked]
      exact clean_accept (kept plan) _
  | error fault =>
      rw [attempt_of_error building checked]
      exact clean_abort s fault

theorem clean_closeRetry (building : s.phase = .building) : s.Clean s.closeRetry := by
  rw [closeRetry, whileBuilding_of_building building]
  cases frames : s.frames.retries with
  | nil =>
      simp only [Frames.closeRetry, frames]
      exact clean_abort s _
  | cons position outer =>
      simp only [Frames.closeRetry, frames]
      have kept : { s with frames := { s.frames with retries := outer } }.phase = .building :=
        building
      exact clean_accept kept position

theorem clean_resolve (building : s.phase = .building) (label : Label) (target : Nat) :
    s.Clean (s.resolve label target) := by
  rw [resolve, whileBuilding_of_building building]
  cases checked : s.checkResolve label target with
  | error fault =>
      rw [resolveAll_cons_error checked]
      exact clean_abort s fault
  | ok distance =>
      obtain ⟨answer, after⟩ := resolveAll_cons_ok checked []
      constructor
      · intro fault refused
        rw [answer] at refused
        cases refused
      · intro done accepted
        rw [after]
        exact building

theorem clean_step (building : s.phase = .building) {op : Op} (other : op ≠ .closeLoop) :
    s.Clean (s.step op) := by
  cases op with
  | push | pop | popMany | setHeight | declare | addLiteral | addSymbol | addSetter | queue |
    addExit | closeRegion | addHandler | setSignature =>
      exact (clean_attempt building fun _ => building).map _
  | emit | emitAll | emitOperand | popSetter | pushText | popText | reserve | dequeue | openLoop |
    openRetry | openRegion | markLoop | unmarkLoop | beginList | restoreList | element | splat |
    finishList => exact (clean_change building building).map _
  | resolve label target => exact (clean_resolve building label target).map _
  | closeRetry => exact (clean_closeRetry building).map _
  | closeLoop => exact absurd rfl other

theorem resolve_of_ok {label : Label} {target : Nat} {distance : Int}
    (checked : s.checkResolve label target = .ok distance) :
    (s.labels.resolve s.code s.limits label target).answer = .ok () ∧
      (s.labels.resolve s.code s.limits label target).after =
        ((s.settle label target distance).labels, (s.settle label target distance).code) := by
  have plan : s.labels.checkResolve s.code s.limits label target = .ok distance := checked
  rw [Labels.resolve, plan]
  exact ⟨rfl, rfl⟩

theorem resolve_of_error {label : Label} {target : Nat} {fault : Fault}
    (checked : s.checkResolve label target = .error fault) :
    (s.labels.resolve s.code s.limits label target).answer = .error fault := by
  have plan : s.labels.checkResolve s.code s.limits label target = .error fault := checked
  rw [Labels.resolve, plan]
  rfl

theorem checkResolve_fatal {label : Label} {target : Nat} {fault : Fault}
    (checked : s.checkResolve label target = .error fault) : fault.fatal = true := by
  unfold checkResolve Labels.checkResolve Code.checkPatch at checked
  split at checked
  · cases checked
    rfl
  · dsimp only at checked
    split at checked
    · cases checked
      rfl
    · split at checked
      · split at checked
        · cases checked
        · cases checked
          rfl
      · cases checked
        rfl

theorem resolveAll_ok {P : Scope → Prop} {target : Nat} {labels : List Label}
    (settled : ∀ s label distance, P s → P (s.settle label target distance)) (start : P s)
    (accepted : (resolveAll target labels s).answer = .ok ()) :
    P (resolveAll target labels s).after := by
  induction labels generalizing s with
  | nil => exact start
  | cons label labels ih =>
      cases checked : s.checkResolve label target with
      | error fault =>
          rw [resolveAll_cons_error checked, answer_abort] at accepted
          cases accepted
      | ok distance =>
          obtain ⟨answer, after⟩ := resolveAll_cons_ok checked labels
          rw [answer] at accepted
          rw [after]
          exact ih (settled s label distance start) accepted

theorem resolveAll_ok_phase {target : Nat} {labels : List Label}
    (accepted : (resolveAll target labels s).answer = .ok ()) :
    (resolveAll target labels s).after.phase = s.phase :=
  resolveAll_ok (P := (·.phase = s.phase)) (fun _ _ _ kept => kept) rfl accepted

theorem resolveAll_error {target : Nat} {labels : List Label} {fault : Fault}
    (refused : (resolveAll target labels s).answer = .error fault) :
    fault.fatal = true ∧ ∃ resolved stuck rest ls code, labels = resolved ++ stuck :: rest ∧
      Labels.Resolves s.limits target resolved (s.labels, s.code) (ls, code) ∧
      (ls.resolve code s.limits stuck target).answer = .error fault ∧
      (resolveAll target labels s).after = { s with labels := ls, code, phase := .failed } := by
  induction labels generalizing s with
  | nil => cases refused
  | cons label labels ih =>
      cases checked : s.checkResolve label target with
      | error early =>
          rw [resolveAll_cons_error checked, answer_abort] at refused
          cases refused
          have fatal := checkResolve_fatal checked
          refine ⟨fatal, [], label, labels, s.labels, s.code, rfl, .none _,
            resolve_of_error checked, ?_⟩
          rw [resolveAll_cons_error checked, abort_after, stopped, if_pos fatal]
      | ok distance =>
          obtain ⟨answer, after⟩ := resolveAll_cons_ok checked labels
          rw [answer] at refused
          obtain ⟨fatal, resolved, stuck, rest, ls, code, rfl, front, failed, left⟩ := ih refused
          obtain ⟨accepted, next⟩ := resolve_of_ok checked
          refine ⟨fatal, label :: resolved, stuck, rest, ls, code, rfl, .next accepted ?_, failed,
            ?_⟩
          · rw [next]
            exact front
          · rw [after, left]
            rfl

/-- The innermost loop is gone, and its exits are resolved up to one that cannot be. -/
def HalfClosed (s : Scope) (fault : Fault) (after : Scope) : Prop :=
  ∃ frame outer resolved stuck rest labels code,
    s.frames.loops = frame :: outer ∧ frame.exits.toList = resolved ++ stuck :: rest ∧
    Labels.Resolves s.limits s.position resolved (s.labels, s.code) (labels, code) ∧
    (labels.resolve code s.limits stuck s.position).answer = .error fault ∧
    after = { s with
      frames := { s.frames with loops := outer }, labels, code, phase := .failed }

theorem closeLoop_error {fault : Fault} (building : s.phase = .building)
    (refused : s.closeLoop.answer = .error fault) :
    fault.fatal = true ∧
      (s.closeLoop.after = { s with phase := .failed } ∨
        s.HalfClosed fault s.closeLoop.after) := by
  cases frames : s.frames.loops with
  | nil =>
      rw [closeLoop_of_nil building frames] at refused ⊢
      rw [answer_abort] at refused
      cases refused
      exact ⟨rfl, .inl (abort_after s _)⟩
  | cons frame outer =>
      rw [closeLoop_of_cons building frames] at refused ⊢
      have failed := Reply.map_eq_error_iff.mp refused
      obtain ⟨fatal, resolved, stuck, rest, ls, code, exits, front, stop, left⟩ :=
        resolveAll_error failed
      exact ⟨fatal, .inr ⟨frame, outer, resolved, stuck, rest, ls, code, frames, exits, front, stop,
        left⟩⟩

theorem closeLoop_ok_phase {frame : LoopFrame} (building : s.phase = .building)
    (accepted : s.closeLoop.answer = .ok frame) : s.closeLoop.after.phase = .building := by
  cases frames : s.frames.loops with
  | nil =>
      rw [closeLoop_of_nil building frames, answer_abort] at accepted
      cases accepted
  | cons frame outer =>
      rw [closeLoop_of_cons building frames] at accepted ⊢
      obtain ⟨done, resolved, -⟩ := Reply.map_eq_ok_iff.mp accepted
      exact (resolveAll_ok_phase resolved).trans building

theorem checkFinish_fatal {fault : Fault} (checked : s.checkFinish = .error fault) :
    fault.fatal = true := by
  rw [Fault.fatal_iff]
  rintro name rfl
  simp only [checkFinish, Frames.checkClosed, checkCount, bind, Except.bind, throw, throwThe,
    MonadExceptOf.throw] at checked
  grind

theorem finish_error {childCount : Nat} {fault : Fault} (building : s.phase = .building)
    (refused : (s.finish childCount).answer = .error fault) :
    s.checkFinish = .error fault ∧ fault.fatal = true ∧
      (s.finish childCount).after = { s with phase := .failed } := by
  rw [finish, whileBuilding_of_building building] at refused ⊢
  cases checked : s.checkFinish with
  | ok done =>
      rw [checked] at refused
      cases refused
  | error early =>
      rw [checked] at refused
      dsimp only at refused
      rw [answer_abort] at refused
      cases refused
      have fatal := checkFinish_fatal checked
      refine ⟨rfl, fatal, ?_⟩
      dsimp only
      rw [abort_after, stopped, if_pos fatal]

theorem move_error {m : Move} {fault : Fault} (building : s.phase = .building)
    (refused : (s.move m).answer = .error fault) :
    (s.move m).after = s.stopped fault ∨
      fault.fatal = true ∧ m = .act .closeLoop ∧ s.HalfClosed fault (s.move m).after := by
  cases m with
  | finish childCount =>
      obtain ⟨-, fatal, failed⟩ := finish_error building (Reply.map_eq_error_iff.mp refused)
      refine .inl (failed.trans ?_)
      rw [stopped, if_pos fatal]
  | act op =>
      by_cases closing : op = .closeLoop
      · subst closing
        obtain ⟨fatal, kept | half⟩ := closeLoop_error building (Reply.map_eq_error_iff.mp refused)
        · refine .inl (kept.trans ?_)
          rw [stopped, if_pos fatal]
        · exact .inr ⟨fatal, rfl, half⟩
      · exact .inl ((clean_step building closing).refused fault refused)

theorem step_ok_phase {op : Op} {answer : Answer} (building : s.phase = .building)
    (accepted : (s.step op).answer = .ok answer) : (s.step op).after.phase = .building := by
  by_cases closing : op = .closeLoop
  · subst closing
    obtain ⟨frame, closed, -⟩ := Reply.map_eq_ok_iff.mp accepted
    exact closeLoop_ok_phase building closed
  · exact (clean_step building closing).accepted answer accepted

theorem move_of_finished {output : Output} (closed : s.phase = .finished output) (m : Move) :
    s.move m = .refuse s (.scopeFinished s.id) := by
  cases m with
  | act op => exact step_of_finished closed op
  | finish childCount => exact congrArg (Reply.map _) (finish_of_finished closed childCount)

theorem move_of_failed (closed : s.phase = .failed) (m : Move) :
    s.move m = .refuse s (.scopeFailed s.id) := by
  cases m with
  | act op => exact step_of_failed closed op
  | finish childCount => exact congrArg (Reply.map _) (whileBuilding_of_failed closed _)

end Scope

end BytecodeScopes
