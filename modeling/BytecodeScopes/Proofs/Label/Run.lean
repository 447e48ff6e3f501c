import BytecodeScopes.Proofs.Scope.Outcome

/-!
Labels by themselves: which jump a label has, what settling it changes, and runs of the four things
that are done with labels. Each of them names the code it is done in, which may be another every
time. Whatever is done to a scope, its labels go through such a run.
-/

namespace BytecodeScopes

namespace Labels

variable {ls : Labels} {label : Label}

theorem jump?_eq_some_iff {jump : Jump} :
    ls.jump? label = some jump ↔
      ls.jumps[label.id.index]? = some jump ∧ jump.label = label := by
  simp [jump?, Option.filter_eq_some_iff]

theorem target?_of_jump? {jump : Jump} (found : ls.jump? label = some jump) :
    ls.target? label = jump.target := by
  rw [target?, (jump?_eq_some_iff.mp found).1]
  rfl

theorem dequeue_eq (ls : Labels) : ∃ pending, ls.dequeue.2 = { ls with pending } := by
  unfold dequeue
  split
  · exact ⟨ls.pending, rfl⟩
  · exact ⟨ls.pending.extract 1, rfl⟩

theorem jumps_dequeue (ls : Labels) : ls.dequeue.2.jumps = ls.jumps := by
  obtain ⟨pending, taken⟩ := ls.dequeue_eq
  rw [taken]

theorem labels_settle (ls : Labels) (label : Label) (target : Nat) :
    (ls.settle label target).jumps.map (·.label) = ls.jumps.map (·.label) := by
  apply Array.ext_getElem?
  intro i
  simp only [settle, Array.getElem?_map, Array.getElem?_modify]
  split
  · rw [Option.map_map]
    rfl
  · rfl

theorem target?_settle (ls : Labels) (label : Label) (target : Nat) (other : Label) :
    (ls.settle label target).target? other =
      if label.id.index = other.id.index then ls.jumps[other.id.index]?.map fun _ => target
      else ls.target? other := by
  simp only [target?, settle, Array.getElem?_modify]
  split
  · cases ls.jumps[other.id.index]? <;> rfl
  · rfl

theorem jump?_reserve {jump : Jump} (found : ls.jump? label = some jump) (code : Code) :
    (ls.reserve code).2.1.jump? label = some jump := by
  obtain ⟨there, same⟩ := jump?_eq_some_iff.mp found
  obtain ⟨inside, -⟩ := Array.getElem?_eq_some_iff.mp there
  refine jump?_eq_some_iff.mpr ⟨?_, same⟩
  simp only [reserve, Array.getElem?_push, Nat.ne_of_lt inside, if_false, there]

theorem jump?_dequeue (ls : Labels) (label : Label) :
    ls.dequeue.2.jump? label = ls.jump? label := by
  rw [jump?, jumps_dequeue, jump?]

theorem jump?_settle_other {other : Label} (apart : other.id ≠ label.id) (target : Nat) :
    (ls.settle label target).jump? other = ls.jump? other := by
  have different : label.id.index ≠ other.id.index := by
    intro same
    exact apart (congrArg LabelId.mk same.symm)
  simp only [jump?, settle, Array.getElem?_modify, different, if_false]

theorem checkQueue_eq_ok_iff :
    ls.checkQueue label = .ok () ↔ ∃ jump, ls.jump? label = some jump := by
  unfold checkQueue
  cases ls.jump? label <;> simp

inductive Op where
  | reserve (code : Code)
  | queue (label : Label)
  | dequeue
  | resolve (code : Code) (limits : Limits) (label : Label) (target : Nat)
  deriving DecidableEq, Repr

inductive Answer where
  | done
  | label (l : Label)
  | waiting (l : Option Label)
  deriving DecidableEq, Repr

def step (ls : Labels) : Op → Reply Labels Answer
  | .reserve code => .accept (ls.reserve code).2.1 (.label (ls.reserve code).1)
  | .queue label => (ls.queue label).map fun _ => .done
  | .dequeue => .accept ls.dequeue.2 (.waiting ls.dequeue.1)
  | .resolve code limits label target =>
      ((ls.resolve code limits label target).map fun _ => .done).embed Prod.fst

def run (ls : Labels) (ops : List Op) : Labels := runBy step ls ops

theorem after_queue_of_ok (checked : ls.checkQueue label = .ok ()) :
    (ls.step (.queue label)).after = ls.enqueue label := by
  simp only [step, queue, Reply.attempt, checked]
  rfl

theorem after_queue_of_error {fault : Fault} (checked : ls.checkQueue label = .error fault) :
    (ls.step (.queue label)).after = ls := by
  simp only [step, queue, Reply.attempt, checked]
  rfl

theorem after_resolve_of_ok {code : Code} {limits : Limits} {target : Nat} {distance : Int}
    (checked : ls.checkResolve code limits label target = .ok distance) :
    (ls.step (.resolve code limits label target)).after = ls.settle label target := by
  simp only [step, resolve, checked]
  rfl

theorem after_resolve_of_error {code : Code} {limits : Limits} {target : Nat} {fault : Fault}
    (checked : ls.checkResolve code limits label target = .error fault) :
    (ls.step (.resolve code limits label target)).after = ls := by
  simp only [step, resolve, checked]
  rfl

/-- What is done with labels leaves a property of them alone if each change it can make does. -/
theorem after_step {P : Labels → Prop} (op : Op) (stay : P ls)
    (reserved : ∀ code, P (ls.reserve code).2.1)
    (queued : ∀ label jump, op = .queue label → ls.jump? label = some jump → P (ls.enqueue label))
    (dequeued : P ls.dequeue.2)
    (settled : ∀ label target, P (ls.settle label target)) : P (ls.step op).after := by
  cases op with
  | reserve code => exact reserved code
  | dequeue => exact dequeued
  | queue label =>
      cases checked : ls.checkQueue label with
      | ok done =>
          obtain ⟨jump, found⟩ := checkQueue_eq_ok_iff.mp checked
          rw [after_queue_of_ok checked]
          exact queued label jump rfl found
      | error fault =>
          rw [after_queue_of_error checked]
          exact stay
  | resolve code limits label target =>
      cases checked : ls.checkResolve code limits label target with
      | ok distance =>
          rw [after_resolve_of_ok checked]
          exact settled label target
      | error fault =>
          rw [after_resolve_of_error checked]
          exact stay

def Quiet (ops : List Op) : Prop := ∀ label, .queue label ∉ ops

theorem quiet_nil : Quiet [] := fun _ => List.not_mem_nil

theorem Quiet.resolve {ops : List Op} (quiet : Quiet ops) (code : Code) (limits : Limits)
    (label : Label) (target : Nat) : Quiet (ops ++ [.resolve code limits label target]) := by
  intro other
  simp [quiet other]

end Labels

namespace Scope

/-- The labels went through a run in which nothing was queued. -/
def Handled (s after : Scope) : Prop :=
  ∃ ops, Labels.Quiet ops ∧ after.labels = s.labels.run ops

theorem handled_of_kept {s after : Scope} (kept : after.labels = s.labels) : s.Handled after :=
  ⟨[], Labels.quiet_nil, kept⟩

theorem Handled.settle {s after : Scope} (handled : s.Handled after) {label : Label} {target : Nat}
    {distance : Int} (checked : after.checkResolve label target = .ok distance) :
    s.Handled (after.settle label target distance) := by
  obtain ⟨ops, quiet, reached⟩ := handled
  refine ⟨_, quiet.resolve after.code after.limits label target, ?_⟩
  rw [Labels.run, runBy_concat, ← Labels.run, ← reached]
  exact (Labels.after_resolve_of_ok checked).symm

theorem labels_queue {s : Scope} (building : s.phase = .building) (label : Label) :
    (s.step (.queue label)).after.labels = (s.labels.step (.queue label)).after := by
  rw [step, Reply.after_map, queue]
  cases checked : s.labels.checkQueue label with
  | ok done => rw [attempt_of_ok building checked, Labels.after_queue_of_ok checked]; rfl
  | error fault =>
      rw [attempt_of_error building checked, Labels.after_queue_of_error checked]
      exact after_abort (P := (·.labels = s.labels)) fault rfl rfl

/-- An action handles the labels without queueing any, or is the request to queue one. -/
theorem labels_step (s : Scope) (op : Op) :
    s.Handled (s.step op).after ∨
      ∃ label, op = .queue label ∧ s.phase = .building ∧
        (s.step op).after.labels = (s.labels.step (.queue label)).after := by
  have same : s.Handled s := handled_of_kept rfl
  by_cases touched : .body ∈ op.touches
  · cases op with
    | emit | emitAll | emitOperand =>
        exact .inl (after_change (P := s.Handled) same fun _ => handled_of_kept rfl)
    | reserve =>
        refine .inl (after_change (P := s.Handled) same fun _ => ?_)
        exact ⟨[.reserve s.code], by simp [Labels.Quiet], rfl⟩
    | dequeue =>
        refine .inl (after_change (P := s.Handled) same fun _ => ?_)
        exact ⟨[.dequeue], by simp [Labels.Quiet], rfl⟩
    | queue label =>
        -- a closed scope refuses before it looks at the label
        cases phase : s.phase with
        | finished output =>
            rw [step_of_finished phase]
            exact .inl same
        | failed =>
            rw [step_of_failed phase]
            exact .inl same
        | building => exact .inr ⟨label, rfl, rfl, labels_queue phase label⟩
    | resolve label target =>
        refine .inl (after_whileBuilding (P := s.Handled) same fun _ => ?_)
        exact after_resolveAll target [label] (fun _ handled => handled)
          (fun _ _ _ handled checked => handled.settle checked) same
    | closeLoop =>
        exact .inl (after_closeLoop (P := s.Handled) (fun _ handled => handled)
          (fun _ _ _ _ handled checked => handled.settle checked)
          (fun _ => handled_of_kept rfl) same)
    | _ => simp [Op.touches] at touched
  · exact .inl (handled_of_kept (body_step touched).2)

theorem labels_move (s : Scope) (m : Move) : ∃ ops, (s.move m).after.labels = s.labels.run ops := by
  cases m with
  | act op =>
      rcases s.labels_step op with ⟨ops, -, reached⟩ | ⟨label, -, -, reached⟩
      · exact ⟨ops, reached⟩
      · exact ⟨[.queue label], reached⟩
  | finish childCount =>
      exact ⟨[], after_finish (P := (·.labels = s.labels)) childCount rfl rfl fun _ _ => rfl⟩

theorem labels_play (s : Scope) (moves : List Move) :
    ∃ ops, (s.play moves).labels = s.labels.run ops := by
  induction moves generalizing s with
  | nil => exact ⟨[], rfl⟩
  | cons m moves ih =>
      obtain ⟨first, moved⟩ := s.labels_move m
      obtain ⟨rest, played⟩ := ih (s.move m).after
      have joined : s.labels.run (first ++ rest) = (s.labels.run first).run rest :=
        runBy_append Labels.step s.labels first rest
      refine ⟨first ++ rest, ?_⟩
      rw [joined, ← moved]
      exact played

end Scope

end BytecodeScopes
