import BytecodeScopes.Proofs.Scope.Refusal

namespace BytecodeScopes.Scope

def answers (s : Scope) (ops : List Op) : List (Op × Except Fault Answer) := answersBy step s ops

def accepts (s : Scope) (ops : List Op) : Bool := acceptsBy step s ops

theorem building_of_accepted {s : Scope} {op : Op} {answer : Answer}
    (accepted : (s.step op).answer = .ok answer) : s.phase = .building := by
  cases phase : s.phase with
  | building => rfl
  | finished output =>
      rw [step_of_finished phase] at accepted
      cases accepted
  | failed =>
      rw [step_of_failed phase] at accepted
      cases accepted

/-- The action that a move is, with its answer, if it is one and accepted. -/
def accepted? (s : Scope) : Move → Option (Op × Answer)
  | .act op => (s.step op).answer.toOption.map fun answer => (op, answer)
  | .finish _ => none

def accepted (s : Scope) : List Move → List (Op × Answer)
  | [] => []
  | m :: moves => (s.accepted? m).toList ++ (s.move m).after.accepted moves

theorem accepted?_of_ok {s : Scope} {op : Op} {answer : Answer}
    (accepted : (s.step op).answer = .ok answer) : s.accepted? (.act op) = some (op, answer) := by
  rw [accepted?, accepted]
  rfl

theorem accepted?_of_error {s : Scope} {op : Op} {fault : Fault}
    (refused : (s.step op).answer = .error fault) : s.accepted? (.act op) = none := by
  rw [accepted?, refused]
  rfl

theorem accepted?_eq_some_iff {s : Scope} {op action : Op} {answer : Answer} :
    s.accepted? (.act op) = some (action, answer) ↔
      action = op ∧ (s.step op).answer = .ok answer := by
  cases given : (s.step op).answer with
  | ok found =>
      rw [accepted?_of_ok given]
      simp [eq_comm]
  | error fault =>
      rw [accepted?_of_error given]
      simp

/-- What each accepted action adds to a list, at its end, the actions accepted in a run add up. -/
theorem collected_play {β : Type} (view : Scope → List β) (pick : Op × Answer → Option β)
    (moved : ∀ s m, view (s.move m).after = view s ++ (s.accepted? m).toList.filterMap pick)
    (s : Scope) (moves : List Move) :
    view (s.play moves) = view s ++ (s.accepted moves).filterMap pick := by
  induction moves generalizing s with
  | nil => exact (List.append_nil _).symm
  | cons m moves ih =>
      calc view ((s.move m).after.play moves)
          = view (s.move m).after ++ ((s.move m).after.accepted moves).filterMap pick :=
            ih (s.move m).after
        _ = view s ++ (s.accepted (m :: moves)).filterMap pick := by
          rw [moved, accepted, List.filterMap_append, List.append_assoc]

theorem size_resolveAll (target : Nat) (labels : List Label) (s : Scope) :
    (resolveAll target labels s).after.code.size = s.code.size := by
  apply after_resolveAll (P := (·.code.size = s.code.size)) target labels
  · exact fun _ kept => kept
  · intro s label distance kept checked
    rw [settle, Code.size_overwrite]
    exact kept
  · rfl

theorem size_closeLoop (s : Scope) : s.closeLoop.after.code.size = s.code.size := by
  apply after_closeLoop (P := (·.code.size = s.code.size))
  · exact fun _ kept => kept
  · intro s label target distance kept checked
    rw [settle, Code.size_overwrite]
    exact kept
  · exact fun _ => rfl
  · rfl

theorem size_step (s : Scope) (op : Op) : s.code.size ≤ (s.step op).after.code.size := by
  let Grown (after : Scope) : Prop := s.code.size ≤ after.code.size
  by_cases touched : .body ∈ op.touches
  · cases op with
    | emit | emitAll | emitOperand | reserve =>
        apply after_change (P := Grown) (Nat.le_refl _)
        intro building
        simp only [Grown, Labels.reserve, Code.size_push, Code.size_append, Code.size_pushWord]
        omega
    | dequeue => exact after_change (P := Grown) (Nat.le_refl _) fun _ => Nat.le_refl _
    | queue =>
        exact after_attempt (P := Grown) (Nat.le_refl _) (fun _ => Nat.le_refl _)
          fun _ _ _ => Nat.le_refl _
    | resolve label target =>
        apply after_whileBuilding (P := Grown) (Nat.le_refl _)
        intro building
        exact Nat.le_of_eq (size_resolveAll target [label] s).symm
    | closeLoop => exact Nat.le_of_eq s.size_closeLoop.symm
    | _ => simp [Op.touches] at touched
  · exact Nat.le_of_eq (congrArg Code.size (body_step touched).1).symm

theorem position_mono {s s' : Scope} (grown : s.code.size ≤ s'.code.size) :
    s.position ≤ s'.position := by
  simp only [position, Code.position]
  omega

theorem position_step (s : Scope) (op : Op) : s.position ≤ (s.step op).after.position :=
  position_mono (size_step s op)

def extent (s : Scope) : Nat :=
  match s.output? with
  | some output => output.codeSize
  | none => s.position

theorem extent_of_unfinished {s : Scope} (unfinished : s.output? = none) :
    s.extent = s.position := by
  rw [extent, unfinished]

theorem extent_of_output? {s : Scope} {output : Output} (given : s.output? = some output) :
    s.extent = output.codeSize := by
  rw [extent, given]

theorem output?_of_building {s : Scope} (building : s.phase = .building) : s.output? = none := by
  rw [output?, building]

theorem extent_move (s : Scope) (m : Move) : s.extent ≤ (s.move m).after.extent := by
  cases phase : s.phase with
  | finished output =>
      rw [move_of_finished phase]
      exact Nat.le_refl _
  | failed =>
      rw [move_of_failed phase]
      exact Nat.le_refl _
  | building =>
      have unfinished := output?_of_building phase
      have here := extent_of_unfinished unfinished
      rw [here]
      cases m with
      | act op =>
          have still : (s.step op).after.output? = none := (s.output?_step op).trans unfinished
          calc s.position
              ≤ (s.step op).after.position := position_step s op
            _ = (s.step op).after.extent := (extent_of_unfinished still).symm
      | finish childCount =>
          apply after_finish (P := (s.position ≤ ·.extent)) childCount
          · exact Nat.le_of_eq here.symm
          · exact Nat.le_refl _
          · exact fun _ _ => Nat.le_refl _

end BytecodeScopes.Scope
