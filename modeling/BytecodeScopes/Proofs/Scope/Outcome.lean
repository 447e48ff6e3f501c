import BytecodeScopes.Scope.Step

/-!
What an action can leave behind. A closed scope stays as it is. A scope that is being built stays,
fails as it is, or takes the change of the action; only the actions that resolve labels change it
in more than one step.
-/

namespace BytecodeScopes

@[simp] theorem Reply.after_map {σ α β : Type} (f : α → β) (r : Reply σ α) :
    (r.map f).after = r.after := rfl

namespace Scope

section After

variable {P : Scope → Prop} {α β : Type} {s : Scope}

theorem after_abort (fault : Fault) (stay : P s) (failed : P { s with phase := .failed }) :
    P (s.abort (α := α) fault).after := by
  unfold abort
  split
  · exact failed
  · exact stay

theorem after_whileBuilding {act : Scope → Reply Scope α} (stay : P s)
    (acted : s.phase = .building → P (act s).after) : P (s.whileBuilding act).after := by
  unfold whileBuilding
  split
  · rename_i building
    exact acted building
  · exact stay
  · exact stay

theorem after_attempt {check : Scope → Except Fault β} {commit : Scope → β → α × Scope}
    (stay : P s) (failed : s.phase = .building → P { s with phase := .failed })
    (committed : ∀ plan, s.phase = .building → check s = .ok plan → P (commit s plan).2) :
    P (s.attempt check commit).after := by
  apply after_whileBuilding stay
  intro building
  cases checked : check s with
  | ok plan => exact committed plan building checked
  | error fault => exact after_abort fault stay (failed building)

theorem after_change {commit : Scope → α × Scope} (stay : P s)
    (committed : s.phase = .building → P (commit s).2) : P (s.change commit).after :=
  after_whileBuilding stay committed

theorem after_resolveAll (target : Nat) (labels : List Label)
    (failed : ∀ s, P s → P { s with phase := .failed })
    (settled : ∀ s label distance, P s → s.checkResolve label target = .ok distance →
      P (s.settle label target distance))
    (start : P s) : P (resolveAll target labels s).after := by
  induction labels generalizing s with
  | nil => exact start
  | cons label labels ih =>
      unfold resolveAll
      split
      · exact after_abort _ start (failed s start)
      · rename_i distance checked
        exact ih (settled s label distance start checked)

theorem after_closeLoop (failed : ∀ s, P s → P { s with phase := .failed })
    (settled : ∀ s label target distance, P s → s.checkResolve label target = .ok distance →
      P (s.settle label target distance))
    (closed : ∀ frames, P { s with frames }) (stay : P s) : P s.closeLoop.after := by
  apply after_whileBuilding stay
  intro building
  cases frames : s.frames.loops with
  | nil =>
      simp only [Frames.closeLoop, frames]
      exact after_abort _ stay (failed s stay)
  | cons frame outer =>
      simp only [Frames.closeLoop, frames]
      exact after_resolveAll _ _ failed (fun s label => settled s label _) (closed _)

theorem after_closeRetry (failed : P { s with phase := .failed })
    (closed : ∀ frames, P { s with frames }) (stay : P s) : P s.closeRetry.after := by
  apply after_whileBuilding stay
  intro building
  cases frames : s.frames.retries with
  | nil =>
      simp only [Frames.closeRetry, frames]
      exact after_abort _ stay failed
  | cons position outer =>
      simp only [Frames.closeRetry, frames]
      exact closed _

theorem after_finish (childCount : Nat) (stay : P s) (failed : P { s with phase := .failed })
    (finished : s.phase = .building → s.checkFinish = .ok () →
      P { s with code := {}, phase := .finished (s.outputWith childCount) }) :
    P (s.finish childCount).after := by
  apply after_whileBuilding stay
  intro building
  cases checked : s.checkFinish with
  | error fault => exact after_abort fault stay failed
  | ok done => exact finished building checked

end After

inductive Part where
  | registers
  | tables
  | body
  | frames
  | handlers
  | surroundings
  deriving DecidableEq, Repr

/-- Closing a loop takes its frame and resolves its exits; every other action has one part. -/
def Op.touches : Op → List Part
  | .push | .pop | .popMany _ | .setHeight _ | .declare _ _ => [.registers]
  | .addLiteral _ _ | .addSymbol _ | .addSetter _ | .popSetter | .pushText _ | .popText => [.tables]
  | .emit _ | .emitAll _ | .emitOperand _ _ | .reserve | .queue _ | .dequeue | .resolve _ _ =>
      [.body]
  | .openLoop | .addExit _ | .openRetry | .closeRetry => [.frames]
  | .closeLoop => [.frames, .body]
  | .openRegion => []
  | .closeRegion _ _ _ | .addHandler _ => [.handlers]
  | .setSignature _ | .markLoop | .unmarkLoop | .beginList | .restoreList _ | .element | .splat |
    .finishList => [.surroundings]

/-- An action leaves a property of the scope alone if failing does and, for each part it touches,
any change of that part. -/
theorem after_step {P : Scope → Prop} {s : Scope} (op : Op) (stay : P s)
    (failed : ∀ s, P s → P { s with phase := .failed })
    (registers : .registers ∈ op.touches → ∀ height peak localCount locals,
      P { s with height, peak, localCount, locals })
    (tables : .tables ∈ op.touches → ∀ symbols literals texts,
      P { s with symbols, literals, texts })
    (body : .body ∈ op.touches → ∀ s code labels, P s → P { s with code, labels })
    (frames : .frames ∈ op.touches → ∀ frames, P { s with frames })
    (handlers : .handlers ∈ op.touches → ∀ handlers, P { s with handlers })
    (surroundings : .surroundings ∈ op.touches → ∀ nesting signature list,
      P { s with nesting, signature, list }) : P (s.step op).after := by
  cases op with
  | push | pop | popMany | setHeight | declare =>
      rw [step, Reply.after_map]
      refine after_attempt stay (fun _ => failed s stay) ?_
      intro plan building checked
      exact registers (List.mem_singleton_self _) _ _ _ _
  | addLiteral | addSymbol | addSetter =>
      rw [step, Reply.after_map]
      refine after_attempt stay (fun _ => failed s stay) ?_
      intro plan building checked
      exact tables (List.mem_singleton_self _) _ _ _
  | popSetter | pushText | popText =>
      rw [step, Reply.after_map]
      refine after_change stay ?_
      intro building
      exact tables (List.mem_singleton_self _) _ _ _
  | emit | emitAll | emitOperand | reserve | dequeue =>
      rw [step, Reply.after_map]
      refine after_change stay ?_
      intro building
      exact body (List.mem_singleton_self _) s _ _ stay
  | queue =>
      rw [step, Reply.after_map]
      refine after_attempt stay (fun _ => failed s stay) ?_
      intro plan building checked
      exact body (List.mem_singleton_self _) s _ _ stay
  | resolve label target =>
      rw [step, Reply.after_map]
      apply after_whileBuilding stay
      intro building
      exact after_resolveAll target [label] failed
        (fun s _ _ kept _ => body (List.mem_singleton_self _) s _ _ kept) stay
  | openLoop | openRetry =>
      rw [step, Reply.after_map]
      refine after_change stay ?_
      intro building
      exact frames (List.mem_singleton_self _) _
  | addExit =>
      rw [step, Reply.after_map]
      refine after_attempt stay (fun _ => failed s stay) ?_
      intro plan building checked
      exact frames (List.mem_singleton_self _) _
  | closeLoop =>
      rw [step, Reply.after_map]
      have resolving : Part.body ∈ Op.closeLoop.touches := by decide
      exact after_closeLoop failed (fun s _ _ _ kept _ => body resolving s _ _ kept)
        (frames (by decide)) stay
  | closeRetry =>
      rw [step, Reply.after_map]
      exact after_closeRetry (failed s stay) (frames (List.mem_singleton_self _)) stay
  | openRegion =>
      rw [step, Reply.after_map]
      refine after_change stay ?_
      intro building
      exact stay
  | closeRegion | addHandler =>
      rw [step, Reply.after_map]
      refine after_attempt stay (fun _ => failed s stay) ?_
      intro plan building checked
      exact handlers (List.mem_singleton_self _) _
  | setSignature =>
      rw [step, Reply.after_map]
      refine after_attempt stay (fun _ => failed s stay) ?_
      intro plan building checked
      exact surroundings (List.mem_singleton_self _) _ _ _
  | markLoop | unmarkLoop | beginList | restoreList | element | splat | finishList =>
      rw [step, Reply.after_map]
      refine after_change stay ?_
      intro building
      exact surroundings (List.mem_singleton_self _) _ _ _

/-- Where a scope stands among the others, and its limits. -/
structure Site where
  id : ScopeId
  parent : Option ScopeId
  children : Array ScopeId
  top : Bool
  limits : Limits

def site (s : Scope) : Site := ⟨s.id, s.parent, s.children, s.top, s.limits⟩

theorem site_step (s : Scope) (op : Op) : (s.step op).after.site = s.site := by
  apply after_step (P := (site · = s.site)) op rfl
  · intro _ kept
    exact kept
  · exact fun _ _ _ _ _ => rfl
  · exact fun _ _ _ _ => rfl
  · intro _ _ _ _ kept
    exact kept
  · exact fun _ _ => rfl
  · exact fun _ _ => rfl
  · exact fun _ _ _ _ => rfl

theorem site_finish (s : Scope) (childCount : Nat) :
    (s.finish childCount).after.site = s.site :=
  after_finish (P := (site · = s.site)) childCount rfl rfl (fun _ _ => rfl)

theorem body_step {s : Scope} {op : Op} (apart : .body ∉ op.touches) :
    (s.step op).after.code = s.code ∧ (s.step op).after.labels = s.labels := by
  apply after_step (P := fun after => after.code = s.code ∧ after.labels = s.labels) op ⟨rfl, rfl⟩
  · intro _ kept
    exact kept
  · exact fun _ _ _ _ _ => ⟨rfl, rfl⟩
  · exact fun _ _ _ _ => ⟨rfl, rfl⟩
  · intro touched
    exact absurd touched apart
  · exact fun _ _ => ⟨rfl, rfl⟩
  · exact fun _ _ => ⟨rfl, rfl⟩
  · exact fun _ _ _ _ => ⟨rfl, rfl⟩

theorem whileBuilding_of_building {α : Type} {s : Scope} (building : s.phase = .building)
    (act : Scope → Reply Scope α) : s.whileBuilding act = act s := by
  simp only [whileBuilding, building]

theorem change_of_building {α : Type} {s : Scope} (building : s.phase = .building)
    (commit : Scope → α × Scope) : s.change commit = .accept (commit s).2 (commit s).1 :=
  whileBuilding_of_building building _

theorem attempt_of_ok {α β : Type} {s : Scope} {check : Scope → Except Fault β} {plan : β}
    (building : s.phase = .building) (checked : check s = .ok plan)
    (commit : Scope → β → α × Scope) :
    s.attempt check commit = .accept (commit s plan).2 (commit s plan).1 := by
  rw [attempt, whileBuilding_of_building building, checked]

theorem attempt_of_error {α β : Type} {s : Scope} {check : Scope → Except Fault β} {fault : Fault}
    (building : s.phase = .building) (checked : check s = .error fault)
    (commit : Scope → β → α × Scope) : s.attempt check commit = s.abort fault := by
  rw [attempt, whileBuilding_of_building building, checked]

theorem answer_abort {α : Type} (s : Scope) (fault : Fault) :
    (s.abort (α := α) fault).answer = .error fault := by
  unfold abort
  split <;> rfl

theorem resolveAll_cons_ok {s : Scope} {label : Label} {target : Nat} {distance : Int}
    (checked : s.checkResolve label target = .ok distance) (labels : List Label) :
    (resolveAll target (label :: labels) s).answer =
        (resolveAll target labels (s.settle label target distance)).answer ∧
      (resolveAll target (label :: labels) s).after =
        (resolveAll target labels (s.settle label target distance)).after := by
  simp only [resolveAll, checked, and_self]

theorem resolveAll_cons_error {s : Scope} {label : Label} {target : Nat} {fault : Fault}
    (checked : s.checkResolve label target = .error fault) (labels : List Label) :
    resolveAll target (label :: labels) s = s.abort fault := by
  simp only [resolveAll, checked]

theorem closeLoop_of_nil {s : Scope} (building : s.phase = .building)
    (frames : s.frames.loops = []) : s.closeLoop = s.abort (.noOpenFrame .loops) := by
  have refused : s.frames.closeLoop s.position = .refuse s.frames (.noOpenFrame .loops) := by
    simp only [Frames.closeLoop, frames]
  rw [closeLoop, whileBuilding_of_building building]
  dsimp only
  rw [refused]
  rfl

theorem closeLoop_of_cons {s : Scope} {frame : LoopFrame} {outer : List LoopFrame}
    (building : s.phase = .building) (frames : s.frames.loops = frame :: outer) :
    s.closeLoop = (resolveAll s.position frame.exits.toList
      { s with frames := { s.frames with loops := outer } }).map
        fun _ => { frame with next := some s.position } := by
  have closed : s.frames.closeLoop s.position =
      .accept { s.frames with loops := outer } { frame with next := some s.position } := by
    simp only [Frames.closeLoop, frames]
  rw [closeLoop, whileBuilding_of_building building]
  dsimp only
  rw [closed]
  rfl

theorem whileBuilding_of_finished {α : Type} {s : Scope} {output : Output}
    (closed : s.phase = .finished output) (act : Scope → Reply Scope α) :
    s.whileBuilding act = .refuse s (.scopeFinished s.id) := by
  simp only [whileBuilding, closed]

theorem whileBuilding_of_failed {α : Type} {s : Scope} (closed : s.phase = .failed)
    (act : Scope → Reply Scope α) : s.whileBuilding act = .refuse s (.scopeFailed s.id) := by
  simp only [whileBuilding, closed]

theorem attempt_cases {α β : Type} (s : Scope) (check : Scope → Except Fault β)
    (commit : Scope → β → α × Scope) :
    (∃ plan, s.phase = .building ∧ check s = .ok plan ∧
        s.attempt check commit = .accept (commit s plan).2 (commit s plan).1) ∨
      ∃ fault phase, (s.attempt check commit).answer = .error fault ∧
        (s.attempt check commit).after = { s with phase } := by
  cases phase : s.phase with
  | finished output =>
      rw [attempt, whileBuilding_of_finished phase]
      exact .inr ⟨_, s.phase, rfl, rfl⟩
  | failed =>
      rw [attempt, whileBuilding_of_failed phase]
      exact .inr ⟨_, s.phase, rfl, rfl⟩
  | building =>
      cases checked : check s with
      | ok plan => exact .inl ⟨plan, rfl, rfl, attempt_of_ok phase checked commit⟩
      | error fault =>
          have stopped : ∃ phase, (s.abort (α := α) fault).after = { s with phase } :=
            after_abort (P := fun after => ∃ phase, after = { s with phase }) fault
              ⟨s.phase, rfl⟩ ⟨.failed, rfl⟩
          obtain ⟨last, kept⟩ := stopped
          rw [attempt_of_error phase checked]
          exact .inr ⟨fault, last, answer_abort s fault, kept⟩

theorem building_of_ok {α : Type} {s : Scope} {act : Scope → Reply Scope α} {a : α}
    (accepted : (s.whileBuilding act).answer = .ok a) : s.phase = .building := by
  cases phase : s.phase with
  | building => rfl
  | finished output =>
      rw [whileBuilding_of_finished phase] at accepted
      cases accepted
  | failed =>
      rw [whileBuilding_of_failed phase] at accepted
      cases accepted

theorem step_of_finished {s : Scope} {output : Output} (closed : s.phase = .finished output)
    (op : Op) : s.step op = .refuse s (.scopeFinished s.id) := by
  cases op <;> exact congrArg (Reply.map _) (whileBuilding_of_finished closed _)

theorem step_of_failed {s : Scope} (closed : s.phase = .failed) (op : Op) :
    s.step op = .refuse s (.scopeFailed s.id) := by
  cases op <;> exact congrArg (Reply.map _) (whileBuilding_of_failed closed _)

theorem finish_of_finished {s : Scope} {output : Output} (closed : s.phase = .finished output)
    (childCount : Nat) : s.finish childCount = .refuse s (.scopeFinished s.id) :=
  whileBuilding_of_finished closed _

theorem isFinished_eq (s : Scope) : s.isFinished = s.output?.isSome := by
  unfold isFinished output?
  split <;> rfl

theorem phase_of_output? {s : Scope} {output : Output} (given : s.output? = some output) :
    s.phase = .finished output := by
  unfold output? at given
  split at given
  · rename_i phase
    rw [phase, Option.some.inj given]
  · cases given

private theorem output?_step_of_none (s : Scope) (op : Op) (none : s.output? = none) :
    (s.step op).after.output? = .none := by
  apply after_step (P := (output? · = .none)) op none
  · exact fun _ _ => rfl
  · exact fun _ _ _ _ _ => none
  · exact fun _ _ _ _ => none
  · intro _ _ _ _ kept
    exact kept
  · exact fun _ _ => none
  · exact fun _ _ => none
  · exact fun _ _ _ _ => none

theorem output?_step (s : Scope) (op : Op) : (s.step op).after.output? = s.output? := by
  cases output : s.output? with
  | none => exact output?_step_of_none s op output
  | some given =>
      rw [step_of_finished (phase_of_output? output)]
      exact output

theorem output?_finish (s : Scope) (childCount : Nat) :
    (s.finish childCount).after.output? = s.output? ∨
      s.phase = .building ∧ s.checkFinish = .ok () ∧
        (s.finish childCount).after.output? = some (s.outputWith childCount) := by
  cases output : s.output? with
  | some given =>
      rw [finish_of_finished (phase_of_output? output)]
      exact .inl output
  | none =>
      let P (after : Scope) : Prop := after.output? = none ∨
        s.phase = .building ∧ s.checkFinish = .ok () ∧
          after.output? = some (s.outputWith childCount)
      exact after_finish (P := P) childCount (.inl output) (.inl rfl)
        (fun building checked => .inr ⟨building, checked, rfl⟩)

theorem checkFinish_eq_ok_iff (s : Scope) :
    s.checkFinish = .ok () ↔
      s.labels.unresolved = 0 ∧ s.frames.loops = [] ∧ s.frames.retries = [] ∧
        s.symbols.size ≤ 65535 ∧ s.literals.size ≤ 65535 := by
  unfold checkFinish
  by_cases unresolved : s.labels.unresolved = 0
  · by_cases loops : s.frames.loops = []
    · by_cases retries : s.frames.retries = []
      · by_cases symbols : s.symbols.size ≤ 65535 <;>
          by_cases literals : s.literals.size ≤ 65535 <;>
          simp [unresolved, loops, retries, symbols, literals, Frames.checkClosed, checkCount,
            bind, Except.bind]
      · simp [unresolved, loops, retries, Frames.checkClosed, bind, Except.bind]
    · simp [unresolved, loops, Frames.checkClosed, bind, Except.bind]
  · simp [unresolved, bind, Except.bind, throw, throwThe, MonadExceptOf.throw]

theorem checkFinish_known (s : Scope) (id : ScopeId) :
    s.checkFinish ≠ .error (.unknownScope id) := by
  intro unknown
  simp only [checkFinish, Frames.checkClosed, checkCount, bind, Except.bind, throw, throwThe,
    MonadExceptOf.throw] at unknown
  grind

theorem finish_known (s : Scope) (childCount : Nat) (id : ScopeId) :
    (s.finish childCount).answer ≠ .error (.unknownScope id) := by
  cases phase : s.phase with
  | finished output =>
      rw [finish_of_finished phase]
      nofun
  | failed =>
      rw [finish, whileBuilding_of_failed phase]
      nofun
  | building =>
      rw [finish, whileBuilding_of_building phase]
      cases checked : s.checkFinish with
      | error fault =>
          rw [answer_abort]
          rintro ⟨⟩
          exact s.checkFinish_known id checked
      | ok done => nofun

theorem writtenSize_known (s : Scope) (id : ScopeId) :
    s.writtenSize ≠ .error (.unknownScope id) := by
  unfold writtenSize
  split
  · nofun
  · split <;> nofun

theorem finish_of_ok {s : Scope} {childCount : Nat}
    (accepted : (s.finish childCount).answer = .ok ()) :
    s.phase = .building ∧ s.checkFinish = .ok () ∧
      (s.finish childCount).after =
        { s with code := {}, phase := .finished (s.outputWith childCount) } := by
  have building : s.phase = .building := building_of_ok accepted
  rw [finish, whileBuilding_of_building building] at accepted ⊢
  cases checked : s.checkFinish with
  | error fault =>
      rw [checked, answer_abort] at accepted
      cases accepted
  | ok done => exact ⟨building, rfl, rfl⟩

/-- An action on a scope, or an attempt to finish it. -/
inductive Move where
  | act (op : Op)
  | finish (childCount : Nat)
  deriving DecidableEq, Repr

def move (s : Scope) : Move → Reply Scope Answer
  | .act op => s.step op
  | .finish childCount => (s.finish childCount).map fun _ => .done

def play (s : Scope) (moves : List Move) : Scope := runBy move s moves

theorem site_move (s : Scope) (m : Move) : (s.move m).after.site = s.site := by
  cases m with
  | act op => exact site_step s op
  | finish childCount => exact site_finish s childCount

theorem site_play (s : Scope) (moves : List Move) : (s.play moves).site = s.site :=
  runBy_invariant move (P := (·.site = s.site)) (fun after m kept => (site_move after m).trans kept)
    rfl moves

theorem output?_play_of_acts {s : Scope} {moves : List Move}
    (acts : ∀ childCount, .finish childCount ∉ moves) : (s.play moves).output? = s.output? := by
  apply runBy_along move (P := (·.output? = s.output?)) rfl
  rintro front (op | childCount) back split kept
  · exact (output?_step _ op).trans kept
  · exact absurd (by simp [split]) (acts childCount)

end Scope

end BytecodeScopes
