import BytecodeScopes.Proofs.Scope.Brackets
import BytecodeScopes.Proofs.Scope.Run
import BytecodeScopes.Proofs.Scope.Spans

namespace BytecodeScopes

def LoopFrame.span? (frame : LoopFrame) : Option Span :=
  frame.next.map fun next => ⟨frame.redo, next⟩

theorem Frames.retries_pushExit (f : Frames) (label : Label) :
    (f.pushExit label).retries = f.retries := by
  unfold pushExit
  split <;> rfl

namespace Scope

variable {s : Scope} {op : Op} {answer : Answer}

theorem frames_step_of_apart (apart : .frames ∉ op.touches) :
    (s.step op).after.frames = s.frames := by
  apply after_step (P := (·.frames = s.frames)) op rfl
  · intro _ kept
    exact kept
  · exact fun _ _ _ _ _ => rfl
  · exact fun _ _ _ _ => rfl
  · intro _ _ _ _ kept
    exact kept
  · intro touched
    exact absurd touched apart
  · exact fun _ _ => rfl
  · exact fun _ _ _ _ => rfl

theorem frames_resolveAll (target : Nat) (labels : List Label) (s : Scope) :
    (resolveAll target labels s).after.frames = s.frames := by
  apply after_resolveAll (P := (·.frames = s.frames)) target labels
  · exact fun _ kept => kept
  · exact fun _ _ _ kept _ => kept
  · rfl

theorem addExit_ok {label : Label} {done : Unit}
    (accepted : (s.addExit label).answer = .ok done) :
    (s.addExit label).after = { s with frames := s.frames.pushExit label } := by
  have building : s.phase = .building := building_of_ok accepted
  cases checked : s.frames.checkLoop with
  | ok plan =>
      rw [addExit, attempt_of_ok building checked]
      rfl
  | error fault =>
      rw [addExit, attempt_of_error building checked, answer_abort] at accepted
      cases accepted

theorem closeLoop_ok {closed : LoopFrame} (accepted : s.closeLoop.answer = .ok closed) :
    ∃ frame outer, s.frames.loops = frame :: outer ∧
      closed = { frame with next := some s.position } ∧
      s.closeLoop.after.frames = { s.frames with loops := outer } := by
  have building : s.phase = .building := building_of_ok accepted
  cases frames : s.frames.loops with
  | nil =>
      rw [closeLoop_of_nil building frames, answer_abort] at accepted
      cases accepted
  | cons frame outer =>
      rw [closeLoop_of_cons building frames] at accepted ⊢
      obtain ⟨done, -, rfl⟩ := Reply.map_eq_ok_iff.mp accepted
      refine ⟨frame, outer, rfl, rfl, ?_⟩
      rw [Reply.after_map, frames_resolveAll]

theorem closeRetry_ok {position : Nat} (accepted : s.closeRetry.answer = .ok position) :
    ∃ outer, s.frames.retries = position :: outer ∧
      s.closeRetry.after = { s with frames := { s.frames with retries := outer } } := by
  have building : s.phase = .building := building_of_ok accepted
  rw [closeRetry, whileBuilding_of_building building] at accepted ⊢
  cases frames : s.frames.retries with
  | nil =>
      simp only [Frames.closeRetry, frames, Reply.refuse, answer_abort] at accepted
      cases accepted
  | cons first outer =>
      simp only [Frames.closeRetry, frames, Reply.accept] at accepted ⊢
      cases accepted
      exact ⟨outer, rfl, rfl⟩

def framesAfter (frames : Frames) (position : Nat) : Op → Frames
  | .openLoop => frames.openLoop position
  | .addExit label => frames.pushExit label
  | .closeLoop => { frames with loops := frames.loops.tail }
  | .openRetry => frames.openRetry position
  | .closeRetry => { frames with retries := frames.retries.tail }
  | _ => frames

theorem frames_step (accepted : (s.step op).answer = .ok answer) :
    (s.step op).after.frames = framesAfter s.frames s.position op := by
  have building := building_of_accepted accepted
  by_cases touched : .frames ∈ op.touches
  · cases op with
    | openLoop =>
        rw [step, openLoop, change_of_building building]
        rfl
    | openRetry =>
        rw [step, openRetry, change_of_building building]
        rfl
    | addExit label =>
        obtain ⟨done, accepted, -⟩ := Reply.map_eq_ok_iff.mp accepted
        rw [step, Reply.after_map, addExit_ok accepted, framesAfter]
    | closeLoop =>
        obtain ⟨closed, accepted, -⟩ := Reply.map_eq_ok_iff.mp accepted
        obtain ⟨frame, outer, frames, -, after⟩ := closeLoop_ok accepted
        rw [step, Reply.after_map, after, framesAfter, frames]
        rfl
    | closeRetry =>
        obtain ⟨position, accepted, -⟩ := Reply.map_eq_ok_iff.mp accepted
        obtain ⟨outer, frames, after⟩ := closeRetry_ok accepted
        rw [step, Reply.after_map, after, framesAfter, frames]
        rfl
    | _ => simp [Op.touches] at touched
  · rw [frames_step_of_apart touched]
    cases op with
    | openLoop | addExit | closeLoop | openRetry | closeRetry => simp [Op.touches] at touched
    | _ => rfl

def Op.forLoops : Op → Bool
  | .openLoop | .addExit _ | .closeLoop => true
  | _ => false

def Op.forRetries : Op → Bool
  | .openRetry | .closeRetry => true
  | _ => false

theorem ne_of_kind {kind : Op → Bool} (other : kind op = false) {own : Op}
    (same : kind own = true) : op ≠ own := by
  intro equal
  rw [equal, same] at other
  cases other

theorem loops_framesAfter (other : op.forLoops = false) (frames : Frames) (position : Nat) :
    (framesAfter frames position op).loops = frames.loops := by
  cases op with
  | openLoop | addExit | closeLoop => cases other
  | _ => rfl

theorem retries_framesAfter (other : op.forRetries = false) (frames : Frames) (position : Nat) :
    (framesAfter frames position op).retries = frames.retries := by
  cases op with
  | openRetry | closeRetry => cases other
  | addExit label => exact frames.retries_pushExit label
  | _ => rfl

/-- The exits of a loop inside which `depth` more are open: the labels added while none is. -/
def ownExits : Nat → List Op → List Label
  | _, [] => []
  | depth, op :: ops =>
      match op with
      | .openLoop => ownExits (depth + 1) ops
      | .closeLoop => ownExits (depth - 1) ops
      | .addExit label => if depth = 0 then label :: ownExits depth ops else ownExits depth ops
      | _ => ownExits depth ops

theorem ownExits_append {front : List Op} (balanced : Balanced .openLoop .closeLoop front)
    (depth : Nat) (back : List Op) :
    ownExits depth (front ++ back) = ownExits depth front ++ ownExits depth back := by
  induction balanced generalizing depth back with
  | nil => rfl
  | @other op rest opens closes _ ih =>
      cases op with
      | openLoop => exact absurd rfl opens
      | closeLoop => exact absurd rfl closes
      | addExit label =>
          by_cases outermost : depth = 0 <;> simp [ownExits, outermost, ih]
      | _ => exact ih depth back
  | @pair inner rest _ _ inside after =>
      have deeper : ∀ more, ownExits (depth + 1) (inner ++ .closeLoop :: more) =
          ownExits (depth + 1) inner ++ ownExits depth more := fun more => inside (depth + 1) _
      calc ownExits depth (.openLoop :: (inner ++ .closeLoop :: rest) ++ back)
          = ownExits (depth + 1) (inner ++ .closeLoop :: (rest ++ back)) := by
            rw [List.cons_append, List.append_assoc]
            rfl
        _ = ownExits (depth + 1) inner ++ (ownExits depth rest ++ ownExits depth back) := by
            rw [deeper, after]
        _ = ownExits depth (.openLoop :: (inner ++ .closeLoop :: rest)) ++ ownExits depth back := by
            rw [← List.append_assoc, ← deeper]
            rfl

theorem ownExits_pair {inner : List Op} (balanced : Balanced .openLoop .closeLoop inner) :
    ownExits 0 (.openLoop :: (inner ++ [.closeLoop])) = [] := by
  have closed : ∀ {inner : List Op}, Balanced .openLoop .closeLoop inner →
      ∀ depth, ownExits (depth + 1) inner = [] := by
    intro inner balanced
    induction balanced with
    | nil => exact fun _ => rfl
    | @other op rest opens closes _ ih =>
        intro depth
        cases op with
        | openLoop => exact absurd rfl opens
        | closeLoop => exact absurd rfl closes
        | addExit label => simpa [ownExits] using ih depth
        | _ => exact ih depth
    | @pair inner rest before _ inside after =>
        intro depth
        have deeper := ownExits_append before (depth + 2) (.closeLoop :: rest)
        rw [inside (depth + 1), List.nil_append] at deeper
        exact deeper.trans (after depth)
  have deeper := ownExits_append balanced 1 [.closeLoop]
  rw [closed balanced 0] at deeper
  exact deeper

theorem ownExits_of_other (other : op.forLoops = false) (depth : Nat) :
    ownExits depth [op] = [] := by
  cases op with
  | openLoop | addExit | closeLoop => cases other
  | _ => rfl

variable {start : Scope}

def loopFrame (start : Scope) (front inner : List Op) : LoopFrame :=
  { redo := (start.run front).position, exits := (ownExits 0 inner).toArray }

def retryFrame (start : Scope) (front _inner : List Op) : Nat := (start.run front).position

theorem loops_concat {front : List Op}
    (opened : Opened .openLoop .closeLoop start.loopFrame front (start.run front).frames.loops)
    (accepted : ((start.run front).step op).answer = .ok answer) :
    Opened .openLoop .closeLoop start.loopFrame (front ++ [op])
      ((start.run front).step op).after.frames.loops := by
  have own : ∀ inner, Balanced .openLoop .closeLoop inner →
      ownExits 0 (inner ++ [op]) = ownExits 0 inner ++ ownExits 0 [op] :=
    fun inner balanced => ownExits_append balanced 0 [op]
  rw [frames_step accepted]
  cases other : op.forLoops with
  | false =>
      rw [loops_framesAfter other]
      apply opened.pass (ne_of_kind other rfl) (ne_of_kind other rfl)
      intro front inner balanced
      rw [loopFrame, own inner balanced, ownExits_of_other other, List.append_nil]
      rfl
  | true =>
      cases op with
      | openLoop => exact opened.enter
      | closeLoop =>
          obtain ⟨closed, accepted, -⟩ := Reply.map_eq_ok_iff.mp accepted
          obtain ⟨frame, outer, loops, -, -⟩ := closeLoop_ok accepted
          rw [framesAfter, loops, List.tail_cons]
          rw [loops] at opened
          apply opened.leave
          intro front before inner earlier inside
          rw [loopFrame, ownExits_append earlier, ownExits_pair inside, List.append_nil]
          rfl
      | addExit label =>
          have changed : (framesAfter (start.run front).frames (start.run front).position
              (.addExit label)).loops = (start.run front).frames.loops.modifyHead
                fun frame => { frame with exits := frame.exits.push label } := by
            rw [framesAfter, Frames.pushExit]
            cases frames : (start.run front).frames.loops <;> simp [frames]
          rw [changed]
          apply opened.stay
          · exact Op.noConfusion
          · exact Op.noConfusion
          · intro front inner balanced
            rw [loopFrame, own inner balanced]
            simp [ownExits, loopFrame]
      | _ => cases other

theorem retries_concat {front : List Op}
    (opened : Opened .openRetry .closeRetry start.retryFrame front
      (start.run front).frames.retries)
    (accepted : ((start.run front).step op).answer = .ok answer) :
    Opened .openRetry .closeRetry start.retryFrame (front ++ [op])
      ((start.run front).step op).after.frames.retries := by
  rw [frames_step accepted]
  cases other : op.forRetries with
  | false =>
      rw [retries_framesAfter other]
      exact opened.pass (ne_of_kind other rfl) (ne_of_kind other rfl) fun _ _ _ => rfl
  | true =>
      cases op with
      | openRetry => exact opened.enter
      | closeRetry =>
          obtain ⟨position, accepted, -⟩ := Reply.map_eq_ok_iff.mp accepted
          obtain ⟨outer, retries, -⟩ := closeRetry_ok accepted
          rw [framesAfter, retries, List.tail_cons]
          rw [retries] at opened
          exact opened.leave fun _ _ _ _ _ => rfl
      | _ => cases other

/-- What each accepted action keeps to a stack of frames, a run without refusals keeps. -/
theorem opened_run {φ : Type} {opening closing : Op} {frame : List Op → List Op → φ}
    (stack : Scope → List φ)
    (concat : ∀ front op answer, Opened opening closing frame front (stack (start.run front)) →
      ((start.run front).step op).answer = .ok answer →
      Opened opening closing frame (front ++ [op]) (stack ((start.run front).step op).after))
    {front ops : List Op} (opened : Opened opening closing frame front (stack (start.run front)))
    (accepted : (start.run front).accepts ops = true) :
    Opened opening closing frame (front ++ ops) (stack (start.run (front ++ ops))) := by
  induction ops generalizing front with
  | nil =>
      rw [List.append_nil]
      exact opened
  | cons op ops ih =>
      obtain ⟨⟨answer, first⟩, rest⟩ := (acceptsBy_cons step).mp accepted
      have next : start.run (front ++ [op]) = ((start.run front).step op).after :=
        runBy_concat step start front op
      rw [List.append_cons]
      apply ih
      · rw [next]
        exact concat front op answer opened first
      · rw [next]
        exact rest

theorem closeLoop_matched {before after : List Op} (unframed : start.frames = {})
    (accepted : start.accepts (before ++ .closeLoop :: after) = true) :
    ∃ front inner, before = front ++ .openLoop :: inner ∧ Balanced .openLoop .closeLoop inner ∧
      ((start.run before).step .closeLoop).answer = .ok (.loop
        { redo := (start.run front).position
          next := some (start.run before).position
          exits := (ownExits 0 inner).toArray }) := by
  obtain ⟨earlier, later⟩ := (acceptsBy_append step _ _ _).mp accepted
  change (start.run before).accepts _ = true at later
  obtain ⟨⟨answer, closed⟩, -⟩ := (acceptsBy_cons step).mp later
  obtain ⟨frame, taken, rfl⟩ := Reply.map_eq_ok_iff.mp closed
  obtain ⟨last, outer, loops, rfl, -⟩ := closeLoop_ok taken
  have none : Opened .openLoop .closeLoop start.loopFrame [] start.frames.loops := by
    rw [unframed]
    exact .none .nil
  have opened := opened_run (·.frames.loops) (fun _ _ _ => loops_concat) none earlier
  rw [List.nil_append, loops] at opened
  obtain ⟨front, inner, split, balanced, rfl⟩ := opened.innermost
  exact ⟨front, inner, split, balanced, closed⟩

theorem closeRetry_matched {before after : List Op} (unframed : start.frames = {})
    (accepted : start.accepts (before ++ .closeRetry :: after) = true) :
    ∃ front inner, before = front ++ .openRetry :: inner ∧
      Balanced .openRetry .closeRetry inner ∧
      ((start.run before).step .closeRetry).answer =
        .ok (.position (start.run front).position) := by
  obtain ⟨earlier, later⟩ := (acceptsBy_append step _ _ _).mp accepted
  change (start.run before).accepts _ = true at later
  obtain ⟨⟨answer, closed⟩, -⟩ := (acceptsBy_cons step).mp later
  obtain ⟨position, taken, rfl⟩ := Reply.map_eq_ok_iff.mp closed
  obtain ⟨outer, retries, -⟩ := closeRetry_ok taken
  have none : Opened .openRetry .closeRetry start.retryFrame [] start.frames.retries := by
    rw [unframed]
    exact .none .nil
  have opened := opened_run (·.frames.retries) (fun _ _ _ => retries_concat) none earlier
  rw [List.nil_append, retries] at opened
  obtain ⟨front, inner, split, balanced, rfl⟩ := opened.innermost
  exact ⟨front, inner, split, balanced, closed⟩

def closedSpan? : Except Fault Answer → Option Span
  | .ok (.loop frame) => frame.span?
  | _ => none

/-- The spans of the loops closed in a run, in order of closing. -/
def closedLoops (s : Scope) (ops : List Op) : List Span :=
  (s.answers ops).filterMap fun answered => closedSpan? answered.2

theorem closedSpan?_of_ne (accepted : (s.step op).answer = .ok answer) (other : op ≠ .closeLoop) :
    closedSpan? (.ok answer) = none := by
  cases op with
  | closeLoop => exact absurd rfl other
  | _ =>
      obtain ⟨found, -, rfl⟩ := Reply.map_eq_ok_iff.mp accepted
      rfl

/-- Loops that were closed, and the starts of those that are open, stand nested. -/
def LoopsNested (closed : List Span) (s : Scope) : Prop :=
  Span.Nested closed (s.frames.loops.map (·.redo)) s.position

theorem loopsNested_step {closed : List Span} (nested : LoopsNested closed s)
    (accepted : (s.step op).answer = .ok answer) :
    LoopsNested (closed ++ (closedSpan? (.ok answer)).toList) (s.step op).after := by
  have grown := position_step s op
  rw [LoopsNested, frames_step accepted]
  by_cases closing : op = .closeLoop
  · subst closing
    obtain ⟨frame, closed, rfl⟩ := Reply.map_eq_ok_iff.mp accepted
    obtain ⟨innermost, outer, loops, rfl, -⟩ := closeLoop_ok closed
    rw [LoopsNested, loops] at nested
    rw [framesAfter, loops]
    exact nested.closing.advance grown
  · rw [closedSpan?_of_ne accepted closing, Option.toList_none, List.append_nil]
    by_cases opening : op = .openLoop
    · subst opening
      exact nested.opening.advance grown
    · have starts : (framesAfter s.frames s.position op).loops.map (·.redo) =
          s.frames.loops.map (·.redo) := by
        cases op with
        | closeLoop => exact absurd rfl closing
        | openLoop => exact absurd rfl opening
        | addExit label =>
            rw [framesAfter, Frames.pushExit]
            cases frames : s.frames.loops <;> simp [frames]
        | _ => rfl
      rw [starts]
      exact nested.advance grown

theorem loopsNested_run {closed : List Span} (nested : LoopsNested closed s) (ops : List Op)
    (accepted : s.accepts ops = true) : LoopsNested (closed ++ s.closedLoops ops) (s.run ops) := by
  induction ops generalizing s closed with
  | nil =>
      change LoopsNested (closed ++ []) s
      rw [List.append_nil]
      exact nested
  | cons op ops ih =>
      obtain ⟨⟨answer, first⟩, rest⟩ := (acceptsBy_cons step).mp accepted
      have split : s.closedLoops (op :: ops) =
          (closedSpan? (.ok answer)).toList ++ (s.step op).after.closedLoops ops := by
        rw [← first]
        exact filterMap_answersBy_cons step (fun answered => closedSpan? answered.2) s op ops
      rw [split, ← List.append_assoc]
      exact ih (loopsNested_step nested first) rest

end Scope

end BytecodeScopes
