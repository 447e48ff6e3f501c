import BytecodeScopes.Proofs.Label.Run
import BytecodeScopes.Proofs.Scope.Frames

/-!
Runs from which actions are left out. Loops and retries do not know of each other: in a run without
refusals, leaving out all that is done to the one kind changes no answer about the other.
-/

namespace BytecodeScopes

namespace Labels

variable {ls more : Labels} {label : Label} {target : Nat}

/-- The same labels were given out, and no more of them have a target. -/
structure Freer (ls more : Labels) : Prop where
  labels : ls.jumps.map (·.label) = more.jumps.map (·.label)
  untargeted : ∀ label, more.target? label = none → ls.target? label = none

theorem Freer.refl (ls : Labels) : ls.Freer ls := ⟨rfl, fun _ none => none⟩

theorem Freer.of_jumps {ls' more' : Labels} (freer : ls.Freer more) (own : ls'.jumps = ls.jumps)
    (others : more'.jumps = more.jumps) : ls'.Freer more' where
  labels := by
    rw [own, others]
    exact freer.labels
  untargeted := by
    intro label none
    rw [target?, others] at none
    rw [target?, own]
    exact freer.untargeted label none

theorem Freer.size (freer : ls.Freer more) : ls.jumps.size = more.jumps.size := by
  simpa using congrArg Array.size freer.labels

theorem Freer.jump? (freer : ls.Freer more) {jump : Jump} (found : more.jump? label = some jump) :
    ∃ own, ls.jump? label = some own := by
  obtain ⟨there, same⟩ := jump?_eq_some_iff.mp found
  have labels := congrArg (·[label.id.index]?) freer.labels
  simp only [Array.getElem?_map, there, Option.map_some, same] at labels
  obtain ⟨own, here, named⟩ := Option.map_eq_some_iff.mp labels
  exact ⟨own, jump?_eq_some_iff.mpr ⟨here, named⟩⟩

theorem Freer.checkQueue (freer : ls.Freer more) (checked : more.checkQueue label = .ok ()) :
    ls.checkQueue label = .ok () := by
  unfold Labels.checkQueue at checked ⊢
  cases found : more.jump? label with
  | none =>
      rw [found] at checked
      cases checked
  | some jump =>
      obtain ⟨own, here⟩ := freer.jump? found
      rw [here]

theorem Freer.checkResolve (freer : ls.Freer more) {code longer : Code} {limits : Limits}
    (size : code.size = longer.size) {distance : Int}
    (checked : more.checkResolve longer limits label target = .ok distance) :
    ls.checkResolve code limits label target = .ok distance := by
  unfold Labels.checkResolve at checked ⊢
  cases found : more.jump? label with
  | none =>
      rw [found] at checked
      cases checked
  | some jump =>
      rw [found] at checked
      obtain ⟨own, here⟩ := freer.jump? found
      rw [here]
      cases targeted : jump.target with
      | some resolved =>
          simp only [targeted, Option.isSome_some, if_true] at checked
          cases checked
      | none =>
          have free := freer.untargeted label ((target?_of_jump? found).trans targeted)
          rw [target?_of_jump? here] at free
          simp only [targeted, Option.isSome_none, Bool.false_eq_true, if_false] at checked
          simp only [free, Option.isSome_none, Bool.false_eq_true, if_false]
          rw [Code.checkPatch, size]
          exact checked

theorem Freer.settle_more (freer : ls.Freer more) (label : Label) (target : Nat) :
    ls.Freer (more.settle label target) where
  labels := freer.labels.trans (labels_settle more label target).symm
  untargeted := by
    intro other none
    apply freer.untargeted
    rw [target?_settle] at none
    split at none
    · rw [Labels.target?, Option.map_eq_none_iff.mp none]
      rfl
    · exact none

theorem Freer.settle (freer : ls.Freer more) (label : Label) (target : Nat) :
    (ls.settle label target).Freer (more.settle label target) where
  labels := by rw [labels_settle, labels_settle, freer.labels]
  untargeted := by
    intro other none
    rw [target?_settle] at none ⊢
    split at none
    · rename_i same
      rw [if_pos same]
      have outside := Array.getElem?_eq_none_iff.mp (Option.map_eq_none_iff.mp none)
      rw [← freer.size] at outside
      rw [Array.getElem?_eq_none outside]
      rfl
    · rename_i apart
      rw [if_neg apart]
      exact freer.untargeted other none

theorem Freer.push {ls' more' : Labels} (freer : ls.Freer more)
    (own : ls'.jumps = ls.jumps.push ⟨label, none⟩)
    (others : more'.jumps = more.jumps.push ⟨label, none⟩) : ls'.Freer more' where
  labels := by simp [own, others, freer.labels]
  untargeted := by
    intro other none
    simp only [Labels.target?, own, others, Array.getElem?_push, freer.size] at none ⊢
    split at none
    · rename_i last
      rw [if_pos last]
      rfl
    · rename_i before
      rw [if_neg before]
      exact freer.untargeted other none

end Labels

namespace Scope

variable {s : Scope} {op : Op} {answer : Answer}

/-- If two scopes stay related when the first takes an action that is left out, and when both take
any other, then the second gives the same answers that count without the actions left out. -/
theorem answers_without (R : Scope → Scope → Prop) (gone shown : Op → Bool)
    (apart : ∀ op, shown op = true → gone op = false)
    (skipped : ∀ s t op answer, R s t → gone op = true → (s.step op).answer = .ok answer →
      R (s.step op).after t)
    (matched : ∀ s t op answer, R s t → gone op = false → (s.step op).answer = .ok answer →
      (shown op = true → (t.step op).answer = .ok answer) ∧ R (s.step op).after (t.step op).after)
    {s t : Scope} (related : R s t) (ops : List Op) (accepted : s.accepts ops = true) :
    (t.answers (ops.filter (!gone ·))).filter (shown ·.1) = (s.answers ops).filter (shown ·.1) := by
  induction ops generalizing s t with
  | nil => rfl
  | cons op ops ih =>
      obtain ⟨⟨answer, first⟩, rest⟩ := (acceptsBy_cons step).mp accepted
      cases left : gone op with
      | true =>
          have unseen : shown op = false := by
            cases seen : shown op with
            | false => rfl
            | true =>
                rw [apart op seen] at left
                cases left
          simp only [answers, answersBy, List.filter_cons, left, unseen, Bool.not_true,
            Bool.false_eq_true, if_false]
          exact ih (skipped s t op answer related left first) rest
      | false =>
          obtain ⟨same, after⟩ := matched s t op answer related left first
          have later := ih after rest
          cases seen : shown op with
          | true =>
              simp only [answers, answersBy, List.filter_cons, left, seen, Bool.not_false, if_true,
                same seen, first]
              exact congrArg (_ :: ·) later
          | false =>
              simp only [answers, answersBy, List.filter_cons, left, seen, Bool.not_false, if_true,
                Bool.false_eq_true, if_false]
              exact later

section Beside

variable {f : Scope → Scope} {α β : Type}

/-- A change of a scope that leaves its number and its phase alone. -/
structure Beside (f : Scope → Scope) : Prop where
  phase : ∀ s, (f s).phase = s.phase
  id : ∀ s, (f s).id = s.id
  failed : ∀ s : Scope, f { s with phase := .failed } = { f s with phase := .failed }

theorem abort_embed (beside : Beside f) (s : Scope) (fault : Fault) :
    (f s).abort fault = (s.abort (α := α) fault).embed f := by
  unfold abort
  split
  · simp only [Reply.embed, beside.id, beside.failed]
  · rfl

theorem whileBuilding_embed (beside : Beside f) {act : Scope → Reply Scope α}
    (acted : act (f s) = (act s).embed f) :
    (f s).whileBuilding act = (s.whileBuilding act).embed f := by
  unfold whileBuilding
  rw [beside.phase, beside.id]
  split
  · exact acted
  · rfl
  · rfl

theorem attempt_embed (beside : Beside f) {check : Scope → Except Fault β}
    {commit : Scope → β → α × Scope} (checks : check (f s) = check s)
    (commits : ∀ plan, commit (f s) plan = ((commit s plan).1, f (commit s plan).2)) :
    (f s).attempt check commit = (s.attempt check commit).embed f := by
  apply whileBuilding_embed beside
  rw [checks]
  cases check s with
  | ok plan =>
      dsimp only
      rw [commits plan]
      rfl
  | error fault => exact abort_embed beside s fault

theorem change_embed (beside : Beside f) {commit : Scope → α × Scope}
    (commits : commit (f s) = ((commit s).1, f (commit s).2)) :
    (f s).change commit = (s.change commit).embed f := by
  apply whileBuilding_embed beside
  dsimp only
  rw [commits]
  rfl

end Beside

def refit (f : Frames → Frames) (g : Code × Labels → Code × Labels) (s : Scope) : Scope :=
  { s with
    frames := f s.frames
    code := (g (s.code, s.labels)).1
    labels := (g (s.code, s.labels)).2 }

theorem beside_refit (f : Frames → Frames) (g : Code × Labels → Code × Labels) :
    Beside (refit f g) where
  phase := fun _ => rfl
  id := fun _ => rfl
  failed := fun _ => rfl

/-- An action that touches neither frames nor code sees nothing of them but the position. -/
theorem step_refit {f : Frames → Frames} {g : Code × Labels → Code × Labels}
    (body : .body ∉ op.touches) (frames : .frames ∉ op.touches)
    (position : (s.refit f g).position = s.position) :
    (s.refit f g).step op = (s.step op).embed (refit f g) := by
  have beside := beside_refit f g
  cases op with
  | push | pop | popMany | setHeight | declare | addLiteral | addSymbol | addSetter | addHandler |
    setSignature =>
      exact congrArg (Reply.map _) (attempt_embed beside rfl fun _ => rfl)
  | popSetter | pushText | popText | markLoop | unmarkLoop | beginList | restoreList | element |
    splat | finishList =>
      exact congrArg (Reply.map _) (change_embed beside rfl)
  | openRegion =>
      exact congrArg (Reply.map _) (change_embed beside (by rw [position]))
  | closeRegion start kind target =>
      rw [step, closeRegion, position]
      exact congrArg (Reply.map _) (attempt_embed beside rfl fun _ => rfl)
  | emit | emitAll | emitOperand | reserve | queue | dequeue | resolve =>
      exact absurd (List.mem_singleton_self _) body
  | openLoop | addExit | openRetry | closeRetry =>
      exact absurd (List.mem_singleton_self _) frames
  | closeLoop => exact absurd List.mem_cons_self frames

def withRetries (retries : List Nat) (s : Scope) : Scope :=
  s.refit (fun frames => { frames with retries }) fun body => body

theorem beside_withRetries (retries : List Nat) : Beside (withRetries retries) :=
  beside_refit (fun frames => { frames with retries }) fun body => body

theorem resolveAll_withRetries (retries : List Nat) (target : Nat) (labels : List Label)
    (s : Scope) : resolveAll target labels (s.withRetries retries) =
      (resolveAll target labels s).embed (withRetries retries) := by
  induction labels generalizing s with
  | nil => rfl
  | cons label labels ih =>
      have same : (s.withRetries retries).checkResolve label target =
          s.checkResolve label target := rfl
      cases checked : s.checkResolve label target with
      | error fault =>
          rw [resolveAll_cons_error checked, resolveAll_cons_error (same.trans checked)]
          exact abort_embed (beside_withRetries retries) s fault
      | ok distance =>
          simp only [resolveAll, same, checked]
          exact congrArg (fun reply : Reply Scope Unit =>
            { reply with log := Labels.resolved label target distance :: reply.log })
            (ih (s.settle label target distance))

theorem closeLoop_withRetries (retries : List Nat) (s : Scope) :
    (s.withRetries retries).closeLoop = s.closeLoop.embed (withRetries retries) := by
  have beside := beside_withRetries retries
  apply whileBuilding_embed beside
  have position : (s.withRetries retries).position = s.position := rfl
  have loops : (s.withRetries retries).frames.loops = s.frames.loops := rfl
  cases frames : s.frames.loops with
  | nil =>
      simp only [Frames.closeLoop, loops, frames]
      exact abort_embed beside s _
  | cons frame outer =>
      simp only [Frames.closeLoop, loops, frames, position]
      exact congrArg (Reply.map _) (resolveAll_withRetries retries _ _
        { s with frames := { s.frames with loops := outer } })

theorem step_withRetries (other : op.forRetries = false) (retries : List Nat) (s : Scope) :
    (s.withRetries retries).step op = (s.step op).embed (withRetries retries) := by
  have beside := beside_withRetries retries
  cases op with
  | emit | emitAll | emitOperand | reserve | dequeue | openLoop =>
      exact congrArg (Reply.map _) (change_embed beside rfl)
  | queue => exact congrArg (Reply.map _) (attempt_embed beside rfl fun _ => rfl)
  | addExit label =>
      have pushed : (s.withRetries retries).frames.pushExit label =
          { s.frames.pushExit label with retries } := by
        change Frames.pushExit { s.frames with retries } label = _
        simp only [Frames.pushExit]
        split <;> rfl
      refine congrArg (Reply.map _) (attempt_embed beside rfl ?_)
      intro plan
      rw [pushed]
      rfl
  | resolve label target =>
      exact congrArg (Reply.map _)
        (whileBuilding_embed beside (resolveAll_withRetries retries target [label] s))
  | closeLoop => exact congrArg (Reply.map _) (closeLoop_withRetries retries s)
  | openRetry | closeRetry => cases other
  | _ => exact step_refit (by simp [Op.touches]) (by simp [Op.touches]) rfl

theorem step_forRetries (own : op.forRetries = true) (accepted : (s.step op).answer = .ok answer) :
    ∃ retries, (s.step op).after = s.withRetries retries := by
  cases op with
  | openRetry =>
      rw [step, openRetry, change_of_building (building_of_accepted accepted)]
      exact ⟨_, rfl⟩
  | closeRetry =>
      obtain ⟨position, closed, -⟩ := Reply.map_eq_ok_iff.mp accepted
      obtain ⟨outer, -, after⟩ := closeRetry_ok closed
      rw [step, Reply.after_map, after]
      exact ⟨outer, rfl⟩
  | _ => cases own

theorem answers_without_retries (ops : List Op) (accepted : s.accepts ops = true) :
    s.answers (ops.filter (!·.forRetries)) = (s.answers ops).filter (!·.1.forRetries) := by
  have others : ∀ answered ∈ s.answers (ops.filter (!·.forRetries)),
      (!answered.1.forRetries) = true := by
    intro answered member
    exact (List.mem_filter.mp (mem_of_mem_answersBy step member)).2
  rw [← List.filter_eq_self.mpr others]
  apply answers_without (fun s t => ∃ retries, t = s.withRetries retries) Op.forRetries
    fun op => !op.forRetries
  · intro op shown
    simpa using shown
  · rintro s t op answer ⟨retries, rfl⟩ own accepted
    obtain ⟨left, after⟩ := step_forRetries own accepted
    rw [after]
    exact ⟨retries, rfl⟩
  · rintro s t op answer ⟨retries, rfl⟩ other accepted
    rw [step_withRetries other]
    exact ⟨fun _ => accepted, retries, rfl⟩
  · exact ⟨s.frames.retries, rfl⟩
  · exact accepted

def loosen (loops : List LoopFrame) (code : Code) (labels : Labels) (s : Scope) : Scope :=
  s.refit (fun frames => { frames with loops }) fun _ => (code, labels)

/-- The second is the first with other loops, other code of the same size, and labels of which no
more have a target. -/
def Looser (s t : Scope) : Prop :=
  ∃ loops code labels, t = s.loosen loops code labels ∧
    code.size = s.code.size ∧ labels.Freer s.labels

theorem position_loosen {code : Code} (size : code.size = s.code.size) (loops : List LoopFrame)
    (labels : Labels) : (s.loosen loops code labels).position = s.position := by
  change min code.size _ = min s.code.size _
  rw [size]

theorem Looser.settle {t : Scope} (looser : s.Looser t) (label : Label) (target : Nat)
    (distance : Int) : (s.settle label target distance).Looser t := by
  obtain ⟨loops, code, labels, rfl, size, freer⟩ := looser
  refine ⟨loops, code, labels, rfl, ?_, freer.settle_more label target⟩
  rw [Scope.settle, Code.size_overwrite]
  exact size

theorem Looser.frames {t : Scope} (looser : s.Looser t) {frames : Frames}
    (retries : frames.retries = s.frames.retries) : { s with frames }.Looser t := by
  obtain ⟨loops, code, labels, rfl, size, freer⟩ := looser
  refine ⟨loops, code, labels, ?_, size, freer⟩
  simp only [loosen, refit, retries]

theorem looser_skipped {t : Scope} (looser : s.Looser t) (own : op.forLoops = true)
    (accepted : (s.step op).answer = .ok answer) : (s.step op).after.Looser t := by
  have building := building_of_accepted accepted
  cases op with
  | openLoop =>
      rw [step, openLoop, change_of_building building]
      exact looser.frames rfl
  | addExit label =>
      obtain ⟨done, added, -⟩ := Reply.map_eq_ok_iff.mp accepted
      rw [step, Reply.after_map, addExit_ok added]
      exact looser.frames (s.frames.retries_pushExit label)
  | closeLoop =>
      obtain ⟨frame, closed, -⟩ := Reply.map_eq_ok_iff.mp accepted
      obtain ⟨innermost, outer, frames, -, -⟩ := closeLoop_ok closed
      rw [closeLoop_of_cons building frames] at closed
      obtain ⟨done, resolved, -⟩ := Reply.map_eq_ok_iff.mp closed
      rw [step, closeLoop_of_cons building frames, Reply.after_map, Reply.after_map]
      apply resolveAll_ok (P := (·.Looser t)) _ _ resolved
      · exact fun s label distance looser => looser.settle label _ distance
      · exact looser.frames rfl
  | _ => cases own

theorem step_loosen (other : op.forLoops = false) (body : .body ∉ op.touches)
    {code : Code} (size : code.size = s.code.size) (loops : List LoopFrame) (labels : Labels) :
    (s.loosen loops code labels).step op = (s.step op).embed (loosen loops code labels) := by
  have position := position_loosen size loops labels
  have beside : Beside (loosen loops code labels) :=
    beside_refit (fun frames => { frames with loops }) fun _ => (code, labels)
  cases own : op.forRetries with
  | true =>
      cases op with
      | openRetry =>
          refine congrArg (Reply.map _) (change_embed beside ?_)
          rw [position]
          rfl
      | closeRetry =>
          refine congrArg (Reply.map _) (whileBuilding_embed beside ?_)
          have retries : (s.loosen loops code labels).frames.retries = s.frames.retries := rfl
          cases frames : s.frames.retries with
          | nil =>
              simp only [Frames.closeRetry, retries, frames]
              exact abort_embed beside s _
          | cons position outer =>
              simp only [Frames.closeRetry, retries, frames]
              rfl
      | _ => cases own
  | false =>
      apply step_refit body _ position
      cases op with
      | openLoop | addExit | closeLoop => cases other
      | openRetry | closeRetry => cases own
      | _ => simp [Op.touches]

theorem looser_apart {t : Scope} (looser : s.Looser t) (other : op.forLoops = false)
    (body : .body ∉ op.touches) (accepted : (s.step op).answer = .ok answer) :
    (t.step op).answer = .ok answer ∧ (s.step op).after.Looser (t.step op).after := by
  obtain ⟨loops, code, labels, rfl, size, freer⟩ := looser
  obtain ⟨sameCode, sameLabels⟩ := body_step (s := s) body
  rw [step_loosen other body size]
  refine ⟨accepted, loops, code, labels, rfl, ?_, ?_⟩
  · rw [sameCode]
    exact size
  · rw [sameLabels]
    exact freer

theorem looser_resolve {loops : List LoopFrame} {code : Code} {labels : Labels}
    (size : code.size = s.code.size) (freer : labels.Freer s.labels) {label : Label} {target : Nat}
    (accepted : (s.resolve label target).answer = .ok ()) :
    (s.resolve label target).after.Looser
      ((s.loosen loops code labels).resolve label target).after := by
  have building : s.phase = .building := building_of_ok accepted
  have still : (s.loosen loops code labels).phase = .building := building
  rw [resolve, whileBuilding_of_building building] at accepted ⊢
  rw [resolve, whileBuilding_of_building still]
  cases checked : s.checkResolve label target with
  | error fault =>
      rw [resolveAll_cons_error checked, answer_abort] at accepted
      cases accepted
  | ok distance =>
      have alike : (s.loosen loops code labels).checkResolve label target = .ok distance :=
        freer.checkResolve size checked
      rw [(resolveAll_cons_ok checked []).2, (resolveAll_cons_ok alike []).2]
      refine ⟨loops, code.overwrite label.operand (.ofInt distance), labels.settle label target,
        rfl, ?_, freer.settle label target⟩
      change Code.size _ = (s.code.overwrite _ _).size
      rw [Code.size_overwrite, Code.size_overwrite, size]

theorem looser_queue {loops : List LoopFrame} {code : Code} {labels : Labels}
    (size : code.size = s.code.size) (freer : labels.Freer s.labels) {label : Label}
    (accepted : (s.queue label).answer = .ok ()) :
    (s.queue label).after.Looser ((s.loosen loops code labels).queue label).after := by
  have building : s.phase = .building := building_of_ok accepted
  have still : (s.loosen loops code labels).phase = .building := building
  cases checked : s.labels.checkQueue label with
  | error fault =>
      rw [queue, attempt_of_error building checked, answer_abort] at accepted
      cases accepted
  | ok done =>
      have alike : (s.loosen loops code labels).labels.checkQueue label = .ok () :=
        freer.checkQueue checked
      rw [queue, attempt_of_ok building checked, queue, attempt_of_ok still alike]
      exact ⟨loops, code, labels.enqueue label, rfl, size, freer.of_jumps rfl rfl⟩

theorem looser_reserve {loops : List LoopFrame} {code : Code} {labels : Labels}
    (size : code.size = s.code.size) (freer : labels.Freer s.labels)
    (building : s.phase = .building) :
    s.reserve.after.Looser (s.loosen loops code labels).reserve.after := by
  have still : (s.loosen loops code labels).phase = .building := building
  have same : (labels.reserve code).1 = (s.labels.reserve s.code).1 := by
    simp only [Labels.reserve, Code.position, Code.size_pushWord, freer.size, size]
  rw [reserve, change_of_building building, reserve, change_of_building still]
  refine ⟨loops, code.pushWord 0, (labels.reserve code).2.1, rfl, ?_, ?_⟩
  · change _ = (s.code.pushWord 0).size
    rw [Code.size_pushWord, Code.size_pushWord, size]
  · have own : (labels.reserve code).2.1.jumps =
        labels.jumps.push ⟨(s.labels.reserve s.code).1, none⟩ := by
      rw [← same]
      rfl
    exact freer.push own rfl

theorem looser_emitted {loops : List LoopFrame} {code own others : Code} {labels : Labels}
    (freer : labels.Freer s.labels) (size : own.size = others.size) :
    { s with code := others }.Looser { s.loosen loops code labels with code := own } :=
  ⟨loops, own, labels, rfl, size, freer⟩

theorem looser_body {t : Scope} (looser : s.Looser t) (other : op.forLoops = false)
    (body : .body ∈ op.touches) (accepted : (s.step op).answer = .ok answer) :
    (s.step op).after.Looser (t.step op).after := by
  have building := building_of_accepted accepted
  obtain ⟨loops, code, labels, rfl, size, freer⟩ := looser
  have still : (s.loosen loops code labels).phase = .building := building
  have alike : (s.loosen loops code labels).code.size = s.code.size := size
  cases op with
  | emit byte =>
      rw [step, emit, change_of_building building, step, emit, change_of_building still]
      exact looser_emitted freer (by simp only [Code.size_push, alike])
  | emitAll bytes =>
      rw [step, emitAll, change_of_building building, step, emitAll, change_of_building still]
      exact looser_emitted freer (by simp only [Code.size_append, alike])
  | emitOperand opcode operand =>
      rw [step, emitOperand, change_of_building building, step, emitOperand,
        change_of_building still]
      exact looser_emitted freer (by simp only [Code.size_pushWord, Code.size_push, alike])
  | reserve => exact looser_reserve size freer building
  | queue label =>
      obtain ⟨done, queued, -⟩ := Reply.map_eq_ok_iff.mp accepted
      exact looser_queue size freer queued
  | dequeue =>
      rw [step, dequeue, change_of_building building, step, dequeue, change_of_building still]
      exact ⟨loops, code, labels.dequeue.2, rfl, size,
        freer.of_jumps labels.jumps_dequeue s.labels.jumps_dequeue⟩
  | resolve label target =>
      obtain ⟨done, resolved, -⟩ := Reply.map_eq_ok_iff.mp accepted
      exact looser_resolve size freer resolved
  | closeLoop => cases other
  | _ => simp [Op.touches] at body

theorem answers_without_loops (ops : List Op) (accepted : s.accepts ops = true) :
    (s.answers (ops.filter (!·.forLoops))).filter (·.1.forRetries) =
      (s.answers ops).filter (·.1.forRetries) := by
  apply answers_without Looser Op.forLoops Op.forRetries
  · intro op shown
    cases op with
    | openRetry | closeRetry => rfl
    | _ => cases shown
  · exact fun s t op answer looser own accepted => looser_skipped looser own accepted
  · intro s t op answer looser other accepted
    -- Closing a loop writes into the code, so only actions apart from it answer the same for sure.
    by_cases body : .body ∈ op.touches
    · refine ⟨?_, looser_body looser other body accepted⟩
      intro shown
      cases op with
      | openRetry | closeRetry => simp [Op.touches] at body
      | _ => cases shown
    · obtain ⟨same, after⟩ := looser_apart looser other body accepted
      exact ⟨fun _ => same, after⟩
  · exact ⟨s.frames.loops, s.code, s.labels, rfl, rfl, .refl s.labels⟩
  · exact accepted

/-- In a run without refusals that starts with no frame open, closing gives the loop or the retry
whose opening matches, loops with the exits added while they were innermost. Without the retries
nothing else is answered differently, without the loops no retry is, and of two loops that were
closed the one closed first lies inside the other or ends before it starts. -/
theorem frames_matched (start : Scope) (unframed : start.frames = {}) (ops : List Op)
    (accepted : start.accepts ops = true) :
    (∀ before after, ops = before ++ .closeLoop :: after →
      ∃ front inner, before = front ++ .openLoop :: inner ∧
        Balanced .openLoop .closeLoop inner ∧
        ((start.run before).step .closeLoop).answer = .ok (.loop
          { redo := (start.run front).position
            next := some (start.run before).position
            exits := (ownExits 0 inner).toArray })) ∧
    (∀ before after, ops = before ++ .closeRetry :: after →
      ∃ front inner, before = front ++ .openRetry :: inner ∧
        Balanced .openRetry .closeRetry inner ∧
        ((start.run before).step .closeRetry).answer =
          .ok (.position (start.run front).position)) ∧
    start.answers (ops.filter (!·.forRetries)) = (start.answers ops).filter (!·.1.forRetries) ∧
    (start.answers (ops.filter (!·.forLoops))).filter (·.1.forRetries) =
      (start.answers ops).filter (·.1.forRetries) ∧
    (start.closedLoops ops).Pairwise fun first second =>
      second.start ≤ first.start ∧ first.stop ≤ second.stop ∨ first.stop ≤ second.start := by
  refine ⟨?_, ?_, answers_without_retries ops accepted, answers_without_loops ops accepted, ?_⟩
  · intro before after split
    rw [split] at accepted
    exact closeLoop_matched unframed accepted
  · intro before after split
    rw [split] at accepted
    exact closeRetry_matched unframed accepted
  · have none : LoopsNested [] start := by
      rw [LoopsNested, unframed]
      exact Span.Nested.none _
    exact (loopsNested_run none ops accepted).yielding

/-- Loops and retries that cross, with exits of the outer loop on both sides of the inner one. -/
def crossing : List Op :=
  [.openLoop, .reserve, .addExit ⟨⟨0⟩, 0, 2⟩, .openRetry, .openLoop, .reserve,
    .addExit ⟨⟨1⟩, 2, 4⟩, .closeRetry, .emit 7, .closeLoop, .reserve, .addExit ⟨⟨2⟩, 5, 7⟩,
    .openRetry, .closeLoop, .emit 8, .closeRetry]

theorem frames_matched_crossing :
    ∃ start : Scope, start = fresh ⟨0⟩ none true .method {} ∧ start.accepts crossing = true ∧
      start.closedLoops crossing = [⟨2, 5⟩, ⟨0, 7⟩] ∧
      (∃ front inner, crossing.take 13 = front ++ .openLoop :: inner ∧
        Balanced .openLoop .closeLoop inner ∧
        ((start.run (crossing.take 13)).step .closeLoop).answer = .ok (.loop
          { redo := (start.run front).position
            next := some (start.run (crossing.take 13)).position
            exits := (ownExits 0 inner).toArray })) ∧
      (start.answers (crossing.filter (!·.forLoops))).filter (·.1.forRetries) =
        (start.answers crossing).filter (·.1.forRetries) := by
  have accepted : (fresh ⟨0⟩ none true .method {}).accepts crossing = true := by decide
  obtain ⟨loops, -, -, retries, -⟩ := frames_matched _ rfl crossing accepted
  exact ⟨_, rfl, accepted, by decide, loops (crossing.take 13) _ rfl, retries⟩

end Scope

end BytecodeScopes
