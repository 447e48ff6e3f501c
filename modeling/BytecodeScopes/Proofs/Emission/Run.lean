import BytecodeScopes.Proofs.Emission.Recorded
import BytecodeScopes.Proofs.Label.Run
import Mathlib.Data.List.Infix

namespace BytecodeScopes

/-- The history after an action with an answer. Only accepted actions write and resolve, but for the
attempt to close a loop: it has resolved the exits before the one that it failed on. -/
def History.record (h : History) (s : Scope) (op : Scope.Op) (answer : Except Fault Scope.Answer) :
    History :=
  match op, answer with
  | .emit byte, .ok _ => h.write (.plain [byte])
  | .emitAll bytes, .ok _ => h.write (.plain bytes.toList)
  | .emitOperand opcode operand, .ok _ => h.write (.plain (opcode :: BigEndian.word16 operand))
  | .reserve, .ok (.label label) => h.write (.operand label)
  | .resolve label target, .ok _ => h.resolve label target
  | .closeLoop, .ok (.loop frame) => h.resolveAll s.position frame.exits.toList
  | .closeLoop, .error _ =>
      match s.phase, s.frames.loop? with
      | .building, some frame => h.resolveWhile s.limits s.position frame.exits.toList
      | _, _ => h
  | _, _ => h

def History.extend (h : History) (s : Scope) : Scope.Move → History
  | .act op => h.record s op (s.step op).answer
  | .finish _ => h

namespace Scope

def historyFrom (s : Scope) (h : History) : List Move → History
  | [] => h
  | m :: moves => (s.move m).after.historyFrom (h.extend s m) moves

def history (s : Scope) (moves : List Move) : History := s.historyFrom {} moves

theorem record_of_apart (h : History) (s : Scope) {op : Op} (apart : .body ∉ op.touches)
    (answer : Except Fault Answer) : h.record s op answer = h := by
  cases op with
  | emit | emitAll | emitOperand | reserve | queue | dequeue | resolve | closeLoop =>
      exact absurd (by simp [Op.touches]) apart
  | _ => rfl

variable {h : History} {s : Scope}

theorem recorded_resolveAll (target : Nat) (labels : List Label) (fit : s.limits.JumpsFit)
    (recorded : Recorded h s.labels s.code) :
    Recorded (h.resolveWhile s.limits target labels) (resolveAll target labels s).after.labels
        (resolveAll target labels s).after.code ∧
      ((resolveAll target labels s).answer = .ok () →
        h.resolveWhile s.limits target labels = h.resolveAll target labels) := by
  induction labels generalizing h s with
  | nil => exact ⟨recorded, fun _ => rfl⟩
  | cons label labels ih =>
      by_cases resolvable : h.Resolvable s.limits label target
      · have checked := recorded.checkResolve_of_resolvable resolvable
        have rest := ih (s := s.settle label target (Resolution.mk label target).distance) fit
          (recorded.settle fit resolvable)
        obtain ⟨answer, after⟩ := resolveAll_cons_ok checked labels
        rw [History.resolveWhile, if_pos resolvable, answer, after]
        exact rest
      · obtain ⟨fault, checked⟩ := recorded.checkResolve_of_not_resolvable resolvable
        rw [History.resolveWhile, if_neg resolvable, resolveAll_cons_error checked]
        constructor
        · apply after_abort (P := fun after => Recorded h after.labels after.code)
          · exact recorded
          · exact recorded
        · intro accepted
          rw [answer_abort] at accepted
          cases accepted

/-- What one action makes of code and labels is what the history after it tells. -/
def Told (h : History) (s : Scope) (op : Op) (reply : Reply Scope Answer) : Prop :=
  Recorded (h.record s op reply.answer) reply.after.labels reply.after.code

theorem told_resolve (building : s.phase = .building) (label : Label) (target : Nat)
    (fit : s.limits.JumpsFit) (recorded : Recorded h s.labels s.code) :
    Told h s (.resolve label target) (s.step (.resolve label target)) := by
  have reply : s.step (.resolve label target) =
      (resolveAll target [label] s).map fun _ => .done := by
    rw [step, resolve, whileBuilding_of_building building]
  obtain ⟨kept, all⟩ := recorded_resolveAll target [label] fit recorded
  rw [reply]
  by_cases resolvable : h.Resolvable s.limits label target
  · have checked := recorded.checkResolve_of_resolvable resolvable
    have accepted : (resolveAll target [label] s).answer = .ok () :=
      (resolveAll_cons_ok checked []).1
    rw [all accepted] at kept
    simp only [Told, Reply.map, accepted]
    exact kept
  · obtain ⟨fault, checked⟩ := recorded.checkResolve_of_not_resolvable resolvable
    have refused : (resolveAll target [label] s).answer = .error fault := by
      rw [resolveAll_cons_error checked, answer_abort]
    rw [History.resolveWhile, if_neg resolvable] at kept
    simp only [Told, Reply.map, refused]
    exact kept

theorem told_closeLoop (building : s.phase = .building) (fit : s.limits.JumpsFit)
    (recorded : Recorded h s.labels s.code) : Told h s .closeLoop (s.step .closeLoop) := by
  cases frames : s.frames.loops with
  | nil =>
      have same : h.record s .closeLoop (.error (.noOpenFrame .loops)) = h := by
        simp only [History.record, building, Frames.loop?, frames, List.head?_nil]
      rw [step, closeLoop_of_nil building frames, Told, Reply.after_map]
      simp only [Reply.map, answer_abort, Except.map, same]
      exact after_abort (P := fun after => Recorded h after.labels after.code) _ recorded recorded
  | cons frame outer =>
      have innermost : s.frames.loop? = some frame := by
        rw [Frames.loop?, frames]
        rfl
      let inner : Scope := { s with frames := { s.frames with loops := outer } }
      obtain ⟨kept, all⟩ :=
        recorded_resolveAll (s := inner) s.position frame.exits.toList fit recorded
      rw [step, closeLoop_of_cons building frames, Told, Reply.after_map, Reply.after_map]
      change Recorded (h.record s .closeLoop
        (((resolveAll s.position frame.exits.toList inner).answer.map _).map _)) _ _
      cases answer : (resolveAll s.position frame.exits.toList inner).answer with
      | ok done =>
          rw [all answer] at kept
          exact kept
      | error fault =>
          have stopped : h.record s .closeLoop (.error fault) =
              h.resolveWhile s.limits s.position frame.exits.toList := by
            simp only [History.record, building, innermost]
          change Recorded (h.record s .closeLoop (.error fault)) _ _
          rw [stopped]
          exact kept

theorem told_step (building : s.phase = .building) (op : Op) (fit : s.limits.JumpsFit)
    (recorded : Recorded h s.labels s.code)
    (small : (s.step op).after.code.size < 4294967296) : Told h s op (s.step op) := by
  by_cases touched : .body ∈ op.touches
  · cases op with
    | emit byte =>
        rw [step, emit, change_of_building building]
        exact recorded.append (s.code.bytes_push byte)
    | emitAll bytes =>
        rw [step, emitAll, change_of_building building]
        exact recorded.append (s.code.bytes_append bytes)
    | emitOperand opcode operand =>
        have appended : ((s.code.push opcode).pushWord operand).bytes.toList =
            s.code.bytes.toList ++ opcode :: BigEndian.word16 operand := by
          rw [Code.bytes_pushWord, Code.bytes_push, List.append_assoc, List.singleton_append]
        rw [step, emitOperand, change_of_building building]
        exact recorded.append appended
    | reserve =>
        rw [step, reserve, change_of_building building] at small ⊢
        apply recorded.reserve
        simpa [Reply.map, Reply.accept, Labels.reserve] using small
    | queue label =>
        cases checked : s.labels.checkQueue label with
        | ok done =>
            rw [step, queue, attempt_of_ok building checked]
            exact recorded.waiting _
        | error fault =>
            rw [step, queue, attempt_of_error building checked]
            exact after_abort (P := fun after => Recorded h after.labels after.code) fault
              recorded recorded
    | dequeue =>
        obtain ⟨pending, taken⟩ := s.labels.dequeue_eq
        rw [step, dequeue, change_of_building building]
        change Recorded h s.labels.dequeue.2 s.code
        rw [taken]
        exact recorded.waiting pending
    | resolve label target => exact told_resolve building label target fit recorded
    | closeLoop => exact told_closeLoop building fit recorded
    | _ => simp [Op.touches] at touched
  · obtain ⟨code, labels⟩ := body_step (s := s) touched
    rw [Told, record_of_apart h s touched, code, labels]
    exact recorded

theorem record_of_failed (failed : s.phase = .failed) (op : Op) (fault : Fault) :
    h.record s op (.error fault) = h := by
  cases op with
  | closeLoop => simp only [History.record, failed]
  | _ => rfl

theorem recorded_move (m : Move) (fit : s.limits.JumpsFit)
    (small : (s.move m).after.code.size < 4294967296)
    (before : s.output? = none → Recorded h s.labels s.code)
    (unfinished : (s.move m).after.output? = none) :
    Recorded (h.extend s m) (s.move m).after.labels (s.move m).after.code := by
  cases phase : s.phase with
  | building =>
      have recorded := before (by rw [output?, phase])
      cases m with
      | act op => exact told_step phase op fit recorded small
      | finish childCount =>
          let P (after : Scope) : Prop :=
            after.output? = none → Recorded h after.labels after.code
          exact after_finish (P := P) childCount (fun _ => recorded) (fun _ => recorded) nofun
            unfinished
  | failed =>
      have recorded := before (by rw [output?, phase])
      cases m with
      | act op =>
          rw [move, History.extend, step_of_failed phase, Reply.refuse,
            record_of_failed phase]
          exact recorded
      | finish childCount =>
          rw [move, finish, whileBuilding_of_failed phase]
          exact recorded
  | finished output =>
      have kept : (s.move m).after.output? = some output := by
        cases m with
        | act op => rw [move, step_of_finished phase, Reply.refuse, output?, phase]
        | finish childCount =>
            rw [move, finish_of_finished phase, Reply.after_map, Reply.refuse, output?, phase]
      rw [kept] at unfinished
      cases unfinished

theorem recorded_play (moves : List Move) (fit : s.limits.JumpsFit)
    (small : ∀ front, front <+: moves → (s.play front).code.size < 4294967296)
    (before : s.output? = none → Recorded h s.labels s.code)
    (unfinished : (s.play moves).output? = none) :
    Recorded (s.historyFrom h moves) (s.play moves).labels (s.play moves).code := by
  induction moves generalizing h s with
  | nil => exact before unfinished
  | cons m moves ih =>
      have limits : (s.move m).after.limits = s.limits := congrArg Site.limits (site_move s m)
      have first : (s.move m).after.code.size < 4294967296 :=
        small [m] (List.cons_prefix_cons.mpr ⟨rfl, List.nil_prefix⟩)
      apply ih (limits ▸ fit)
      · intro front ahead
        exact small (m :: front) (List.cons_prefix_cons.mpr ⟨rfl, ahead⟩)
      · exact recorded_move m fit first before
      · exact unfinished

/-- Until a scope is finished its code is its history, in which a resolved label shows its distance
and any other label two zeros; what it then hands on is that code, with every label resolved. -/
theorem emission_faithful (limits : Limits) (sound : limits.Sound) (id : ScopeId)
    (parent : Option ScopeId) (top : Bool) (nesting : Nesting) (moves : List Move)
    (small : ∀ front, front <+: moves →
      ((fresh id parent top nesting limits).play front).code.size < 4294967296) :
    let s := (fresh id parent top nesting limits).play moves
    let h := (fresh id parent top nesting limits).history moves
    (s.isFinished = false →
      s.code.bytes.toList = h.pieces.flatMap h.bytes ∧
      (∀ r ∈ h.resolutions, r.label ∈ h.labels ∧
        h.bytes (.operand r.label) =
          BigEndian.word16 (Int16.ofInt ((r.target : Int) - r.label.position)).toUInt16 ∧
        ∃ first second, h.bytes (.operand r.label) = [first, second] ∧
          (BigEndian.join16 first second).toInt16.toInt = (r.target : Int) - r.label.position) ∧
      (∀ label ∈ h.labels, label ∉ h.resolutions.map (·.label) →
        h.bytes (.operand label) = [0, 0]) ∧
      (∀ label ∈ h.labels, s.labels.target? label = h.target? label) ∧
      (h.resolutions.map (·.label)).Nodup) ∧
    ∀ childCount, (s.finish childCount).answer = .ok () →
      ∃ output, (s.finish childCount).after.output? = some output ∧
        output.code = s.code.bytes ∧ output.codeSize = output.code.size ∧
        ∀ label ∈ h.labels, (h.resolutions.map (·.label)).count label = 1 := by
  intro s h
  have kept : s.output? = none → Recorded h s.labels s.code :=
    recorded_play moves sound.jumps small (fun _ => Recorded.empty)
  constructor
  · intro unfinished
    rw [isFinished_eq, Option.isSome_eq_false_iff, Option.isNone_iff_eq_none] at unfinished
    have recorded := kept unfinished
    refine ⟨recorded.code_eq, ?_, ?_, fun label given => recorded.target?_eq given,
      recorded.once⟩
    · intro r resolved
      have written : h.bytes (.operand r.label) = r.bytes := by
        rw [History.bytes, recorded.resolution?_of_mem resolved]
      obtain ⟨low, high⟩ := recorded.fits r resolved
      rw [written]
      exact ⟨recorded.known r resolved, rfl, Resolution.bytes_read low high⟩
    · intro label given unresolved
      rw [History.bytes, (h.resolution?_eq_none_iff label).mpr unresolved]
  · intro childCount accepted
    obtain ⟨building, checked, after⟩ := finish_of_ok accepted
    have recorded := kept (by rw [output?, building])
    have size : s.code.size < 4294967296 := small moves List.prefix_rfl
    refine ⟨s.outputWith childCount, by rw [after]; rfl, rfl, ?_, ?_⟩
    · simp only [outputWith, position, Code.position, Code.size] at size ⊢
      omega
    · intro label given
      exact recorded.count_resolutions ((checkFinish_eq_ok_iff s).mp checked).1 given

/-- A loop with a jump back to its start, a jump out of it, and a local declared twice. -/
def loopMoves : List Move :=
  [.act (.emit 16), .act .openLoop, .act .reserve, .act (.addExit ⟨⟨0⟩, 1, 3⟩),
    .act (.declare "x" .next), .act (.declare "x" .next), .act (.emitOperand 5 258),
    .act .reserve, .act (.resolve ⟨⟨1⟩, 6, 8⟩ 1), .act .closeLoop]

theorem emission_faithful_loop :
    let s := (fresh ⟨0⟩ none true .method {}).play loopMoves
    (∀ front, front <+: loopMoves →
      ((fresh ⟨0⟩ none true .method {}).play front).code.size < 4294967296) ∧
    s.code.bytes.toList = [16, 0, 5, 5, 1, 2, 255, 249] ∧
    ∃ output, (s.finish 0).after.output? = some output ∧ output.code = s.code.bytes ∧
      output.codeSize = 8 := by
  intro s
  have small : ∀ front, front <+: loopMoves →
      ((fresh ⟨0⟩ none true .method {}).play front).code.size < 4294967296 := by
    intro front ahead
    have all : ∀ front ∈ loopMoves.inits,
        ((fresh ⟨0⟩ none true .method {}).play front).code.size < 4294967296 := by decide
    exact all front ((List.mem_inits front loopMoves).mpr ahead)
  have sound : ({} : Limits).Sound := (Limits.validate_eq_ok_iff {}).mp (by decide)
  obtain ⟨written, handed⟩ :=
    emission_faithful {} sound ⟨0⟩ none true .method loopMoves small
  obtain ⟨output, given, code, size, -⟩ := handed 0 (by decide)
  refine ⟨small, (written (by decide)).1.trans (by decide), output, given, code, ?_⟩
  rw [size, code]
  decide

end Scope

end BytecodeScopes
