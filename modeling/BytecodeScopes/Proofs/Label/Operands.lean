import BytecodeScopes.Proofs.Label.Issued
import BytecodeScopes.Proofs.Label.Waiting
import BytecodeScopes.Proofs.Scope.Log
import BytecodeScopes.Proofs.Signature
import Mathlib.Data.List.Infix

/-!
Where the labels of a scope stand. Labels are given out where the code ends, so their operands
follow each other in the order of their numbers, have no byte in common, and lie in the code until
it is handed on. Resolving a label of the scope therefore never misses the code, and the count of
open labels goes down only as often as it went up.
-/

namespace BytecodeScopes

/-- An operand was looked for outside the code. -/
def Fault.misses : Fault → Bool
  | .patchOutOfBounds .. => true
  | _ => false

def Event.resolves : Event → Bool
  | .resolved .. => true
  | _ => false

section

variable {α β : Type}

def InBounds (answer : Except Fault α) : Prop :=
  ∀ fault, answer = .error fault → fault.misses = false

theorem inBounds_ok (a : α) : InBounds (.ok a) := by simp [InBounds]

theorem inBounds_error {fault : Fault} (other : fault.misses = false) :
    InBounds (.error fault : Except Fault α) := by simp [InBounds, other]

theorem inBounds_ite {p : Prop} [Decidable p] {yes no : Except Fault α} (first : InBounds yes)
    (second : InBounds no) : InBounds (if p then yes else no) := by
  split
  · exact first
  · exact second

theorem InBounds.map {answer : Except Fault α} (inside : InBounds answer) (f : α → β) :
    InBounds (answer.map f) := by
  cases answer with
  | ok a => exact inBounds_ok (f a)
  | error fault => exact inBounds_error (inside fault rfl)

end

namespace Labels

variable {ls : Labels} {code : Code} {limits : Limits} {target : Nat} {labels : List Label}

/-- Labels in the order of their operands, which have no byte in common and end by an offset. -/
structure Laid (labels : List Label) (extent : Nat) : Prop where
  behind : ∀ label ∈ labels, label.position = label.operand + 2
  inside : ∀ label ∈ labels, label.position ≤ extent
  apart : labels.Pairwise fun label later => label.position ≤ later.operand

theorem laid_nil (extent : Nat) : Laid [] extent where
  behind := by simp
  inside := by simp
  apart := .nil

theorem Laid.grow {extent larger : Nat} (laid : Laid labels extent) (more : extent ≤ larger) :
    Laid labels larger where
  behind := laid.behind
  inside := fun label member => Nat.le_trans (laid.inside label member) more
  apart := laid.apart

theorem Laid.concat {extent : Nat} {label : Label} (laid : Laid labels extent)
    (beyond : extent ≤ label.operand) (behind : label.position = label.operand + 2) :
    Laid (labels ++ [label]) label.position where
  behind := by
    intro other member
    rcases List.mem_append.mp member with older | last
    · exact laid.behind other older
    · rw [List.mem_singleton.mp last]
      exact behind
  inside := by
    intro other member
    rcases List.mem_append.mp member with older | last
    · have inside := laid.inside other older
      omega
    · rw [List.mem_singleton.mp last]
  apart := by
    refine List.pairwise_append.mpr ⟨laid.apart, List.pairwise_singleton _ _, ?_⟩
    intro older member later last
    rw [List.mem_singleton.mp last]
    exact Nat.le_trans (laid.inside older member) beyond

theorem Laid.resolve_inside (laid : Laid ls.known code.size) (limits : Limits) (label : Label)
    (target : Nat) : InBounds (ls.resolve code limits label target).answer := by
  rw [answer_resolve]
  by_cases unknown : ls.jump? label = none
  · rw [if_pos unknown]
    exact inBounds_error rfl
  · obtain ⟨jump, found⟩ := Option.ne_none_iff_exists'.mp unknown
    have given : label ∈ ls.known := mem_known_of_jump? found
    have behind := laid.behind label given
    have inside := laid.inside label given
    have room : ¬ code.size < label.operand + 2 := by omega
    rw [if_neg unknown, if_neg room]
    exact inBounds_ite (inBounds_error rfl) (inBounds_ite (inBounds_error rfl) (inBounds_ok ()))

namespace Resolves

variable {first last : Labels × Code}

theorem known (resolves : Resolves limits target labels first last) :
    last.1.known = first.1.known := by
  induction resolves with
  | none => rfl
  | @next ls code label labels last accepted rest ih =>
      obtain ⟨distance, checked, after⟩ := resolve_ok accepted
      rw [ih, after, known_settle]

theorem counted (resolves : Resolves limits target labels first last)
    (counted : first.1.Counted) : last.1.Counted := by
  induction resolves with
  | none => exact counted
  | @next ls code label labels last accepted rest ih =>
      obtain ⟨distance, checked, after⟩ := resolve_ok accepted
      apply ih
      rw [after]
      exact counted.settle (checkResolve_eq_ok_iff.mp checked).1 target

end Resolves

theorem Counted.unresolved_eq (counted : ls.Counted) (numbered : ls.Numbered) :
    ls.unresolved = ls.known.countP fun label => (ls.target? label).isNone := by
  rw [counted, ← Array.countP_toList, known, List.countP_map]
  apply List.countP_congr
  intro jump member
  rw [Function.comp_apply, numbered.target?_of_mem member]

theorem Counted.unresolved_pos {label : Label} (counted : ls.Counted)
    (accepted : (ls.resolve code limits label target).answer = .ok ()) : 0 < ls.unresolved := by
  obtain ⟨distance, checked, -⟩ := resolve_ok accepted
  have fewer := counted.unresolved_settle (checkResolve_eq_ok_iff.mp checked).1 target
  omega

theorem countP_resolvedLog (target : Nat) (labels : List Label) :
    (resolvedLog target labels).countP Event.resolves = labels.length := by
  rw [resolvedLog, List.countP_map, List.countP_eq_length]
  intro label member
  rfl

end Labels

namespace Scope

variable {s : Scope} {m : Move} {op : Op}

def reserved? : Op × Answer → Option Label
  | (.reserve, .label label) => some label
  | _ => none

/-- The labels given out in a run, oldest first. -/
def issued (s : Scope) (moves : List Move) : List Label := (s.accepted moves).filterMap reserved?

theorem issued_of_error {fault : Fault} (refused : (s.move m).answer = .error fault) :
    s.issued [m] = [] := by
  cases m with
  | act op => simp [issued, accepted, accepted?_of_error refused]
  | finish childCount => rfl

theorem issued_of_other (other : m ≠ .act .reserve) : s.issued [m] = [] := by
  cases m with
  | finish childCount => rfl
  | act op =>
      cases given : (s.step op).answer with
      | error fault => exact issued_of_error given
      | ok answer =>
          rw [issued, accepted, accepted?_of_ok given]
          cases op with
          | reserve => exact absurd rfl other
          | _ => rfl

theorem move_reserve (building : s.phase = .building) :
    s.move (.act .reserve) =
      .accept { s with
        labels := (s.labels.reserve s.code).2.1, code := (s.labels.reserve s.code).2.2 }
        (.label (s.labels.reserve s.code).1) := by
  rw [move, step, reserve, change_of_building building]
  rfl

theorem issued_reserve (building : s.phase = .building) :
    s.issued [.act .reserve] = [(s.labels.reserve s.code).1] := by
  have accepted : (s.step .reserve).answer = .ok (.label (s.labels.reserve s.code).1) :=
    congrArg Reply.answer (move_reserve building)
  rw [issued, Scope.accepted, accepted?_of_ok accepted]
  rfl

/-- A move gives out a label, resolves some one after another, or changes no more than which of them
wait. -/
inductive Labelling (s : Scope) : Move → Prop where
  | reserved (building : s.phase = .building) : Labelling s (.act .reserve)
  | resolved {m : Move} (target : Nat) (done : List Label) (none : s.issued [m] = [])
      (resolves : Labels.Resolves s.limits target done (s.labels, s.code)
        ((s.move m).after.labels, (s.move m).after.code))
      (told : (s.move m).log.countP Event.resolves = done.length) : Labelling s m
  | waited {m : Move} (pending : Array LabelId) (none : s.issued [m] = [])
      (kept : (s.move m).after.labels = { s.labels with pending })
      (silent : (s.move m).log.countP Event.resolves = 0) : Labelling s m

theorem labels_step_of_quiet (quiet : op.resolves = false) (other : op ≠ .reserve) :
    ∃ pending, (s.step op).after.labels = { s.labels with pending } := by
  let Kept (after : Scope) : Prop := ∃ pending, after.labels = { s.labels with pending }
  have same : Kept s := ⟨s.labels.pending, rfl⟩
  by_cases touched : .body ∈ op.touches
  · cases op with
    | emit | emitAll | emitOperand => exact after_change (P := Kept) same fun _ => same
    | reserve => exact absurd rfl other
    | dequeue => exact after_change (P := Kept) same fun _ => s.labels.dequeue_eq
    | queue => exact after_attempt (P := Kept) same (fun _ => same) fun _ _ _ => ⟨_, rfl⟩
    | resolve | closeLoop => cases quiet
    | _ => simp [Op.touches] at touched
  · exact ⟨s.labels.pending, (body_step touched).2⟩

theorem countP_abortLog {α : Type} (s : Scope) (answer : Except Fault α) :
    (s.abortLog answer).countP Event.resolves = 0 := by
  cases answer with
  | ok a => rfl
  | error fault =>
      rw [abortLog]
      split <;> rfl

theorem labelling_refused {fault : Fault} (refused : s.move m = .refuse s fault) :
    s.Labelling m := by
  refine .waited s.labels.pending (issued_of_error (congrArg Reply.answer refused)) ?_ ?_
  · rw [refused]
    rfl
  · rw [refused]
    rfl

theorem labelling_finish (building : s.phase = .building) (childCount : Nat) :
    s.Labelling (.finish childCount) := by
  refine .waited s.labels.pending rfl ?_ ?_
  · exact after_finish (P := (·.labels = s.labels)) childCount rfl rfl fun _ _ => rfl
  · rw [move]
    cases checked : s.checkFinish with
    | ok done =>
        rw [finish_of_closed building checked]
        rfl
    | error fault =>
        rw [finish_of_unclosed building checked]
        rfl

theorem labelling_act (building : s.phase = .building) (op : Op) : s.Labelling (.act op) := by
  cases resolving : op.resolves with
  | true =>
      obtain ⟨done, target, -, resolves, told⟩ := step_resolves building resolving
      refine .resolved target done (issued_of_other ?_) resolves ?_
      · rintro ⟨⟩
        cases resolving
      · rw [move, told, List.countP_append, Labels.countP_resolvedLog, countP_abortLog,
          Nat.add_zero]
  | false =>
      by_cases reserving : op = .reserve
      · rw [reserving]
        exact .reserved building
      · obtain ⟨pending, kept⟩ := labels_step_of_quiet (s := s) resolving reserving
        refine .waited pending (issued_of_other ?_) kept ?_
        · rintro ⟨⟩
          exact reserving rfl
        · rw [move, candid_step building resolving, countP_abortLog]

theorem labelling_move (s : Scope) (m : Move) : s.Labelling m := by
  cases phase : s.phase with
  | finished output => exact labelling_refused (move_of_finished phase m)
  | failed => exact labelling_refused (move_of_failed phase m)
  | building =>
      cases m with
      | act op => exact labelling_act phase op
      | finish childCount => exact labelling_finish phase childCount

theorem known_move (s : Scope) (m : Move) :
    (s.move m).after.labels.known = s.labels.known ++ s.issued [m] := by
  cases s.labelling_move m with
  | reserved building =>
      rw [issued_reserve building, move_reserve building]
      simp [Reply.accept, Labels.known, Labels.reserve]
  | resolved target done none resolves told =>
      rw [none, List.append_nil]
      exact resolves.known
  | waited pending none kept silent =>
      rw [none, List.append_nil, kept]
      rfl

theorem unresolved_move (counted : s.labels.Counted) (m : Move) :
    (s.move m).after.labels.unresolved + (s.move m).log.countP Event.resolves =
      s.labels.unresolved + (s.issued [m]).length := by
  cases s.labelling_move m with
  | reserved building =>
      rw [issued_reserve building, move_reserve building]
      rfl
  | resolved target done none resolves told =>
      rw [none, told]
      exact resolves.unresolved counted
  | waited pending none kept silent =>
      rw [none, silent, kept]
      rfl

theorem laid_move (laid : Labels.Laid s.labels.known s.extent) (m : Move)
    (small : (s.move m).after.code.size < 4294967296) :
    Labels.Laid (s.move m).after.labels.known (s.move m).after.extent := by
  have grown := s.extent_move m
  rw [known_move]
  cases s.labelling_move m with
  | resolved target done none | waited pending none =>
      rw [none, List.append_nil]
      exact laid.grow grown
  | reserved building =>
      -- the new operand starts where the code ended, and the code now ends behind it
      have unfinished := output?_of_building building
      have before : s.extent = (s.labels.reserve s.code).1.operand :=
        extent_of_unfinished unfinished
      have after : (s.move (.act .reserve)).after.extent =
          (s.labels.reserve s.code).1.position := by
        rw [move_reserve building]
        exact extent_of_unfinished unfinished
      rw [move_reserve building] at small
      rw [issued_reserve building, after]
      apply laid.concat (Nat.le_of_eq before)
      simp only [Reply.accept, Labels.reserve, Code.position, Code.size_pushWord] at small ⊢
      omega

theorem inBounds_abort {α : Type} {fault : Fault} (other : fault.misses = false) :
    InBounds (s.abort (α := α) fault).answer := by
  rw [answer_abort]
  exact inBounds_error other

theorem inBounds_change {α : Type} (building : s.phase = .building) (commit : Scope → α × Scope) :
    InBounds (s.change commit).answer := by
  rw [change_of_building building]
  exact inBounds_ok _

theorem inBounds_attempt {α β : Type} (building : s.phase = .building)
    {check : Scope → Except Fault β} {commit : Scope → β → α × Scope}
    (inside : InBounds (check s)) : InBounds (s.attempt check commit).answer := by
  cases checked : check s with
  | ok plan =>
      rw [attempt_of_ok building checked]
      exact inBounds_ok _
  | error fault =>
      rw [attempt_of_error building checked]
      exact inBounds_abort (inside fault checked)

theorem inBounds_checkHeight (s : Scope) (height : Nat) : InBounds (s.checkHeight height) :=
  inBounds_ite (inBounds_ok ()) (inBounds_error rfl)

theorem inBounds_checkDeclare (s : Scope) (name : String) (placement : Placement) :
    InBounds (s.checkDeclare name placement) := by
  apply inBounds_ite (inBounds_error rfl)
  exact inBounds_ite (inBounds_error rfl) (s.inBounds_checkHeight _)

theorem inBounds_checkAdd (t : Symbols) (name : String) : InBounds (t.checkAdd name) :=
  inBounds_ite (inBounds_ok ()) (inBounds_error rfl)

theorem inBounds_checkSetter (t : Symbols) (name : String) : InBounds (t.checkSetter name) := by
  rw [Symbols.checkSetter]
  split
  · exact inBounds_ok _
  · exact (inBounds_checkAdd t _).map _

theorem inBounds_checkQueue (ls : Labels) (label : Label) : InBounds (ls.checkQueue label) := by
  rw [Labels.checkQueue]
  split
  · exact inBounds_ok ()
  · exact inBounds_error rfl

theorem inBounds_toWord (signature : Signature) : InBounds signature.toWord := by
  intro fault refused
  obtain ⟨entry, -, rfl⟩ := Signature.toWord_eq_error_iff.mp refused
  rfl

theorem inBounds_closeRetry (building : s.phase = .building) : InBounds s.closeRetry.answer := by
  rw [closeRetry, whileBuilding_of_building building]
  cases frames : s.frames.retries with
  | nil =>
      simp only [Frames.closeRetry, frames]
      exact inBounds_abort rfl
  | cons position outer =>
      simp only [Frames.closeRetry, frames]
      exact inBounds_ok position

theorem inBounds_step_of_quiet (building : s.phase = .building) (quiet : op.resolves = false) :
    InBounds (s.step op).answer := by
  -- what most actions ask is one condition, met or answered with a fault of their own
  cases op with
  | push | setHeight => exact (inBounds_attempt building (s.inBounds_checkHeight _)).map _
  | pop | popMany | addLiteral | closeRegion | addHandler =>
      exact (inBounds_attempt building (inBounds_ite (inBounds_ok ()) (inBounds_error rfl))).map _
  | addExit =>
      exact (inBounds_attempt building (inBounds_ite (inBounds_error rfl) (inBounds_ok ()))).map _
  | declare name placement =>
      exact (inBounds_attempt building (s.inBounds_checkDeclare name placement)).map _
  | addSymbol name => exact (inBounds_attempt building (inBounds_checkAdd s.symbols name)).map _
  | addSetter name => exact (inBounds_attempt building (inBounds_checkSetter s.symbols name)).map _
  | queue label => exact (inBounds_attempt building (inBounds_checkQueue s.labels label)).map _
  | setSignature signature => exact (inBounds_attempt building (inBounds_toWord signature)).map _
  | emit | emitAll | emitOperand | popSetter | pushText | popText | reserve | dequeue | openLoop |
    openRetry | openRegion | markLoop | unmarkLoop | beginList | restoreList | element | splat |
    finishList => exact (inBounds_change building _).map _
  | closeRetry => exact (inBounds_closeRetry building).map _
  | resolve | closeLoop => cases quiet

theorem inBounds_resolveAll (laid : Labels.Laid s.labels.known s.code.size) (target : Nat)
    (labels : List Label) : InBounds (resolveAll target labels s).answer := by
  intro fault refused
  -- the labels resolved before the one that stopped it have moved no operand
  obtain ⟨-, resolved, stuck, rest, ls, code, -, resolves, stopped, -⟩ := resolveAll_error refused
  have known : ls.known = s.labels.known := resolves.known
  have length : code.size = s.code.size := resolves.size
  rw [← known, ← length] at laid
  exact laid.resolve_inside s.limits stuck target fault stopped

theorem inBounds_act (building : s.phase = .building)
    (laid : Labels.Laid s.labels.known s.code.size) (op : Op) : InBounds (s.step op).answer := by
  cases resolving : op.resolves with
  | false => exact inBounds_step_of_quiet building resolving
  | true =>
      cases op with
      | resolve label target =>
          rw [step, resolve, whileBuilding_of_building building]
          exact (inBounds_resolveAll laid target [label]).map _
      | closeLoop =>
          rw [step]
          cases frames : s.frames.loops with
          | nil =>
              have none : InBounds (s.abort (α := LoopFrame) (.noOpenFrame .loops)).answer :=
                inBounds_abort rfl
              rw [closeLoop_of_nil building frames]
              exact none.map Answer.loop
          | cons frame outer =>
              let inner : Scope := { s with frames := { s.frames with loops := outer } }
              have resolved := inBounds_resolveAll (s := inner) laid s.position frame.exits.toList
              rw [closeLoop_of_cons building frames]
              exact (resolved.map _).map _
      | _ => cases resolving

theorem inBounds_finish (building : s.phase = .building) (childCount : Nat) :
    InBounds (s.finish childCount).answer := by
  intro fault refused
  obtain ⟨checked, -, -⟩ := finish_error building refused
  simp only [checkFinish, Frames.checkClosed, checkCount, bind, Except.bind, throw, throwThe,
    MonadExceptOf.throw] at checked
  grind [Fault.misses]

theorem inBounds_move (laid : s.output? = none → Labels.Laid s.labels.known s.code.size)
    (m : Move) : InBounds (s.move m).answer := by
  cases phase : s.phase with
  | finished output =>
      rw [move_of_finished phase]
      exact inBounds_error rfl
  | failed =>
      rw [move_of_failed phase]
      exact inBounds_error rfl
  | building =>
      cases m with
      | act op => exact inBounds_act phase (laid (output?_of_building phase)) op
      | finish childCount => exact (inBounds_finish phase childCount).map _

theorem known_play (s : Scope) (moves : List Move) :
    (s.play moves).labels.known = s.labels.known ++ s.issued moves := by
  apply collected_play (·.labels.known) reserved?
  intro s m
  rw [known_move, issued, accepted, accepted, List.append_nil]

theorem laid_play (moves : List Move)
    (small : ∀ front, front <+: moves → (s.play front).code.size < 4294967296)
    (laid : Labels.Laid s.labels.known s.extent) :
    Labels.Laid (s.play moves).labels.known (s.play moves).extent := by
  induction moves generalizing s with
  | nil => exact laid
  | cons m moves ih =>
      have first : (s.move m).after.code.size < 4294967296 :=
        small [m] (List.cons_prefix_cons.mpr ⟨rfl, List.nil_prefix⟩)
      apply ih
      · intro front ahead
        exact small (m :: front) (List.cons_prefix_cons.mpr ⟨rfl, ahead⟩)
      · exact laid_move laid m first

/-- Labels are numbered as they are given out, and their operands follow each other in the code. The
labels that wait are among them, and the count of open labels is that of those without a target. So
no move finds an operand outside the code, and none takes from the count when it is at zero. -/
theorem labels_well_placed (id : ScopeId) (parent : Option ScopeId) (top : Bool) (nesting : Nesting)
    (limits : Limits) (moves : List Move)
    (small : ∀ front, front <+: moves →
      ((fresh id parent top nesting limits).play front).code.size < 4294967296) :
    let s := (fresh id parent top nesting limits).play moves
    let issued := (fresh id parent top nesting limits).issued moves
    s.labels.jumps.toList.map (·.label) = issued ∧
    (∀ (i : Nat) (label : Label), issued[i]? = some label →
      label.id.index = i ∧ label.position = label.operand + 2) ∧
    (issued.Pairwise fun label later => label.operand + 2 ≤ later.operand) ∧
    (s.isFinished = false → ∀ label ∈ issued, label.position ≤ s.code.size) ∧
    s.labels.unresolved = issued.countP (fun label => (s.labels.target? label).isNone) ∧
    (∀ id ∈ s.labels.pending, ∃ label ∈ issued, label.id = id) ∧
    (∀ m offset size, (s.move m).answer ≠ .error (.patchOutOfBounds offset size)) ∧
    (∀ target resolved ls code label,
      Labels.Resolves s.limits target resolved (s.labels, s.code) (ls, code) →
      (ls.resolve code s.limits label target).answer = .ok () → 0 < ls.unresolved) ∧
    ∀ m, (s.move m).after.labels.unresolved + (s.move m).log.countP Event.resolves =
      s.labels.unresolved + (s.issued [m]).length := by
  intro s issued
  have known : s.labels.known = issued := known_play (fresh id parent top nesting limits) moves
  have laid : Labels.Laid issued s.extent := by
    rw [← known]
    exact laid_play moves small (Labels.laid_nil _)
  -- numbers, count and queue are those of the labels' own run, where the code does not matter
  obtain ⟨ops, reached⟩ := (fresh id parent top nesting limits).labels_play moves
  change s.labels = ({} : Labels).run ops at reached
  have start : ({} : Labels).Counted := rfl
  have numbered : s.labels.Numbered := reached ▸ Labels.numbered_run ops
  have counted : s.labels.Counted := reached ▸ start.run ops
  have waits : s.labels.Waits (Labels.QueuedLate ops) := reached ▸ Labels.waits_run ops
  have inside : s.output? = none → Labels.Laid issued s.code.size := by
    intro unfinished
    apply laid.grow
    rw [extent_of_unfinished unfinished]
    exact Nat.min_le_left _ _
  refine ⟨known, ?_, ?_, ?_, ?_, ?_, ?_, ?_, unresolved_move counted⟩
  · intro i label given
    refine ⟨?_, laid.behind label (List.mem_of_getElem? given)⟩
    rw [← known] at given
    exact numbered i label given
  · refine laid.apart.imp_of_mem ?_
    intro label later member _ before
    rw [← laid.behind label member]
    exact before
  · intro unfinished
    rw [isFinished_eq, Option.isSome_eq_false_iff, Option.isNone_iff_eq_none] at unfinished
    exact (inside unfinished).inside
  · rw [← known]
    exact counted.unresolved_eq numbered
  · intro id member
    obtain ⟨jump, found, own, -⟩ := waits id member
    refine ⟨jump.label, ?_, own⟩
    rw [← known]
    exact Labels.mem_known_of_jump? found
  · intro m offset size outside
    rw [← known] at inside
    cases inBounds_move inside m _ outside
  · intro target resolved ls code label resolves accepted
    exact (resolves.counted counted).unresolved_pos accepted

/-- A loop with two jumps out of it, one of which is listed twice and one of which waits, and a jump
that stays. -/
def repeatedExit : List Move :=
  [.act .openLoop, .act .reserve, .act (.addExit ⟨⟨0⟩, 0, 2⟩), .act (.emit 7), .act .reserve,
    .act (.queue ⟨⟨1⟩, 3, 5⟩), .act (.addExit ⟨⟨1⟩, 3, 5⟩), .act (.addExit ⟨⟨0⟩, 0, 2⟩),
    .act .reserve]

def leaving : Scope := (fresh ⟨0⟩ none true .method {}).play repeatedExit

theorem labels_well_placed_repeated :
    (∀ front, front <+: repeatedExit →
      ((fresh ⟨0⟩ none true .method {}).play front).code.size < 4294967296) ∧
    leaving.labels.jumps.toList.map (·.label) = [⟨⟨0⟩, 0, 2⟩, ⟨⟨1⟩, 3, 5⟩, ⟨⟨2⟩, 5, 7⟩] ∧
    (∀ id ∈ leaving.labels.pending, ∃ label ∈ (fresh ⟨0⟩ none true .method {}).issued repeatedExit,
      label.id = id) ∧
    leaving.labels.unresolved = 3 ∧
    (leaving.move (.act .closeLoop)).answer = .error (.labelResolved ⟨0⟩) ∧
    (leaving.move (.act .closeLoop)).after.labels.unresolved + 2 = 3 := by
  have small : ∀ front, front <+: repeatedExit →
      ((fresh ⟨0⟩ none true .method {}).play front).code.size < 4294967296 := by
    intro front ahead
    have all : ∀ front ∈ repeatedExit.inits,
        ((fresh ⟨0⟩ none true .method {}).play front).code.size < 4294967296 := by decide
    exact all front ((List.mem_inits front repeatedExit).mpr ahead)
  obtain ⟨given, -, -, -, -, waiting, -, -, ledger⟩ :=
    labels_well_placed ⟨0⟩ none true .method {} repeatedExit small
  refine ⟨small, given.trans (by decide), waiting, by decide, by decide, ?_⟩
  exact ledger (.act .closeLoop)

end Scope

end BytecodeScopes
