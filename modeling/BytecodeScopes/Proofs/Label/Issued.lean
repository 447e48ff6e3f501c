import BytecodeScopes.Proofs.Label.Resolving

namespace BytecodeScopes

namespace Labels

variable {ls after : Labels} {op : Op} {answer : Except Fault Answer} {label : Label}

inductive Effect (ls : Labels) : Op → Except Fault Answer → Labels → Prop where
  | reserved (code : Code) :
      Effect ls (.reserve code) (.ok (.label (ls.reserve code).1)) (ls.reserve code).2.1
  | queued {label : Label} {jump : Jump} (found : ls.jump? label = some jump) :
      Effect ls (.queue label) (.ok .done) (ls.enqueue label)
  | dequeued : Effect ls .dequeue (.ok (.waiting ls.dequeue.1)) ls.dequeue.2
  | settled {code : Code} {limits : Limits} {label : Label} {target : Nat}
      (found : ls.jump? label = some ⟨label, none⟩) :
      Effect ls (.resolve code limits label target) (.ok .done) (ls.settle label target)
  | refused (op : Op) (fault : Fault) : Effect ls op (.error fault) ls

theorem step_effect (ls : Labels) (op : Op) :
    ls.Effect op (ls.step op).answer (ls.step op).after := by
  cases op with
  | reserve code => exact .reserved code
  | dequeue => exact .dequeued
  | queue label =>
      cases checked : ls.checkQueue label with
      | ok done =>
          obtain ⟨jump, found⟩ := checkQueue_eq_ok_iff.mp checked
          simp only [step, queue, Reply.attempt, checked]
          exact .queued found
      | error fault =>
          simp only [step, queue, Reply.attempt, checked]
          exact .refused _ fault
  | resolve code limits label target =>
      cases checked : ls.checkResolve code limits label target with
      | ok distance =>
          have found := (checkResolve_eq_ok_iff.mp checked).1
          simp only [step, resolve, checked]
          exact .settled found
      | error fault =>
          simp only [step, resolve, checked]
          exact .refused _ fault

def answers (ls : Labels) (ops : List Op) : List (Op × Except Fault Answer) := answersBy step ls ops

def issued? : Except Fault Answer → Option Label
  | .ok (.label label) => some label
  | _ => none

/-- The labels given out in a run, oldest first. -/
def issued (ls : Labels) (ops : List Op) : List Label :=
  (ls.answers ops).filterMap fun entry => issued? entry.2

def known (ls : Labels) : List Label := ls.jumps.toList.map (·.label)

theorem known_settle (ls : Labels) (label : Label) (target : Nat) :
    (ls.settle label target).known = ls.known := by
  have kept := congrArg Array.toList (labels_settle ls label target)
  rwa [Array.toList_map, Array.toList_map] at kept

theorem Effect.known (effect : ls.Effect op answer after) :
    after.known = ls.known ++ (issued? answer).toList := by
  cases effect with
  | reserved code => simp [Labels.known, Labels.reserve, issued?]
  | queued found => simp [Labels.known, Labels.enqueue, issued?]
  | dequeued => simp [Labels.known, jumps_dequeue, issued?]
  | settled found => simp [known_settle, issued?]
  | refused fault => simp [issued?]

theorem known_run (ls : Labels) (ops : List Op) :
    (ls.run ops).known = ls.known ++ ls.issued ops := by
  induction ops generalizing ls with
  | nil => exact (List.append_nil _).symm
  | cons op ops ih =>
      have first := (ls.step_effect op).known
      calc
        (ls.run (op :: ops)).known = ((ls.step op).after.run ops).known := rfl
        _ = ls.known ++
            ((issued? (ls.step op).answer).toList ++ (ls.step op).after.issued ops) := by
          rw [ih, first, List.append_assoc]
        _ = ls.known ++ ls.issued (op :: ops) := by
          have split := filterMap_answersBy_cons step (fun entry => issued? entry.2) ls op ops
          exact congrArg (ls.known ++ ·) split.symm

theorem known_run_empty (ops : List Op) :
    (({} : Labels).run ops).known = ({} : Labels).issued ops := known_run {} ops

def Numbered (ls : Labels) : Prop :=
  ∀ (i : Nat) (label : Label), ls.known[i]? = some label → label.id.index = i

theorem Numbered.effect (numbered : ls.Numbered) (effect : ls.Effect op answer after) :
    after.Numbered := by
  have grown := effect.known
  cases effect with
  | reserved code =>
      intro i label there
      rw [grown, List.getElem?_append] at there
      split at there
      · exact numbered i label there
      · rename_i beyond
        obtain ⟨inside, rfl⟩ := List.getElem?_eq_some_iff.mp there
        have last : i - ls.known.length = 0 := by
          simp [issued?] at inside
          omega
        simp only [issued?, Option.toList_some, last, List.getElem_cons_zero]
        change ls.jumps.size = i
        simp only [Labels.known, List.length_map, Array.length_toList] at last beyond
        omega
  | queued | dequeued | settled | refused =>
      intro i label there
      rw [grown] at there
      exact numbered i label (by simpa [issued?] using there)

theorem Numbered.run (numbered : ls.Numbered) (ops : List Op) : (ls.run ops).Numbered :=
  runBy_invariant step (fun ls op numbered => numbered.effect (ls.step_effect op)) numbered ops

theorem numbered_run (ops : List Op) : (({} : Labels).run ops).Numbered :=
  Numbered.run (by simp [Numbered, known]) ops

theorem mem_known_of_jump? {jump : Jump} (found : ls.jump? label = some jump) :
    label ∈ ls.known := by
  obtain ⟨there, same⟩ := jump?_eq_some_iff.mp found
  rw [known, List.mem_map]
  exact ⟨jump, Array.mem_toList_iff.mpr (Array.mem_of_getElem? there), same⟩

theorem Numbered.mem_known_iff (numbered : ls.Numbered) :
    label ∈ ls.known ↔ ∃ jump, ls.jump? label = some jump := by
  constructor
  · intro member
    obtain ⟨i, there⟩ := List.mem_iff_getElem?.mp member
    have number := numbered i label there
    rw [known, List.getElem?_map, Array.getElem?_toList] at there
    obtain ⟨jump, found, same⟩ := Option.map_eq_some_iff.mp there
    refine ⟨jump, jump?_eq_some_iff.mpr ⟨?_, same⟩⟩
    rw [number]
    exact found
  · rintro ⟨jump, found⟩
    exact mem_known_of_jump? found

theorem Numbered.target?_of_mem (numbered : ls.Numbered) {jump : Jump}
    (member : jump ∈ ls.jumps.toList) : ls.target? jump.label = jump.target := by
  obtain ⟨i, there⟩ := List.mem_iff_getElem?.mp member
  have number : jump.label.id.index = i := by
    apply numbered
    rw [known, List.getElem?_map, there]
    rfl
  rw [target?, number, ← Array.getElem?_toList, there]
  rfl

theorem eq_of_jump? {other : Label} {jump jump' : Jump} (found : ls.jump? label = some jump)
    (found' : ls.jump? other = some jump') (same : other.id = label.id) : other = label := by
  obtain ⟨there, own⟩ := jump?_eq_some_iff.mp found
  obtain ⟨there', own'⟩ := jump?_eq_some_iff.mp found'
  rw [same, there, Option.some.injEq] at there'
  rw [← own, ← own', there']

theorem jump?_effect {target : Nat} (targeted : ls.jump? label = some ⟨label, some target⟩)
    (effect : ls.Effect op answer after) : after.jump? label = some ⟨label, some target⟩ := by
  cases effect with
  | reserved code => exact jump?_reserve targeted code
  | queued found => exact targeted
  | dequeued => exact (jump?_dequeue ls label).trans targeted
  | @settled code limits other landing found =>
      have different : label ≠ other := by
        intro same
        rw [same, found] at targeted
        cases targeted
      rw [jump?_settle found, if_neg different]
      exact targeted
  | refused fault => exact targeted

theorem jump?_run {target : Nat} (targeted : ls.jump? label = some ⟨label, some target⟩)
    (ops : List Op) : (ls.run ops).jump? label = some ⟨label, some target⟩ :=
  runBy_invariant step (P := (·.jump? label = some ⟨label, some target⟩))
    (fun ls op targeted => jump?_effect targeted (ls.step_effect op)) targeted ops

theorem resolve_error {code : Code} {limits : Limits} {target : Nat} {fault : Fault}
    (refused : (ls.resolve code limits label target).answer = .error fault) :
    (ls.resolve code limits label target).after = (ls, code) := by
  unfold resolve at refused ⊢
  cases checked : ls.checkResolve code limits label target with
  | ok distance =>
      rw [checked] at refused
      cases refused
  | error found => rfl

theorem answer_resolve (ls : Labels) (code : Code) (limits : Limits) (label : Label)
    (target : Nat) :
    (ls.resolve code limits label target).answer =
      if ls.jump? label = none then .error (.unknownLabel label.id)
      else if (ls.target? label).isSome then .error (.labelResolved label.id)
      else if (target : Int) - label.position < limits.jumpMin ∨
          limits.jumpMax < (target : Int) - label.position then
        .error (.jumpOutOfRange label.position target)
      else if code.size < label.operand + 2 then
        .error (.patchOutOfBounds label.operand code.size)
      else .ok () := by
  cases found : ls.jump? label with
  | none => simp [resolve, checkResolve, found, Reply.refuse]
  | some jump =>
      rw [target?_of_jump? found, if_neg (by simp)]
      by_cases targeted : jump.target.isSome = true
      · simp [resolve, checkResolve, found, targeted, Reply.refuse]
      · rw [if_neg targeted]
        by_cases range : limits.jumpMin ≤ (target : Int) - label.position ∧
            (target : Int) - label.position ≤ limits.jumpMax
        · rw [if_neg (by omega)]
          by_cases room : label.operand + 2 ≤ code.size
          · rw [if_neg (by omega)]
            simp only [resolve, checkResolve, found, if_neg targeted, if_pos range,
              Code.checkPatch, if_pos room, Except.map]
          · rw [if_pos (by omega)]
            simp only [resolve, checkResolve, found, if_neg targeted, if_pos range,
              Code.checkPatch, if_neg room, Except.map]
            rfl
        · rw [if_pos (by omega)]
          simp only [resolve, checkResolve, found, if_neg targeted, if_neg range]
          rfl

/-- Resolving a label is refused with the first of four faults that applies, and then changes
nothing. Otherwise its two bytes get the distance to the target, it has that target from then on,
and it waits no longer; no other label and no other byte changes. -/
theorem resolve_exact_and_atomic (ops : List Op) (code : Code) (limits : Limits) (label : Label)
    (target : Nat) :
    let ls := ({} : Labels).run ops
    let issued := ({} : Labels).issued ops
    let distance := (target : Int) - label.position
    let reply := ls.resolve code limits label target
    (reply.answer =
      if label ∉ issued then .error (.unknownLabel label.id)
      else if (ls.target? label).isSome then .error (.labelResolved label.id)
      else if distance < limits.jumpMin ∨ limits.jumpMax < distance then
        .error (.jumpOutOfRange label.position target)
      else if code.size < label.operand + 2 then
        .error (.patchOutOfBounds label.operand code.size)
      else .ok ()) ∧
    (∀ fault, reply.answer = .error fault → reply.after = (ls, code)) ∧
    (reply.answer = .ok () →
      reply.after.2.bytes.toList =
          code.bytes.toList.take label.operand ++
            BigEndian.word16 (Int16.ofInt distance).toUInt16 ++
            code.bytes.toList.drop (label.operand + 2) ∧
        (limits.validate = .ok () → ∃ value,
          reply.after.2.int16? label.operand = some value ∧ value.toInt = distance) ∧
        (∀ later, (reply.after.1.run later).target? label = some target) ∧
        (∀ other, other.id ≠ label.id ∨ other ∈ issued ∧ other ≠ label →
          reply.after.1.target? other = ls.target? other) ∧
        reply.after.1.unresolved + 1 = ls.unresolved ∧
        reply.after.1.pending = ls.pending.filter (· ≠ label.id)) := by
  intro ls issued distance reply
  have numbered : ls.Numbered := numbered_run ops
  have given : ∀ other, other ∈ issued ↔ ∃ jump, ls.jump? other = some jump := by
    intro other
    rw [← numbered.mem_known_iff, known_run_empty]
  refine ⟨?_, fun fault => resolve_error, ?_⟩
  · have unknown : ls.jump? label = none ↔ label ∉ issued := by
      rw [given, Option.eq_none_iff_forall_ne_some]
      simp
    simp only [reply, answer_resolve, unknown]
    rfl
  · intro accepted
    obtain ⟨d, checked, after⟩ := resolve_ok accepted
    obtain ⟨found, rfl, low, high, room⟩ := checkResolve_eq_ok_iff.mp checked
    have counted : ls.Counted := Counted.run (show Counted {} from rfl) ops
    simp only [reply, after]
    refine ⟨Code.bytes_overwrite_of_room room _, ?_, ?_, ?_, ?_, rfl⟩
    · intro valid
      obtain ⟨lowest, -, -, highest⟩ := ((Limits.validate_eq_ok_iff limits).mp valid).jumps
      refine ⟨_, Code.int16?_overwrite room _, ?_⟩
      exact Int16.toInt_ofInt_of_le (by omega) (by omega)
    · intro later
      have targeted : (ls.settle label target).jump? label = some ⟨label, some target⟩ := by
        rw [jump?_settle found, if_pos rfl]
      exact target?_of_jump? (jump?_run targeted later)
    · intro other apart
      have number : label.id.index ≠ other.id.index := by
        intro same
        have id : other.id = label.id := congrArg LabelId.mk same.symm
        rcases apart with different | ⟨member, different⟩
        · exact different id
        · obtain ⟨jump, there⟩ := (given other).mp member
          exact different (eq_of_jump? found there id)
      rw [target?_settle, if_neg number]
    · exact counted.unresolved_settle found target

end Labels

end BytecodeScopes
