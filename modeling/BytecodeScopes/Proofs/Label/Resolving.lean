import BytecodeScopes.Proofs.Label.Run
import BytecodeScopes.Proofs.Patching
import BytecodeScopes.Proofs.Scope.Refusal

namespace BytecodeScopes

namespace Labels

variable {ls : Labels} {code : Code} {limits : Limits} {label : Label} {target : Nat}

theorem checkResolve_eq_ok_iff {distance : Int} :
    ls.checkResolve code limits label target = .ok distance ↔
      ls.jump? label = some ⟨label, none⟩ ∧ distance = (target : Int) - label.position ∧
        limits.jumpMin ≤ distance ∧ distance ≤ limits.jumpMax ∧ label.operand + 2 ≤ code.size := by
  unfold checkResolve
  cases found : ls.jump? label with
  | none => simp
  | some jump =>
      obtain ⟨own, reached⟩ := jump
      have same : own = label := (jump?_eq_some_iff.mp found).2
      subst same
      cases reached with
      | some earlier => simp
      | none =>
          by_cases range : limits.jumpMin ≤ (target : Int) - own.position ∧
              (target : Int) - own.position ≤ limits.jumpMax
          · by_cases room : own.operand + 2 ≤ code.size
            · simp only [Option.isSome_none, Bool.false_eq_true, if_false, if_pos range,
                Code.checkPatch, if_pos room, Except.map, Except.ok.injEq, true_and]
              constructor
              · rintro rfl
                exact ⟨rfl, range.1, range.2, room⟩
              · exact fun holds => holds.1.symm
            · simp [range, Code.checkPatch, room, Except.map]
          · simp only [Option.isSome_none, Bool.false_eq_true, if_false, if_neg range, true_and]
            constructor
            · intro refused
              cases refused
            · rintro ⟨rfl, low, high, -⟩
              exact absurd ⟨low, high⟩ range

theorem resolve_ok (accepted : (ls.resolve code limits label target).answer = .ok ()) :
    ∃ distance, ls.checkResolve code limits label target = .ok distance ∧
      (ls.resolve code limits label target).after =
        (ls.settle label target, code.overwrite label.operand (.ofInt distance)) := by
  unfold resolve at accepted ⊢
  cases checked : ls.checkResolve code limits label target with
  | ok distance => exact ⟨distance, rfl, rfl⟩
  | error fault =>
      rw [checked] at accepted
      cases accepted

theorem jump?_settle (found : ls.jump? label = some ⟨label, none⟩) (target : Nat) (other : Label) :
    (ls.settle label target).jump? other =
      if other = label then some ⟨label, some target⟩ else ls.jump? other := by
  have there := (jump?_eq_some_iff.mp found).1
  by_cases same : other = label
  · rw [if_pos same, jump?_eq_some_iff, same]
    refine ⟨?_, rfl⟩
    simp only [settle, Array.getElem?_modify, if_true, there, Option.map_some]
  · rw [if_neg same]
    by_cases number : other.id = label.id
    · -- the number is taken by the settled label, before and after
      have apart : label ≠ other := fun equal => same equal.symm
      simp [jump?, settle, Array.getElem?_modify, number, there, Option.filter_some, apart]
    · exact jump?_settle_other number target

/-- The count is that of the jumps without a target. -/
def Counted (ls : Labels) : Prop := ls.unresolved = ls.jumps.countP (·.target.isNone)

theorem Counted.reserve (counted : ls.Counted) (code : Code) : (ls.reserve code).2.1.Counted := by
  simp only [Counted, Labels.reserve, Array.countP_push, Option.isNone_none, if_true]
  rw [counted]

theorem countP_settle (found : ls.jump? label = some ⟨label, none⟩) (target : Nat) :
    (ls.settle label target).jumps.countP (·.target.isNone) + 1 =
      ls.jumps.countP (·.target.isNone) := by
  obtain ⟨inside, there⟩ := Array.getElem?_eq_some_iff.mp (jump?_eq_some_iff.mp found).1
  have replaced : (ls.settle label target).jumps =
      ls.jumps.set label.id.index ⟨label, some target⟩ inside := by
    apply Array.ext_getElem?
    intro i
    simp only [settle, Array.getElem?_modify, Array.getElem?_set]
    split
    · rename_i same
      rw [← same, Array.getElem?_eq_getElem inside, there]
      rfl
    · rfl
  have one := Array.boole_getElem_le_countP (p := fun jump : Jump => jump.target.isNone) inside
  rw [replaced, Array.countP_set, there]
  rw [there] at one
  simp only [Option.isNone_none, Option.isNone_some, if_true, Bool.false_eq_true, if_false] at one ⊢
  omega

theorem Counted.unresolved_settle (counted : ls.Counted)
    (found : ls.jump? label = some ⟨label, none⟩) (target : Nat) :
    (ls.settle label target).unresolved + 1 = ls.unresolved := by
  have fewer := countP_settle found target
  change ls.unresolved - 1 + 1 = ls.unresolved
  rw [counted]
  omega

theorem Counted.settle (counted : ls.Counted) (found : ls.jump? label = some ⟨label, none⟩)
    (target : Nat) : (ls.settle label target).Counted := by
  have fewer := countP_settle found target
  have less := counted.unresolved_settle found target
  rw [counted] at less
  rw [Counted]
  omega

theorem Counted.step (counted : ls.Counted) (op : Op) : (ls.step op).after.Counted := by
  cases op with
  | reserve code => exact counted.reserve code
  | queue label =>
      cases checked : ls.checkQueue label with
      | ok done =>
          rw [after_queue_of_ok checked]
          exact counted
      | error fault =>
          rw [after_queue_of_error checked]
          exact counted
  | dequeue =>
      obtain ⟨pending, taken⟩ := ls.dequeue_eq
      change ls.dequeue.2.Counted
      rw [taken]
      exact counted
  | resolve code limits label target =>
      cases checked : ls.checkResolve code limits label target with
      | ok distance =>
          rw [after_resolve_of_ok checked]
          exact counted.settle (checkResolve_eq_ok_iff.mp checked).1 target
      | error fault =>
          rw [after_resolve_of_error checked]
          exact counted

theorem Counted.run (counted : ls.Counted) (ops : List Op) : (ls.run ops).Counted :=
  runBy_invariant Labels.step (fun _ op counted => counted.step op) counted ops

def resolvedLog (target : Nat) (labels : List Label) : List Event :=
  labels.map fun label => resolved label target ((target : Int) - label.position)

namespace Resolves

variable {labels : List Label} {first last : Labels × Code}

theorem jump? (resolves : Resolves limits target labels first last) (other : Label) :
    last.1.jump? other =
      if other ∈ labels then some ⟨other, some target⟩ else first.1.jump? other := by
  induction resolves with
  | none => simp
  | @next ls code label labels last accepted rest ih =>
      obtain ⟨distance, checked, after⟩ := resolve_ok accepted
      rw [ih, after, jump?_settle (checkResolve_eq_ok_iff.mp checked).1]
      by_cases later : other ∈ labels
      · simp [later]
      · by_cases own : other = label
        · simp [own]
        · simp [later, own]

theorem untargeted (resolves : Resolves limits target labels first last) :
    ∀ label ∈ labels, first.1.jump? label = some ⟨label, .none⟩ := by
  induction resolves with
  | none => simp
  | @next ls code label labels last accepted rest ih =>
      obtain ⟨distance, checked, after⟩ := resolve_ok accepted
      have found := (checkResolve_eq_ok_iff.mp checked).1
      intro other member
      rcases List.mem_cons.mp member with rfl | later
      · exact found
      · have before := ih other later
        rw [after, jump?_settle found] at before
        split at before
        · cases before
        · exact before

theorem nodup (resolves : Resolves limits target labels first last) : labels.Nodup := by
  induction resolves with
  | none => exact List.nodup_nil
  | @next ls code label labels last accepted rest ih =>
      refine List.nodup_cons.mpr ⟨?_, ih⟩
      intro again
      obtain ⟨distance, checked, after⟩ := resolve_ok accepted
      have free := rest.untargeted label again
      rw [after, jump?_settle (checkResolve_eq_ok_iff.mp checked).1, if_pos rfl] at free
      cases free

theorem pending (resolves : Resolves limits target labels first last) :
    last.1.pending = first.1.pending.filter fun id => id ∉ labels.map (·.id) := by
  induction resolves with
  | none =>
      rw [eq_comm, Array.filter_eq_self]
      simp
  | @next ls code label labels last accepted rest ih =>
      obtain ⟨distance, checked, after⟩ := resolve_ok accepted
      rw [ih, after]
      simp only [Labels.settle, Array.filter_filter, List.map_cons, List.mem_cons, not_or]
      congr 1
      funext id
      simp [Bool.and_comm]

theorem unresolved (resolves : Resolves limits target labels first last)
    (counted : first.1.Counted) : last.1.unresolved + labels.length = first.1.unresolved := by
  induction resolves with
  | none => rfl
  | @next ls code label labels last accepted rest ih =>
      obtain ⟨distance, checked, after⟩ := resolve_ok accepted
      have found := (checkResolve_eq_ok_iff.mp checked).1
      have less : (ls.settle label target).unresolved + 1 = ls.unresolved :=
        counted.unresolved_settle found target
      rw [after] at ih
      have later : last.1.unresolved + labels.length = (ls.settle label target).unresolved :=
        ih (counted.settle found target)
      change last.1.unresolved + (labels.length + 1) = ls.unresolved
      omega

theorem size (resolves : Resolves limits target labels first last) :
    last.2.size = first.2.size := by
  induction resolves with
  | none => rfl
  | @next ls code label labels last accepted rest ih =>
      obtain ⟨distance, checked, after⟩ := resolve_ok accepted
      rw [ih, after, Code.size_overwrite]

theorem byte? (resolves : Resolves limits target labels first last) {i : Nat}
    (outside : ∀ label ∈ labels, i ≠ label.operand ∧ i ≠ label.operand + 1) :
    last.2.byte? i = first.2.byte? i := by
  induction resolves with
  | none => rfl
  | @next ls code label labels last accepted rest ih =>
      obtain ⟨distance, checked, after⟩ := resolve_ok accepted
      rw [ih fun other later => outside other (List.mem_cons_of_mem label later), after]
      exact code.byte?_overwrite_of_ne _ (outside label List.mem_cons_self)

end Resolves

end Labels

namespace Scope

variable {s : Scope} {label : Label} {target : Nat}

theorem counted_move (counted : s.labels.Counted) (m : Move) : (s.move m).after.labels.Counted := by
  obtain ⟨ops, reached⟩ := s.labels_move m
  rw [reached]
  exact counted.run ops

/-- What an answer makes a scope say: a fatal fault is told, nothing else. -/
def abortLog {α : Type} (s : Scope) : Except Fault α → List Event
  | .ok _ => []
  | .error fault => if fault.fatal then [.aborted s.id fault] else []

theorem log_abort {α : Type} (s : Scope) (fault : Fault) :
    (s.abort (α := α) fault).log = s.abortLog (s.abort (α := α) fault).answer := by
  rw [answer_abort, abort, abortLog]
  by_cases fatal : fault.fatal = true
  · rw [if_pos fatal, if_pos fatal]
  · rw [if_neg fatal, if_neg fatal]
    rfl

/-- Resolving labels resolves them in order, up to the first that cannot be, and tells of each. -/
theorem resolveAll_resolves (target : Nat) (labels : List Label) (s : Scope) :
    ∃ done rest, labels = done ++ rest ∧
      Labels.Resolves s.limits target done (s.labels, s.code)
        ((resolveAll target labels s).after.labels, (resolveAll target labels s).after.code) ∧
      ((resolveAll target labels s).answer = .ok () → rest = []) ∧
      (resolveAll target labels s).log =
        Labels.resolvedLog target done ++ s.abortLog (resolveAll target labels s).answer := by
  induction labels generalizing s with
  | nil => exact ⟨[], [], rfl, .none _, fun _ => rfl, rfl⟩
  | cons label labels ih =>
      cases checked : s.checkResolve label target with
      | error fault =>
          rw [resolveAll_cons_error checked]
          refine ⟨[], label :: labels, rfl, ?_, ?_, log_abort s fault⟩
          · exact after_abort (P := fun after => Labels.Resolves s.limits target []
              (s.labels, s.code) (after.labels, after.code)) fault (.none _) (.none _)
          · intro accepted
            rw [answer_abort] at accepted
            cases accepted
      | ok distance =>
          obtain ⟨done, rest, split, resolves, all, told⟩ := ih (s.settle label target distance)
          obtain ⟨answer, after⟩ := resolveAll_cons_ok checked labels
          obtain ⟨accepted, next⟩ := resolve_of_ok checked
          refine ⟨label :: done, rest, congrArg (label :: ·) split, .next accepted ?_, ?_, ?_⟩
          · rw [next, after]
            exact resolves
          · rw [answer]
            exact all
          · have far : distance = (target : Int) - label.position :=
              (Labels.checkResolve_eq_ok_iff.mp checked).2.1
            have first : (resolveAll target (label :: labels) s).log =
                Labels.resolved label target distance ::
                  (resolveAll target labels (s.settle label target distance)).log := by
              simp only [resolveAll, checked]
            rw [first, told, answer, far]
            rfl

end Scope

end BytecodeScopes
