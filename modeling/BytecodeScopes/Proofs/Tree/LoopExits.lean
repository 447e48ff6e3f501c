import BytecodeScopes.Proofs.Emission.Run
import BytecodeScopes.Proofs.Scope.Frames
import BytecodeScopes.Proofs.Tree.FinishDecision

namespace BytecodeScopes

namespace Recorded

variable {h : History} {ls : Labels} {code : Code} {label : Label}

theorem given_of_jump? {jump : Jump} (recorded : Recorded h ls code)
    (found : ls.jump? label = some jump) : label ∈ h.labels := by
  by_contra foreign
  rw [recorded.jump?_of_not_mem foreign] at found
  cases found

theorem mem_jumps_iff (recorded : Recorded h ls code) {jump : Jump} :
    jump ∈ ls.jumps ↔ ls.jump? jump.label = some jump := by
  constructor
  · intro member
    obtain ⟨i, there⟩ := Array.mem_iff_getElem?.mp member
    have own := there
    rw [recorded.getElem?_jumps] at own
    obtain ⟨label, given, rfl⟩ := Option.map_eq_some_iff.mp own
    have number : label.id.index = i := recorded.numbered i label given
    refine Labels.jump?_eq_some_iff.mpr ⟨?_, rfl⟩
    rw [number]
    exact there
  · intro found
    exact Array.mem_of_getElem? (Labels.jump?_eq_some_iff.mp found).1

theorem position_le (recorded : Recorded h ls code) (given : label ∈ h.labels) :
    label.position ≤ code.size := by
  obtain ⟨front, back, split⟩ := List.append_of_mem ((h.mem_labels_iff label).mp given)
  obtain ⟨operand, position⟩ := recorded.placed front label back split
  have inside := recorded.operand_inside given
  omega

theorem int16?_of_target (recorded : Recorded h ls code) {target : Nat}
    (found : ls.jump? label = some ⟨label, some target⟩) :
    ∃ value, code.int16? label.operand = some value ∧
      value.toInt = (target : Int) - label.position := by
  have given := recorded.given_of_jump? found
  rw [recorded.jump?_of_mem given] at found
  have targeted : h.target? label = some target := congrArg Jump.target (Option.some.inj found)
  obtain ⟨r, resolution, rfl⟩ := Option.map_eq_some_iff.mp targeted
  have own : r.label = label := by simpa using List.find?_some resolution
  subst own
  obtain ⟨low, high⟩ := recorded.fits r (List.mem_of_find?_eq_some resolution)
  obtain ⟨first, second, bytes, reads⟩ := Resolution.bytes_read low high
  obtain ⟨front, back, split, offset, -, -⟩ := recorded.split_at given
  have written : code.bytes.toList =
      front.flatMap h.bytes ++ first :: second :: back.flatMap h.bytes := by
    rw [recorded.code_eq, History.code, split, List.flatMap_append, List.flatMap_cons,
      History.bytes, resolution]
    dsimp only
    rw [bytes]
    rfl
  have before : (front.flatMap h.bytes).length = r.label.operand := by
    rw [History.length_flatMap_bytes, offset]
  have high : code.bytes[r.label.operand]? = some first := by
    rw [← Array.getElem?_toList, written, ← before]
    simp
  have low : code.bytes[r.label.operand + 1]? = some second := by
    rw [← Array.getElem?_toList, written, ← before]
    simp
  refine ⟨(BigEndian.join16 first second).toInt16, ?_, reads⟩
  simp [Code.int16?, high, low]

end Recorded

namespace Scope

variable {s : Scope} {label : Label} {target : Nat}

/-- Resolving a label takes away the chance to resolve it, and no other. -/
theorem checkResolve_settle {distance : Int} (checked : s.checkResolve label target = .ok distance)
    (other : Label) (d : Int) :
    (s.settle label target distance).checkResolve other target = .ok d ↔
      other ≠ label ∧ s.checkResolve other target = .ok d := by
  have found := (Labels.checkResolve_eq_ok_iff.mp checked).1
  simp only [checkResolve, settle, Labels.checkResolve_eq_ok_iff, Labels.jump?_settle found,
    Code.size_overwrite]
  by_cases same : other = label
  · simp [same]
  · simp [same]

theorem resolveAll_eq_ok_iff (target : Nat) (labels : List Label) (s : Scope) :
    (resolveAll target labels s).answer = .ok () ↔
      labels.Nodup ∧ ∀ label ∈ labels, ∃ distance, s.checkResolve label target = .ok distance := by
  induction labels generalizing s with
  | nil => simp [resolveAll, Reply.accept]
  | cons label labels ih =>
      cases checked : s.checkResolve label target with
      | error fault =>
          rw [resolveAll_cons_error checked, answer_abort]
          constructor
          · intro accepted
            cases accepted
          · rintro ⟨-, all⟩
            obtain ⟨distance, ok⟩ := all label List.mem_cons_self
            rw [checked] at ok
            cases ok
      | ok distance =>
          -- the others are checked against what this label left: again means resolved already
          rw [(resolveAll_cons_ok checked labels).1, ih, List.nodup_cons]
          simp only [checkResolve_settle checked]
          constructor
          · rintro ⟨distinct, rest⟩
            refine ⟨⟨?_, distinct⟩, ?_⟩
            · intro again
              obtain ⟨_, apart, -⟩ := rest label again
              exact apart rfl
            · intro other member
              rcases List.mem_cons.mp member with rfl | later
              · exact ⟨distance, checked⟩
              · obtain ⟨d, -, ok⟩ := rest other later
                exact ⟨d, ok⟩
          · rintro ⟨⟨fresh, distinct⟩, all⟩
            refine ⟨distinct, ?_⟩
            intro other later
            obtain ⟨d, ok⟩ := all other (List.mem_cons_of_mem label later)
            refine ⟨d, ?_, ok⟩
            rintro rfl
            exact fresh later

section

variable {h : History} {frame : LoopFrame} {outer : List LoopFrame}

theorem checkResolve_position_iff (recorded : Recorded h s.labels s.code) (fit : s.limits.JumpsFit)
    (small : s.code.size < 4294967296) :
    (∃ distance, s.checkResolve label s.position = .ok distance) ↔
      ⟨label, none⟩ ∈ s.labels.jumps ∧
        (s.position : Int) - label.position ≤ s.limits.jumpMax := by
  have here : s.position = s.code.size := Nat.min_eq_left (Nat.le_of_lt_succ small)
  rw [recorded.mem_jumps_iff]
  simp only [checkResolve, Labels.checkResolve_eq_ok_iff]
  constructor
  · rintro ⟨_, found, rfl, -, far, -⟩
    exact ⟨found, far⟩
  · rintro ⟨found, far⟩
    have given := recorded.given_of_jump? found
    -- labels lie behind, so only the bound forward counts
    have behind : label.position ≤ s.position := here ▸ recorded.position_le given
    have back : s.limits.jumpMin ≤ (s.position : Int) - label.position := by
      have low := fit.2.1
      omega
    exact ⟨_, found, rfl, back, far, recorded.operand_inside given⟩

theorem closeLoop_accepted_iff (recorded : Recorded h s.labels s.code) (fit : s.limits.JumpsFit)
    (building : s.phase = .building) (small : s.code.size < 4294967296)
    (frames : s.frames.loops = frame :: outer) :
    (∃ closed, s.closeLoop.answer = .ok closed) ↔
      frame.exits.toList.Nodup ∧ ∀ exit ∈ frame.exits,
        ⟨exit, none⟩ ∈ s.labels.jumps ∧
          (s.position : Int) - exit.position ≤ s.limits.jumpMax := by
  let inner : Scope := { s with frames := { s.frames with loops := outer } }
  have accepted : (∃ closed, s.closeLoop.answer = .ok closed) ↔
      (resolveAll s.position frame.exits.toList inner).answer = .ok () := by
    rw [closeLoop_of_cons building frames]
    constructor
    · rintro ⟨closed, ok⟩
      obtain ⟨done, resolved, -⟩ := Reply.map_eq_ok_iff.mp ok
      exact resolved
    · intro resolved
      exact ⟨_, Reply.map_eq_ok_iff.mpr ⟨(), resolved, rfl⟩⟩
  rw [accepted, resolveAll_eq_ok_iff]
  refine and_congr Iff.rfl (forall_congr' fun exit => ?_)
  rw [Array.mem_toList_iff]
  exact imp_congr Iff.rfl (checkResolve_position_iff (s := inner) recorded fit small)

/-- What closing a loop leaves: its exits lead here, and all else is as it was. -/
structure ExitsPatched (s : Scope) (frame : LoopFrame) (outer : List LoopFrame) (after : Scope) :
    Prop where
  operands : ∀ exit ∈ frame.exits, ∃ value, after.code.int16? exit.operand = some value ∧
    value.toInt = (s.position : Int) - exit.position
  targets : ∀ exit ∈ frame.exits, after.labels.target? exit = some s.position
  size : after.code.size = s.code.size
  bytes : ∀ i, (∀ exit ∈ frame.exits, i ≠ exit.operand ∧ i ≠ exit.operand + 1) →
    after.code.byte? i = s.code.byte? i
  unresolved : after.labels.unresolved + frame.exits.size = s.labels.unresolved
  pending : after.labels.pending =
    s.labels.pending.filter fun id => id ∉ frame.exits.toList.map (·.id)
  frames : after.frames = { s.frames with loops := outer }

theorem exitsPatched_closeLoop (recorded : Recorded h s.labels s.code) (fit : s.limits.JumpsFit)
    (counted : s.labels.Counted) (building : s.phase = .building)
    (frames : s.frames.loops = frame :: outer) {closed : LoopFrame}
    (accepted : s.closeLoop.answer = .ok closed) :
    closed = { frame with next := some s.position } ∧
      s.ExitsPatched frame outer s.closeLoop.after := by
  let inner : Scope := { s with frames := { s.frames with loops := outer } }
  rw [closeLoop_of_cons building frames] at accepted ⊢
  obtain ⟨done, resolved, rfl⟩ := Reply.map_eq_ok_iff.mp accepted
  refine ⟨rfl, ?_⟩
  rw [Reply.after_map]
  obtain ⟨exits, rest, split, resolves, all, -⟩ :=
    resolveAll_resolves s.position frame.exits.toList inner
  have every : exits = frame.exits.toList := by rw [split, all resolved, List.append_nil]
  subst every
  have later := (recorded_resolveAll (s := inner) s.position frame.exits.toList fit recorded).1
  have jumps : ∀ exit ∈ frame.exits,
      (resolveAll s.position frame.exits.toList inner).after.labels.jump? exit =
        some ⟨exit, some s.position⟩ := by
    intro exit member
    exact (resolves.jump? exit).trans (if_pos (Array.mem_toList_iff.mpr member))
  constructor
  case operands => exact fun exit member => later.int16?_of_target (jumps exit member)
  case targets => exact fun exit member => Labels.target?_of_jump? (jumps exit member)
  case size => exact resolves.size
  case bytes =>
    intro i outside
    exact resolves.byte? fun exit member => outside exit (Array.mem_toList_iff.mp member)
  case unresolved => exact resolves.unresolved counted
  case pending => exact resolves.pending
  case frames => exact frames_resolveAll s.position frame.exits.toList inner

end

theorem size_move_of_unfinished (s : Scope) (m : Move)
    (unfinished : (s.move m).after.output? = none) :
    s.code.size ≤ (s.move m).after.code.size := by
  cases m with
  | act op => exact s.size_step op
  | finish childCount =>
      let Grown (after : Scope) : Prop := after.output? = none → s.code.size ≤ after.code.size
      have grown : Grown (s.finish childCount).after := by
        apply after_finish (P := Grown)
        · exact fun _ => Nat.le_refl _
        · exact fun _ => Nat.le_refl _
        · intro _ _ none
          cases none
      exact grown unfinished

end Scope

namespace Tree

/-- Every scope that is not finished has a history that tells its code and its labels. -/
theorem Reachable.recorded {t : Tree} (reachable : t.Reachable) {id : ScopeId} {s : Scope}
    (live : t.scope? id = some s) : s.limits.Sound ∧
      (s.output? = none → s.code.size < 4294967296 → ∃ h, Recorded h s.labels s.code) := by
  apply reachable.every_scope (P := fun s => s.limits.Sound ∧
    (s.output? = none → s.code.size < 4294967296 → ∃ h, Recorded h s.labels s.code)) _ _ _ live
  · intro id parent top nesting limits sound
    exact ⟨sound, fun _ _ => ⟨{}, Recorded.empty⟩⟩
  · rintro s m ⟨sound, before⟩
    have limits : (s.move m).after.limits = s.limits := congrArg Scope.Site.limits (s.site_move m)
    refine ⟨limits ▸ sound, ?_⟩
    intro unfinished small
    have grown := Scope.size_move_of_unfinished s m unfinished
    cases given : s.output? with
    | none =>
        obtain ⟨h, recorded⟩ := before given (Nat.lt_of_le_of_lt grown small)
        exact ⟨_, Scope.recorded_move m sound.jumps small (fun _ => recorded) unfinished⟩
    | some output =>
        have absurd : s.output? = none → Recorded {} s.labels s.code := by simp [given]
        exact ⟨_, Scope.recorded_move m sound.jumps small absurd unfinished⟩
  · exact fun _ _ holds => holds

/-- A loop can be closed exactly if its exits are different labels of this scope that are open and
near enough. All of them then lead to its end, and code, labels and frames are otherwise as they
were. -/
theorem closing_loop_patches_exits {t : Tree} (reachable : t.Reachable) {id : ScopeId} {s : Scope}
    (live : t.scope? id = some s) (building : s.phase = .building)
    (small : s.code.size < 4294967296) :
    (s.frames.loops = [] → s.closeLoop.answer = .error (.noOpenFrame .loops)) ∧
    ∀ frame outer, s.frames.loops = frame :: outer →
      ((∃ closed, s.closeLoop.answer = .ok closed) ↔
        frame.exits.toList.Nodup ∧ ∀ exit ∈ frame.exits,
          ⟨exit, none⟩ ∈ s.labels.jumps ∧
            (s.position : Int) - exit.position ≤ s.limits.jumpMax) ∧
      ∀ closed, s.closeLoop.answer = .ok closed →
        closed = { frame with next := some s.position } ∧
          s.ExitsPatched frame outer s.closeLoop.after := by
  obtain ⟨sound, history⟩ := reachable.recorded live
  obtain ⟨h, recorded⟩ := history (Scope.output?_of_building building) small
  refine ⟨?_, ?_⟩
  · intro none
    rw [Scope.closeLoop_of_nil building none, Scope.answer_abort]
  · intro frame outer frames
    refine ⟨Scope.closeLoop_accepted_iff recorded sound.jumps building small frames, ?_⟩
    intro closed accepted
    exact Scope.exitsPatched_closeLoop recorded sound.jumps (reachable.counted live) building frames
      accepted

/-- A loop in a loop, with two jumps out of it of which one waits. -/
def exitActions : List Scope.Op :=
  [.openRetry, .openLoop, .openLoop, .reserve, .addExit ⟨⟨0⟩, 0, 2⟩, .emit 7, .reserve,
    .addExit ⟨⟨1⟩, 3, 5⟩, .queue ⟨⟨1⟩, 3, 5⟩, .emit 9]

def withExits : Scope := (Scope.fresh ⟨0⟩ none true .method {}).run exitActions

def exiting : Tree := ({} : Tree).run (.create none true :: exitActions.map (.scope ⟨0⟩))

theorem closing_loop_patches_exits_nested :
    exiting.Reachable ∧ exiting.scope? ⟨0⟩ = some withExits ∧ withExits.position = 6 ∧
    ∃ frame outer, withExits.frames.loops = [frame, outer] ∧ frame.exits.size = 2 ∧
      withExits.closeLoop.answer = .ok { frame with next := some withExits.position } ∧
      withExits.ExitsPatched frame [outer] withExits.closeLoop.after := by
  have sound : ({} : Limits).Sound := (Limits.validate_eq_ok_iff {}).mp (by decide)
  have reachable : exiting.Reachable := ⟨{}, sound, _, rfl⟩
  have live : exiting.scope? ⟨0⟩ = some withExits := rfl
  have frames : withExits.frames.loops =
      [{ redo := 0, exits := #[⟨⟨0⟩, 0, 2⟩, ⟨⟨1⟩, 3, 5⟩] }, { redo := 0 }] := by decide
  obtain ⟨-, closes⟩ := closing_loop_patches_exits reachable live rfl (by decide)
  obtain ⟨decided, patched⟩ := closes _ _ frames
  obtain ⟨closed, accepted⟩ := decided.mpr ⟨by decide, by decide +kernel⟩
  obtain ⟨rfl, patches⟩ := patched closed accepted
  exact ⟨reachable, live, by decide, _, _, frames, rfl, accepted, patches⟩

end Tree

end BytecodeScopes
