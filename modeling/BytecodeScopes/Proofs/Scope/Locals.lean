import BytecodeScopes.Proofs.Scope.Registers
import BytecodeScopes.Proofs.Scope.Run
import Mathlib.Data.List.Nodup
import Mathlib.Data.List.Perm.Subperm

namespace BytecodeScopes

namespace RegisterFile

variable {limit : Nat} {r r' : RegisterFile}

/-- Each local lies above those declared before it, and all lie in registers that are in use. -/
structure Stacked (r : RegisterFile) : Prop where
  rising : r.locals.toList.Pairwise fun older younger => older.register < younger.register
  below : ∀ l ∈ r.locals, l.register.toNat < r.height

theorem Stacked.change (stacked : r.Stacked) (change : Change limit r r')
    (clear : ∀ l ∈ r.locals, l.register.toNat < r'.height)
    (above : ∀ l, r'.locals = r.locals.push l → r.height ≤ l.register.toNat) : r'.Stacked := by
  cases change with
  | keep => exact stacked
  | reach | release => exact ⟨stacked.rising, clear⟩
  | bind l unknown room fits =>
      have free : r.height ≤ l.register.toNat := above l rfl
      constructor
      · change (r.locals.push l).toList.Pairwise _
        rw [Array.toList_push, List.pairwise_append]
        refine ⟨stacked.rising, List.pairwise_singleton _ _, ?_⟩
        intro older member younger last
        rw [List.mem_singleton.mp last, UInt8.lt_iff_toNat_lt]
        exact Nat.lt_of_lt_of_le (stacked.below older (Array.mem_toList_iff.mp member)) free
      · intro k member
        rcases Array.mem_push.mp member with older | rfl
        · exact clear k older
        · exact Nat.le_max_right _ _

theorem Stacked.nodup (stacked : r.Stacked) : (r.locals.toList.map (·.register)).Nodup :=
  List.pairwise_map.mpr (stacked.rising.imp UInt8.ne_of_lt)

theorem Stacked.size_le (stacked : r.Stacked) : r.locals.size ≤ r.height := by
  have distinct : ((r.locals.toList.map (·.register)).map UInt8.toNat).Nodup :=
    stacked.nodup.map fun _ _ => UInt8.toNat_inj.mp
  have inside : (r.locals.toList.map (·.register)).map UInt8.toNat ⊆ List.range r.height := by
    intro n member
    rw [List.map_map] at member
    obtain ⟨l, known, rfl⟩ := List.mem_map.mp member
    exact List.mem_range.mpr (stacked.below l (Array.mem_toList_iff.mp known))
  simpa using (List.subperm_of_subset distinct inside).length_le

end RegisterFile

namespace Scope

def declared? : Op × Answer → Option Local
  | (.declare name _, .register register) => some ⟨name, register⟩
  | _ => none

section

variable {s : Scope} {op : Op} {name : String} {placement : Placement}

theorem locals_step_of_other (other : ∀ name placement, op ≠ .declare name placement) :
    (s.step op).after.locals = s.locals := by
  by_cases touched : .registers ∈ op.touches
  · cases op with
    | push | pop | popMany | setHeight =>
        apply after_attempt (P := (·.locals = s.locals)) rfl (fun _ => rfl)
        intro plan building checked
        rfl
    | declare name placement => exact absurd rfl (other name placement)
    | _ => simp [Op.touches] at touched
  · exact congrArg RegisterFile.locals (registerFile_step_of_apart touched)

theorem declared?_of_other (other : ∀ name placement, op ≠ .declare name placement)
    (answer : Answer) : declared? (op, answer) = none := by
  cases op with
  | declare name placement => exact absurd rfl (other name placement)
  | _ => rfl

theorem declared?_eq_some_iff {entry : Op × Answer} {l : Local} :
    declared? entry = some l ↔
      ∃ placement, entry = (.declare l.name placement, .register l.register) := by
  constructor
  · intro bound
    unfold declared? at bound
    split at bound
    · cases bound
      exact ⟨_, rfl⟩
    · cases bound
  · rintro ⟨placement, rfl⟩
    rfl

theorem declare_error {fault : Fault} (refused : (s.declare name placement).answer = .error fault) :
    (s.declare name placement).after.locals = s.locals := by
  cases phase : s.phase with
  | finished output =>
      rw [declare, attempt, whileBuilding_of_finished phase]
      rfl
  | failed =>
      rw [declare, attempt, whileBuilding_of_failed phase]
      rfl
  | building =>
      have clean : s.Clean (s.declare name placement) := clean_attempt phase fun _ => phase
      rw [clean.refused fault refused, stopped]
      split <;> rfl

theorem locals_declare (s : Scope) (name : String) (placement : Placement) :
    (s.declare name placement).after.locals.toList =
      s.locals.toList ++
        (s.accepted? (.act (.declare name placement))).toList.filterMap declared? := by
  cases answer : (s.declare name placement).answer with
  | error fault =>
      have refused : (s.step (.declare name placement)).answer = .error fault :=
        Reply.map_eq_error_iff.mpr answer
      rw [accepted?_of_error refused, declare_error answer]
      simp
  | ok register =>
      have accepted : (s.step (.declare name placement)).answer = .ok (.register register) :=
        Reply.map_eq_ok_iff.mpr ⟨register, answer, rfl⟩
      obtain ⟨-, -, -, locals⟩ := declare_ok answer
      rw [accepted?_of_ok accepted, locals, Array.toList_push]
      rfl

/-- An accepted declaration puts its local behind the others, and nothing else changes them. -/
theorem locals_move (s : Scope) (m : Move) :
    (s.move m).after.locals.toList =
      s.locals.toList ++ (s.accepted? m).toList.filterMap declared? := by
  cases m with
  | finish childCount =>
      have kept : (s.finish childCount).after.locals = s.locals :=
        after_finish (P := (·.locals = s.locals)) childCount rfl rfl (fun _ _ => rfl)
      change (s.finish childCount).after.locals.toList = s.locals.toList ++ []
      rw [kept, List.append_nil]
  | act op =>
      by_cases other : ∀ name placement, op ≠ .declare name placement
      · have none : (s.accepted? (.act op)).toList.filterMap declared? = [] := by
          apply List.filterMap_eq_nil_iff.mpr
          intro entry member
          obtain ⟨rfl, -⟩ := accepted?_eq_some_iff.mp (Option.mem_toList.mp member)
          exact declared?_of_other other entry.2
        rw [move, locals_step_of_other other, none, List.append_nil]
      · simp only [ne_eq, not_forall, not_not] at other
        obtain ⟨name, placement, rfl⟩ := other
        exact locals_declare s name placement

theorem locals_play (s : Scope) (moves : List Move) :
    (s.play moves).locals.toList =
      s.locals.toList ++ (s.accepted moves).filterMap declared? :=
  collected_play (·.locals.toList) declared? locals_move s moves

/-- Whether a move uses the registers as a stack: a register that is asked for is not in use, and
the height does not fall to the register of a local. -/
def stackMove (s : Scope) (m : Move) : Bool :=
  match m with
  | .act (.declare _ (.fixed register)) => s.height ≤ register.toNat
  | .act .pop | .act (.popMany _) | .act (.setHeight _) =>
      s.locals.toList.all fun l => l.register.toNat + 1 ≤ (s.move m).after.height
  | _ => true

def stackRun (s : Scope) : List Move → Bool
  | [] => true
  | m :: moves => s.stackMove m && (s.move m).after.stackRun moves

theorem height_le_push (s : Scope) : s.height ≤ s.push.after.height := by
  apply after_attempt (P := (s.height ≤ ·.height)) (Nat.le_refl _) (fun _ => Nat.le_refl _)
  intro plan building checked
  exact Nat.le_succ _

theorem height_le_declare (s : Scope) (name : String) (placement : Placement) :
    s.height ≤ (s.declare name placement).after.height := by
  apply after_attempt (P := (s.height ≤ ·.height)) (Nat.le_refl _) (fun _ => Nat.le_refl _)
  intro plan building checked
  cases placement with
  | next => exact Nat.le_succ _
  | fixed register => exact Nat.le_max_left _ _

theorem clear_step (stacked : s.registerFile.Stacked) (keeps : s.stackMove (.act op) = true)
    {l : Local} (member : l ∈ s.locals) : l.register.toNat < (s.step op).after.height := by
  have below : l.register.toNat < s.height := stacked.below l member
  by_cases touched : .registers ∈ op.touches
  · cases op with
    | push => exact Nat.lt_of_lt_of_le below s.height_le_push
    | declare name placement => exact Nat.lt_of_lt_of_le below (s.height_le_declare name placement)
    | pop | popMany | setHeight =>
        rw [stackMove, List.all_eq_true] at keeps
        exact of_decide_eq_true (keeps l (Array.mem_toList_iff.mpr member))
    | _ => simp [Op.touches] at touched
  · have kept : (s.step op).after.height = s.height :=
      congrArg RegisterFile.height (registerFile_step_of_apart touched)
    rw [kept]
    exact below

theorem above_step (small : s.limits.registers ≤ 256) (keeps : s.stackMove (.act op) = true)
    {l : Local} (bound : (s.step op).after.locals = s.locals.push l) :
    s.height ≤ l.register.toNat := by
  have grown := s.locals_move (.act op)
  rw [move, bound, Array.toList_push, List.append_cancel_left_eq] at grown
  have new : l ∈ (s.accepted? (.act op)).toList.filterMap declared? := by
    rw [← grown]
    exact List.mem_singleton_self l
  obtain ⟨entry, member, declares⟩ := List.mem_filterMap.mp new
  obtain ⟨placement, rfl⟩ := declared?_eq_some_iff.mp declares
  obtain ⟨rfl, accepted⟩ := accepted?_eq_some_iff.mp (Option.mem_toList.mp member)
  obtain ⟨_, given, ⟨⟩⟩ := Reply.map_eq_ok_iff.mp accepted
  obtain ⟨register, fits, -, -⟩ := declare_ok given
  rw [register]
  cases placement with
  | next => exact Nat.le_of_eq (place_next (Nat.le_trans fits small)).symm
  | fixed asked => exact of_decide_eq_true keeps

theorem stacked_move (small : s.limits.registers ≤ 256) (stacked : s.registerFile.Stacked)
    {m : Move} (keeps : s.stackMove m = true) : (s.move m).after.registerFile.Stacked := by
  cases m with
  | act op =>
      exact stacked.change (registers_step small op) (fun l => clear_step stacked keeps)
        (fun l => above_step small keeps)
  | finish childCount =>
      have kept : (s.finish childCount).after.registerFile = s.registerFile :=
        after_finish (P := (·.registerFile = s.registerFile)) childCount rfl rfl (fun _ _ => rfl)
      rw [move, Reply.after_map, kept]
      exact stacked

theorem stacked_play (small : s.limits.registers ≤ 256) (stacked : s.registerFile.Stacked)
    (moves : List Move) (keeps : s.stackRun moves = true) :
    (s.play moves).registerFile.Stacked := by
  induction moves generalizing s with
  | nil => exact stacked
  | cons m moves ih =>
      rw [stackRun, Bool.and_eq_true] at keeps
      have limits : (s.move m).after.limits = s.limits := congrArg Site.limits (site_move s m)
      rw [← limits] at small
      exact ih small (stacked_move (limits ▸ small) stacked keeps.1) keeps.2

end

/-- Where registers are used as a stack the locals, in the order of their declarations, have rising
registers that are in use; so no two share one, and there are no more locals than registers in use,
nor in what a finished scope hands on. -/
theorem locals_apart (limits : Limits) (sound : limits.Sound) (id : ScopeId)
    (parent : Option ScopeId) (top : Bool) (nesting : Nesting) (moves : List Move)
    (keeps : (fresh id parent top nesting limits).stackRun moves = true) :
    let start := fresh id parent top nesting limits
    let s := start.play moves
    s.locals.toList = (start.accepted moves).filterMap declared? ∧
    s.locals.toList.Pairwise (fun older younger => older.register < younger.register) ∧
    (s.locals.toList.map (·.register)).Nodup ∧
    (∀ l ∈ s.locals, l.register.toNat < s.height) ∧
    (s.localCount = s.locals.size ∧ s.localCount ≤ s.height ∧ s.height ≤ s.peak) ∧
    ∀ childCount, (s.finish childCount).answer = .ok () →
      ∃ output, (s.finish childCount).after.output? = some output ∧
        output.localCount ≤ output.registers := by
  intro start s
  have empty : start.registerFile.Stacked :=
    ⟨List.Pairwise.nil, fun l member => absurd member (Array.not_mem_empty l)⟩
  have stacked : s.registerFile.Stacked := stacked_play sound.registers_le empty moves keeps
  obtain ⟨accounted, -⟩ := accounted_play (s := start) sound.registers_le moves
    (accounted_fresh id parent top nesting limits)
  have counted : s.localCount = s.locals.size := accounted.counted
  have few : s.locals.size ≤ s.height := stacked.size_le
  have reached : s.height ≤ s.peak := accounted.height_le
  refine ⟨locals_play start moves, stacked.rising, stacked.nodup, stacked.below,
    ⟨counted, counted ▸ few, reached⟩, ?_⟩
  intro childCount accepted
  obtain ⟨-, -, after⟩ := finish_of_ok accepted
  refine ⟨s.outputWith childCount, by rw [after]; rfl, ?_⟩
  change s.localCount ≤ s.peak
  omega

/-- Registers are given back down to the youngest local and asked for above it, one local is
declared again, and the last takes the highest register there is. -/
def stackMoves : List Move :=
  [.act (.declare "x" .next), .act .push, .act .push, .act (.popMany 2),
    .act (.declare "y" (.fixed 5)), .act (.declare "x" (.fixed 9)), .act .push, .act .pop,
    .act (.setHeight 255), .act (.declare "z" .next)]

theorem locals_apart_brink :
    ∃ start s : Scope, start = fresh ⟨0⟩ none true .method {} ∧ s = start.play stackMoves ∧
      start.stackRun stackMoves = true ∧
      start.heights stackMoves = [0, 1, 2, 3, 1, 6, 6, 7, 6, 255, 256] ∧
      s.locals.toList = [⟨"x", 0⟩, ⟨"y", 5⟩, ⟨"z", 255⟩] ∧
      (s.locals.toList.map (·.register)).Nodup ∧ (∀ l ∈ s.locals, l.register.toNat < s.height) ∧
      ∃ output, (s.finish 0).after.output? = some output ∧
        output.localCount ≤ output.registers := by
  have sound : ({} : Limits).Sound := (Limits.validate_eq_ok_iff {}).mp (by decide)
  have keeps : (fresh ⟨0⟩ none true .method {}).stackRun stackMoves = true := by decide
  obtain ⟨declared, -, apart, below, -, handed⟩ :=
    locals_apart {} sound ⟨0⟩ none true .method stackMoves keeps
  exact ⟨_, _, rfl, rfl, keeps, by decide, declared.trans (by decide), apart, below,
    handed 0 (by decide)⟩

end Scope

end BytecodeScopes
