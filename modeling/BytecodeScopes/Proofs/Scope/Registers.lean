import BytecodeScopes.Proofs.Scope.Outcome
import Mathlib.Data.List.Nodup

namespace BytecodeScopes

structure RegisterFile where
  height : Nat
  peak : Nat
  localCount : Nat
  locals : Array Local

namespace RegisterFile

variable {limit : Nat} {r r' : RegisterFile}

/-- Takes registers up to a height into use, or gives those above it back. -/
def reach (r : RegisterFile) (height : Nat) : RegisterFile :=
  { r with height, peak := max r.peak height }

def bind (r : RegisterFile) (l : Local) : RegisterFile :=
  { r.reach (max r.height (l.register.toNat + 1)) with
    localCount := r.localCount + 1
    locals := r.locals.push l }

/-- What one action can make of the registers. -/
inductive Change (limit : Nat) (r : RegisterFile) : RegisterFile → Prop where
  | keep : Change limit r r
  | reach (height : Nat) (fits : height ≤ limit) : Change limit r (r.reach height)
  | release (n : Nat) : Change limit r { r with height := r.height - n }
  | bind (l : Local) (unknown : ∀ k ∈ r.locals, k.name ≠ l.name)
      (room : r.locals.size < Scope.localCapacity)
      (fits : max r.height (l.register.toNat + 1) ≤ limit) : Change limit r (r.bind l)

structure Accounted (limit : Nat) (r : RegisterFile) : Prop where
  height_le : r.height ≤ r.peak
  peak_le : r.peak ≤ limit
  counted : r.localCount = r.locals.size
  bounded : r.locals.size ≤ Scope.localCapacity
  distinct : (r.locals.toList.map (·.name)).Nodup
  housed : ∀ l ∈ r.locals, l.register.toNat < r.peak

theorem Accounted.reach (accounted : r.Accounted limit) {height : Nat} (fits : height ≤ limit) :
    (r.reach height).Accounted limit := by
  have below := accounted.peak_le
  constructor
  case height_le => exact Nat.le_max_right _ _
  case peak_le => exact Nat.max_le.mpr ⟨below, fits⟩
  case counted => exact accounted.counted
  case bounded => exact accounted.bounded
  case distinct => exact accounted.distinct
  case housed =>
    intro l member
    exact Nat.lt_of_lt_of_le (accounted.housed l member) (Nat.le_max_left _ _)

theorem Accounted.bind (accounted : r.Accounted limit) {l : Local}
    (unknown : ∀ k ∈ r.locals, k.name ≠ l.name) (room : r.locals.size < Scope.localCapacity)
    (fits : max r.height (l.register.toNat + 1) ≤ limit) : (r.bind l).Accounted limit := by
  have reached := accounted.reach fits
  constructor
  case height_le => exact reached.height_le
  case peak_le => exact reached.peak_le
  case counted =>
    change r.localCount + 1 = (r.locals.push l).size
    rw [Array.size_push, accounted.counted]
  case bounded =>
    change (r.locals.push l).size ≤ Scope.localCapacity
    rw [Array.size_push]
    exact room
  case distinct =>
    change ((r.locals.push l).toList.map (·.name)).Nodup
    rw [Array.toList_push, List.map_append, List.map_singleton, List.nodup_append]
    refine ⟨accounted.distinct, List.nodup_singleton _, ?_⟩
    intro name known last same
    obtain ⟨k, member, rfl⟩ := List.mem_map.mp known
    rw [List.mem_singleton.mp same]
    exact unknown k (Array.mem_toList_iff.mp member)
  case housed =>
    intro k member
    change k ∈ r.locals.push l at member
    rcases Array.mem_push.mp member with older | rfl
    · exact reached.housed k older
    · change k.register.toNat < max r.peak (max r.height (k.register.toNat + 1))
      omega

theorem Accounted.change (accounted : r.Accounted limit) (change : Change limit r r') :
    r'.Accounted limit := by
  cases change with
  | keep => exact accounted
  | reach height fits => exact accounted.reach fits
  | release n =>
      have lower : r.height - n ≤ r.peak := Nat.le_trans (Nat.sub_le _ _) accounted.height_le
      exact { accounted with height_le := lower }
  | bind l unknown room fits => exact accounted.bind unknown room fits

theorem Change.peak_eq (change : Change limit r r') (height_le : r.height ≤ r.peak) :
    r'.peak = max r.peak r'.height := by
  cases change with
  | keep => exact (Nat.max_eq_left height_le).symm
  | reach height fits => rfl
  | release n => exact (Nat.max_eq_left (Nat.le_trans (Nat.sub_le _ _) height_le)).symm
  | bind l unknown room fits => rfl

end RegisterFile

namespace Scope

def registerFile (s : Scope) : RegisterFile := ⟨s.height, s.peak, s.localCount, s.locals⟩

theorem checkHeight_ok {s : Scope} {height : Nat} {plan : Unit}
    (checked : s.checkHeight height = .ok plan) : height ≤ s.limits.registers := by
  unfold checkHeight at checked
  split at checked
  · assumption
  · cases checked

theorem checkDeclare_ok {s : Scope} {name : String} {placement : Placement} {plan : Unit}
    (checked : s.checkDeclare name placement = .ok plan) :
    (∀ k ∈ s.locals, k.name ≠ name) ∧ s.locals.size < localCapacity ∧
      (s.place placement).2 ≤ s.limits.registers := by
  unfold checkDeclare at checked
  split at checked
  · cases checked
  · rename_i unknown
    split at checked
    · cases checked
    · rename_i room
      refine ⟨?_, Nat.lt_of_not_le room, checkHeight_ok checked⟩
      simpa [local?] using unknown

theorem place_next {s : Scope} (fits : s.height + 1 ≤ 256) :
    (s.place .next).1.toNat = s.height := by
  rw [place, UInt8.toNat_ofNat']
  omega

theorem place_height {s : Scope} {placement : Placement} (fits : (s.place placement).2 ≤ 256) :
    (s.place placement).2 = max s.height ((s.place placement).1.toNat + 1) := by
  cases placement with
  | next =>
      rw [place_next fits]
      exact (Nat.max_eq_right (Nat.le_succ _)).symm
  | fixed register => rfl

theorem declare_ok {s : Scope} {name : String} {placement : Placement} {register : UInt8}
    (accepted : (s.declare name placement).answer = .ok register) :
    register = (s.place placement).1 ∧ (s.place placement).2 ≤ s.limits.registers ∧
      (s.declare name placement).after.height = (s.place placement).2 ∧
      (s.declare name placement).after.locals = s.locals.push ⟨name, register⟩ := by
  have building : s.phase = .building := building_of_ok accepted
  cases checked : s.checkDeclare name placement with
  | error fault =>
      rw [declare, attempt_of_error building checked, answer_abort] at accepted
      cases accepted
  | ok plan =>
      rw [declare, attempt_of_ok building checked] at accepted ⊢
      cases accepted
      exact ⟨rfl, (checkDeclare_ok checked).2.2, rfl, rfl⟩

theorem registerFile_step_of_apart {s : Scope} {op : Op} (apart : .registers ∉ op.touches) :
    (s.step op).after.registerFile = s.registerFile := by
  apply after_step (P := (registerFile · = s.registerFile)) op rfl
  · intro _ kept
    exact kept
  · intro touched
    exact absurd touched apart
  · exact fun _ _ _ _ => rfl
  · intro _ _ _ _ kept
    exact kept
  · exact fun _ _ => rfl
  · exact fun _ _ => rfl
  · exact fun _ _ _ _ => rfl

theorem registers_step {s : Scope} (small : s.limits.registers ≤ 256) (op : Op) :
    RegisterFile.Change s.limits.registers s.registerFile (s.step op).after.registerFile := by
  let Changed (after : Scope) : Prop :=
    RegisterFile.Change s.limits.registers s.registerFile after.registerFile
  by_cases touched : .registers ∈ op.touches
  · cases op with
    | push | setHeight =>
        apply after_attempt (P := Changed) .keep (fun _ => .keep)
        intro plan building checked
        exact .reach _ (checkHeight_ok checked)
    | pop | popMany =>
        apply after_attempt (P := Changed) .keep (fun _ => .keep)
        intro plan building checked
        exact .release _
    | declare name placement =>
        apply after_attempt (P := Changed) .keep (fun _ => .keep)
        intro plan building checked
        obtain ⟨unknown, room, fits⟩ := checkDeclare_ok checked
        have height := place_height (Nat.le_trans fits small)
        have bound := RegisterFile.Change.bind (r := s.registerFile)
          ⟨name, (s.place placement).1⟩ unknown room (height ▸ fits)
        rw [RegisterFile.bind, RegisterFile.reach] at bound
        dsimp only [registerFile] at bound
        rw [← height] at bound
        exact bound
    | _ => simp [Op.touches] at touched
  · rw [registerFile_step_of_apart touched]
    exact .keep

theorem registers_move {s : Scope} (small : s.limits.registers ≤ 256) (m : Move) :
    RegisterFile.Change s.limits.registers s.registerFile (s.move m).after.registerFile := by
  cases m with
  | act op => exact registers_step small op
  | finish childCount =>
      let Kept (after : Scope) : Prop := after.registerFile = s.registerFile
      have kept := after_finish (P := Kept) childCount rfl rfl (fun _ _ => rfl)
      change RegisterFile.Change _ _ (s.finish childCount).after.registerFile
      rw [kept]
      exact .keep

/-- The heights a run goes through, the first and the last among them. -/
def heights (s : Scope) : List Move → List Nat
  | [] => [s.height]
  | m :: moves => s.height :: (s.move m).after.heights moves

theorem height_le_highest (s : Scope) (moves : List Move) :
    s.height ≤ (s.heights moves).foldr max 0 := by
  cases moves <;> exact Nat.le_max_left _ _

theorem accounted_play {s : Scope} (small : s.limits.registers ≤ 256) (moves : List Move)
    (accounted : s.registerFile.Accounted s.limits.registers) :
    (s.play moves).registerFile.Accounted s.limits.registers ∧
      (s.play moves).peak = max s.peak ((s.heights moves).foldr max 0) := by
  induction moves generalizing s with
  | nil =>
      have height_le : s.height ≤ s.peak := accounted.height_le
      refine ⟨accounted, ?_⟩
      change s.peak = max s.peak (max s.height 0)
      omega
  | cons m moves ih =>
      have limits : (s.move m).after.limits = s.limits := congrArg Site.limits (site_move s m)
      have change := registers_move small m
      have height_le : s.height ≤ s.peak := accounted.height_le
      have raised : (s.move m).after.peak = max s.peak (s.move m).after.height :=
        change.peak_eq height_le
      rw [← limits] at small
      have rest := ih small (limits ▸ accounted.change change)
      rw [limits] at rest
      refine ⟨rest.1, ?_⟩
      have highest := height_le_highest (s.move m).after moves
      change ((s.move m).after.play moves).peak =
        max s.peak (max s.height (((s.move m).after.heights moves).foldr max 0))
      rw [rest.2, raised]
      omega

theorem accounted_fresh (id : ScopeId) (parent : Option ScopeId) (top : Bool) (nesting : Nesting)
    (limits : Limits) :
    (fresh id parent top nesting limits).registerFile.Accounted limits.registers where
  height_le := Nat.le_refl _
  peak_le := Nat.zero_le _
  counted := rfl
  bounded := Nat.zero_le _
  distinct := List.nodup_nil
  housed := fun l member => absurd member (Array.not_mem_empty l)

/-- After any moves heights are within the limits and the peak is the largest of them, locals are
counted, named apart and housed below the peak; a local gets the next register or the one asked for,
and a finished scope hands on the peak and the number of locals. -/
theorem registers_accounted (limits : Limits) (sound : limits.Sound) (id : ScopeId)
    (parent : Option ScopeId) (top : Bool) (nesting : Nesting) (moves : List Move) :
    let start := fresh id parent top nesting limits
    let s := start.play moves
    (s.height ≤ s.peak ∧ s.peak ≤ limits.registers ∧ limits.registers ≤ 256) ∧
    s.peak = (start.heights moves).foldr max 0 ∧
    (s.localCount = s.locals.size ∧ s.locals.size ≤ 65535 ∧
      (s.locals.toList.map (·.name)).Nodup ∧ ∀ l ∈ s.locals, l.register.toNat < s.peak) ∧
    (∀ name register, (s.declare name .next).answer = .ok register →
      register.toNat = s.height ∧ (s.declare name .next).after.height = s.height + 1 ∧
        (s.declare name .next).after.locals = s.locals.push ⟨name, register⟩) ∧
    (∀ name asked register, (s.declare name (.fixed asked)).answer = .ok register →
      register = asked ∧
        (s.declare name (.fixed asked)).after.height = max s.height (asked.toNat + 1) ∧
        (s.declare name (.fixed asked)).after.locals = s.locals.push ⟨name, register⟩) ∧
    ∀ childCount, (s.finish childCount).answer = .ok () →
      ∃ output, (s.finish childCount).after.output? = some output ∧
        output.registers = s.peak ∧ output.localCount = s.locals.size := by
  intro start s
  obtain ⟨accounted, peak⟩ := accounted_play (s := start) sound.registers_le moves
    (accounted_fresh id parent top nesting limits)
  have same : s.limits = limits := congrArg Site.limits (site_play start moves)
  have within : s.limits.registers ≤ 256 := same ▸ sound.registers_le
  refine ⟨⟨accounted.height_le, accounted.peak_le, sound.registers_le⟩, ?_,
    ⟨accounted.counted, accounted.bounded, accounted.distinct, accounted.housed⟩, ?_, ?_, ?_⟩
  · exact peak.trans (Nat.max_eq_right (Nat.zero_le _))
  · intro name register accepted
    obtain ⟨rfl, fits, height, locals⟩ := declare_ok accepted
    exact ⟨place_next (Nat.le_trans fits within), height, locals⟩
  · intro name asked register accepted
    obtain ⟨rfl, -, height, locals⟩ := declare_ok accepted
    exact ⟨rfl, height, locals⟩
  · intro childCount accepted
    obtain ⟨-, -, after⟩ := finish_of_ok accepted
    exact ⟨s.outputWith childCount, by rw [after]; rfl, rfl, accounted.counted⟩

/-- Two locals, one of them declared again, and a height one below the limit. -/
def brinkMoves : List Move :=
  [.act (.declare "x" .next), .act (.declare "y" (.fixed 5)), .act (.declare "x" .next),
    .act (.setHeight 255), .act .pop, .act .push]

theorem registers_accounted_brink :
    ∃ start s : Scope, start = fresh ⟨0⟩ none true .method {} ∧ s = start.play brinkMoves ∧
      start.heights brinkMoves = [0, 1, 6, 6, 255, 254, 255] ∧ s.peak = 255 ∧
      (s.declare "z" .next).answer = .ok 255 ∧ (s.declare "z" .next).after.height = 256 ∧
      ∃ output, (s.finish 0).after.output? = some output ∧ output.registers = 255 ∧
        output.localCount = 2 := by
  have sound : ({} : Limits).Sound := (Limits.validate_eq_ok_iff {}).mp (by decide)
  obtain ⟨-, peak, -, next, -, handed⟩ :=
    registers_accounted {} sound ⟨0⟩ none true .method brinkMoves
  obtain ⟨-, raised, -⟩ := next "z" 255 (by decide)
  obtain ⟨output, given, registers, locals⟩ := handed 0 (by decide)
  exact ⟨_, _, rfl, rfl, by decide, peak.trans (by decide), by decide, raised.trans (by decide),
    output, given, registers.trans (by decide), locals.trans (by decide)⟩

end Scope

end BytecodeScopes
