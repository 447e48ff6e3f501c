import BytecodeScopes.Fault

namespace BytecodeScopes

/-- `chunk` is by how many bytes code grows at a time. -/
structure Limits where
  registers : Nat := 256
  chunk : Nat := 25
  jumpMin : Int := -32768
  jumpMax : Int := 32767
  deriving DecidableEq, Repr

inductive LimitsDefect where
  | registers (limit : Nat)
  | emptyChunk
  | jumpRange (low high : Int)
  deriving DecidableEq, Repr

def LimitsDefect.message : LimitsDefect → String
  | .registers limit => s!"register limit {limit} outside 1..=256"
  | .emptyChunk => "code chunk must be non-zero"
  | .jumpRange low high => s!"jump range {low}..={high} does not fit a 16-bit operand"

namespace Limits

/-- The jump distances allowed include staying in place and fit a signed 16-bit operand. -/
def JumpsFit (l : Limits) : Prop :=
  -32768 ≤ l.jumpMin ∧ l.jumpMin ≤ 0 ∧ 0 ≤ l.jumpMax ∧ l.jumpMax ≤ 32767

instance (l : Limits) : Decidable l.JumpsFit := by unfold JumpsFit; infer_instance

structure Sound (l : Limits) : Prop where
  registers_pos : 0 < l.registers
  registers_le : l.registers ≤ 256
  chunk_pos : 0 < l.chunk
  jumps : l.JumpsFit

def defect? (l : Limits) : Option LimitsDefect :=
  if l.registers = 0 ∨ 256 < l.registers then some (.registers l.registers)
  else if l.chunk = 0 then some .emptyChunk
  else if l.JumpsFit then none
  else some (.jumpRange l.jumpMin l.jumpMax)

def validate (l : Limits) : Except Fault Unit :=
  match l.defect? with
  | none => .ok ()
  | some defect => .error (.invalidLimits defect.message)

theorem validate_eq_ok_iff (l : Limits) : l.validate = .ok () ↔ l.Sound := by
  unfold validate defect?
  split <;> rename_i found
  · refine ⟨fun _ => ?_, fun _ => rfl⟩
    split at found
    · cases found
    · split at found
      · cases found
      · split at found
        · exact ⟨by omega, by omega, by omega, by assumption⟩
        · cases found
  · refine ⟨nofun, fun sound => ?_⟩
    have := sound.registers_pos
    have := sound.registers_le
    have := sound.chunk_pos
    rw [if_neg (by omega), if_neg (by omega), if_pos sound.jumps] at found
    cases found

end Limits

end BytecodeScopes
