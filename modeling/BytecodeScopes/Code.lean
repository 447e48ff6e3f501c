import BytecodeScopes.BigEndian
import BytecodeScopes.Reply

namespace BytecodeScopes

structure Code where
  bytes : Array UInt8 := #[]
  deriving DecidableEq, Repr

namespace Code

def size (c : Code) : Nat := c.bytes.size

/-- The offset of the next byte, as far as a 32-bit position can tell. -/
def position (c : Code) : Nat := min c.size 4294967295

def push (c : Code) (byte : UInt8) : Code := ⟨c.bytes.push byte⟩

def append (c : Code) (bytes : Array UInt8) : Code := ⟨c.bytes ++ bytes⟩

def pushWord (c : Code) (w : UInt16) : Code := ⟨c.bytes ++ BigEndian.word16 w⟩

def byte? (c : Code) (offset : Nat) : Option UInt8 := c.bytes[offset]?

def int16? (c : Code) (offset : Nat) : Option Int16 := do
  let high ← c.bytes[offset]?
  let low ← c.bytes[offset + 1]?
  return (BigEndian.join16 high low).toInt16

def checkPatch (c : Code) (offset : Nat) : Except Fault Unit :=
  if offset + 2 ≤ c.size then .ok () else .error (.patchOutOfBounds offset c.size)

def overwrite (c : Code) (offset : Nat) (value : Int16) : Code :=
  let w := value.toUInt16.toNat
  ⟨(c.bytes.setIfInBounds offset (UInt8.ofNat (w / 256))).setIfInBounds (offset + 1)
    (UInt8.ofNat w)⟩

def patch (c : Code) (offset : Nat) (value : Int16) : Reply Code Unit :=
  .attempt c (·.checkPatch offset) fun c _ => ((), c.overwrite offset value)

@[simp] theorem size_push (c : Code) (byte : UInt8) : (c.push byte).size = c.size + 1 := by
  simp [push, size]

@[simp] theorem size_append (c : Code) (bytes : Array UInt8) :
    (c.append bytes).size = c.size + bytes.size := by
  simp [append, size]

@[simp] theorem size_pushWord (c : Code) (w : UInt16) : (c.pushWord w).size = c.size + 2 := by
  simp [pushWord, size, BigEndian.word16]

@[simp] theorem size_overwrite (c : Code) (offset : Nat) (value : Int16) :
    (c.overwrite offset value).size = c.size := by
  simp [overwrite, size]

theorem checkPatch_eq_ok_iff (c : Code) (offset : Nat) :
    c.checkPatch offset = .ok () ↔ offset + 2 ≤ c.size := by
  unfold checkPatch
  split <;> simp_all

end Code

end BytecodeScopes
