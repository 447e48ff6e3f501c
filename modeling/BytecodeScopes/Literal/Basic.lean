import BytecodeScopes.Fault

/-!
Literals and their tags. A tag holds the kind of a literal and, for texts, the length above the two
lowest bits; the kind can be read back from it whatever the length is.
-/

namespace BytecodeScopes

inductive LiteralKind where
  | string
  | int32
  | staticString
  | int64
  | float
  | bigInt
  deriving DecidableEq, Repr, Hashable

namespace LiteralKind

def numberFlag : UInt8 := 1

def staticFlag : UInt8 := 2

def byte : LiteralKind → UInt8
  | .string => 0
  | .int32 => 1
  | .staticString => 2
  | .int64 => 3
  | .float => 5
  | .bigInt => 7

def ofByte? (b : UInt8) : Option LiteralKind :=
  match b.toNat with
  | 0 => some .string
  | 1 => some .int32
  | 2 => some .staticString
  | 3 => some .int64
  | 5 => some .float
  | 7 => some .bigInt
  | _ => none

def ofByte (b : UInt8) : Except UnknownByte LiteralKind :=
  match ofByte? b with
  | some kind => .ok kind
  | none => .error ⟨"LiteralType", b⟩

def isText (kind : LiteralKind) : Bool := kind.byte &&& numberFlag = 0

def isStaticText (kind : LiteralKind) : Bool := kind.isText && kind.byte &&& staticFlag ≠ 0

def tag (kind : LiteralKind) (size : Nat) : UInt32 :=
  if kind.isText then UInt32.ofNat (kind.byte.toNat + 4 * size) else kind.byte.toUInt32

/-- An even tag is a text, told apart by its second bit; an odd one is a number, by its low byte. -/
def ofTag? (tag : UInt32) : Option LiteralKind :=
  if tag.toNat % 2 = 0 then
    if tag.toNat % 4 = 0 then some .string else some .staticString
  else ofByte? (UInt8.ofNat tag.toNat)

theorem isText_iff (kind : LiteralKind) :
    kind.isText = true ↔ kind = .string ∨ kind = .staticString := by
  cases kind <;> decide

theorem ofByte?_byte (kind : LiteralKind) : ofByte? kind.byte = some kind := by
  cases kind <;> rfl

theorem ofTag?_tag (kind : LiteralKind) (size : Nat) : ofTag? (kind.tag size) = some kind := by
  cases kind with
  | string =>
      have four : (4 * size) % 4294967296 % 4 = 0 := by omega
      have two : (4 * size) % 4294967296 % 2 = 0 := by omega
      simp [tag, isText_iff, byte, ofTag?, four, two]
  | staticString =>
      have two : (2 + 4 * size) % 4294967296 % 2 = 0 := by omega
      simp [tag, isText_iff, byte, ofTag?, two]
  | int32 | int64 | float | bigInt => simp [tag, isText_iff, byte, ofTag?, ofByte?]

end LiteralKind

structure Literal where
  tag : UInt32
  value : String
  deriving DecidableEq, Repr, Hashable

namespace Literal

def ofKind (kind : LiteralKind) (value : String) : Literal :=
  ⟨kind.tag value.utf8ByteSize, value⟩

def kind (l : Literal) : LiteralKind := (LiteralKind.ofTag? l.tag).getD .string

def writtenSize (l : Literal) : Nat :=
  1 + match l.kind with
    | .string | .staticString => 2 + l.value.utf8ByteSize + 1
    | .int32 => 4
    | .int64 | .float => 8
    | .bigInt => 2 + l.value.utf8ByteSize

@[simp] theorem kind_ofKind (kind : LiteralKind) (value : String) :
    (ofKind kind value).kind = kind := by
  simp [Literal.kind, ofKind, LiteralKind.ofTag?_tag]

end Literal

end BytecodeScopes
