import BytecodeScopes.BigEndian
import BytecodeScopes.Reply

namespace BytecodeScopes

inductive HandlerKind where
  | rescue
  | ensure
  deriving DecidableEq, Repr

namespace HandlerKind

def byte : HandlerKind → UInt8
  | .rescue => 0
  | .ensure => 1

def ofByte? (b : UInt8) : Option HandlerKind :=
  match b.toNat with
  | 0 => some .rescue
  | 1 => some .ensure
  | _ => none

def ofByte (b : UInt8) : Except UnknownByte HandlerKind :=
  match ofByte? b with
  | some kind => .ok kind
  | none => .error ⟨"CatchKind", b⟩

theorem ofByte?_byte (kind : HandlerKind) : ofByte? kind.byte = some kind := by
  cases kind <;> rfl

end HandlerKind

/-- A handler covers the code from `start` up to `stop`. -/
structure Handler where
  kind : HandlerKind
  start : UInt32
  stop : UInt32
  target : UInt32
  deriving DecidableEq, Repr

namespace Handler

def writtenSize : Nat := 13

def encode (h : Handler) : List UInt8 :=
  h.kind.byte :: BigEndian.word32 h.start ++ BigEndian.word32 h.stop ++
    BigEndian.word32 h.target

def read? : List UInt8 → Option (Handler × List UInt8)
  | k :: a₀ :: a₁ :: a₂ :: a₃ :: b₀ :: b₁ :: b₂ :: b₃ :: c₀ :: c₁ :: c₂ :: c₃ :: rest =>
      (HandlerKind.ofByte? k).map fun kind =>
        (⟨kind, BigEndian.join32 a₀ a₁ a₂ a₃, BigEndian.join32 b₀ b₁ b₂ b₃,
          BigEndian.join32 c₀ c₁ c₂ c₃⟩, rest)
  | _ => none

theorem length_encode (h : Handler) : h.encode.length = writtenSize := rfl

theorem read?_encode (h : Handler) (rest : List UInt8) :
    read? (h.encode ++ rest) = some (h, rest) := by
  simp only [encode, read?, BigEndian.word32, List.cons_append, List.nil_append,
    BigEndian.join32_word32, HandlerKind.ofByte?_byte, Option.map_some]

end Handler

structure Handlers where
  entries : Array Handler := #[]
  deriving DecidableEq, Repr

namespace Handlers

/-- The count of a table has 16 bits. -/
def capacity : Nat := 65535

def size (t : Handlers) : Nat := t.entries.size

def checkAdd (t : Handlers) : Except Fault Unit :=
  if t.size < capacity then .ok () else .error (.tableFull .handlers)

def push (t : Handlers) (h : Handler) : Handlers := ⟨t.entries.push h⟩

def add (t : Handlers) (h : Handler) : Reply Handlers Unit :=
  .attempt t checkAdd fun t _ => ((), t.push h)

def writtenSize (t : Handlers) : Nat := 2 + t.size * Handler.writtenSize

def encode (t : Handlers) : List UInt8 :=
  BigEndian.word16 (UInt16.ofNat t.size) ++ t.entries.toList.flatMap Handler.encode

def readMany? : Nat → List UInt8 → Option (List Handler × List UInt8)
  | 0, bytes => some ([], bytes)
  | n + 1, bytes => do
      let (h, rest) ← Handler.read? bytes
      let (hs, rest) ← readMany? n rest
      return (h :: hs, rest)

/-- Reads a table that takes all of the bytes. -/
def decode? : List UInt8 → Option Handlers
  | high :: low :: bytes =>
      match readMany? (BigEndian.join16 high low).toNat bytes with
      | some (handlers, []) => some ⟨handlers.toArray⟩
      | _ => none
  | _ => none

end Handlers

end BytecodeScopes
