import BytecodeScopes.Fault

namespace BytecodeScopes

structure Signature where
  required : UInt8 := 0
  optional : UInt8 := 0
  post : UInt8 := 0
  keywords : UInt8 := 0
  flags : UInt32 := 0
  deriving DecidableEq, Repr

namespace Signature

def restFlag : UInt32 := 4096

def keywordRestFlag : UInt32 := 2

def blockFlag : UInt32 := 1

def knownFlags : UInt32 := restFlag ||| keywordRestFlag ||| blockFlag

def truncateFlags (bits : UInt32) : UInt32 := bits &&& knownFlags

def flags? (bits : UInt32) : Option UInt32 := if truncateFlags bits = bits then some bits else none

def hasFlag (s : Signature) (flag : UInt32) : Bool := s.flags &&& flag = flag

def countMax : UInt8 := 31

def field (group : String) (count : UInt8) : Except Fault UInt32 :=
  if count ≤ countMax then .ok count.toUInt32
  else .error (.tooManyParameters group count.toNat)

def toWord (s : Signature) : Except Fault UInt32 := do
  let required ← field "required" s.required
  let optional ← field "optional" s.optional
  let post ← field "post" s.post
  let keywords ← field "keyword" s.keywords
  return required <<< 18 ||| optional <<< 13 ||| post <<< 7 ||| keywords <<< 2 ||| s.flags

def ofWord (word : UInt32) : Signature where
  required := (word >>> 18 &&& 31).toUInt8
  optional := (word >>> 13 &&& 31).toUInt8
  post := (word >>> 7 &&& 31).toUInt8
  keywords := (word >>> 2 &&& 31).toUInt8
  flags := truncateFlags word

/-- Registers the parameters take. The block has one whether it is there or not. -/
def registers (s : Signature) : Nat :=
  s.required.toNat + s.optional.toNat + s.post.toNat +
    (if s.hasFlag restFlag then 1 else 0) +
    (if 0 < s.keywords ∨ s.hasFlag keywordRestFlag then 1 else 0) + 1

end Signature

end BytecodeScopes
