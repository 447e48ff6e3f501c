namespace BytecodeScopes

namespace BigEndian

def word16 (w : UInt16) : List UInt8 :=
  [UInt8.ofNat (w.toNat / 256), UInt8.ofNat w.toNat]

def word32 (w : UInt32) : List UInt8 :=
  [UInt8.ofNat (w.toNat / 16777216), UInt8.ofNat (w.toNat / 65536),
    UInt8.ofNat (w.toNat / 256), UInt8.ofNat w.toNat]

def join16 (high low : UInt8) : UInt16 :=
  UInt16.ofNat (high.toNat * 256 + low.toNat)

def join32 (a b c d : UInt8) : UInt32 :=
  UInt32.ofNat (a.toNat * 16777216 + b.toNat * 65536 + c.toNat * 256 + d.toNat)

theorem join16_word16 (w : UInt16) :
    join16 (UInt8.ofNat (w.toNat / 256)) (UInt8.ofNat w.toNat) = w := by
  have bound := w.toNat_lt
  apply UInt16.toNat_inj.mp
  simp only [join16, UInt16.toNat_ofNat', UInt8.toNat_ofNat']
  omega

theorem join32_word32 (w : UInt32) :
    join32 (UInt8.ofNat (w.toNat / 16777216)) (UInt8.ofNat (w.toNat / 65536))
      (UInt8.ofNat (w.toNat / 256)) (UInt8.ofNat w.toNat) = w := by
  have bound := w.toNat_lt
  apply UInt32.toNat_inj.mp
  simp only [join32, UInt32.toNat_ofNat', UInt8.toNat_ofNat']
  omega

end BigEndian

namespace Sizes

def total (sizes : List Nat) : Nat := sizes.foldr (fun size rest => size + rest) 0

@[simp] theorem total_nil : total [] = 0 := rfl

@[simp] theorem total_cons (size : Nat) (sizes : List Nat) :
    total (size :: sizes) = size + total sizes := rfl

theorem total_append (front back : List Nat) :
    total (front ++ back) = total front + total back := by
  induction front with
  | nil => simp
  | cons size sizes ih => simp [ih, Nat.add_assoc]

end Sizes

end BytecodeScopes
