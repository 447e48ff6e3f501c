import BytecodeScopes.Signature

/-!
A word of parameters has a slot of five bits for each count, and the flags stand in the bits between
the slots. Slots and flags together are the lower 23 bits of the word, and no two of them overlap.
So a signature is read back as it was written, as long as its counts are within their slots and its
flags within theirs.
-/

namespace BytecodeScopes.Signature

theorem eq_of_bits {a b : UInt32} (same : ∀ i, a.toNat.testBit i = b.toNat.testBit i) : a = b :=
  UInt32.toNat_inj.mp (Nat.eq_of_testBit_eq same)

theorem bit_shiftLeft (a shift : UInt32) (i : Nat) :
    (a <<< shift).toNat.testBit i =
      (decide (i < 32) &&
        (decide (shift.toNat % 32 ≤ i) && a.toNat.testBit (i - shift.toNat % 32))) := by
  rw [UInt32.toNat_shiftLeft, Nat.testBit_mod_two_pow, Nat.testBit_shiftLeft]

theorem bit_short {a : UInt32} (short : a.toNat ≤ 31) {i : Nat} (high : 5 ≤ i) :
    a.toNat.testBit i = false := by
  have powers : 2 ^ 5 ≤ 2 ^ i := Nat.pow_le_pow_right (by decide) high
  exact Nat.testBit_lt_two_pow (by omega)

theorem and_or (a b c : UInt32) : a &&& (b ||| c) = a &&& b ||| a &&& c := by
  apply eq_of_bits
  intro i
  simp only [UInt32.toNat_and, UInt32.toNat_or, Nat.testBit_and, Nat.testBit_or,
    Bool.and_or_distrib_left]

/-- The five bits of a word from a bit on. -/
def slot (shift word : UInt32) : UInt32 := word >>> shift &&& 31

theorem bit_slot (shift word : UInt32) (i : Nat) :
    (slot shift word).toNat.testBit i =
      (word.toNat.testBit (shift.toNat % 32 + i) && decide (i < 5)) := by
  have mask : (31 : UInt32).toNat.testBit i = decide (i < 5) := Nat.testBit_two_pow_sub_one 5 i
  rw [slot, UInt32.toNat_and, Nat.testBit_and, UInt32.toNat_shiftRight, Nat.testBit_shiftRight,
    mask]

theorem slot_le (shift word : UInt32) : (slot shift word).toNat ≤ 31 := by
  rw [slot, UInt32.toNat_and]
  exact Nat.and_le_right

theorem slot_or (shift a b : UInt32) : slot shift (a ||| b) = slot shift a ||| slot shift b := by
  apply eq_of_bits
  intro i
  simp only [bit_slot, UInt32.toNat_or, Nat.testBit_or, Bool.and_or_distrib_right]

theorem slot_of_own {count shift : UInt32} (short : count.toNat ≤ 31) (inside : shift.toNat ≤ 27) :
    slot shift (count <<< shift) = count := by
  have whole : shift.toNat % 32 = shift.toNat := Nat.mod_eq_of_lt (by omega)
  apply eq_of_bits
  intro i
  rw [bit_slot, bit_shiftLeft, whole, Nat.add_sub_cancel_left]
  by_cases low : i < 5
  · have below : shift.toNat + i < 32 := by omega
    simp [low, below]
  · simp [low, bit_short short (Nat.le_of_not_lt low)]

theorem slot_of_apart {count shift other : UInt32} (short : count.toNat ≤ 31)
    (inside : shift.toNat ≤ 27) (inside' : other.toNat ≤ 27)
    (apart : shift.toNat + 5 ≤ other.toNat ∨ other.toNat + 5 ≤ shift.toNat) :
    slot shift (count <<< other) = 0 := by
  have whole : shift.toNat % 32 = shift.toNat := Nat.mod_eq_of_lt (by omega)
  have whole' : other.toNat % 32 = other.toNat := Nat.mod_eq_of_lt (by omega)
  apply eq_of_bits
  intro i
  rw [bit_slot, bit_shiftLeft, whole, whole']
  by_cases low : i < 5
  · -- the bit is either below the other slot or past the bits of its count
    rcases apart with below | above
    · have before : ¬ other.toNat ≤ shift.toNat + i := by omega
      simp [before]
    · have past : 5 ≤ shift.toNat + i - other.toNat := by omega
      simp [bit_short short past]
  · simp [low]

theorem slot_shiftLeft {shift : UInt32} (inside : shift.toNat ≤ 27) (word : UInt32) :
    slot shift word <<< shift = word &&& 31 <<< shift := by
  have whole : shift.toNat % 32 = shift.toNat := Nat.mod_eq_of_lt (by omega)
  have mask : ∀ i, (31 : UInt32).toNat.testBit i = decide (i < 5) := Nat.testBit_two_pow_sub_one 5
  apply eq_of_bits
  intro i
  rw [bit_shiftLeft, bit_slot, UInt32.toNat_and, Nat.testBit_and, bit_shiftLeft, mask, whole]
  by_cases inSlot : shift.toNat ≤ i
  · rw [Nat.add_sub_cancel' inSlot]
    ac_rfl
  · simp [inSlot]

theorem slot_and (shift a b : UInt32) : slot shift (a &&& b) = slot shift a &&& slot shift b := by
  apply eq_of_bits
  intro i
  simp only [bit_slot, UInt32.toNat_and, Nat.testBit_and]
  cases decide (i < 5) <;> simp

theorem slot_of_flags {shift flags : UInt32} (known : truncateFlags flags = flags)
    (between : slot shift knownFlags = 0) : slot shift flags = 0 := by
  rw [← known, truncateFlags, slot_and, between, UInt32.and_zero]

theorem truncateFlags_or (a b : UInt32) :
    truncateFlags (a ||| b) = truncateFlags a ||| truncateFlags b := by
  rw [truncateFlags, UInt32.and_comm, and_or, UInt32.and_comm knownFlags a,
    UInt32.and_comm knownFlags b]
  rfl

theorem truncateFlags_of_count {count shift : UInt32} (short : count.toNat ≤ 31)
    (inside : shift.toNat ≤ 27) (between : 31 <<< shift &&& knownFlags = 0) :
    truncateFlags (count <<< shift) = 0 := by
  calc truncateFlags (count <<< shift)
      = slot shift (count <<< shift) <<< shift &&& knownFlags := by
        rw [slot_of_own short inside, truncateFlags]
    _ = count <<< shift &&& (31 <<< shift &&& knownFlags) := by
        rw [slot_shiftLeft inside, UInt32.and_assoc]
    _ = 0 := by rw [between, UInt32.and_zero]

theorem truncateFlags_eq_self_iff (flags : UInt32) :
    truncateFlags flags = flags ↔ flags &&& ~~~knownFlags = 0 := by
  constructor
  · intro known
    rw [← known, truncateFlags, UInt32.and_assoc, UInt32.and_not_self, UInt32.and_zero]
  · intro none
    calc truncateFlags flags
        = flags &&& knownFlags ||| flags &&& ~~~knownFlags := by
          rw [none, UInt32.or_zero, truncateFlags]
      _ = flags := by rw [← and_or, UInt32.or_not_self, UInt32.and_neg_one]

/-- The counts by the names of their groups, in the order they are checked. -/
def counts (s : Signature) : List (String × Nat) :=
  [("required", s.required.toNat), ("optional", s.optional.toNat), ("post", s.post.toNat),
    ("keyword", s.keywords.toNat)]

def packed (s : Signature) : UInt32 :=
  s.required.toUInt32 <<< 18 ||| s.optional.toUInt32 <<< 13 ||| s.post.toUInt32 <<< 7 |||
    s.keywords.toUInt32 <<< 2 ||| s.flags

theorem field_eq (group : String) (count : UInt8) :
    field group count =
      if 31 < count.toNat then .error (.tooManyParameters group count.toNat)
      else .ok count.toUInt32 := by
  have short : count ≤ countMax ↔ ¬ 31 < count.toNat := UInt8.le_iff_toNat_le.trans Nat.not_lt.symm
  simp only [field, short, ite_not]

theorem toWord_eq (s : Signature) :
    s.toWord =
      match s.counts.find? (31 < ·.2) with
      | some entry => .error (.tooManyParameters entry.1 entry.2)
      | none => .ok s.packed := by
  simp only [toWord, field_eq, counts, List.find?_cons]
  by_cases required : 31 < s.required.toNat
  · simp [required]
    rfl
  by_cases optional : 31 < s.optional.toNat
  · simp [required, optional]
    rfl
  by_cases post : 31 < s.post.toNat
  · simp [required, optional, post]
    rfl
  by_cases keywords : 31 < s.keywords.toNat
  · simp [required, optional, post, keywords]
    rfl
  simp [required, optional, post, keywords]
  rfl

theorem packed_ofWord (word : UInt32) : (ofWord word).packed = word &&& 8388607 := by
  have count : ∀ shift, (slot shift word).toUInt8.toUInt32 = slot shift word := by
    intro shift
    have short := slot_le shift word
    rw [← UInt32.toNat_inj, UInt8.toNat_toUInt32, UInt32.toNat_toUInt8]
    omega
  have slots : (ofWord word).packed =
      slot 18 word <<< 18 ||| slot 13 word <<< 13 ||| slot 7 word <<< 7 ||| slot 2 word <<< 2 |||
        word &&& knownFlags := by
    rw [← count 18, ← count 13, ← count 7, ← count 2]
    rfl
  rw [slots, slot_shiftLeft (by decide), slot_shiftLeft (by decide), slot_shiftLeft (by decide),
    slot_shiftLeft (by decide)]
  simp only [← and_or]
  rfl

theorem ofWord_packed {s : Signature} (short : ∀ entry ∈ s.counts, entry.2 ≤ 31)
    (known : truncateFlags s.flags = s.flags) : ofWord s.packed = s := by
  simp only [counts, List.forall_mem_cons, List.not_mem_nil, false_implies, implies_true, and_true,
    ← UInt8.toNat_toUInt32] at short
  obtain ⟨required, optional, post, keywords⟩ := short
  have slots : slot 18 s.packed = s.required.toUInt32 ∧ slot 13 s.packed = s.optional.toUInt32 ∧
      slot 7 s.packed = s.post.toUInt32 ∧ slot 2 s.packed = s.keywords.toUInt32 := by
    simp (disch := first | assumption | decide) only [packed, slot_or, slot_of_own, slot_of_apart,
      slot_of_flags, UInt32.or_zero, UInt32.zero_or, and_self]
  have flags : truncateFlags s.packed = s.flags := by
    simp (disch := first | assumption | decide) only [packed, truncateFlags_or,
      truncateFlags_of_count, known, UInt32.zero_or]
  calc ofWord s.packed
      = ⟨(slot 18 s.packed).toUInt8, (slot 13 s.packed).toUInt8, (slot 7 s.packed).toUInt8,
          (slot 2 s.packed).toUInt8, truncateFlags s.packed⟩ := rfl
    _ = s := by simp only [slots, flags, UInt8.toUInt8_toUInt32]

theorem flags_ofWord (word : UInt32) :
    truncateFlags (ofWord word).flags = (ofWord word).flags := by
  change truncateFlags (truncateFlags word) = truncateFlags word
  rw [truncateFlags, truncateFlags, UInt32.and_assoc, UInt32.and_self]

theorem short_ofWord (word : UInt32) : ∀ entry ∈ (ofWord word).counts, entry.2 ≤ 31 := by
  have short : ∀ shift, (slot shift word).toUInt8.toNat ≤ 31 := by
    intro shift
    have := slot_le shift word
    rw [UInt32.toNat_toUInt8]
    omega
  simp only [counts, List.forall_mem_cons, List.not_mem_nil, false_implies, implies_true, and_true]
  exact ⟨short 18, short 13, short 7, short 2⟩

theorem find?_counts_eq_none_iff (s : Signature) :
    s.counts.find? (31 < ·.2) = none ↔ ∀ entry ∈ s.counts, entry.2 ≤ 31 := by
  simp only [List.find?_eq_none, decide_eq_true_eq, Nat.not_lt]

theorem toWord_eq_ok_iff {s : Signature} {word : UInt32} :
    s.toWord = .ok word ↔ (∀ entry ∈ s.counts, entry.2 ≤ 31) ∧ word = s.packed := by
  rw [toWord_eq, ← find?_counts_eq_none_iff]
  cases s.counts.find? (31 < ·.2) with
  | none => simp [eq_comm]
  | some entry => simp

theorem toWord_eq_error_iff {s : Signature} {fault : Fault} :
    s.toWord = .error fault ↔
      ∃ entry, s.counts.find? (31 < ·.2) = some entry ∧
        fault = .tooManyParameters entry.1 entry.2 := by
  rw [toWord_eq]
  cases s.counts.find? (31 < ·.2) with
  | none => simp
  | some entry => simp [eq_comm]

theorem toWord_ofWord (word : UInt32) : (ofWord word).toWord = .ok (word % 8388608) := by
  have lower : word &&& 8388607 = word % 8388608 := by
    rw [← UInt32.toNat_inj, UInt32.toNat_and, UInt32.toNat_mod]
    exact Nat.and_two_pow_sub_one_eq_mod word.toNat 23
  rw [toWord_eq_ok_iff, packed_ofWord, lower]
  exact ⟨short_ofWord word, rfl⟩

/-- A signature has a word unless one of its counts exceeds 31, and the first of these is reported.
The word gives back the signature exactly if there are no flags but those for a rest parameter, a
keyword rest parameter and a block, and then it has 23 bits. Every word is read as a signature, and
the word of that is the lower 23 bits of it. -/
theorem signatures_are_words :
    (∀ s : Signature,
      ((∃ fault, s.toWord = .error fault) ↔
        31 < s.required.toNat ∨ 31 < s.optional.toNat ∨ 31 < s.post.toNat ∨
          31 < s.keywords.toNat) ∧
      (∀ fault, s.toWord = .error fault ↔
        ∃ entry, s.counts.find? (31 < ·.2) = some entry ∧
          fault = .tooManyParameters entry.1 entry.2) ∧
      (∀ word, s.toWord = .ok word →
        let known := s.flags &&& ~~~(restFlag ||| keywordRestFlag ||| blockFlag) = 0
        (ofWord word = s ↔ known) ∧ (known → word.toNat < 8388608))) ∧
    (∀ word : UInt32, (ofWord word).toWord = .ok (word % 8388608)) := by
  refine ⟨fun s => ⟨?_, fun _ => toWord_eq_error_iff, ?_⟩, toWord_ofWord⟩
  · constructor
    · intro ⟨fault, refused⟩
      obtain ⟨⟨group, count⟩, first, -⟩ := toWord_eq_error_iff.mp refused
      have member := List.mem_of_find?_eq_some first
      have long : 31 < count := by simpa using List.find?_some first
      simp only [counts, List.mem_cons, Prod.mk.injEq, List.not_mem_nil, or_false] at member
      omega
    · intro long
      cases first : s.counts.find? (31 < ·.2) with
      | none =>
          have short := (find?_counts_eq_none_iff s).mp first
          simp only [counts, List.forall_mem_cons, List.not_mem_nil] at short
          omega
      | some entry => exact ⟨_, toWord_eq_error_iff.mpr ⟨entry, first, rfl⟩⟩
  · intro word written known
    obtain ⟨short, own⟩ := toWord_eq_ok_iff.mp written
    have back : known → ofWord word = s := by
      intro only
      rw [own]
      exact ofWord_packed short ((truncateFlags_eq_self_iff s.flags).mpr only)
    constructor
    · constructor
      · intro same
        apply (truncateFlags_eq_self_iff s.flags).mp
        rw [← same]
        exact flags_ofWord word
      · exact back
    · intro only
      -- reading and writing once more leaves the lower bits, so there are no others
      have again := toWord_ofWord word
      rw [back only, written, Except.ok.injEq] at again
      rw [again, UInt32.toNat_mod]
      exact Nat.mod_lt _ (by decide)

/-- An unknown flag may be taken for part of a count. -/
example : ({ required := 1, flags := 4 } : Signature).toWord = .ok 262148 ∧
    ofWord 262148 = { required := 1, keywords := 1 } := ⟨rfl, by decide⟩

end BytecodeScopes.Signature
