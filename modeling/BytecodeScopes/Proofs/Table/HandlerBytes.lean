import BytecodeScopes.Handler
import Mathlib.Data.List.Induction

namespace BytecodeScopes

namespace BigEndian

theorem word16_join16 (high low : UInt8) : word16 (join16 high low) = [high, low] := by
  have bounds := And.intro high.toNat_lt low.toNat_lt
  simp only [word16, join16, UInt16.toNat_ofNat', List.cons.injEq, and_true]
  constructor
  all_goals
    apply UInt8.toNat_inj.mp
    simp only [UInt8.toNat_ofNat']
    omega

theorem word32_join32 (a b c d : UInt8) : word32 (join32 a b c d) = [a, b, c, d] := by
  have bounds := And.intro (And.intro a.toNat_lt b.toNat_lt) (And.intro c.toNat_lt d.toNat_lt)
  simp only [word32, join32, UInt32.toNat_ofNat', List.cons.injEq, and_true]
  refine ⟨?_, ?_, ?_, ?_⟩
  all_goals
    apply UInt8.toNat_inj.mp
    simp only [UInt8.toNat_ofNat']
    omega

end BigEndian

theorem HandlerKind.byte_of_ofByte? {b : UInt8} {kind : HandlerKind}
    (read : ofByte? b = some kind) : kind.byte = b := by
  unfold ofByte? at read
  split at read
  · cases read
    exact UInt8.toNat_inj.mp (Eq.symm ‹_›)
  · cases read
    exact UInt8.toNat_inj.mp (Eq.symm ‹_›)
  · cases read

namespace Handler

def kindIn? (record : List UInt8) : Option HandlerKind := record.head?.bind HandlerKind.ofByte?

def wordIn? (record : List UInt8) (offset : Nat) : Option UInt32 :=
  match record.drop offset with
  | a :: b :: c :: d :: _ => some (BigEndian.join32 a b c d)
  | _ => none

theorem eq_encode_of_read? {bytes rest : List UInt8} {h : Handler}
    (read : read? bytes = some (h, rest)) : bytes = h.encode ++ rest := by
  unfold read? at read
  split at read
  · rename_i k a₀ a₁ a₂ a₃ b₀ b₁ b₂ b₃ c₀ c₁ c₂ c₃ left
    obtain ⟨kind, known, same⟩ := Option.map_eq_some_iff.mp read
    cases same
    simp only [encode, BigEndian.word32_join32, HandlerKind.byte_of_ofByte? known, List.cons_append,
      List.nil_append]
  · cases read

/-- The parts of a handler stand in its record at places of their own. -/
theorem parts_encode (h : Handler) :
    kindIn? h.encode = some h.kind ∧ wordIn? h.encode 1 = some h.start ∧
      wordIn? h.encode 5 = some h.stop ∧ wordIn? h.encode 9 = some h.target := by
  refine ⟨HandlerKind.ofByte?_byte h.kind, ?_, ?_, ?_⟩
  · exact congrArg some (BigEndian.join32_word32 h.start)
  · exact congrArg some (BigEndian.join32_word32 h.stop)
  · exact congrArg some (BigEndian.join32_word32 h.target)

end Handler

namespace Handlers

def run (t : Handlers) (added : List Handler) : Handlers := runBy add t added

theorem add_eq (t : Handlers) (h : Handler) :
    t.add h =
      if t.size < capacity then .accept (t.push h) () else .refuse t (.tableFull .handlers) := by
  exact Reply.attempt_of_ite t checkAdd _ rfl

theorem size_of_taken {t : Handlers} {added : List Handler}
    (taken : t.entries.toList = added.take capacity) : t.size = min capacity added.length := by
  rw [Handlers.size, ← Array.length_toList, taken, List.length_take]

theorem entries_run (added : List Handler) :
    (({} : Handlers).run added).entries.toList = added.take capacity := by
  induction added using List.reverseRecOn with
  | nil => rfl
  | append_singleton added h ih =>
      have size := size_of_taken ih
      rw [run, runBy_concat, ← run, add_eq]
      by_cases room : added.length < capacity
      · have whole : (added ++ [h]).length ≤ capacity := by
          rw [List.length_append]
          exact room
        rw [if_pos (by omega), List.take_of_length_le whole]
        change (Array.push _ h).toList = _
        rw [Array.toList_push, ih, List.take_of_length_le (Nat.le_of_lt room)]
      · have full : capacity ≤ added.length := Nat.le_of_not_lt room
        rw [if_neg (by omega), List.take_append_of_le_length full]
        exact ih

theorem add_run (added : List Handler) (h : Handler) :
    (({} : Handlers).run added).add h =
      if added.length < capacity then .accept (({} : Handlers).run (added ++ [h])) ()
      else .refuse (({} : Handlers).run added) (.tableFull .handlers) := by
  have size := size_of_taken (entries_run added)
  have grown : ({} : Handlers).run (added ++ [h]) = ((({} : Handlers).run added).add h).after :=
    runBy_concat add {} added h
  rw [grown, add_eq]
  by_cases room : added.length < capacity
  · rw [if_pos room, if_pos (by omega)]
    rfl
  · rw [if_neg room, if_neg (by omega)]

theorem length_flatMap_encode (hs : List Handler) :
    (hs.flatMap Handler.encode).length = hs.length * Handler.writtenSize := by
  induction hs with
  | nil => rfl
  | cons h hs ih =>
      rw [List.flatMap_cons, List.length_append, ih, Handler.length_encode, List.length_cons,
        Nat.succ_mul, Nat.add_comm]

theorem length_encode (t : Handlers) : t.encode.length = t.writtenSize := by
  rw [encode, List.length_append, length_flatMap_encode]
  rfl

theorem readMany?_flatMap_encode (hs : List Handler) (rest : List UInt8) :
    readMany? hs.length (hs.flatMap Handler.encode ++ rest) = some (hs, rest) := by
  induction hs with
  | nil => rfl
  | cons h hs ih =>
      rw [List.flatMap_cons, List.append_assoc, List.length_cons, readMany?, Handler.read?_encode]
      simp only [Option.bind_eq_bind, Option.bind_some, ih]
      rfl

theorem eq_flatMap_of_readMany? {n : Nat} {bytes rest : List UInt8} {hs : List Handler}
    (read : readMany? n bytes = some (hs, rest)) :
    hs.length = n ∧ bytes = hs.flatMap Handler.encode ++ rest := by
  induction n generalizing bytes hs with
  | zero =>
      cases read
      exact ⟨rfl, rfl⟩
  | succ n ih =>
      rw [readMany?] at read
      simp only [Option.bind_eq_bind, Option.bind_eq_some_iff, Option.pure_def, Option.some.injEq,
        Prod.mk.injEq] at read
      obtain ⟨⟨h, middle⟩, first, ⟨later, last⟩, others, rfl, rfl⟩ := read
      obtain ⟨length, split⟩ := ih others
      refine ⟨congrArg (· + 1) length, ?_⟩
      rw [Handler.eq_encode_of_read? first, List.flatMap_cons, List.append_assoc]
      exact congrArg _ split

theorem decode?_encode {t : Handlers} (fits : t.size ≤ capacity) : decode? t.encode = some t := by
  have counted : (BigEndian.join16 (UInt8.ofNat ((UInt16.ofNat t.size).toNat / 256))
      (UInt8.ofNat (UInt16.ofNat t.size).toNat)).toNat = t.entries.toList.length := by
    rw [BigEndian.join16_word16, UInt16.toNat_ofNat', Array.length_toList]
    exact Nat.mod_eq_of_lt (Nat.lt_succ_of_le fits)
  have all := readMany?_flatMap_encode t.entries.toList []
  rw [List.append_nil] at all
  simp only [encode, BigEndian.word16, List.cons_append, List.nil_append, decode?, counted, all]

theorem eq_encode_of_decode? {bytes : List UInt8} {t : Handlers} (read : decode? bytes = some t) :
    bytes = t.encode := by
  unfold decode? at read
  split at read
  · rename_i high low records
    split at read
    · rename_i handlers found
      cases read
      obtain ⟨length, split⟩ := eq_flatMap_of_readMany? found
      have counted : UInt16.ofNat handlers.toArray.size = BigEndian.join16 high low := by
        rw [List.size_toArray, length, UInt16.ofNat_toNat]
      rw [encode, Handlers.size, counted, BigEndian.word16_join16, split, List.append_nil]
      rfl
    · cases read
  · cases read

/-- Handlers are taken in order until there are as many as can be counted; all others are refused
and change nothing. The bytes of the table are as many as its size says and read as this table,
which no other bytes do. So no other handlers give the same bytes. In a record each part of its
handler can be read at its place. -/
theorem handlers_read_back (added : List Handler) :
    let t := ({} : Handlers).run added
    t.entries.toList = added.take 65535 ∧
    (∀ h, t.add h =
      if added.length < 65535 then .accept (({} : Handlers).run (added ++ [h])) ()
      else .refuse t (.tableFull .handlers)) ∧
    t.encode.length = t.writtenSize ∧
    (∀ bytes, decode? bytes = some t ↔ bytes = t.encode) ∧
    (∀ others, (({} : Handlers).run others).encode = t.encode → ({} : Handlers).run others = t) ∧
    (∀ kind start stop target,
      let record := (⟨kind, start, stop, target⟩ : Handler).encode
      record.length = 13 ∧ Handler.kindIn? record = some kind ∧
        Handler.wordIn? record 1 = some start ∧ Handler.wordIn? record 5 = some stop ∧
        Handler.wordIn? record 9 = some target) := by
  intro t
  have back : ∀ added,
      decode? (({} : Handlers).run added).encode = some (({} : Handlers).run added) := by
    intro added
    apply decode?_encode
    rw [size_of_taken (entries_run added)]
    exact Nat.min_le_left ..
  refine ⟨entries_run added, add_run added, t.length_encode, ?_, ?_, ?_⟩
  · intro bytes
    constructor
    · exact eq_encode_of_decode?
    · intro same
      rw [same]
      exact back added
  · intro others same
    have read := back others
    rw [same, back added] at read
    exact (Option.some.inj read).symm
  · intro kind start stop target
    exact ⟨rfl, Handler.parts_encode ⟨kind, start, stop, target⟩⟩

end Handlers

end BytecodeScopes
