import BytecodeScopes.Code

namespace BytecodeScopes.Code

variable {c : Code} {offset other : Nat} {value : Int16}

theorem bytes_push (c : Code) (byte : UInt8) :
    (c.push byte).bytes.toList = c.bytes.toList ++ [byte] := by
  simp [push]

theorem bytes_append (c : Code) (bytes : Array UInt8) :
    (c.append bytes).bytes.toList = c.bytes.toList ++ bytes.toList := by
  simp [append]

theorem bytes_pushWord (c : Code) (w : UInt16) :
    (c.pushWord w).bytes.toList = c.bytes.toList ++ BigEndian.word16 w := by
  simp [pushWord]

theorem bytes_overwrite {front back : List UInt8} {high low : UInt8}
    (split : c.bytes.toList = front ++ high :: low :: back) (value : Int16) :
    (c.overwrite front.length value).bytes.toList =
      front ++ BigEndian.word16 value.toUInt16 ++ back := by
  simp [overwrite, Array.toList_setIfInBounds, split, BigEndian.word16]

theorem bytes_overwrite_of_room (room : offset + 2 ≤ c.size) (value : Int16) :
    (c.overwrite offset value).bytes.toList =
      c.bytes.toList.take offset ++ BigEndian.word16 value.toUInt16 ++
        c.bytes.toList.drop (offset + 2) := by
  have inside : offset + 2 ≤ c.bytes.toList.length := room
  have split : c.bytes.toList = c.bytes.toList.take offset ++
      c.bytes.toList[offset] :: c.bytes.toList[offset + 1] :: c.bytes.toList.drop (offset + 2) := by
    rw [List.getElem_cons_drop, List.getElem_cons_drop, List.take_append_drop]
  have written := bytes_overwrite split value
  rw [List.length_take, Nat.min_eq_left (by omega)] at written
  exact written

theorem push_eq (c : Code) (byte : UInt8) : c.push byte = c.append #[byte] := by
  simp [push, append]

theorem pushWord_eq (c : Code) (w : UInt16) :
    c.pushWord w = c.append (BigEndian.word16 w).toArray := by
  have same : (c.pushWord w).bytes = (c.append (BigEndian.word16 w).toArray).bytes := by
    rw [← Array.toList_inj, bytes_pushWord, bytes_append]
  exact congrArg Code.mk same

theorem ext_byte? {d : Code} (same : ∀ i, c.byte? i = d.byte? i) : c = d := by
  have bytes : c.bytes = d.bytes := Array.ext_getElem? same
  cases c
  cases d
  exact congrArg Code.mk bytes

theorem byte?_append (c : Code) (bytes : Array UInt8) (i : Nat) :
    (c.append bytes).byte? i = if i < c.size then c.byte? i else bytes[i - c.size]? :=
  Array.getElem?_append

theorem byte?_overwrite_of_ne (c : Code) {offset i : Nat} (value : Int16)
    (outside : i ≠ offset ∧ i ≠ offset + 1) : (c.overwrite offset value).byte? i = c.byte? i := by
  simp only [overwrite, byte?, Array.getElem?_setIfInBounds, outside.1.symm, outside.2.symm,
    if_false]

theorem byte?_overwrite (room : offset + 2 ≤ c.size) (value : Int16) (i : Nat) :
    (c.overwrite offset value).byte? i =
      if offset ≤ i ∧ i < offset + 2 then (BigEndian.word16 value.toUInt16)[i - offset]?
      else c.byte? i := by
  have first : offset < c.bytes.size := Nat.lt_of_lt_of_le (by omega) room
  have second : offset + 1 < c.bytes.size := room
  by_cases inside : offset ≤ i ∧ i < offset + 2
  · rw [if_pos inside]
    obtain rfl | rfl : i = offset ∨ i = offset + 1 := by omega
    · simp [overwrite, byte?, first, BigEndian.word16]
    · simp [overwrite, byte?, second, BigEndian.word16]
  · rw [if_neg inside]
    exact c.byte?_overwrite_of_ne value (by omega)

theorem int16?_overwrite (room : offset + 2 ≤ c.size) (value : Int16) :
    (c.overwrite offset value).int16? offset = some value := by
  have high := byte?_overwrite room value offset
  have low := byte?_overwrite room value (offset + 1)
  rw [if_pos (by omega), Nat.sub_self] at high
  rw [if_pos (by omega), Nat.add_sub_cancel_left] at low
  simp only [byte?, BigEndian.word16, List.getElem?_cons_zero, List.getElem?_cons_succ] at high low
  simp only [int16?, high, low, Option.bind_eq_bind, Option.bind_some, BigEndian.join16_word16]
  rfl

theorem int16?_congr {d : Code} (high : c.byte? offset = d.byte? offset)
    (low : c.byte? (offset + 1) = d.byte? (offset + 1)) : c.int16? offset = d.int16? offset := by
  simp only [byte?] at high low
  simp only [int16?, high, low]

/-- Operands that have no byte in common. -/
def Apart (offset other : Nat) : Prop := offset + 2 ≤ other ∨ other + 2 ≤ offset

theorem int16?_overwrite_of_apart (c : Code) (value : Int16) (apart : Apart offset other) :
    (c.overwrite offset value).int16? other = c.int16? other := by
  unfold Apart at apart
  apply int16?_congr
  · exact c.byte?_overwrite_of_ne value (by omega)
  · exact c.byte?_overwrite_of_ne value (by omega)

theorem overwrite_overwrite (room : offset + 2 ≤ c.size) (value later : Int16) :
    (c.overwrite offset value).overwrite offset later = c.overwrite offset later := by
  have still : offset + 2 ≤ (c.overwrite offset value).size := by rwa [size_overwrite]
  apply ext_byte?
  intro i
  rw [byte?_overwrite still, byte?_overwrite room, byte?_overwrite room]
  by_cases own : offset ≤ i ∧ i < offset + 2
  · rw [if_pos own, if_pos own]
  · rw [if_neg own, if_neg own, if_neg own]

theorem overwrite_comm (apart : Apart offset other) (room : offset + 2 ≤ c.size)
    (space : other + 2 ≤ c.size) (value value' : Int16) :
    (c.overwrite offset value).overwrite other value' =
      (c.overwrite other value').overwrite offset value := by
  have room' : offset + 2 ≤ (c.overwrite other value').size := by rwa [size_overwrite]
  have space' : other + 2 ≤ (c.overwrite offset value).size := by rwa [size_overwrite]
  unfold Apart at apart
  apply ext_byte?
  intro i
  rw [byte?_overwrite space', byte?_overwrite room, byte?_overwrite room', byte?_overwrite space]
  by_cases own : offset ≤ i ∧ i < offset + 2
  · rw [if_neg (by omega), if_pos own, if_pos own]
  · rw [if_neg own, if_neg own]

theorem overwrite_append (room : offset + 2 ≤ c.size) (value : Int16) (bytes : Array UInt8) :
    (c.overwrite offset value).append bytes = (c.append bytes).overwrite offset value := by
  have still : offset + 2 ≤ (c.append bytes).size := by
    rw [size_append]
    omega
  apply ext_byte?
  intro i
  rw [byte?_append, size_overwrite, byte?_overwrite room, byte?_overwrite still, byte?_append]
  by_cases old : i < c.size
  · rw [if_pos old, if_pos old]
  · rw [if_neg old, if_neg old, if_neg (by omega)]

theorem patch_eq (c : Code) (offset : Nat) (value : Int16) :
    c.patch offset value =
      if offset + 2 ≤ c.size then .accept (c.overwrite offset value) ()
      else .refuse c (.patchOutOfBounds offset c.size) :=
  Reply.attempt_of_ite c (·.checkPatch offset) (fun c _ => ((), c.overwrite offset value)) rfl

theorem patch_of_room (room : offset + 2 ≤ c.size) (value : Int16) :
    c.patch offset value = .accept (c.overwrite offset value) () := by
  rw [patch_eq, if_pos room]

theorem patch_ok (patched : (c.patch offset value).answer = .ok ()) :
    offset + 2 ≤ c.size ∧ (c.patch offset value).after = c.overwrite offset value := by
  by_cases room : offset + 2 ≤ c.size
  · rw [patch_of_room room]
    exact ⟨room, rfl⟩
  · rw [patch_eq, if_neg room] at patched
    cases patched

inductive Op where
  | push (byte : UInt8)
  | append (bytes : Array UInt8)
  | pushWord (w : UInt16)
  | patch (offset : Nat) (value : Int16)
  deriving DecidableEq, Repr

def step (c : Code) : Op → Reply Code Unit
  | .push byte => .accept (c.push byte) ()
  | .append bytes => .accept (c.append bytes) ()
  | .pushWord w => .accept (c.pushWord w) ()
  | .patch offset value => c.patch offset value

def run (c : Code) (ops : List Op) : Code := runBy step c ops

/-- What lets code grow touches no operand, and a patch only those that share a byte with it. -/
def Op.Spares (offset : Nat) : Op → Prop
  | .patch other _ => Apart offset other
  | _ => True

theorem size_step (c : Code) (op : Op) : c.size ≤ (c.step op).after.size := by
  cases op with
  | push | append | pushWord => simp [step, Reply.accept]
  | patch offset value =>
      rw [step, patch_eq]
      split <;> simp [Reply.accept, Reply.refuse]

theorem step_overwrite (room : offset + 2 ≤ c.size) (value : Int16) {op : Op}
    (spared : op.Spares offset) :
    ((c.overwrite offset value).step op).after = (c.step op).after.overwrite offset value := by
  cases op with
  | push byte => simp only [step, Reply.accept, push_eq, overwrite_append room]
  | append bytes => exact overwrite_append room value bytes
  | pushWord w => simp only [step, Reply.accept, pushWord_eq, overwrite_append room]
  | patch other value' =>
      simp only [step, patch_eq, size_overwrite]
      by_cases space : other + 2 ≤ c.size
      · rw [if_pos space, if_pos space]
        exact overwrite_comm spared room space value value'
      · rw [if_neg space, if_neg space]
        rfl

/-- An operand can be written before a run that spares it, or after. -/
theorem run_overwrite (room : offset + 2 ≤ c.size) (value : Int16) {ops : List Op}
    (spared : ∀ op ∈ ops, op.Spares offset) :
    offset + 2 ≤ (c.run ops).size ∧
      (c.overwrite offset value).run ops = (c.run ops).overwrite offset value := by
  induction ops generalizing c with
  | nil => exact ⟨room, rfl⟩
  | cons op ops ih =>
      have first := step_overwrite room value (spared op List.mem_cons_self)
      have next : offset + 2 ≤ (c.step op).after.size := Nat.le_trans room (c.size_step op)
      have rest := ih next fun later member => spared later (List.mem_cons_of_mem op member)
      change _ ∧ ((c.overwrite offset value).step op).after.run ops = _
      rw [first]
      exact rest

/-- An operand is patched exactly if both its bytes are there; a patch that is refused changes
nothing. One that is made is read back, and is all that changes. It takes the place of an earlier
patch of the same operand, and it does not matter whether it is made before or after what spares the
operand: a patch at least two bytes away, or anything that lets the code grow. -/
theorem patches_exact (ops : List Op) (offset : Nat) (value : Int16) :
    let c := ({} : Code).run ops
    let patched := c.patch offset value
    (patched.answer =
      if offset + 2 ≤ c.size then .ok () else .error (.patchOutOfBounds offset c.size)) ∧
    (∀ fault, patched.answer = .error fault → patched.after = c) ∧
    (patched.answer = .ok () →
      patched.after.bytes.toList =
        c.bytes.toList.take offset ++ BigEndian.word16 value.toUInt16 ++
          c.bytes.toList.drop (offset + 2) ∧
      patched.after.int16? offset = some value ∧
      patched.after.size = c.size ∧
      (∀ i, i ≠ offset ∧ i ≠ offset + 1 → patched.after.byte? i = c.byte? i) ∧
      (∀ other, Apart offset other → patched.after.int16? other = c.int16? other) ∧
      (∀ other value', Apart offset other → (c.patch other value').answer = .ok () →
        (patched.after.patch other value').answer = .ok () ∧
          ((c.patch other value').after.patch offset value).answer = .ok () ∧
          (patched.after.patch other value').after =
            ((c.patch other value').after.patch offset value).after) ∧
      (∀ value', patched.after.patch offset value' = c.patch offset value') ∧
      ∀ later, (∀ op ∈ later, op.Spares offset) →
        ((c.run later).patch offset value).answer = .ok () ∧
          patched.after.run later = ((c.run later).patch offset value).after) := by
  intro c patched
  refine ⟨?_, fun fault => Reply.attempt_error, ?_⟩
  · simp only [patched, patch_eq]
    split <;> rfl
  · intro accepted
    obtain ⟨room, after⟩ := patch_ok accepted
    simp only [patched, after]
    refine ⟨bytes_overwrite_of_room room value, int16?_overwrite room value,
      size_overwrite c offset value, fun i => c.byte?_overwrite_of_ne value,
      fun other => c.int16?_overwrite_of_apart value, ?_, ?_, ?_⟩
    · intro other value' apart accepted'
      obtain ⟨space, after'⟩ := patch_ok accepted'
      have room' : offset + 2 ≤ (c.overwrite other value').size := by rwa [size_overwrite]
      have space' : other + 2 ≤ (c.overwrite offset value).size := by rwa [size_overwrite]
      rw [after', patch_of_room space', patch_of_room room']
      exact ⟨rfl, rfl, overwrite_comm apart room space value value'⟩
    · intro value'
      have still : offset + 2 ≤ (c.overwrite offset value).size := by rwa [size_overwrite]
      rw [patch_of_room still, patch_of_room room, overwrite_overwrite room]
    · intro later spared
      obtain ⟨grown, same⟩ := run_overwrite room value spared
      rw [patch_of_room grown]
      exact ⟨rfl, same⟩

example : ((({} : Code).append #[9, 0, 0, 9]).patch 1 (-2)).after.bytes = #[9, 255, 254, 9] := by
  decide

end BytecodeScopes.Code
