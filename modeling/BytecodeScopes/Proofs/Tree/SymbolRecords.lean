import BytecodeScopes.Proofs.Tree.RecordSize

/-!
The records of symbols. The section of symbols in a record is measured by the bytes of the names, a
record of a name has a length of 16 bits. The two agree on every name that has a record; but a name
of any length becomes a symbol, so a finished scope may be measured with a symbol that has none.
-/

namespace BytecodeScopes

namespace WrittenName

def holding (name : String) : WrittenName := ⟨name.toUTF8.data⟩

theorem ofName_eq (name : String) :
    ofName name =
      if name.utf8ByteSize ≤ 65535 then .ok (holding name)
      else .error (.nameTooLong name.utf8ByteSize) := rfl

theorem mapM_ofName (names : List String) :
    names.mapM ofName =
      match names.find? (65535 < ·.utf8ByteSize) with
      | none => .ok (names.map holding)
      | some name => .error (.nameTooLong name.utf8ByteSize) := by
  induction names with
  | nil => rfl
  | cons name names ih =>
      rw [List.mapM_cons, ih, ofName_eq]
      by_cases short : name.utf8ByteSize ≤ 65535
      · have next : (name :: names).find? (65535 < ·.utf8ByteSize) =
            names.find? (65535 < ·.utf8ByteSize) := by
          simp [Nat.not_lt.mpr short]
        rw [if_pos short, next]
        cases names.find? (65535 < ·.utf8ByteSize) <;> rfl
      · have found : (name :: names).find? (65535 < ·.utf8ByteSize) = some name := by
          simp [Nat.lt_of_not_le short]
        rw [if_neg short, found]
        rfl

end WrittenName

namespace Symbols

/-- The records of all names, or the fault of the first that has none. -/
def written (t : Symbols) : Except Fault (List WrittenName) := t.names.mapM WrittenName.ofName

theorem written_cases (t : Symbols) :
    (∀ name ∈ t.names, name.utf8ByteSize ≤ 65535) ∧
        t.written = .ok (t.names.map WrittenName.holding) ∨
      ∃ name ∈ t.names, 65535 < name.utf8ByteSize ∧
        t.written = .error (.nameTooLong name.utf8ByteSize) := by
  rw [written, WrittenName.mapM_ofName]
  cases first : t.names.find? (65535 < ·.utf8ByteSize) with
  | none =>
      refine .inl ⟨?_, rfl⟩
      intro name member
      have short := List.find?_eq_none.mp first name member
      simpa using short
  | some name =>
      have long : 65535 < name.utf8ByteSize := by simpa using List.find?_some first
      exact .inr ⟨name, List.mem_of_find?_eq_some first, long, rfl⟩

theorem written_eq_ok_iff (t : Symbols) :
    (∃ records, t.written = .ok records) ↔ ∀ name ∈ t.names, name.utf8ByteSize ≤ 65535 := by
  rcases t.written_cases with ⟨short, written⟩ | ⟨name, member, long, refused⟩
  · exact ⟨fun _ => short, fun _ => ⟨_, written⟩⟩
  · constructor
    · rintro ⟨records, written⟩
      rw [refused] at written
      cases written
    · intro short
      exact absurd (short name member) (Nat.not_le.mpr long)

theorem writtenSize_of_written {t : Symbols} {records : List WrittenName}
    (written : t.written = .ok records) :
    t.writtenSize = 2 + Sizes.total (records.map WrittenName.writtenSize) := by
  rcases t.written_cases with ⟨-, all⟩ | ⟨name, -, -, refused⟩
  · rw [all] at written
    cases written
    rw [List.map_map]
    rfl
  · rw [refused] at written
    cases written

theorem utf8ByteSize_selector (name : String) :
    (selector name).utf8ByteSize = name.utf8ByteSize + 1 := by
  rw [selector, String.utf8ByteSize_append]
  rfl

end Symbols

namespace Tree

theorem mem_actionsBy_iff {t : Tree} {ops : List Op} {id : ScopeId} {action : Scope.Op} :
    action ∈ t.actionsBy id ops ↔ ∃ answer, (.scope id action, .ok answer) ∈ t.answers ops := by
  rw [actionsBy, List.mem_map]
  constructor
  · rintro ⟨⟨_, own⟩, member, rfl⟩
    exact ⟨.scope own, mem_acceptedBy_iff.mp member⟩
  · rintro ⟨answer, member⟩
    obtain ⟨front, back, -, answered⟩ := mem_answersBy step member
    obtain ⟨own, -, rfl⟩ := Reply.map_eq_ok_iff.mp answered.symm
    exact ⟨(action, own), mem_acceptedBy_iff.mpr member, rfl⟩

theorem namesAsked_short_iff {t : Tree} {ops : List Op} {id : ScopeId} :
    (∀ name ∈ Scope.namesAsked (t.actionsBy id ops), name.utf8ByteSize ≤ 65535) ↔
      (∀ name answer, (.scope id (.addSymbol name), .ok answer) ∈ t.answers ops →
        name.utf8ByteSize ≤ 65535) ∧
      ∀ name answer, (.scope id (.addSetter name), .ok answer) ∈ t.answers ops →
        name.utf8ByteSize ≤ 65534 := by
  simp only [Scope.namesAsked, List.mem_filterMap, mem_actionsBy_iff]
  constructor
  · intro short
    refine ⟨fun name answer member => short name ⟨_, ⟨answer, member⟩, rfl⟩, ?_⟩
    intro name answer member
    have bound := short (Symbols.selector name) ⟨_, ⟨answer, member⟩, rfl⟩
    rw [Symbols.utf8ByteSize_selector] at bound
    omega
  · rintro ⟨symbols, setters⟩ name ⟨action, ⟨answer, member⟩, asked⟩
    cases action with
    | addSymbol =>
        cases asked
        exact symbols name answer member
    | addSetter own =>
        cases asked
        have bound := setters own answer member
        rw [Symbols.utf8ByteSize_selector]
        omega
    | _ => cases asked

/-- Every symbol of a finished scope has a record if and only if no name that the scope accepted is
too long, the name of a setter with its equals sign. The section of symbols is as long as the
records say if there are any; otherwise a name that is too long is to blame, and the record of the
scope is measured all the same. -/
theorem symbols_recorded_iff_short {limits : Limits} (sound : limits.Sound) (ops : List Op)
    {id : ScopeId} {s : Scope} (live : (({ limits } : Tree).run ops).scope? id = some s)
    {output : Output} (given : s.output? = some output) :
    ((∃ records, s.symbols.written = .ok records) ↔
      (∀ name answer, (.scope id (.addSymbol name), .ok answer) ∈ ({ limits } : Tree).answers ops →
        name.utf8ByteSize ≤ 65535) ∧
      ∀ name answer, (.scope id (.addSetter name), .ok answer) ∈ ({ limits } : Tree).answers ops →
        name.utf8ByteSize ≤ 65534) ∧
    (∀ records, s.symbols.written = .ok records →
      s.symbols.writtenSize = 2 + Sizes.total (records.map WrittenName.writtenSize)) ∧
    (∀ fault, s.symbols.written = .error fault → ∃ name ∈ s.symbols.names,
      65535 < name.utf8ByteSize ∧ fault = .nameTooLong name.utf8ByteSize) ∧
    (output.code.size < 4294967296 →
      s.writtenSize = .ok (Record.headerSize + s.handlers.writtenSize + output.code.size +
        s.literals.writtenSize + s.symbols.writtenSize)) := by
  have reachable : (({ limits } : Tree).run ops).Reachable := ⟨limits, sound, ops, rfl⟩
  refine ⟨?_, ?_, ?_, ?_⟩
  · rw [s.symbols.written_eq_ok_iff, ← namesAsked_short_iff]
    simp only [(holds_run limits ops live).names]
  · exact fun records written => Symbols.writtenSize_of_written written
  · intro fault refused
    rcases s.symbols.written_cases with ⟨-, written⟩ | ⟨name, member, long, blamed⟩
    · rw [written] at refused
      cases refused
    · rw [blamed] at refused
      exact ⟨name, member, long, (Except.error.inj refused).symm⟩
  · exact (reachable.settled id s output live given).writtenSize given

def lettered : Nat → String
  | 0 => ""
  | n + 1 => "a" ++ lettered n

theorem utf8ByteSize_lettered (n : Nat) : (lettered n).utf8ByteSize = n := by
  induction n with
  | zero => rfl
  | succ n ih =>
      rw [lettered, String.utf8ByteSize_append, ih]
      exact Nat.add_comm 1 n

def naming (name : String) : List Op :=
  [.create none true, .create (some ⟨0⟩) false, .finish ⟨1⟩, .scope ⟨0⟩ (.addSymbol name),
    .finish ⟨0⟩]

theorem scope?_naming (name : String) :
    ∃ s output, (({} : Tree).run (naming name)).scope? ⟨0⟩ = some s ∧ s.output? = some output ∧
      output.code.size = 0 ∧ s.handlers.writtenSize = 2 ∧ s.literals.writtenSize = 2 ∧
      s.symbols.names = [name] ∧ s.writtenSize = .ok (23 + name.utf8ByteSize) := by
  have room : [name].length ≤ Symbols.capacity := by simp [Symbols.capacity]
  obtain ⟨symbols, live, listed⟩ := scope?_filled (List.nodup_singleton name) room
  let method : Scope := { startedMethod with symbols }
  have size : symbols.size = 1 := by rw [symbols.size_eq, listed, List.length_singleton]
  have accepted : ((filled [name]).finish ⟨0⟩).answer = .ok () := by
    rw [answer_finish (filled_reachable [name]).wellFormed live rfl
      (childrenFinished_filled [name] symbols), Scope.checkFinish_of_closed rfl rfl rfl, size]
    rfl
  obtain ⟨s, found, -, -, -, after⟩ := finish_ok accepted
  rw [live] at found
  cases found
  have reached := after ⟨0⟩
  rw [if_pos rfl] at reached
  have measured : method.sealed.writtenSize = .ok (18 + Symbols.namesSize [name]) := by
    rw [← listed]
    rfl
  have bytes : 18 + Symbols.namesSize [name] = 23 + name.utf8ByteSize := by
    simp only [Symbols.namesSize, List.map_cons, List.map_nil, Sizes.total_cons, Sizes.total_nil]
    omega
  rw [bytes] at measured
  exact ⟨method.sealed, method.outputWith method.children.size, reached, rfl, rfl, rfl, rfl, listed,
    measured⟩

theorem symbols_recorded_iff_short_brink :
    ∃ s records, (({} : Tree).run (naming (lettered 65535))).scope? ⟨0⟩ = some s ∧
      s.isFinished = true ∧ s.symbols.written = .ok records ∧
      s.symbols.writtenSize = 2 + Sizes.total (records.map WrittenName.writtenSize) ∧
      s.writtenSize = .ok (18 + s.symbols.writtenSize) := by
  have sound : ({} : Limits).Sound := (Limits.validate_eq_ok_iff {}).mp (by decide)
  obtain ⟨s, output, live, given, code, handlers, literals, -, -⟩ := scope?_naming (lettered 65535)
  obtain ⟨recorded, sized, -, measured⟩ := symbols_recorded_iff_short sound _ live given
  have finished : s.isFinished = true := by rw [s.isFinished_eq, given]; rfl
  have short : ∃ records, s.symbols.written = .ok records := by
    refine recorded.mpr ⟨?_, ?_⟩
    · intro name answer member
      have asked := mem_of_mem_answersBy step member
      have same : name = lettered 65535 := by simpa [naming] using asked
      have size : name.utf8ByteSize = 65535 := by rw [same, utf8ByteSize_lettered]
      exact Nat.le_of_eq size
    · intro name answer member
      have asked := mem_of_mem_answersBy step member
      simp [naming] at asked
  obtain ⟨records, written⟩ := short
  refine ⟨s, records, live, finished, written, sized records written, ?_⟩
  rw [measured (by omega), code, handlers, literals]
  rfl

/-- One letter more, and the scope is finished and measured with a symbol that has no record. -/
theorem long_symbol_measured_unrecorded :
    ∃ s, (({} : Tree).run (naming (lettered 65536))).Reachable ∧
      (({} : Tree).run (naming (lettered 65536))).scope? ⟨0⟩ = some s ∧ s.isFinished = true ∧
      s.symbols.names = [lettered 65536] ∧
      WrittenName.ofName (lettered 65536) = .error (.nameTooLong 65536) ∧
      s.writtenSize = .ok 65559 := by
  have sound : ({} : Limits).Sound := (Limits.validate_eq_ok_iff {}).mp (by decide)
  obtain ⟨s, output, live, given, -, -, -, names, measured⟩ := scope?_naming (lettered 65536)
  have finished : s.isFinished = true := by rw [s.isFinished_eq, given]; rfl
  refine ⟨s, ⟨{}, sound, _, rfl⟩, live, finished, names, ?_, ?_⟩
  · rw [WrittenName.ofName_eq, utf8ByteSize_lettered]
    rfl
  · rw [measured, utf8ByteSize_lettered]

end Tree

end BytecodeScopes
