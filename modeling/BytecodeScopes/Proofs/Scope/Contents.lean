import BytecodeScopes.Proofs.Scope.Regions
import BytecodeScopes.Proofs.Table.Literals
import Mathlib.Data.List.Nodup
import Mathlib.Data.List.Perm.Subperm

/-!
What a scope stores, told by the actions it has accepted: as many bytes of code as they write, a
handler for each that records one, and the literals and names they ask for, each once. In which
order they were asked for, how often, and what was refused in between is left out.
-/

namespace BytecodeScopes

theorem Interned.nodup_keys {α κ : Type} [BEq κ] [Hashable κ] {key : α → κ} (t : Interned key) :
    t.keys.Nodup := by
  rw [List.nodup_iff_getElem?_ne_getElem?]
  intro i j before bound same
  -- the index has one place for a key, and both places would be it
  have last : t.keys[j]? = some t.keys[j] := List.getElem?_eq_getElem bound
  have found := (t.find?_eq_some_iff_keys _ j).mpr last
  have found' := (t.find?_eq_some_iff_keys _ i).mpr (same.trans last)
  rw [found, Option.some.injEq] at found'
  omega

theorem Symbols.nodup_names (t : Symbols) : t.names.Nodup := t.table.nodup_keys

namespace Scope

def Op.width : Op → Nat
  | .emit _ => 1
  | .emitAll bytes => bytes.size
  | .emitOperand _ _ => 3
  | .reserve => 2
  | _ => 0

def Op.recordsHandler : Op → Bool
  | .closeRegion _ _ _ | .addHandler _ => true
  | _ => false

def Op.literal? : Op → Option Literals.Request
  | .addLiteral kind text => some ⟨kind, text⟩
  | _ => none

section

variable (done : List Op)

def bytesWritten : Nat := Sizes.total (done.map Op.width)

def handlersRecorded : Nat := done.countP Op.recordsHandler

def literalsAsked : List Literals.Request := done.filterMap Op.literal?

def namesAsked : List String := done.filterMap Op.symbol?

end

variable {s : Scope} {op : Op} {done : List Op}

theorem bytesWritten_append (done more : List Op) :
    bytesWritten (done ++ more) = bytesWritten done + bytesWritten more := by
  rw [bytesWritten, List.map_append, Sizes.total_append]
  rfl

theorem handlersRecorded_append (done more : List Op) :
    handlersRecorded (done ++ more) = handlersRecorded done + handlersRecorded more :=
  List.countP_append

theorem mem_namesAsked_append {more : List Op} {name : String} :
    name ∈ namesAsked (done ++ more) ↔ name ∈ namesAsked done ∨ name ∈ namesAsked more := by
  rw [namesAsked, List.filterMap_append, List.mem_append]
  rfl

theorem mem_literalsAsked_append {more : List Op} {r : Literals.Request} :
    r ∈ literalsAsked (done ++ more) ↔ r ∈ literalsAsked done ∨ r ∈ literalsAsked more := by
  rw [literalsAsked, List.filterMap_append, List.mem_append]
  rfl

def takes (s : Scope) (op : Op) : List Op := (s.accepted? (.act op)).toList.map Prod.fst

theorem takes_of_ok {answer : Answer} (accepted : (s.step op).answer = .ok answer) :
    s.takes op = [op] := by
  rw [takes, accepted?_of_ok accepted]
  rfl

theorem takes_of_error {fault : Fault} (refused : (s.step op).answer = .error fault) :
    s.takes op = [] := by
  rw [takes, accepted?_of_error refused]
  rfl

theorem takes_of_finished {output : Output} (finished : s.phase = .finished output) (op : Op) :
    s.takes op = [] := takes_of_error (congrArg Reply.answer (step_of_finished finished op))

theorem takes_of_failed (failed : s.phase = .failed) (op : Op) : s.takes op = [] :=
  takes_of_error (congrArg Reply.answer (step_of_failed failed op))

theorem mem_filterMap_takes {α : Type} (asked : Op → Option α) (s : Scope) (op : Op) (a : α) :
    a ∈ (s.takes op).filterMap asked ↔
      asked op = some a ∧ ∃ answer, (s.step op).answer = .ok answer := by
  cases given : (s.step op).answer with
  | ok answer => simp [takes_of_ok given]
  | error fault => simp [takes_of_error given]

theorem width_of_apart (apart : .body ∉ op.touches) : op.width = 0 := by
  cases op with
  | emit | emitAll | emitOperand | reserve => simp [Op.touches] at apart
  | _ => rfl

theorem bytesWritten_of_width (none : op.width = 0) : bytesWritten (s.takes op) = 0 := by
  cases given : (s.step op).answer with
  | ok answer =>
      rw [takes_of_ok given]
      exact none
  | error fault =>
      rw [takes_of_error given]
      rfl

theorem size_of_accepted {after : Scope} {answer : Answer}
    (reply : s.step op = .accept after answer)
    (grown : after.code.size = s.code.size + op.width) :
    (s.step op).after.code.size = s.code.size + bytesWritten (s.takes op) := by
  rw [takes_of_ok (congrArg Reply.answer reply), reply]
  exact grown

theorem size_of_kept (none : op.width = 0) (kept : (s.step op).after.code.size = s.code.size) :
    (s.step op).after.code.size = s.code.size + bytesWritten (s.takes op) := by
  rw [bytesWritten_of_width none]
  exact kept

theorem size_body (building : s.phase = .building) (touched : .body ∈ op.touches) :
    (s.step op).after.code.size = s.code.size + bytesWritten (s.takes op) := by
  let Same (after : Scope) : Prop := after.code.size = s.code.size
  cases op with
  | emit byte =>
      have reply : s.step (.emit byte) = .accept { s with code := s.code.push byte } .done := by
        rw [step, emit, change_of_building building]
        rfl
      exact size_of_accepted reply (Code.size_push s.code byte)
  | emitAll bytes =>
      have reply : s.step (.emitAll bytes) =
          .accept { s with code := s.code.append bytes } .done := by
        rw [step, emitAll, change_of_building building]
        rfl
      exact size_of_accepted reply (Code.size_append s.code bytes)
  | emitOperand opcode operand =>
      have reply : s.step (.emitOperand opcode operand) =
          .accept { s with code := (s.code.push opcode).pushWord operand } .done := by
        rw [step, emitOperand, change_of_building building]
        rfl
      apply size_of_accepted reply
      rw [Code.size_pushWord, Code.size_push]
      rfl
  | reserve =>
      let reserved := s.labels.reserve s.code
      have reply : s.step .reserve =
          .accept { s with labels := reserved.2.1, code := reserved.2.2 } (.label reserved.1) := by
        rw [step, reserve, change_of_building building]
        rfl
      exact size_of_accepted reply (Code.size_pushWord s.code 0)
  | dequeue => exact size_of_kept rfl (after_change (P := Same) rfl fun _ => rfl)
  | queue =>
      exact size_of_kept rfl (after_attempt (P := Same) rfl (fun _ => rfl) fun _ _ _ => rfl)
  | resolve label target =>
      apply size_of_kept rfl
      apply after_whileBuilding (P := Same) rfl
      intro building
      exact size_resolveAll target [label] s
  | closeLoop => exact size_of_kept rfl s.size_closeLoop
  | _ => simp [Op.touches] at touched

theorem size_act (s : Scope) (op : Op) :
    (s.step op).after.code.size = s.code.size + bytesWritten (s.takes op) := by
  cases phase : s.phase with
  | finished output =>
      rw [takes_of_finished phase, step_of_finished phase]
      rfl
  | failed =>
      rw [takes_of_failed phase, step_of_failed phase]
      rfl
  | building =>
      by_cases touched : .body ∈ op.touches
      · exact size_body phase touched
      · apply size_of_kept (width_of_apart touched)
        exact congrArg Code.size (body_step touched).1

theorem handlers_addHandler {handler : Handler} (records : op.recordsHandler = true)
    (own : s.step op = (s.addHandler handler).map fun _ => .done) :
    (s.step op).after.handlers.size = s.handlers.size + handlersRecorded (s.takes op) := by
  rcases addHandler_cases s handler with ⟨-, accepted, pushed⟩ | ⟨⟨fault, refused⟩, kept⟩
  · have given : (s.step op).answer = .ok .done := by
      rw [own]
      exact Reply.map_eq_ok_iff.mpr ⟨(), accepted, rfl⟩
    rw [takes_of_ok given, own, Reply.after_map, pushed]
    simp [handlersRecorded, records, Handlers.push, Handlers.size]
  · have given : (s.step op).answer = .error fault := by
      rw [own]
      exact Reply.map_eq_error_iff.mpr refused
    rw [takes_of_error given, own, Reply.after_map, kept]
    rfl

theorem handlers_act (s : Scope) (op : Op) :
    (s.step op).after.handlers.size = s.handlers.size + handlersRecorded (s.takes op) := by
  by_cases touched : .handlers ∈ op.touches
  · cases op with
    | addHandler handler => exact handlers_addHandler rfl rfl
    | closeRegion start kind target => exact handlers_addHandler rfl rfl
    | _ => simp [Op.touches] at touched
  · have none : op.recordsHandler = false := by
      cases op with
      | addHandler | closeRegion => simp [Op.touches] at touched
      | _ => rfl
    rw [handlers_step_of_apart touched]
    cases given : (s.step op).answer with
    | ok answer => simp [takes_of_ok given, handlersRecorded, none]
    | error fault => simp [takes_of_error given, handlersRecorded]

theorem names_act (fit : s.symbols.Fit) (op : Op) (name : String) :
    name ∈ (s.step op).after.symbols.names ↔
      name ∈ s.symbols.names ∨ name ∈ namesAsked (s.takes op) := by
  rw [(interns_step fit op).names, ← mem_filterMap_takes]
  rfl

theorem mem_intern (t : Literals) (r : Literals.Request) (l : Literal) :
    l ∈ (t.intern r.kind r.text).2.keys ↔ l ∈ t.keys ∨ r.literal = l := by
  change l ∈ (t.insert r.literal).2.keys ↔ _
  by_cases there : r.literal ∈ t.keys
  · rw [Interned.insert_of_mem there]
    constructor
    · exact .inl
    · rintro (member | rfl)
      · exact member
      · exact there
  · rw [Interned.keys_insert_of_not_mem there]
    simp [eq_comm]

theorem literals_of_quiet (quiet : op.literal? = none)
    (kept : (s.step op).after.literals = s.literals) (l : Literal) :
    l ∈ (s.step op).after.literals.keys ↔
      l ∈ s.literals.keys ∨ ∃ r ∈ literalsAsked (s.takes op), r.literal = l := by
  have nothing : ∀ r, r ∉ literalsAsked (s.takes op) := by
    intro r asked
    rw [literalsAsked, mem_filterMap_takes, quiet] at asked
    cases asked.1
  simp [kept, nothing]

theorem literals_addLiteral (s : Scope) (r : Literals.Request) (l : Literal) :
    l ∈ (s.step (.addLiteral r.kind r.text)).after.literals.keys ↔
      l ∈ s.literals.keys ∨
        ∃ asked ∈ literalsAsked (s.takes (.addLiteral r.kind r.text)), asked.literal = l := by
  rcases attempt_cases s (·.literals.checkAdd r.kind r.text) fun s _ =>
      ((s.literals.intern r.kind r.text).1,
        { s with literals := (s.literals.intern r.kind r.text).2 })
    with ⟨plan, -, -, accepted⟩ | ⟨fault, phase, refused, stopped⟩
  · have reply : s.step (.addLiteral r.kind r.text) =
        .accept { s with literals := (s.literals.intern r.kind r.text).2 }
          (.index (s.literals.intern r.kind r.text).1) := congrArg (Reply.map Answer.index) accepted
    rw [takes_of_ok (congrArg Reply.answer reply), reply]
    simp [Reply.accept, literalsAsked, Op.literal?, mem_intern]
  · have given : (s.step (.addLiteral r.kind r.text)).answer = .error fault :=
      Reply.map_eq_error_iff.mpr refused
    have kept : (s.step (.addLiteral r.kind r.text)).after = { s with phase } := stopped
    rw [takes_of_error given, kept]
    simp [literalsAsked]

theorem literals_act (s : Scope) (op : Op) (l : Literal) :
    l ∈ (s.step op).after.literals.keys ↔
      l ∈ s.literals.keys ∨ ∃ r ∈ literalsAsked (s.takes op), r.literal = l := by
  let Same (after : Scope) : Prop := after.literals = s.literals
  by_cases touched : .tables ∈ op.touches
  · cases op with
    | addLiteral kind text => exact literals_addLiteral s ⟨kind, text⟩ l
    | addSymbol | addSetter =>
        apply literals_of_quiet rfl
        exact after_attempt (P := Same) rfl (fun _ => rfl) (fun _ _ _ => rfl)
    | popSetter | pushText | popText =>
        apply literals_of_quiet rfl
        exact after_change (P := Same) rfl (fun _ => rfl)
    | _ => simp [Op.touches] at touched
  · have quiet : op.literal? = none := by
      cases op with
      | addLiteral => simp [Op.touches] at touched
      | _ => rfl
    exact literals_of_quiet quiet (tables_step_of_apart touched).2 l

/-- How much code there is, also after it was handed on. -/
def codeLength (s : Scope) : Nat :=
  match s.output? with
  | some output => output.code.size
  | none => s.code.size

/-- What is stored is what the accepted actions ask for. -/
structure Holds (s : Scope) (done : List Op) : Prop where
  code : s.codeLength = bytesWritten done
  handlers : s.handlers.size = handlersRecorded done
  fit : s.symbols.Fit
  names : ∀ name, name ∈ s.symbols.names ↔ name ∈ namesAsked done
  literals : ∀ l, l ∈ s.literals.keys ↔ ∃ r ∈ literalsAsked done, r.literal = l

theorem codeLength_act (s : Scope) (op : Op) :
    (s.step op).after.codeLength = s.codeLength + bytesWritten (s.takes op) := by
  rw [codeLength, codeLength, output?_step]
  cases given : s.output? with
  | none => exact size_act s op
  | some output =>
      rw [takes_of_finished (phase_of_output? given)]
      rfl

theorem codeLength_finish (s : Scope) (childCount : Nat) :
    (s.finish childCount).after.codeLength = s.codeLength := by
  cases given : s.output? with
  | some output =>
      rw [finish_of_finished (phase_of_output? given)]
      rfl
  | none =>
      have here : s.codeLength = s.code.size := by rw [codeLength, given]
      apply after_finish (P := (·.codeLength = s.codeLength)) childCount rfl
      · exact here.symm
      · intro building checked
        exact here.symm

theorem holds_fresh (id : ScopeId) (parent : Option ScopeId) (top : Bool) (nesting : Nesting)
    (limits : Limits) : (fresh id parent top nesting limits).Holds [] where
  code := rfl
  handlers := rfl
  fit := (tablesFit_fresh id parent top nesting limits).symbols
  names := by simp [fresh, Symbols.names, Interned.empty, namesAsked]
  literals := by simp [fresh, Interned.keys, Interned.empty, literalsAsked]

theorem Holds.act (holds : s.Holds done) (op : Op) :
    (s.step op).after.Holds (done ++ s.takes op) where
  code := by rw [codeLength_act, holds.code, bytesWritten_append]
  handlers := by rw [handlers_act, holds.handlers, handlersRecorded_append]
  fit := (interns_step holds.fit op).fit
  names := by
    intro name
    rw [names_act holds.fit, holds.names, mem_namesAsked_append]
  literals := by
    intro l
    rw [literals_act, holds.literals]
    simp only [mem_literalsAsked_append, or_and_right, exists_or]

theorem Holds.finish (holds : s.Holds done) (childCount : Nat) :
    (s.finish childCount).after.Holds done := by
  obtain ⟨symbols, literals⟩ := tables_finish s childCount
  constructor
  · rw [codeLength_finish]
    exact holds.code
  · rw [handlers_finish]
    exact holds.handlers
  · rw [symbols]
    exact holds.fit
  · rw [symbols]
    exact holds.names
  · rw [literals]
    exact holds.literals

theorem Holds.move (holds : s.Holds done) (m : Move) :
    (s.move m).after.Holds (done ++ (s.accepted? m).toList.map Prod.fst) := by
  cases m with
  | act op => exact holds.act op
  | finish childCount =>
      rw [accepted?, Option.toList_none, List.map_nil, List.append_nil]
      exact holds.finish childCount

theorem Holds.symbols_le (holds : s.Holds done) : s.symbols.size ≤ done.length := by
  have within : s.symbols.names ⊆ namesAsked done := by
    intro name
    exact (holds.names name).mp
  calc s.symbols.size
      = s.symbols.names.length := s.symbols.size_eq
    _ ≤ (namesAsked done).length := (List.subperm_of_subset s.symbols.nodup_names within).length_le
    _ ≤ done.length := List.length_filterMap_le ..

theorem Holds.literals_le (holds : s.Holds done) : s.literals.size ≤ done.length := by
  have within : s.literals.keys ⊆ (literalsAsked done).map Literals.Request.literal := by
    intro l stored
    exact List.mem_map.mpr ((holds.literals l).mp stored)
  calc s.literals.size
      = s.literals.keys.length := s.literals.length_keys.symm
    _ ≤ ((literalsAsked done).map Literals.Request.literal).length :=
        (List.subperm_of_subset s.literals.nodup_keys within).length_le
    _ = (literalsAsked done).length := List.length_map _
    _ ≤ done.length := List.length_filterMap_le ..

def Op.stores : Op → Bool
  | .emit _ | .addLiteral _ _ | .addSymbol _ | .addSetter _ => true
  | _ => false

theorem step_storing (building : s.phase = .building) (stores : op.stores = true)
    (symbols : s.symbols.size < Symbols.capacity)
    (literals : s.literals.size < Literals.capacity) :
    ∃ symbols literals code answer,
      s.step op = .accept { s with symbols, literals, code } answer := by
  cases op with
  | emit byte =>
      refine ⟨s.symbols, s.literals, s.code.push byte, .done, ?_⟩
      rw [step, emit, change_of_building building]
      rfl
  | addLiteral kind text =>
      have checked : s.literals.checkAdd kind text = .ok () := by
        have room : s.literals.keys.length < Literals.capacity := by
          rw [s.literals.length_keys]
          exact literals
        rw [Literals.checkAdd, if_pos (Interned.admits_iff.mpr (.inr room))]
      refine ⟨s.symbols, (s.literals.intern kind text).2, s.code,
        .index (s.literals.intern kind text).1, ?_⟩
      rw [step, addLiteral, attempt_of_ok building checked]
      rfl
  | addSymbol name =>
      have checked : s.symbols.checkAdd name = .ok () :=
        (s.symbols.checkAdd_eq_ok_iff name).mpr (.inr symbols)
      refine ⟨(s.symbols.intern name .source).2, s.literals, s.code,
        .index (s.symbols.intern name .source).1, ?_⟩
      rw [step, addSymbol, attempt_of_ok building checked]
      rfl
  | addSetter name =>
      have added : s.symbols.checkAdd (Symbols.selector name) = .ok () :=
        (s.symbols.checkAdd_eq_ok_iff _).mpr (.inr symbols)
      have known : ∃ known, s.symbols.checkSetter name = .ok known := by
        rw [Symbols.checkSetter, added]
        cases s.symbols.setter? (Symbols.selector name) with
        | some setter => exact ⟨some setter.index, rfl⟩
        | none => exact ⟨none, rfl⟩
      obtain ⟨known, checked⟩ := known
      refine ⟨(s.symbols.internSetter name known).2, s.literals, s.code,
        .index (s.symbols.internSetter name known).1, ?_⟩
      rw [step, addSetter, attempt_of_ok building checked]
      rfl
  | _ => cases stores

end Scope

end BytecodeScopes
