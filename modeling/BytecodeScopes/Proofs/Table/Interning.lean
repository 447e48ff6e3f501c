import BytecodeScopes.Proofs.Table.Setters
import Mathlib.Data.List.Basic

namespace BytecodeScopes.Symbols

def Op.request? : Op → Option Symbol
  | .add name => some ⟨name, .source⟩
  | .addSetter name => some ⟨name ++ "=", .synthesized⟩
  | .popSetter => none

def requests (ops : List Op) : List Symbol := ops.filterMap Op.request?

def requested (ops : List Op) : List String := (requests ops).map (·.name)

theorem requests_concat (ops : List Op) (op : Op) :
    requests (ops ++ [op]) = requests ops ++ op.request?.toList := by
  cases asked : op.request? <;> simp [requests, asked]

theorem requests_append_cons {op : Op} {symbol : Symbol} (asked : op.request? = some symbol)
    (front back : List Op) :
    requests (front ++ op :: back) = requests front ++ symbol :: requests back := by
  simp [requests, asked]

theorem find?_requests_iff {ops : List Op} {name : String} {symbol : Symbol} :
    (requests ops).find? (·.name == name) = some symbol ↔
      ∃ front op back, ops = front ++ op :: back ∧ op.request? = some symbol ∧
        symbol.name = name ∧ name ∉ requested front := by
  rw [List.find?_eq_some_iff_append]
  constructor
  · intro ⟨same, older, newer, split, others⟩
    obtain ⟨start, rest, rfl, first, last⟩ := List.filterMap_eq_append_iff.mp split
    obtain ⟨quiet, op, back, rfl, silent, asked, -⟩ := List.filterMap_eq_cons_iff.mp last
    refine ⟨start ++ quiet, op, back, by simp, asked, eq_of_beq same, ?_⟩
    have nothing : quiet.filterMap Op.request? = [] := List.filterMap_eq_nil_iff.mpr silent
    intro before
    simp only [requested, requests, List.filterMap_append, first, nothing, List.append_nil,
      List.mem_map] at before
    obtain ⟨other, member, also⟩ := before
    simpa [also] using others other member
  · intro ⟨front, op, back, split, asked, same, before⟩
    refine ⟨beq_iff_eq.mpr same, requests front, requests back, ?_, ?_⟩
    · rw [split, requests_append_cons asked]
    · intro other member
      have different : other.name ≠ name := by
        intro also
        exact before (List.mem_map.mpr ⟨other, member, also⟩)
      simpa using different

/-- A request was answered by the table alone. -/
structure Takes (t : Symbols) (symbol : Symbol) (reply : Reply Symbols Nat) : Prop where
  table : reply.after.table = t.table.offer capacity symbol
  answer : reply.answer =
    if t.table.admits capacity symbol.name then .ok (t.table.insert symbol).1
    else .error (.tableFull .symbols)

variable {t : Symbols} {symbol : Symbol} {op : Op}

theorem takes_attempt (symbol : Symbol) {commit : Symbols → Unit → Nat × Symbols}
    (index : (commit t ()).1 = (t.table.insert symbol).1)
    (table : (commit t ()).2.table = (t.table.insert symbol).2) :
    t.Takes symbol (.attempt t (·.checkAdd symbol.name) commit) := by
  have checked : t.checkAdd symbol.name =
      if t.table.admits capacity symbol.name then .ok () else .error (.tableFull .symbols) := rfl
  rw [Reply.attempt_of_ite t (·.checkAdd symbol.name) commit checked]
  constructor
  · rw [Interned.offer, ← table]
    split <;> rfl
  · rw [← index]
    split <;> rfl

theorem Coherent.takes (coherent : t.Coherent) (asked : op.request? = some symbol) :
    ∃ reply, t.Takes symbol reply ∧ t.step op = reply.map .index := by
  cases op with
  | popSetter => cases asked
  | add name =>
      cases asked
      exact ⟨t.add name, takes_attempt ⟨name, .source⟩ rfl rfl, rfl⟩
  | addSetter name =>
      cases asked
      -- the stack may have answered, but the table would have said the same
      refine ⟨t.addSetter name, ?_, rfl⟩
      rw [← coherent.addSetterByTable name]
      apply takes_attempt ⟨selector name, .synthesized⟩
      · cases t.setter? (selector name) <;> rfl
      · cases t.setter? (selector name) <;> rfl

theorem table_popSetter (t : Symbols) : t.popSetter.2.table = t.table := by
  unfold popSetter
  split <;> rfl

theorem table_run (ops : List Op) :
    (({} : Symbols).run ops).table = Interned.collect Symbol.name capacity (requests ops) := by
  induction ops using List.reverseRecOn with
  | nil => rfl
  | append_singleton ops op ih =>
      rw [run, runBy_concat, ← run, requests_concat]
      cases asked : op.request? with
      | none =>
          cases op with
          | add | addSetter => cases asked
          | popSetter =>
              change (({} : Symbols).run ops).popSetter.2.table = _
              rw [table_popSetter, ih, Option.toList_none, List.append_nil]
      | some symbol =>
          obtain ⟨reply, takes, same⟩ := (coherent_empty.run ops).takes asked
          rw [same, Reply.after_map, takes.table, ih, Option.toList_some, Interned.collect_concat]

theorem names_run (ops : List Op) :
    (({} : Symbols).run ops).names = Interned.firstSeen capacity (requested ops) := by
  change (({} : Symbols).run ops).table.keys = _
  rw [table_run, Interned.keys_collect]
  rfl

theorem answer_request (asked : op.request? = some symbol) (front back : List Op) :
    let firsts := Interned.firstSeen capacity (requested (front ++ op :: back))
    ((({} : Symbols).run front).step op).answer =
      if symbol.name ∈ firsts then .ok (.index (firsts.idxOf symbol.name))
      else .error (.tableFull .symbols) := by
  intro firsts
  obtain ⟨reply, takes, same⟩ := (coherent_empty.run front).takes asked
  have answer := takes.answer
  rw [table_run, Interned.answer_collect _ _ symbol (requests back)] at answer
  have all : firsts =
      Interned.firstSeen capacity ((requests front ++ symbol :: requests back).map (·.name)) := by
    rw [← requests_append_cons asked]
    rfl
  rw [same, Reply.map, answer, ← all]
  split <;> rfl

theorem step_error {fault : Fault} (refused : (t.step op).answer = .error fault) :
    (t.step op).after = t := by
  cases op with
  | add name => exact Reply.attempt_error (Reply.map_eq_error_iff.mp refused)
  | addSetter name => exact Reply.attempt_error (Reply.map_eq_error_iff.mp refused)
  | popSetter => cases refused

theorem find?_requests_of_get? {ops : List Op} {i : Nat}
    (found : (({} : Symbols).run ops).get? i = some symbol) :
    (requests ops).find? (·.name == symbol.name) = some symbol := by
  rw [get?, table_run] at found
  exact Interned.find?_of_mem_collect (Array.mem_of_getElem? found)

/-- The names in the table are the different names asked for, in the order of the first requests and
as many as have an index. Every request for one of them is answered with its place there, so equal
indices mean equal names; every other request is refused and changes nothing. A symbol is
synthesized if the first to ask for it was a setter. -/
theorem symbols_first_seen (ops : List Op) :
    let t := ({} : Symbols).run ops
    let answers := ({} : Symbols).answers ops
    let firsts := (requested ops).eraseDups.take 65536
    t.names = firsts ∧
    (∀ entry ∈ answers, ∀ symbol, entry.1.request? = some symbol →
      entry.2 =
        if symbol.name ∈ firsts then .ok (.index (firsts.idxOf symbol.name))
        else .error (.tableFull .symbols)) ∧
    (∀ op op' symbol symbol' i i', op.request? = some symbol → op'.request? = some symbol' →
      (op, .ok (.index i)) ∈ answers → (op', .ok (.index i')) ∈ answers →
      (i = i' ↔ symbol.name = symbol'.name)) ∧
    (∀ op fault, (t.step op).answer = .error fault → (t.step op).after = t) ∧
    (∀ name, t.find? name = if name ∈ firsts then some (firsts.idxOf name) else none) ∧
    (∀ i symbol, t.get? i = some symbol →
      (symbol.origin = .synthesized ↔ ∃ front name back, ops = front ++ .addSetter name :: back ∧
        name ++ "=" = symbol.name ∧ symbol.name ∉ requested front)) := by
  intro t answers firsts
  have answered : ∀ entry ∈ answers, ∀ symbol, entry.1.request? = some symbol →
      entry.2 =
        if symbol.name ∈ firsts then .ok (.index (firsts.idxOf symbol.name))
        else .error (.tableFull .symbols) := by
    intro entry member symbol asked
    obtain ⟨front, back, split, answer⟩ := mem_answersBy step member
    rw [answer, ← run, answer_request asked front back, ← split]
    rfl
  have placed : ∀ op symbol i, op.request? = some symbol → (op, .ok (.index i)) ∈ answers →
      symbol.name ∈ firsts ∧ i = firsts.idxOf symbol.name := by
    intro op symbol i asked member
    have given := answered _ member symbol asked
    split at given
    · cases given
      exact ⟨‹_›, rfl⟩
    · cases given
  refine ⟨names_run ops, answered, ?_, fun _ _ => step_error, ?_, ?_⟩
  · intro op op' symbol symbol' i i' asked asked' member member'
    obtain ⟨inside, place⟩ := placed op symbol i asked member
    obtain ⟨-, place'⟩ := placed op' symbol' i' asked' member'
    rw [place, place']
    exact List.idxOf_inj inside
  · intro name
    have keys : t.table.keys = firsts := names_run ops
    rw [← keys]
    exact t.table.find?_eq name
  · intro i symbol found
    have first := find?_requests_of_get? found
    constructor
    · intro synthesized
      obtain ⟨front, op, back, split, asked, -, before⟩ := find?_requests_iff.mp first
      cases op with
      | popSetter => cases asked
      | add name =>
          cases asked
          cases synthesized
      | addSetter name =>
          cases asked
          exact ⟨front, name, back, split, rfl, before⟩
    · intro ⟨front, name, back, split, own, before⟩
      have setter : (requests ops).find? (·.name == symbol.name) =
          some ⟨name ++ "=", .synthesized⟩ :=
        find?_requests_iff.mpr ⟨front, .addSetter name, back, split, rfl, own, before⟩
      rw [first, Option.some.injEq] at setter
      rw [setter]

end BytecodeScopes.Symbols
