import BytecodeScopes.Proofs.Scope.Contents
import BytecodeScopes.Proofs.Tree.Accepted
import BytecodeScopes.Proofs.Tree.Capacity
import BytecodeScopes.Proofs.Tree.Size
import Mathlib.Data.List.Dedup

namespace BytecodeScopes

def LiteralKind.entrySize (kind : LiteralKind) (length : Nat) : Nat :=
  match kind with
  | .string | .staticString => 1 + (2 + length + 1)
  | .int32 => 1 + 4
  | .int64 | .float => 1 + 8
  | .bigInt => 1 + (2 + length)

/-- A literal is measured by the kind it was asked for by, though only its tag is stored. -/
theorem Literals.Request.writtenSize_literal (r : Request) :
    r.literal.writtenSize = r.kind.entrySize r.text.utf8ByteSize := by
  have kind : r.literal.kind = r.kind := Literal.kind_ofKind r.kind r.text
  have text : r.literal.value = r.text := rfl
  rw [Literal.writtenSize, kind, text]
  cases r.kind <;> rfl

namespace Sizes

theorem total_of_same_members {α : Type} {first second : List α} (once : first.Nodup)
    (once' : second.Nodup) (same : ∀ a, a ∈ first ↔ a ∈ second) (size : α → Nat) :
    total (first.map size) = total (second.map size) :=
  total_perm (((List.perm_ext_iff_of_nodup once once').mpr same).map size)

end Sizes

namespace Scope.Holds

variable {s : Scope} {done : List Op}

theorem literalsSize (holds : s.Holds done) :
    s.literals.writtenSize =
      2 + Sizes.total ((literalsAsked done).dedup.map
        fun r => r.kind.entrySize r.text.utf8ByteSize) := by
  have members : ∀ l, l ∈ s.literals.keys ↔
      l ∈ (literalsAsked done).dedup.map Literals.Request.literal := by
    intro l
    rw [holds.literals, List.mem_map]
    simp only [List.mem_dedup]
  have once := (literalsAsked done).nodup_dedup.map Literals.Request.literal_injective
  have keys : s.literals.entries.toList = s.literals.keys := (List.map_id' _).symm
  rw [Literals.writtenSize, keys, Sizes.total_of_same_members s.literals.nodup_keys once members,
    List.map_map]
  simp only [Function.comp_def, Literals.Request.writtenSize_literal]

theorem namesSize (holds : s.Holds done) :
    s.symbols.writtenSize =
      2 + Sizes.total ((namesAsked done).dedup.map fun name => name.utf8ByteSize + 3) := by
  have members : ∀ name, name ∈ s.symbols.names ↔ name ∈ (namesAsked done).dedup := by
    intro name
    rw [holds.names, List.mem_dedup]
  have each : ∀ name : String, 2 + name.utf8ByteSize + 1 = name.utf8ByteSize + 3 := by
    intro name
    omega
  rw [Symbols.writtenSize, Symbols.namesSize,
    Sizes.total_of_same_members s.symbols.nodup_names (List.nodup_dedup _) members]
  simp only [each]

end Scope.Holds

namespace Tree

open Scope (bytesWritten handlersRecorded literalsAsked namesAsked)

/-- The actions of a run that a scope accepts. -/
def actionsBy (t : Tree) (id : ScopeId) (ops : List Op) : List Scope.Op :=
  (t.acceptedBy id ops).map Prod.fst

theorem holds_lasting : Lasting fun s done => s.Holds (done.map Prod.fst) where
  moved := by
    intro s m done holds
    rw [List.map_append]
    exact holds.move m
  relisted := by
    intro s children done holds
    exact ⟨holds.code, holds.handlers, holds.fit, holds.names, holds.literals⟩

theorem holds_run (limits : Limits) (ops : List Op) {id : ScopeId} {s : Scope}
    (live : (({ limits } : Tree).run ops).scope? id = some s) :
    s.Holds (({ limits } : Tree).actionsBy id ops) :=
  holds_lasting.since_creation Scope.holds_fresh (Nat.zero_le _) ops live

/-- The size of the record of what actions ask for. -/
def sizeFor (done : List Scope.Op) : Nat :=
  14 + (2 + 13 * handlersRecorded done) + bytesWritten done +
    (2 + Sizes.total ((literalsAsked done).dedup.map
      fun r => r.kind.entrySize r.text.utf8ByteSize)) +
    (2 + Sizes.total ((namesAsked done).dedup.map fun name => name.utf8ByteSize + 3))

theorem sizeFor_congr {done done' : List Scope.Op}
    (bytes : bytesWritten done = bytesWritten done')
    (handlers : handlersRecorded done = handlersRecorded done')
    (literals : ∀ r, r ∈ literalsAsked done ↔ r ∈ literalsAsked done')
    (names : ∀ name, name ∈ namesAsked done ↔ name ∈ namesAsked done') :
    sizeFor done = sizeFor done' := by
  have literals' : ∀ r, r ∈ (literalsAsked done).dedup ↔ r ∈ (literalsAsked done').dedup := by
    simpa only [List.mem_dedup] using literals
  have names' : ∀ name, name ∈ (namesAsked done).dedup ↔ name ∈ (namesAsked done').dedup := by
    simpa only [List.mem_dedup] using names
  rw [sizeFor, bytes, handlers,
    Sizes.total_of_same_members (List.nodup_dedup _) (List.nodup_dedup _) literals',
    Sizes.total_of_same_members (List.nodup_dedup _) (List.nodup_dedup _) names']
  rfl

section

variable {limits : Limits} {ops : List Op} {id : ScopeId} {s : Scope} {output : Output}

theorem codeSize_run (live : (({ limits } : Tree).run ops).scope? id = some s)
    (given : s.output? = some output) :
    output.code.size = bytesWritten (({ limits } : Tree).actionsBy id ops) ∧
      output.codeSize = min (bytesWritten (({ limits } : Tree).actionsBy id ops)) 4294967295 := by
  have length : s.codeLength = output.code.size := by rw [Scope.codeLength, given]
  have written := (holds_run limits ops live).code
  rw [length] at written
  refine ⟨written, ?_⟩
  rw [← written]
  exact (allSettled_run limits ops id s output live given).measured

theorem writtenSize_run (live : (({ limits } : Tree).run ops).scope? id = some s)
    (given : s.output? = some output) :
    s.writtenSize =
      if bytesWritten (({ limits } : Tree).actionsBy id ops) < 4294967296 then
        .ok (sizeFor (({ limits } : Tree).actionsBy id ops))
      else
        .error
          (.sizeMismatch 4294967295 (bytesWritten (({ limits } : Tree).actionsBy id ops))) := by
  have holds := holds_run limits ops live
  obtain ⟨written, measured⟩ := codeSize_run live given
  generalize ({ limits } : Tree).actionsBy id ops = done at *
  rw [Scope.writtenSize, given]
  by_cases small : bytesWritten done < 4294967296
  · have agree : output.code.size = output.codeSize := by omega
    have handlers : s.handlers.writtenSize = 2 + 13 * handlersRecorded done := by
      rw [Handlers.writtenSize, holds.handlers, Nat.mul_comm]
      rfl
    have names : Symbols.namesSize s.symbols.names = _ := holds.namesSize
    rw [if_pos small]
    dsimp only
    rw [if_pos agree, Record.size, handlers, written, holds.literalsSize, names]
    rfl
  · have cut : output.codeSize = 4294967295 := by omega
    have differ : output.code.size ≠ output.codeSize := by omega
    rw [if_neg small]
    dsimp only
    rw [if_neg differ, cut, written]

end

structure Storing (s : Scope) (done : List Scope.Op) : Prop where
  holds : s.Holds done
  building : s.phase = .building
  resolved : s.labels.unresolved = 0
  frames : s.frames = {}
  children : s.children = #[]

section

variable {t : Tree} {id : ScopeId} {s : Scope} {done : List Scope.Op}

theorem Storing.step (storing : Storing s done) {op : Scope.Op} (stores : op.stores = true)
    (room : done.length < 65536) :
    ∃ answer, (s.step op).answer = .ok answer ∧ Storing (s.step op).after (done ++ [op]) := by
  have symbols : s.symbols.size < Symbols.capacity :=
    Nat.lt_of_le_of_lt storing.holds.symbols_le room
  have literals : s.literals.size < Literals.capacity :=
    Nat.lt_of_le_of_lt storing.holds.literals_le room
  obtain ⟨symbols', literals', code', answer, reply⟩ :=
    Scope.step_storing storing.building stores symbols literals
  have accepted : (s.step op).answer = .ok answer := by
    rw [reply]
    rfl
  have holds := storing.holds.act op
  rw [Scope.takes_of_ok accepted] at holds
  refine ⟨answer, accepted, ⟨holds, ?_, ?_, ?_, ?_⟩⟩
  · rw [reply]
    exact storing.building
  · rw [reply]
    exact storing.resolved
  · rw [reply]
    exact storing.frames
  · rw [reply]
    exact storing.children

theorem Storing.run (live : t.scope? id = some s) (storing : Storing s done)
    (actions : List Scope.Op) (stores : ∀ op ∈ actions, op.stores = true)
    (room : done.length + actions.length ≤ 65536) :
    t.actionsBy id (actions.map (.scope id)) = actions ∧
      ∃ s', (t.run (actions.map (.scope id))).scope? id = some s' ∧
        Storing s' (done ++ actions) := by
  induction actions generalizing t s done with
  | nil =>
      rw [List.append_nil]
      exact ⟨rfl, s, live, storing⟩
  | cons op actions ih =>
      rw [List.length_cons] at room
      obtain ⟨first, later⟩ := List.forall_mem_cons.mp stores
      obtain ⟨answer, accepted, stored⟩ := storing.step first (by omega)
      have next : (t.step (.scope id op)).after.scope? id = some (s.step op).after := by
        rw [scope?_step_self, live]
        rfl
      have left : (done ++ [op]).length + actions.length ≤ 65536 := by
        rw [List.length_append, List.length_singleton]
        omega
      obtain ⟨taken, s', live', storing'⟩ := ih next stored later left
      rw [List.append_assoc, List.singleton_append] at storing'
      refine ⟨?_, s', live', storing'⟩
      rw [List.map_cons, actionsBy, acceptedBy_cons, acceptedOn?_self live,
        Scope.accepted?_of_ok accepted, Option.toList_some, List.singleton_append, List.map_cons]
      exact congrArg (op :: ·) taken

theorem Storing.checkFinish (storing : Storing s done) (few : done.length ≤ 65535) :
    s.checkFinish = .ok () := by
  have loops : s.frames.loops = [] := by rw [storing.frames]
  have retries : s.frames.retries = [] := by rw [storing.frames]
  have symbols := storing.holds.symbols_le
  have literals := storing.holds.literals_le
  rw [Scope.checkFinish_of_closed storing.resolved loops retries, if_neg (by omega),
    if_neg (by omega)]

end

def storedBy (actions : List Scope.Op) : List Op :=
  .create none true :: (actions.map (.scope ⟨0⟩) ++ [.finish ⟨0⟩])

theorem finished_storedBy (actions : List Scope.Op) (stores : ∀ op ∈ actions, op.stores = true)
    (few : actions.length ≤ 65535) :
    ({} : Tree).actionsBy ⟨0⟩ (storedBy actions) = actions ∧
      ∃ s output, (({} : Tree).run (storedBy actions)).scope? ⟨0⟩ = some s ∧
        s.output? = some output := by
  let created : Tree := (({} : Tree).step (.create none true)).after
  have empty : Storing (.fresh ⟨0⟩ none true .method {}) [] :=
    ⟨Scope.holds_fresh .., rfl, rfl, rfl, rfl⟩
  have born : created.scope? ⟨0⟩ = some (.fresh ⟨0⟩ none true .method {}) := rfl
  have room : ([] : List Scope.Op).length + actions.length ≤ 65536 := by
    rw [List.length_nil]
    omega
  obtain ⟨taken, s, live, storing⟩ := empty.run born actions stores room
  let stored : Tree := created.run (actions.map (.scope ⟨0⟩))
  have links : stored.WellFormed :=
    (wellFormed_empty {}).run (.create none true :: actions.map (.scope ⟨0⟩))
  have children : stored.ChildrenFinished s := by
    rw [ChildrenFinished, storing.children]
    simp
  have accepted : (stored.finish ⟨0⟩).answer = .ok () := by
    rw [answer_finish links live storing.building children]
    exact storing.checkFinish few
  obtain ⟨found, -, -, -, -, after⟩ := finish_ok accepted
  have reached := after ⟨0⟩
  rw [if_pos rfl] at reached
  constructor
  · have create : ∀ action, Op.create none true ≠ .scope ⟨0⟩ action := by simp
    have finish : ∀ action, Op.finish ⟨0⟩ ≠ .scope ⟨0⟩ action := by simp
    have quiet : stored.acceptedBy ⟨0⟩ [.finish ⟨0⟩] = [] := by
      rw [acceptedBy_cons, acceptedOn?_of_apart finish]
      rfl
    calc ({} : Tree).actionsBy ⟨0⟩ (storedBy actions)
        = (created.acceptedBy ⟨0⟩ (actions.map (.scope ⟨0⟩) ++ [.finish ⟨0⟩])).map Prod.fst := by
          rw [storedBy, actionsBy, acceptedBy_cons, acceptedOn?_of_apart create]
          rfl
      _ = created.actionsBy ⟨0⟩ (actions.map (.scope ⟨0⟩)) := by
          rw [acceptedBy_append, quiet, List.append_nil]
          rfl
      _ = actions := taken
  · refine ⟨found.sealed, found.outputWith found.children.size, ?_, rfl⟩
    have last : ({} : Tree).run (storedBy actions) = (stored.finish ⟨0⟩).after :=
      runBy_concat step created _ _
    rw [last]
    exact reached

/-- The record of a finished scope takes what the bytes it wrote, the handlers it recorded and the
different literals and names it was successfully asked for add up to; there is none if 32 bits
cannot tell how much code there is. So two scopes finished after any two runs have records of one
size if these four are the same, in whatever order and however often they were asked for. -/
theorem record_size_by_contents {limits limits' : Limits} {ops ops' : List Op} {id id' : ScopeId}
    {s s' : Scope} {output output' : Output}
    (live : (({ limits } : Tree).run ops).scope? id = some s) (given : s.output? = some output)
    (live' : (({ limits := limits' } : Tree).run ops').scope? id' = some s')
    (given' : s'.output? = some output') :
    let done := ({ limits } : Tree).actionsBy id ops
    let done' := ({ limits := limits' } : Tree).actionsBy id' ops'
    s.writtenSize =
      (if bytesWritten done < 4294967296 then
        .ok (14 + (2 + 13 * handlersRecorded done) + output.codeSize +
          (2 + Sizes.total ((literalsAsked done).dedup.map
            fun r => r.kind.entrySize r.text.utf8ByteSize)) +
          (2 + Sizes.total ((namesAsked done).dedup.map fun name => name.utf8ByteSize + 3)))
      else .error (.sizeMismatch output.codeSize (bytesWritten done))) ∧
    output.codeSize = min (bytesWritten done) 4294967295 ∧
    (bytesWritten done = bytesWritten done' →
      handlersRecorded done = handlersRecorded done' →
      (∀ r, r ∈ literalsAsked done ↔ r ∈ literalsAsked done') →
      (∀ name, name ∈ namesAsked done ↔ name ∈ namesAsked done') →
      s.writtenSize = s'.writtenSize) := by
  intro done done'
  have measured : output.codeSize = min (bytesWritten done) 4294967295 :=
    (codeSize_run live given).2
  have size : s.writtenSize =
      if bytesWritten done < 4294967296 then .ok (sizeFor done)
      else .error (.sizeMismatch 4294967295 (bytesWritten done)) := writtenSize_run live given
  refine ⟨?_, measured, ?_⟩
  · rw [size]
    by_cases small : bytesWritten done < 4294967296
    · have whole : output.codeSize = bytesWritten done := by omega
      rw [if_pos small, if_pos small, whole]
      rfl
    · have cut : output.codeSize = 4294967295 := by omega
      rw [if_neg small, if_neg small, cut]
  · intro bytes handlers literals names
    rw [size, sizeFor_congr bytes handlers literals names, bytes]
    exact (writtenSize_run live' given').symm

def plainly : List Scope.Op :=
  [.emit 1, .emit 2, .addLiteral .string "s", .addSymbol "y", .addSetter "x"]

def repeatedly : List Scope.Op :=
  [.addSymbol "x=", .emit 8, .addSetter "x", .addSymbol "y", .addLiteral .string "s", .emit 9,
    .addSymbol "y", .addLiteral .string "s"]

/-- The same in another order and with repetitions, and a setter's selector as a name first. -/
theorem record_size_by_contents_reordered :
    ∃ s s' : Scope, (({} : Tree).run (storedBy plainly)).scope? ⟨0⟩ = some s ∧
      (({} : Tree).run (storedBy repeatedly)).scope? ⟨0⟩ = some s' ∧
      s.writtenSize = .ok 36 ∧ s.writtenSize = s'.writtenSize := by
  obtain ⟨done, s, output, live, given⟩ :=
    finished_storedBy plainly (by decide) (by decide)
  obtain ⟨done', s', output', live', given'⟩ :=
    finished_storedBy repeatedly (by decide) (by decide)
  obtain ⟨size, code, same⟩ := record_size_by_contents live given live' given'
  rw [done] at size code same
  rw [done'] at same
  refine ⟨s, s', live, live', ?_, ?_⟩
  · rw [size, code]
    decide
  · have literals : literalsAsked plainly = [⟨.string, "s"⟩] := by decide
    have literals' : literalsAsked repeatedly = [⟨.string, "s"⟩, ⟨.string, "s"⟩] := by decide
    have names : namesAsked plainly = ["y", "x="] := by decide
    have names' : namesAsked repeatedly = ["x=", "x=", "y", "y"] := by decide
    apply same (by decide) (by decide)
    · simp [literals, literals']
    · simp [names, names', or_comm]

end Tree

end BytecodeScopes
