import BytecodeScopes.Proofs.Scope.Tables
import BytecodeScopes.Proofs.Tree.Finishing
import BytecodeScopes.Proofs.Tree.Interleaving
import Mathlib.Data.List.Nodup
import Std.Data.String.ToNat

/-!
Two bounds on the same tables. An index of 16 bits lets a table of symbols or literals grow to 65536
entries, a count of 16 bits in the record header lets it have 65535. A scope whose table is full can
therefore be built but not finished; no other accepted request keeps a scope from being finished.
-/

namespace BytecodeScopes

namespace Scope

theorem checkFinish_of_closed {s : Scope} (resolved : s.labels.unresolved = 0)
    (loops : s.frames.loops = []) (retries : s.frames.retries = []) :
    s.checkFinish =
      if 65535 < s.symbols.size then .error (.tableFull .symbols)
      else if 65535 < s.literals.size then .error (.tableFull .literals)
      else .ok () := by
  have frames : s.frames.checkClosed = .ok () := by simp [Frames.checkClosed, loops, retries]
  have own : s.checkFinish =
      (checkCount .symbols s.symbols.size >>= fun _ => checkCount .literals s.literals.size) := by
    simp [checkFinish, resolved, frames, bind, Except.bind]
  rw [own, checkCount, checkCount]
  by_cases symbols : s.symbols.size ≤ 65535
  · rw [if_pos symbols, if_neg (Nat.not_lt.mpr symbols)]
    by_cases literals : s.literals.size ≤ 65535
    · rw [if_neg (Nat.not_lt.mpr literals)]
      exact if_pos literals
    · rw [if_pos (Nat.lt_of_not_le literals)]
      exact if_neg literals
  · rw [if_neg symbols, if_pos (Nat.lt_of_not_le symbols)]
    rfl

theorem run_addSymbols {s : Scope} (building : s.phase = .building) (names : List String)
    (distinct : (s.symbols.names ++ names).Nodup)
    (room : (s.symbols.names ++ names).length ≤ Symbols.capacity) :
    ∃ symbols, s.run (names.map .addSymbol) = { s with symbols } ∧
      symbols.names = s.symbols.names ++ names := by
  induction names generalizing s with
  | nil => exact ⟨s.symbols, rfl, (List.append_nil _).symm⟩
  | cons name names ih =>
      have fresh : name ∉ s.symbols.names := by
        intro known
        obtain ⟨-, -, apart⟩ := List.nodup_append.mp distinct
        exact apart name known name List.mem_cons_self rfl
      have space : s.symbols.size < Symbols.capacity := by
        rw [s.symbols.size_eq]
        simp only [List.length_append, List.length_cons] at room
        omega
      have checked : s.symbols.checkAdd name = .ok () :=
        (s.symbols.checkAdd_eq_ok_iff name).mpr (.inr space)
      let next : Scope := { s with symbols := (s.symbols.intern name .source).2 }
      have after : (s.step (.addSymbol name)).after = next := by
        rw [step, Reply.after_map, addSymbol, attempt_of_ok building checked]
        rfl
      have added : next.symbols.names = s.symbols.names ++ [name] := by
        rw [Symbols.names_intern, if_neg fresh]
      have split : next.symbols.names ++ names = s.symbols.names ++ name :: names := by
        rw [added, List.append_assoc, List.singleton_append]
      obtain ⟨symbols, reached, listed⟩ :=
        ih (s := next) building (split ▸ distinct) (split ▸ room)
      refine ⟨symbols, ?_, listed.trans split⟩
      change (s.step (.addSymbol name)).after.run (names.map .addSymbol) = _
      rw [after, reached]

end Scope

namespace Tree

theorem Reachable.tablesFit {t : Tree} (reachable : t.Reachable) {id : ScopeId} {s : Scope}
    (live : t.scope? id = some s) : s.TablesFit :=
  reachable.every_scope (P := Scope.TablesFit)
    (fun id parent top nesting limits _ => Scope.tablesFit_fresh id parent top nesting limits)
    (fun _ m fit => fit.move m) (fun _ _ fit => ⟨fit.symbols, fit.literals⟩) live

/-- A scope with finished children and nothing left open can be finished, unless a table of it holds
the one entry more that an index allows and a count does not. -/
theorem finish_rejects_only_full_tables {t : Tree} (reachable : t.Reachable) {id : ScopeId}
    {s : Scope} (live : t.scope? id = some s) (building : s.phase = .building)
    (children : t.ChildrenFinished s) (resolved : s.labels.unresolved = 0)
    (loops : s.frames.loops = []) (retries : s.frames.retries = []) :
    s.children.size ≤ 65535 ∧ s.symbols.size ≤ 65536 ∧ s.literals.size ≤ 65536 ∧
    (t.finish id).answer =
      if s.symbols.size = 65536 then .error (.tableFull .symbols)
      else if s.literals.size = 65536 then .error (.tableFull .literals)
      else .ok () := by
  have links := reachable.wellFormed
  have fit := reachable.tablesFit live
  have symbols : s.symbols.size ≤ 65536 := fit.symbols.bounded
  have literals : s.literals.size ≤ 65536 := fit.literals
  have full : 65535 < s.symbols.size ↔ s.symbols.size = 65536 := by omega
  have full' : 65535 < s.literals.size ↔ s.literals.size = 65536 := by omega
  refine ⟨(links id s live).bounded, symbols, literals, ?_⟩
  rw [answer_finish links live building children,
    Scope.checkFinish_of_closed resolved loops retries]
  simp only [full, full']

def started : Tree := ({} : Tree).run [.create none true, .create (some ⟨0⟩) false, .finish ⟨1⟩]

def startedMethod : Scope := { Scope.fresh ⟨0⟩ none true .method {} with children := #[⟨1⟩] }

def filled (names : List String) : Tree :=
  started.run (onScopes ((names.map Scope.Op.addSymbol).map fun action => (⟨0⟩, action)))

theorem filled_reachable (names : List String) : (filled names).Reachable := by
  have sound : ({} : Limits).Sound := (Limits.validate_eq_ok_iff {}).mp (by decide)
  exact ⟨{}, sound, _, (runBy_append step _ _ _).symm⟩

theorem ownActions_addressed (id : ScopeId) (actions : List Scope.Op) :
    ownActions id (actions.map fun action => (id, action)) = actions := by
  induction actions with
  | nil => rfl
  | cons action actions ih => rw [List.map_cons, ownActions_self, ih]

theorem ownActions_elsewhere {id j : ScopeId} (apart : id ≠ j) (actions : List Scope.Op) :
    ownActions j (actions.map fun action => (id, action)) = [] := by
  induction actions with
  | nil => rfl
  | cons action actions ih => rw [List.map_cons, ownActions_other j apart, ih]

theorem childrenFinished_filled (names : List String) (symbols : Symbols) :
    (filled names).ChildrenFinished { startedMethod with symbols } := by
  intro c member
  have only : c = ⟨1⟩ := by simpa [startedMethod] using member
  have block : (started.scope? ⟨1⟩).map (·.isFinished) = some true := by decide +kernel
  obtain ⟨child, found, finished⟩ := Option.map_eq_some_iff.mp block
  refine ⟨child, ?_, finished⟩
  rw [only, filled, scope?_run_onScopes, ownActions_elsewhere (by decide), found]
  rfl

theorem scope?_filled {names : List String} (distinct : names.Nodup)
    (room : names.length ≤ Symbols.capacity) :
    ∃ symbols, (filled names).scope? ⟨0⟩ = some { startedMethod with symbols } ∧
      symbols.names = names := by
  have live : started.scope? ⟨0⟩ = some startedMethod := rfl
  obtain ⟨symbols, reached, listed⟩ :=
    Scope.run_addSymbols (s := startedMethod) rfl names distinct room
  refine ⟨symbols, ?_, listed⟩
  rw [filled, scope?_run_onScopes, ownActions_addressed, live, Option.map_some, reached]

def numberedNames (n : Nat) : List String := (List.range n).map fun i => "s" ++ i.repr

theorem nodup_numberedNames (n : Nat) : (numberedNames n).Nodup := by
  refine List.Nodup.map ?_ List.nodup_range
  intro i j same
  exact Nat.repr_injective (by simpa using same)

theorem length_numberedNames (n : Nat) : (numberedNames n).length = n := by simp [numberedNames]

theorem scope?_numbered {n : Nat} (room : n ≤ 65536) :
    ∃ symbols, (filled (numberedNames n)).scope? ⟨0⟩ = some { startedMethod with symbols } ∧
      symbols.size = n := by
  have within : (numberedNames n).length ≤ Symbols.capacity := by
    rw [length_numberedNames]
    exact room
  obtain ⟨symbols, live, listed⟩ := scope?_filled (nodup_numberedNames n) within
  refine ⟨symbols, live, ?_⟩
  rw [symbols.size_eq, listed, length_numberedNames]

theorem finish_rejects_only_full_tables_brink :
    ((filled (numberedNames 65535)).finish ⟨0⟩).answer = .ok () ∧
      ((filled (numberedNames 65536)).finish ⟨0⟩).answer = .error (.tableFull .symbols) := by
  have decided : ∀ n, n ≤ 65536 → ((filled (numberedNames n)).finish ⟨0⟩).answer =
      if n = 65536 then .error (.tableFull .symbols) else .ok () := by
    intro n room
    obtain ⟨symbols, live, size⟩ := scope?_numbered room
    obtain ⟨-, -, -, answer⟩ := finish_rejects_only_full_tables (filled_reachable (numberedNames n))
      live rfl (childrenFinished_filled _ symbols) rfl rfl rfl
    rw [answer, size]
    rfl
  refine ⟨?_, ?_⟩
  · rw [decided 65535 (by decide)]
    rfl
  · rw [decided 65536 (by decide)]
    rfl

/-- Every request for a symbol was accepted, and the scope cannot be finished. -/
theorem full_table_cannot_finish :
    (filled (numberedNames 65536)).Reachable ∧
    ∃ s, (filled (numberedNames 65536)).scope? ⟨0⟩ = some s ∧ s.phase = .building ∧
      (filled (numberedNames 65536)).ChildrenFinished s ∧ s.labels.unresolved = 0 ∧
      s.frames.loops = [] ∧ s.frames.retries = [] ∧ s.symbols.size = 65536 ∧
      ((filled (numberedNames 65536)).finish ⟨0⟩).answer = .error (.tableFull .symbols) := by
  have reachable := filled_reachable (numberedNames 65536)
  obtain ⟨symbols, live, size⟩ := scope?_numbered (Nat.le_refl 65536)
  have children := childrenFinished_filled (numberedNames 65536) symbols
  refine ⟨reachable, _, live, rfl, children, rfl, rfl, rfl, size, ?_⟩
  rw [answer_finish reachable.wellFormed live rfl children, Scope.checkFinish_of_closed rfl rfl rfl,
    size]
  rfl

end Tree

end BytecodeScopes
