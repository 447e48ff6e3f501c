import BytecodeScopes.Proofs.Scope.Registers
import BytecodeScopes.Proofs.Tree.Origin

/-!
Lookup is lexical. From a scope one sees out through blocks, up to the first scope that is a top one
or stands alone; the nearest of these scopes that declares a name decides what the name means, and
no other scope matters.
-/

namespace BytecodeScopes.Tree

/-- The scope seen next from a scope: its parent, unless it is a top scope. -/
def outer? (t : Tree) (id : ScopeId) : Option ScopeId :=
  (t.scope? id).bind fun s => if s.top then none else s.parent

/-- The scopes seen from a scope in order, with the scope itself as number zero. -/
def enclosing (t : Tree) (id : ScopeId) : Nat → Option ScopeId
  | 0 => some id
  | k + 1 => (t.enclosing id k).bind t.outer?

def Declares (t : Tree) (id : ScopeId) (name : String) (l : Local) : Prop :=
  ∃ s, t.scope? id = some s ∧ l ∈ s.locals ∧ l.name = name

/-- The search without a bound on its rounds: the scopes it looks into, and the local it finds. -/
inductive Searches (t : Tree) (name : String) : ScopeId → List ScopeId → Option Local → Prop where
  | found {id : ScopeId} {s : Scope} {l : Local} (live : t.scope? id = some s)
      (declared : s.local? name = some l) : Searches t name id [id] (some l)
  | stopped {id : ScopeId} {s : Scope} (live : t.scope? id = some s)
      (undeclared : s.local? name = none) (last : t.outer? id = none) :
      Searches t name id [id] none
  | outward {id p : ScopeId} {s : Scope} {seen : List ScopeId} {result : Option Local}
      (live : t.scope? id = some s) (undeclared : s.local? name = none)
      (next : t.outer? id = some p) (rest : Searches t name p seen result) :
      Searches t name id (id :: seen) result

section

variable {t : Tree} {name : String} {id : ScopeId} {s : Scope}

theorem outer?_of_scope? (live : t.scope? id = some s) :
    t.outer? id = if s.top then none else s.parent := by
  rw [outer?, live, Option.bind_some]

theorem outer?_eq_some_iff {p : ScopeId} :
    t.outer? id = some p ↔ ∃ s, t.scope? id = some s ∧ s.top = false ∧ s.parent = some p := by
  rw [outer?, Option.bind_eq_some_iff]
  simp

theorem enclosing_succ (t : Tree) (id : ScopeId) (k : Nat) :
    t.enclosing id (k + 1) = (t.outer? id).bind (t.enclosing · k) := by
  induction k with
  | zero => cases next : t.outer? id <;> simp [enclosing, next]
  | succ k ih =>
      rw [enclosing, ih, Option.bind_assoc]
      rfl

theorem WellFormed.outer?_lt (links : t.WellFormed) {p : ScopeId} (next : t.outer? id = some p) :
    p.index < id.index ∧ ∃ above, t.scope? p = some above := by
  obtain ⟨s, live, -, parent⟩ := outer?_eq_some_iff.mp next
  obtain ⟨above, found, less, -⟩ := (links id s live).parent p parent
  exact ⟨less, above, found⟩

theorem local?_eq_none_iff :
    s.local? name = none ↔ ∀ l ∈ s.locals, l.name ≠ name := by
  simp [Scope.local?]

theorem declares_of_local? {l : Local} (live : t.scope? id = some s)
    (declared : s.local? name = some l) : t.Declares id name l := by
  refine ⟨s, live, Array.mem_of_find?_eq_some declared, ?_⟩
  simpa using Array.find?_some declared

def located (hops : Nat) : Option Local → Except Fault (Option Location)
  | none => .ok none
  | some l => if hops ≤ hopsMax then .ok (some ⟨hops, l.register⟩) else .error .nestingTooDeep

theorem located_none {hops : Nat} {result : Option Local}
    (missing : located hops result = .ok none) : result = none := by
  cases result with
  | none => rfl
  | some l =>
      rw [located] at missing
      split at missing <;> cases missing

theorem located_some {hops : Nat} {result : Option Local} {place : Location}
    (found : located hops result = .ok (some place)) : place.hops = hops := by
  cases result with
  | none => cases found
  | some l =>
      rw [located] at found
      split at found
      · cases found
        rfl
      · cases found

theorem located_error {hops : Nat} {result : Option Local} {fault : Fault}
    (failed : located hops result = .error fault) : fault = .nestingTooDeep ∧ 255 < hops := by
  cases result with
  | none => cases failed
  | some l =>
      rw [located] at failed
      split at failed
      · cases failed
      · rename_i far
        cases failed
        exact ⟨rfl, Nat.lt_of_not_le far⟩

theorem lookupFrom_of_found {l : Local} (live : t.scope? id = some s)
    (declared : s.local? name = some l) (rounds hops : Nat) :
    t.lookupFrom name (rounds + 1) id hops = located hops (some l) := by
  rw [lookupFrom, live]
  dsimp only
  rw [declared]
  rfl

theorem lookupFrom_of_stopped (live : t.scope? id = some s) (undeclared : s.local? name = none)
    (last : t.outer? id = none) (rounds hops : Nat) :
    t.lookupFrom name (rounds + 1) id hops = .ok none := by
  rw [outer?_of_scope? live] at last
  rw [lookupFrom, live]
  dsimp only
  rw [undeclared]
  dsimp only
  split
  · rfl
  · rename_i block
    rw [if_neg block] at last
    rw [last]

theorem lookupFrom_of_outward {p : ScopeId} (live : t.scope? id = some s)
    (undeclared : s.local? name = none) (next : t.outer? id = some p) (rounds hops : Nat) :
    t.lookupFrom name (rounds + 1) id hops = t.lookupFrom name rounds p (hops + 1) := by
  rw [outer?_of_scope? live] at next
  rw [lookupFrom, live]
  dsimp only
  rw [undeclared]
  dsimp only
  split
  · rename_i top
    rw [if_pos top] at next
    cases next
  · rename_i block
    rw [if_neg block] at next
    rw [next]

namespace Searches

variable {seen : List ScopeId} {result : Option Local}

theorem length_pos (search : t.Searches name id seen result) : 0 < seen.length := by
  cases search <;> exact Nat.succ_pos _

/-- Enough rounds make the bounded search answer like the unbounded one. -/
theorem lookupFrom_eq (search : t.Searches name id seen result) {rounds : Nat} (hops : Nat)
    (enough : seen.length ≤ rounds) :
    t.lookupFrom name rounds id hops = located (hops + (seen.length - 1)) result := by
  induction search generalizing rounds hops with
  | found live declared =>
      obtain ⟨rounds, rfl⟩ := Nat.exists_eq_add_of_le' enough
      exact lookupFrom_of_found live declared rounds hops
  | stopped live undeclared last =>
      obtain ⟨rounds, rfl⟩ := Nat.exists_eq_add_of_le' enough
      exact lookupFrom_of_stopped live undeclared last rounds hops
  | @outward id p s seen result live undeclared next rest ih =>
      cases rounds with
      | zero => simp at enough
      | succ rounds =>
          have shorter : seen.length ≤ rounds := Nat.le_of_succ_le_succ enough
          have hopsUp : hops + 1 + (seen.length - 1) = hops + ((id :: seen).length - 1) := by
            have := rest.length_pos
            rw [List.length_cons]
            omega
          rw [lookupFrom_of_outward live undeclared next, ih (hops + 1) shorter, hopsUp]

theorem enclosing_of_mem (search : t.Searches name id seen result) {j : ScopeId}
    (visited : j ∈ seen) : ∃ k, t.enclosing id k = some j := by
  induction search with
  | found | stopped => exact ⟨0, congrArg some (List.mem_singleton.mp visited).symm⟩
  | outward live undeclared next rest ih =>
      rcases List.mem_cons.mp visited with rfl | later
      · exact ⟨0, rfl⟩
      · obtain ⟨k, reached⟩ := ih later
        refine ⟨k + 1, ?_⟩
        rw [enclosing_succ, next]
        exact reached

theorem congr {t' : Tree} (search : t.Searches name id seen result)
    (same : ∀ j ∈ seen, t'.scope? j = t.scope? j) : t'.Searches name id seen result := by
  induction search with
  | found live declared =>
      exact .found ((same _ List.mem_cons_self).trans live) declared
  | stopped live undeclared last =>
      have here := same _ List.mem_cons_self
      refine .stopped (here.trans live) undeclared ?_
      rw [outer?, here]
      exact last
  | outward live undeclared next rest ih =>
      have here := same _ List.mem_cons_self
      refine .outward (here.trans live) undeclared ?_
        (ih fun j visited => same j (List.mem_cons_of_mem _ visited))
      rw [outer?, here]
      exact next

theorem none_of_undeclared (search : t.Searches name id seen result)
    (undeclared : ∀ k j l, t.enclosing id k = some j → ¬ t.Declares j name l) :
    result = none := by
  induction search with
  | found live declared => exact absurd (declares_of_local? live declared) (undeclared 0 _ _ rfl)
  | stopped => rfl
  | outward live _ next rest ih =>
      apply ih
      intro k j l reached
      apply undeclared (k + 1)
      rw [enclosing_succ, next]
      exact reached

end Searches

namespace WellFormed

/-- Numbers fall on the way out, so a search ends before the rounds do. -/
theorem searches_exists (links : t.WellFormed) (name : String) (live : t.scope? id = some s) :
    ∃ seen result, t.Searches name id seen result ∧ seen.length ≤ id.index + 1 := by
  induction number : id.index using Nat.strongRecOn generalizing id s with
  | ind n ih =>
      subst number
      cases declared : s.local? name with
      | some l => exact ⟨[id], some l, .found live declared, Nat.le_add_left 1 _⟩
      | none =>
          cases next : t.outer? id with
          | none => exact ⟨[id], none, .stopped live declared next, Nat.le_add_left 1 _⟩
          | some p =>
              obtain ⟨less, above, found⟩ := links.outer?_lt next
              obtain ⟨seen, result, rest, short⟩ := ih p.index less found rfl
              refine ⟨id :: seen, result, .outward live declared next rest, ?_⟩
              rw [List.length_cons]
              omega

theorem enclosing_ends (links : t.WellFormed) (id : ScopeId) :
    ∃ m last, t.enclosing id m = some last ∧ t.outer? last = none := by
  induction number : id.index using Nat.strongRecOn generalizing id with
  | ind n ih =>
      subst number
      cases next : t.outer? id with
      | none => exact ⟨0, id, rfl, next⟩
      | some p =>
          obtain ⟨m, last, reached, ends⟩ := ih p.index (links.outer?_lt next).1 p rfl
          refine ⟨m + 1, last, ?_, ends⟩
          rw [enclosing_succ, next]
          exact reached

theorem lookup_eq (links : t.WellFormed) {seen : List ScopeId} {result : Option Local}
    (live : t.scope? id = some s) (search : t.Searches name id seen result) :
    t.lookup id name = located (seen.length - 1) result := by
  obtain ⟨visited, found, walk, short⟩ := links.searches_exists name live
  have bounded := walk.lookupFrom_eq 0 short
  -- The search given may be longer than the one known to fit: both fit into the longer of them.
  have longer := walk.lookupFrom_eq 0 (Nat.le_max_left visited.length seen.length)
  have other := search.lookupFrom_eq 0 (Nat.le_max_right visited.length seen.length)
  rw [Nat.zero_add] at other
  exact bounded.trans (longer.symm.trans other)

end WellFormed

end

theorem Reachable.accounted {t : Tree} (reachable : t.Reachable) {id : ScopeId} {s : Scope}
    (live : t.scope? id = some s) : s.registerFile.Accounted s.limits.registers := by
  have both : s.limits.Sound ∧ s.registerFile.Accounted s.limits.registers := by
    apply reachable.every_scope
      (P := fun s => s.limits.Sound ∧ s.registerFile.Accounted s.limits.registers) _ _ _ live
    · intro id parent top nesting limits sound
      exact ⟨sound, Scope.accounted_fresh id parent top nesting limits⟩
    · rintro s m ⟨sound, accounted⟩
      have limits : (s.move m).after.limits = s.limits :=
        congrArg Scope.Site.limits (s.site_move m)
      rw [limits]
      exact ⟨sound, accounted.change (Scope.registers_move sound.registers_le m)⟩
    · intro s children holds
      exact holds
  exact both.2

theorem Reachable.local?_of_declares {t : Tree} (reachable : t.Reachable) {id : ScopeId}
    {name : String} {l : Local} (declared : t.Declares id name l) :
    ∃ s, t.scope? id = some s ∧ s.local? name = some l := by
  obtain ⟨s, live, member, named⟩ := declared
  refine ⟨s, live, ?_⟩
  cases first : s.local? name with
  | none => exact absurd named (local?_eq_none_iff.mp first l member)
  | some k =>
      obtain ⟨same, found, other, called⟩ := declares_of_local? live first
      rw [live] at found
      cases found
      -- names are declared once
      have equal : k = l := List.inj_on_of_nodup_map (reachable.accounted live).distinct
        (Array.mem_toList_iff.mpr other) (Array.mem_toList_iff.mpr member)
        (called.trans named.symm)
      rw [equal]

theorem Reachable.declares_unique {t : Tree} (reachable : t.Reachable) {id : ScopeId}
    {name : String} {l l' : Local} (declared : t.Declares id name l)
    (again : t.Declares id name l') : l' = l := by
  obtain ⟨s, live, first⟩ := reachable.local?_of_declares declared
  obtain ⟨same, found, second⟩ := reachable.local?_of_declares again
  rw [live] at found
  cases found
  rw [first] at second
  exact (Option.some.inj second).symm

theorem Reachable.searches_of_first {t : Tree} (reachable : t.Reachable) {name : String}
    {l : Local} (k : Nat) {id j : ScopeId} (reached : t.enclosing id k = some j)
    (declared : t.Declares j name l)
    (before : ∀ i < k, ∀ j l, t.enclosing id i = some j → ¬ t.Declares j name l) :
    ∃ seen, t.Searches name id seen (some l) ∧ seen.length = k + 1 := by
  induction k generalizing id with
  | zero =>
      obtain ⟨s, live, only⟩ := reachable.local?_of_declares declared
      cases reached
      exact ⟨[j], .found live only, rfl⟩
  | succ k ih =>
      rw [enclosing_succ, Option.bind_eq_some_iff] at reached
      obtain ⟨p, next, rest⟩ := reached
      obtain ⟨s, live, -⟩ := outer?_eq_some_iff.mp next
      have undeclared : s.local? name = none := by
        cases first : s.local? name with
        | none => rfl
        | some l =>
            exact absurd (declares_of_local? live first) (before 0 (Nat.succ_pos k) id l rfl)
      obtain ⟨seen, search, length⟩ := ih rest fun i less j l further => by
        apply before (i + 1) (Nat.succ_lt_succ less)
        rw [enclosing_succ, next]
        exact further
      exact ⟨id :: seen, .outward live undeclared next search, congrArg (· + 1) length⟩

/-- The nearest scope in sight that declares a name gives its register and how many scopes up it is,
if that fits a byte; a name no scope in sight declares is not found; and only scopes in sight
matter. -/
theorem lookup_is_lexical {t : Tree} (reachable : t.Reachable) {id : ScopeId} {s : Scope}
    (live : t.scope? id = some s) (name : String) :
    (∃ m last, t.enclosing id m = some last ∧ t.outer? last = none) ∧
    (∃ seen result, t.Searches name id seen result ∧ seen.length ≤ id.index + 1 ∧
      ∀ j ∈ seen, ∃ k, t.enclosing id k = some j) ∧
    (∀ k j l, t.enclosing id k = some j → t.Declares j name l →
      (∀ i < k, ∀ j l, t.enclosing id i = some j → ¬ t.Declares j name l) →
      (∀ l', t.Declares j name l' → l' = l) ∧
      t.lookup id name =
        if k ≤ 255 then .ok (some ⟨k, l.register⟩) else .error .nestingTooDeep) ∧
    ((∀ k j l, t.enclosing id k = some j → ¬ t.Declares j name l) →
      t.lookup id name = .ok none) ∧
    (∀ fault, t.lookup id name = .error fault → fault = .nestingTooDeep) ∧
    ∀ t' : Tree, (∀ k j, t.enclosing id k = some j → t'.scope? j = t.scope? j) →
      t'.lookup id name = t.lookup id name := by
  have links := reachable.wellFormed
  obtain ⟨seen, result, search, short⟩ := links.searches_exists name live
  have answer := links.lookup_eq live search
  refine ⟨links.enclosing_ends id,
    ⟨seen, result, search, short, fun j visited => search.enclosing_of_mem visited⟩,
    ?_, ?_, ?_, ?_⟩
  · intro k j l reached declared before
    refine ⟨fun l' again => reachable.declares_unique declared again, ?_⟩
    obtain ⟨walk, found, length⟩ := reachable.searches_of_first k reached declared before
    rw [links.lookup_eq live found, length]
    rfl
  · intro undeclared
    rw [answer, search.none_of_undeclared undeclared]
    rfl
  · intro fault failed
    exact (located_error (answer.symm.trans failed)).1
  · intro t' same
    have alike : t'.Searches name id seen result := search.congr fun j visited => by
      obtain ⟨k, reached⟩ := search.enclosing_of_mem visited
      exact same k j reached
    have other := alike.lookupFrom_eq 0 short
    rw [Nat.zero_add] at other
    exact other.trans answer.symm

/-- A block in a block in a method; the outer block declares a local that the method has too. -/
def shadowed : Tree :=
  ({} : Tree).run [.create none true, .scope ⟨0⟩ (.declare "x" .next), .create (some ⟨0⟩) false,
    .create (some ⟨1⟩) false, .scope ⟨1⟩ (.declare "x" (.fixed 7)), .scope ⟨1⟩ (.emit 1)]

theorem lookup_is_lexical_shadowed :
    shadowed.Reachable ∧ shadowed.enclosing ⟨2⟩ 2 = some ⟨0⟩ ∧
      shadowed.Declares ⟨0⟩ "x" ⟨"x", 0⟩ ∧ shadowed.Declares ⟨1⟩ "x" ⟨"x", 7⟩ ∧
      shadowed.lookup ⟨2⟩ "x" = .ok (some ⟨1, 7⟩) := by
  have sound : ({} : Limits).Sound := (Limits.validate_eq_ok_iff {}).mp (by decide)
  have reachable : shadowed.Reachable := ⟨{}, sound, _, rfl⟩
  have declares : ∀ id l, (shadowed.scope? id).map (·.locals.toList) = some [l] →
      shadowed.Declares id l.name l := by
    intro id l listed
    obtain ⟨s, live, only⟩ := Option.map_eq_some_iff.mp listed
    exact ⟨s, live, Array.mem_toList_iff.mp (only ▸ List.mem_singleton_self l), rfl⟩
  have outside : shadowed.Declares ⟨0⟩ "x" ⟨"x", 0⟩ := declares ⟨0⟩ _ (by decide +kernel)
  have between : shadowed.Declares ⟨1⟩ "x" ⟨"x", 7⟩ := declares ⟨1⟩ _ (by decide +kernel)
  have inside : (shadowed.scope? ⟨2⟩).map (·.locals.toList) = some [] := by decide +kernel
  obtain ⟨s, live, empty⟩ := Option.map_eq_some_iff.mp inside
  obtain ⟨-, -, nearest, -⟩ := lookup_is_lexical reachable live "x"
  obtain ⟨-, answer⟩ := nearest 1 ⟨1⟩ ⟨"x", 7⟩ (by decide +kernel) between (by
    rintro i less j l reached ⟨here, found, member, -⟩
    obtain rfl : i = 0 := by omega
    cases reached
    rw [live] at found
    cases found
    rw [← Array.mem_toList_iff, empty] at member
    cases member)
  exact ⟨reachable, by decide +kernel, outside, between, answer⟩

end BytecodeScopes.Tree
