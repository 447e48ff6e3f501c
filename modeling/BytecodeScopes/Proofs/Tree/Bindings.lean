import BytecodeScopes.Proofs.Scope.Locals
import BytecodeScopes.Proofs.Tree.Accepted
import BytecodeScopes.Proofs.Tree.Lookup

namespace BytecodeScopes.Tree

/-- Of the scopes seen from a scope, the first that declares the name declares this local. -/
structure Nearest (t : Tree) (id : ScopeId) (name : String) (k : Nat) (l : Local) : Prop where
  declares : ∃ j, t.enclosing id k = some j ∧ t.Declares j name l
  first : ∀ i < k, ∀ j l, t.enclosing id i = some j → ¬ t.Declares j name l

section

variable {t : Tree} {id : ScopeId} {name : String} {s s' : Scope} {l : Local} {k : Nat}

theorem declares_iff (live : t.scope? id = some s) :
    t.Declares id name l ↔ l ∈ s.locals ∧ l.name = name := by
  simp [Declares, live]

theorem not_declares_of_local? (live : t.scope? id = some s) (undeclared : s.local? name = none) :
    ¬ t.Declares id name l := by
  rw [declares_iff live]
  intro declared
  exact local?_eq_none_iff.mp undeclared l declared.1 declared.2

theorem Nearest.outward {p : ScopeId} (nearest : t.Nearest p name k l)
    (next : t.outer? id = some p) (undeclared : ∀ l, ¬ t.Declares id name l) :
    t.Nearest id name (k + 1) l where
  declares := by
    obtain ⟨j, reached, declares⟩ := nearest.declares
    refine ⟨j, ?_, declares⟩
    rw [enclosing_succ, next]
    exact reached
  first := by
    intro i less j l reached
    cases i with
    | zero =>
        cases reached
        exact undeclared l
    | succ i =>
        rw [enclosing_succ, next] at reached
        exact nearest.first i (Nat.lt_of_succ_lt_succ less) j l reached

theorem Searches.nearest {seen : List ScopeId} {result : Option Local}
    (search : t.Searches name id seen result) (found : result = some l) :
    t.Nearest id name (seen.length - 1) l := by
  induction search with
  | stopped => cases found
  | @found id s k live declared =>
      cases found
      exact ⟨⟨id, rfl, declares_of_local? live declared⟩,
        fun i less => absurd less (Nat.not_lt_zero i)⟩
  | @outward id p s seen _ live undeclared next rest ih =>
      have length : (id :: seen).length - 1 = seen.length - 1 + 1 := by
        have positive := rest.length_pos
        rw [List.length_cons]
        omega
      rw [length]
      exact (ih found).outward next fun l => not_declares_of_local? live undeclared

theorem live_of_lookup {place : Location} (found : t.lookup id name = .ok (some place)) :
    ∃ s, t.scope? id = some s := by
  cases live : t.scope? id with
  | some s => exact ⟨s, rfl⟩
  | none =>
      rw [lookup, lookupFrom, live] at found
      cases found

theorem nearest_of_lookup (links : t.WellFormed) {place : Location}
    (found : t.lookup id name = .ok (some place)) :
    ∃ l, t.Nearest id name place.hops l ∧ place.register = l.register ∧ place.hops ≤ hopsMax := by
  obtain ⟨s, live⟩ := live_of_lookup found
  obtain ⟨seen, result, search, -⟩ := links.searches_exists name live
  rw [links.lookup_eq live search] at found
  cases result with
  | none => cases found
  | some l =>
      have nearest := search.nearest rfl
      rw [located] at found
      split at found
      · rename_i short
        cases found
        exact ⟨l, nearest, rfl, short⟩
      · cases found

theorem Reachable.lookup_of_nearest (reachable : t.Reachable) (live : t.scope? id = some s)
    (nearest : t.Nearest id name k l) (short : k ≤ hopsMax) :
    t.lookup id name = .ok (some ⟨k, l.register⟩) := by
  obtain ⟨j, reached, declares⟩ := nearest.declares
  obtain ⟨seen, search, length⟩ := reachable.searches_of_first k reached declares nearest.first
  rw [reachable.wellFormed.lookup_eq live search, length]
  exact if_pos short

theorem nearest_exists {j : ScopeId} (reached : t.enclosing id k = some j)
    (declares : t.Declares j name l) : ∃ i l, i ≤ k ∧ t.Nearest id name i l := by
  induction k using Nat.strongRecOn generalizing j l with
  | ind k ih =>
      by_cases earlier : ∃ i < k, ∃ j l, t.enclosing id i = some j ∧ t.Declares j name l
      · obtain ⟨i, less, j, l, reached, declares⟩ := earlier
        obtain ⟨first, l, le, nearest⟩ := ih i less reached declares
        exact ⟨first, l, Nat.le_trans le (Nat.le_of_lt less), nearest⟩
      · refine ⟨k, l, Nat.le_refl k, ⟨j, reached, declares⟩, ?_⟩
        intro i less j l reached declares
        exact earlier ⟨i, less, j, l, reached, declares⟩

theorem outer?_run (before : t.scope? id = some s) (ops : List Op)
    (live : (t.run ops).scope? id = some s') : (t.run ops).outer? id = t.outer? id := by
  let Placed (other : Scope) (_ : List (Scope.Op × Scope.Answer)) : Prop :=
    other.top = s.top ∧ other.parent = s.parent
  have lasting : Lasting Placed := by
    constructor
    · intro other m _ same
      have site := other.site_move m
      exact ⟨(congrArg Scope.Site.top site).trans same.1,
        (congrArg Scope.Site.parent site).trans same.2⟩
    · exact fun _ _ _ same => same
  have same := lasting.run before [] ⟨rfl, rfl⟩ ops live
  rw [outer?_of_scope? live, outer?_of_scope? before, same.1, same.2]

theorem enclosing_run (links : t.WellFormed) (before : t.scope? id = some s) (ops : List Op)
    (live : (t.run ops).scope? id = some s') (k : Nat) :
    (t.run ops).enclosing id k = t.enclosing id k ∧
      ∀ j, t.enclosing id k = some j →
        (∃ s, t.scope? j = some s) ∧ ∃ s', (t.run ops).scope? j = some s' := by
  induction k with
  | zero =>
      refine ⟨rfl, ?_⟩
      intro j reached
      cases reached
      exact ⟨⟨s, before⟩, ⟨s', live⟩⟩
  | succ k ih =>
      rw [enclosing, enclosing, ih.1]
      cases reached : t.enclosing id k with
      | none => simp
      | some j =>
          obtain ⟨⟨here, there⟩, ⟨later, still⟩⟩ := ih.2 j reached
          have same := outer?_run there ops still
          rw [Option.bind_some, Option.bind_some, same]
          refine ⟨rfl, ?_⟩
          intro p next
          exact ⟨(links.outer?_lt next).2, ((links.run ops).outer?_lt (same.trans next)).2⟩

theorem locals_run (before : t.scope? id = some s) (ops : List Op)
    (live : (t.run ops).scope? id = some s') :
    s'.locals.toList = s.locals.toList ++ (t.acceptedBy id ops).filterMap Scope.declared? := by
  let Bound (other : Scope) (done : List (Scope.Op × Scope.Answer)) : Prop :=
    other.locals.toList = s.locals.toList ++ done.filterMap Scope.declared?
  have lasting : Lasting Bound := by
    constructor
    · intro other m done bound
      change (other.move m).after.locals.toList = _
      rw [Scope.locals_move, bound, List.filterMap_append, List.append_assoc]
    · exact fun _ _ _ bound => bound
  exact lasting.run before [] (List.append_nil _).symm ops live

theorem mem_declared_iff {done : List (Scope.Op × Scope.Answer)} :
    l ∈ done.filterMap Scope.declared? ↔
      ∃ placement, (.declare l.name placement, .register l.register) ∈ done := by
  simp only [List.mem_filterMap, Scope.declared?_eq_some_iff]
  constructor
  · rintro ⟨entry, member, placement, rfl⟩
    exact ⟨placement, member⟩
  · rintro ⟨placement, member⟩
    exact ⟨_, member, placement, rfl⟩

/-- A scope declares what it declared before, and what it was asked to declare since and did. -/
theorem declares_run (before : t.scope? id = some s) (ops : List Op)
    (live : (t.run ops).scope? id = some s') :
    (t.run ops).Declares id name l ↔ t.Declares id name l ∨
      l.name = name ∧ ∃ placement,
        (.scope id (.declare name placement), .ok (.scope (.register l.register))) ∈
          t.answers ops := by
  rw [declares_iff live, declares_iff before, ← Array.mem_toList_iff, ← Array.mem_toList_iff,
    locals_run before ops live, List.mem_append, mem_declared_iff, or_and_right]
  refine or_congr Iff.rfl ?_
  simp only [mem_acceptedBy_iff]
  constructor
  · rintro ⟨⟨placement, member⟩, rfl⟩
    exact ⟨rfl, placement, member⟩
  · rintro ⟨rfl, placement, member⟩
    exact ⟨⟨placement, member⟩, rfl⟩

theorem answer_declare {placement : Scope.Placement} {answer : Answer}
    (accepted : (t.step (.scope id (.declare name placement))).answer = .ok answer) :
    ∃ register, answer = .scope (.register register) := by
  obtain ⟨given, answered, rfl⟩ := Reply.map_eq_ok_iff.mp accepted
  cases live : t.scope? id with
  | none =>
      rw [update_of_scope?_none _ live] at answered
      cases answered
  | some s =>
      rw [update_of_scope?_some _ live] at answered
      obtain ⟨register, -, rfl⟩ := Reply.map_eq_ok_iff.mp answered
      exact ⟨register, rfl⟩

theorem Reachable.run (reachable : t.Reachable) (ops : List Op) : (t.run ops).Reachable := by
  obtain ⟨limits, sound, earlier, rfl⟩ := reachable
  exact ⟨limits, sound, earlier ++ ops, (runBy_append step _ earlier ops).symm⟩

end

/-- A name found from a scope is found as long as the scope is there, in the same register of the
same scope unless a nearer scope in sight has declared it since; and the scopes in sight are the
same throughout. -/
theorem bindings_last {t : Tree} (reachable : t.Reachable) {id : ScopeId} {name : String}
    {place : Location} (found : t.lookup id name = .ok (some place)) (ops : List Op) {s' : Scope}
    (live : (t.run ops).scope? id = some s') :
    (∀ k, (t.run ops).enclosing id k = t.enclosing id k) ∧
    ∃ later, (t.run ops).lookup id name = .ok (some later) ∧ later.hops ≤ place.hops ∧
      (later.hops < place.hops ↔ ∃ k < place.hops, ∃ j placement answer,
        t.enclosing id k = some j ∧
          (.scope j (.declare name placement), .ok answer) ∈ t.answers ops) ∧
      (later.hops = place.hops → later.register = place.register) := by
  have links := reachable.wellFormed
  have afterwards := reachable.run ops
  obtain ⟨s, before⟩ := live_of_lookup found
  obtain ⟨l, nearest, register, short⟩ := nearest_of_lookup links found
  have sight := enclosing_run links before ops live
  have same : ∀ k, (t.run ops).enclosing id k = t.enclosing id k := fun k => (sight k).1
  -- the local that was found is still there, so the nearest one is no farther
  obtain ⟨j, reached, declares⟩ := nearest.declares
  obtain ⟨⟨_, there⟩, ⟨_, still⟩⟩ := (sight place.hops).2 j reached
  have kept : (t.run ops).Declares j name l := (declares_run there ops still).mpr (.inl declares)
  obtain ⟨hops, l', le, nearest'⟩ := nearest_exists ((same place.hops).trans reached) kept
  have answer := afterwards.lookup_of_nearest live nearest' (Nat.le_trans le short)
  obtain ⟨j', reached', declares'⟩ := nearest'.declares
  rw [same] at reached'
  refine ⟨same, ⟨hops, l'.register⟩, answer, le, ⟨?_, ?_⟩, ?_⟩
  · intro nearer
    obtain ⟨⟨_, there'⟩, ⟨_, still'⟩⟩ := (sight hops).2 j' reached'
    rcases (declares_run there' ops still').mp declares' with earlier | ⟨-, placement, accepted⟩
    · exact absurd earlier (nearest.first hops nearer j' l' reached')
    · exact ⟨hops, nearer, j', placement, _, reached', accepted⟩
  · rintro ⟨k, less, i, placement, given, inSight, accepted⟩
    obtain ⟨front, back, -, answered⟩ := mem_answersBy step accepted
    obtain ⟨bound, rfl⟩ := answer_declare answered.symm
    obtain ⟨⟨_, there'⟩, ⟨_, still'⟩⟩ := (sight k).2 i inSight
    have since : (t.run ops).Declares i name ⟨name, bound⟩ :=
      (declares_run there' ops still').mpr (.inr ⟨rfl, placement, accepted⟩)
    have reach : ¬ k < hops := fun below =>
      nearest'.first k below i ⟨name, bound⟩ ((same k).trans inSight) since
    change hops < place.hops
    omega
  · intro equal
    change hops = place.hops at equal
    rw [equal, reached] at reached'
    cases reached'
    rw [afterwards.declares_unique kept declares', register]

def boundOutside : Tree :=
  ({} : Tree).run [.create none true, .scope ⟨0⟩ (.declare "x" .next), .create (some ⟨0⟩) false,
    .create (some ⟨1⟩) false, .create (some ⟨0⟩) true]

/-- The other method declares the name and is freed, the first method fails, and the outer block
declares the name. -/
def shadowingOps : List Op :=
  [.scope ⟨3⟩ (.declare "x" .next), .scope ⟨2⟩ (.declare "y" .next), .finish ⟨2⟩, .free ⟨3⟩,
    .scope ⟨0⟩ (.popMany 9), .scope ⟨0⟩ (.declare "z" .next),
    .scope ⟨1⟩ (.declare "x" (.fixed 7)), .scope ⟨1⟩ (.declare "x" .next)]

theorem bindings_last_shadowed :
    boundOutside.Reachable ∧ boundOutside.lookup ⟨2⟩ "x" = .ok (some ⟨2, 0⟩) ∧
      (∃ s', (boundOutside.run shadowingOps).scope? ⟨2⟩ = some s') ∧
      (boundOutside.run shadowingOps).enclosing ⟨2⟩ 2 = some ⟨0⟩ ∧
      ∃ later, (boundOutside.run shadowingOps).lookup ⟨2⟩ "x" = .ok (some later) ∧
        later.hops < 2 := by
  have sound : ({} : Limits).Sound := (Limits.validate_eq_ok_iff {}).mp (by decide)
  have reachable : boundOutside.Reachable := ⟨{}, sound, _, rfl⟩
  have found : boundOutside.lookup ⟨2⟩ "x" = .ok (some ⟨2, 0⟩) := by decide +kernel
  have there : ((boundOutside.run shadowingOps).scope? ⟨2⟩).isSome = true := by decide +kernel
  obtain ⟨s', live⟩ := Option.isSome_iff_exists.mp there
  have seen : boundOutside.enclosing ⟨2⟩ 1 = some ⟨1⟩ := by decide +kernel
  have accepted : (.scope ⟨1⟩ (.declare "x" (.fixed 7)), .ok (.scope (.register 7))) ∈
      boundOutside.answers shadowingOps := by decide +kernel
  obtain ⟨same, later, answer, -, nearer, -⟩ :=
    bindings_last reachable found shadowingOps live
  exact ⟨reachable, found, ⟨s', live⟩, (same 2).trans (by decide +kernel), later, answer,
    nearer.mpr ⟨1, Nat.lt_succ_self 1, ⟨1⟩, .fixed 7, _, seen, accepted⟩⟩

end BytecodeScopes.Tree
