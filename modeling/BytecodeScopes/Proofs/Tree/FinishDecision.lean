import BytecodeScopes.Proofs.Label.Resolving
import BytecodeScopes.Proofs.Tree.Capacity
import BytecodeScopes.Proofs.Tree.Lookup

namespace BytecodeScopes

def firstFault (obstacles : List (Bool × Fault)) : Option Fault := (obstacles.find? (·.1)).map (·.2)

theorem firstFault_cons (stands : Bool) (fault : Fault) (obstacles : List (Bool × Fault)) :
    firstFault ((stands, fault) :: obstacles) =
      if stands then some fault else firstFault obstacles := by
  cases stands <;> rfl

theorem mem_of_firstFault {obstacles : List (Bool × Fault)} {fault : Fault}
    (first : firstFault obstacles = some fault) : (true, fault) ∈ obstacles := by
  obtain ⟨⟨stands, _⟩, found, rfl⟩ := Option.map_eq_some_iff.mp first
  have holds : stands = true := List.find?_some found
  exact holds ▸ List.mem_of_find?_eq_some found

def verdict : Option Fault → Except Fault Unit
  | none => .ok ()
  | some fault => .error fault

namespace Scope

/-- What may keep a scope from being finished, in the order it is looked for. -/
def obstacles (s : Scope) (id : ScopeId) : List (Bool × Fault) :=
  let untargeted := s.labels.jumps.countP (·.target.isNone)
  [(s.isFinished, .scopeFinished id),
    (s.phase = .failed, .scopeFailed id),
    (0 < untargeted, .unresolvedLabels untargeted),
    (0 < s.frames.loops.length, .unclosedFrames .loops s.frames.loops.length),
    (0 < s.frames.retries.length, .unclosedFrames .retries s.frames.retries.length),
    (65535 < s.symbols.size, .tableFull .symbols),
    (65535 < s.literals.size, .tableFull .literals)]

variable {s : Scope}

theorem checkFinish_eq (counted : s.labels.Counted) (building : s.phase = .building) :
    s.checkFinish = verdict (firstFault (s.obstacles s.id)) := by
  have unfinished : s.isFinished = false := by rw [isFinished, building]
  have unspoiled : s.phase ≠ .failed := by rw [building]; simp
  rw [Labels.Counted] at counted
  -- the obstacles are split in their order, so that each case has all before it out of the way
  simp only [obstacles, firstFault_cons, unfinished, unspoiled, ← counted]
  by_cases resolved : s.labels.unresolved = 0
  · by_cases loops : s.frames.loops = []
    · by_cases retries : s.frames.retries = []
      · rw [checkFinish_of_closed resolved loops retries]
        by_cases symbols : 65535 < s.symbols.size
        · simp [resolved, loops, retries, symbols, verdict]
        · by_cases literals : 65535 < s.literals.size
          · simp [resolved, loops, retries, symbols, literals, verdict]
          · simp [resolved, loops, retries, symbols, literals, verdict, firstFault]
      · have deep := List.length_pos_iff.mpr retries
        simp [checkFinish, Frames.checkClosed, resolved, loops, retries, deep, verdict, bind,
          Except.bind]
    · have deep := List.length_pos_iff.mpr loops
      simp [checkFinish, Frames.checkClosed, resolved, loops, deep, verdict, bind, Except.bind]
  · have some := Nat.pos_of_ne_zero resolved
    simp [checkFinish, resolved, some, verdict, bind, Except.bind, throw, throwThe,
      MonadExceptOf.throw]

theorem answer_finish_eq (counted : s.labels.Counted) (childCount : Nat) :
    (s.finish childCount).answer = verdict (firstFault (s.obstacles s.id)) := by
  cases phase : s.phase with
  | building => rw [answer_finish phase, checkFinish_eq counted phase]
  | finished output =>
      have closed : s.isFinished = true := by rw [isFinished, phase]
      rw [finish_of_finished phase, obstacles, firstFault_cons, if_pos closed]
      rfl
  | failed =>
      have unfinished : s.isFinished = false := by rw [isFinished, phase]
      rw [finish, whileBuilding_of_failed phase, obstacles, firstFault_cons, unfinished,
        if_neg Bool.false_ne_true, firstFault_cons, if_pos (decide_eq_true phase)]
      rfl

end Scope

namespace Tree

variable {t : Tree} {id : ScopeId} {s : Scope}

theorem Reachable.counted (reachable : t.Reachable) (live : t.scope? id = some s) :
    s.labels.Counted :=
  reachable.every_scope (P := (·.labels.Counted)) (fun _ _ _ _ _ _ => rfl)
    (fun _ m counted => Scope.counted_move counted m) (fun _ _ counted => counted) live

def unfinishedChild? (t : Tree) (s : Scope) : Option ScopeId :=
  s.children.find? fun c => !(t.scope? c).any (·.isFinished)

/-- The first thing that keeps a scope from being finished. -/
def obstacle? (t : Tree) (id : ScopeId) : Option Fault :=
  match t.scope? id with
  | none => some (.unknownScope id)
  | some s => ((t.unfinishedChild? s).map (.unfinishedChild id)).or (firstFault (s.obstacles id))

theorem findSome?_hindrance? (links : t.WellFormed) (live : t.scope? id = some s) :
    s.children.findSome? (t.hindrance? id) = (t.unfinishedChild? s).map (.unfinishedChild id) := by
  have known : ∀ c ∈ s.children.toList, ∃ child, t.scope? c = some child := by
    intro c member
    obtain ⟨child, found, -⟩ := (links id s live).children c (Array.mem_toList_iff.mp member)
    exact ⟨child, found⟩
  rw [unfinishedChild?, ← Array.findSome?_toList, ← Array.find?_toList]
  generalize s.children.toList = children at known
  induction children with
  | nil => rfl
  | cons c children ih =>
      obtain ⟨child, found⟩ := known c List.mem_cons_self
      have rest := ih fun other member => known other (List.mem_cons_of_mem c member)
      cases finished : child.isFinished with
      | true => simp [hindrance?, found, finished, rest]
      | false => simp [hindrance?, found, finished]

theorem answer_finish_eq (reachable : t.Reachable) (id : ScopeId) :
    (t.finish id).answer = verdict (t.obstacle? id) := by
  have links := reachable.wellFormed
  rw [obstacle?, finish, checkFinish]
  cases live : t.scope? id with
  | none => rfl
  | some s =>
      dsimp only
      rw [findSome?_hindrance? links live]
      cases t.unfinishedChild? s with
      | some c => rfl
      | none =>
          have room : s.children.size ≤ childCapacity := (links id s live).bounded
          have seated : s.id = id := (links id s live).seated
          simp only [Option.map_none, Option.none_or, if_pos room]
          rw [update_of_scope?_some _ live, ← seated]
          exact Scope.answer_finish_eq (reachable.counted live) _

/-- The bound on children holds as they are created, so finishing never meets it. -/
theorem obstacle?_ne_children (t : Tree) (id : ScopeId) :
    t.obstacle? id ≠ some (.tableFull .children) := by
  rw [obstacle?]
  cases t.scope? id with
  | none => simp
  | some s =>
      cases unfinished : t.unfinishedChild? s with
      | some c => simp [unfinished]
      | none =>
          simp only [unfinished, Option.map_none, Option.none_or]
          intro first
          simpa [Scope.obstacles] using mem_of_firstFault first

/-- What finishing hands on counts what the scope has. -/
structure Exact (s : Scope) (output : Output) : Prop where
  codeSize : s.code.size < 4294967296 → output.codeSize = s.code.size
  symbolCount : output.symbolCount = s.symbols.size
  literalCount : output.literalCount = s.literals.size
  childCount : output.childCount = s.children.size
  localCount : output.localCount = s.locals.size
  registers : output.registers = s.peak
  code : output.code = s.code.bytes

theorem finish_eq_sealed (links : t.WellFormed) (accepted : (t.finish id).answer = .ok ()) :
    ∃ s, t.scope? id = some s ∧ (t.finish id).after =
      { t with slots := t.slots.setIfInBounds id.index (some s.sealed) } := by
  obtain ⟨s, live, building, children, closed, -⟩ := finish_ok accepted
  have own : t.finish id = t.update id (·.finish s.children.size) := by
    rw [finish, checkFinish_of_children links live children]
  have answer : (s.finish s.children.size).answer = .ok () := by
    rw [Scope.answer_finish building, closed]
  obtain ⟨-, -, after⟩ := Scope.finish_of_ok answer
  refine ⟨s, live, ?_⟩
  rw [own, update_of_scope?_some _ live, after]
  rfl

theorem exact_outputWith (reachable : t.Reachable) (live : t.scope? id = some s) :
    Exact s (s.outputWith s.children.size) where
  codeSize small := Nat.min_eq_left (Nat.le_of_lt_succ small)
  symbolCount := rfl
  literalCount := rfl
  childCount := rfl
  localCount := (reachable.accounted live).counted
  registers := rfl
  code := rfl

/-- Finishing answers with the first obstacle there is. Without one it hands on exact counts, and
changes the phase and the code of this scope and nothing else in the tree. -/
theorem finish_decides {t : Tree} (reachable : t.Reachable) (id : ScopeId) :
    (t.finish id).answer = verdict (t.obstacle? id) ∧
    (t.finish id).answer ≠ .error (.tableFull .children) ∧
    (t.obstacle? id = none → ∃ s output, t.scope? id = some s ∧ Exact s output ∧
      (t.finish id).after = { t with
        slots := t.slots.setIfInBounds id.index
          (some { s with code := {}, phase := .finished output }) }) := by
  have answer := answer_finish_eq reachable id
  refine ⟨answer, ?_, ?_⟩
  · rw [answer]
    intro full
    cases obstacle : t.obstacle? id with
    | none =>
        rw [obstacle] at full
        cases full
    | some fault =>
        rw [obstacle] at full
        cases full
        exact t.obstacle?_ne_children id obstacle
  · intro free
    rw [free] at answer
    obtain ⟨s, live, after⟩ := finish_eq_sealed reachable.wellFormed answer
    exact ⟨s, _, live, exact_outputWith reachable live, after⟩

def unready : Tree :=
  ({} : Tree).run [.create none true, .create (some ⟨0⟩) false, .scope ⟨0⟩ .reserve]

/-- The block stands in the way of the method before its jump does, and nothing in that of the
block. -/
theorem finish_decides_unready :
    unready.Reachable ∧
    (unready.finish ⟨0⟩).answer = .error (.unfinishedChild ⟨0⟩ ⟨1⟩) ∧
    (unready.finish ⟨1⟩).answer = .ok () ∧
    ∃ s output, unready.scope? ⟨1⟩ = some s ∧ Exact s output ∧
      (unready.finish ⟨1⟩).after = { unready with
        slots := unready.slots.setIfInBounds 1
          (some { s with code := {}, phase := .finished output }) } := by
  have sound : ({} : Limits).Sound := (Limits.validate_eq_ok_iff {}).mp (by decide)
  have reachable : unready.Reachable := ⟨{}, sound, _, rfl⟩
  have hindered : unready.obstacle? ⟨0⟩ = some (.unfinishedChild ⟨0⟩ ⟨1⟩) := by decide +kernel
  have free : unready.obstacle? ⟨1⟩ = none := by decide +kernel
  obtain ⟨method, -⟩ := finish_decides reachable ⟨0⟩
  obtain ⟨block, -, finished⟩ := finish_decides reachable ⟨1⟩
  rw [hindered] at method
  rw [free] at block
  exact ⟨reachable, method, block, finished free⟩

end Tree

end BytecodeScopes
