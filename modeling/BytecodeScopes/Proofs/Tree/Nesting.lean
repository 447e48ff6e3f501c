import BytecodeScopes.Proofs.Tree.Lookup

/-!
What scopes are nested in agrees with the tree. The levels of a scope are those it was created with
under the loops it has entered and not left; there is one method among them, at the bottom; and the
blocks among them are as many as the scopes one sees out through.
-/

namespace BytecodeScopes

namespace Nesting

/-- One method stands at the bottom and none above it. -/
def Rooted (n : Nesting) : Prop := ∃ inner, n.levels = inner ++ [.method] ∧ .method ∉ inner

theorem rooted_method : method.Rooted := ⟨[], rfl, List.not_mem_nil⟩

theorem Rooted.push {level : NestLevel} {levels : List NestLevel} (rooted : Rooted ⟨levels⟩)
    (other : level ≠ .method) : Rooted ⟨level :: levels⟩ := by
  obtain ⟨inner, split, absent⟩ := rooted
  refine ⟨level :: inner, congrArg (level :: ·) split, ?_⟩
  simp [other.symm, absent]

theorem Rooted.pop {level : NestLevel} {levels : List NestLevel}
    (rooted : Rooted ⟨level :: levels⟩) (other : level ≠ .method) : Rooted ⟨levels⟩ := by
  obtain ⟨inner, split, absent⟩ := rooted
  cases inner with
  | nil =>
      cases split
      exact absurd rfl other
  | cons first inner =>
      have same : level :: levels = first :: (inner ++ [.method]) := split
      cases same
      exact ⟨inner, rfl, fun member => absent (List.mem_cons_of_mem _ member)⟩

theorem unmarkLoop_cases (n : Nesting) :
    (∃ outer, n.levels = .loop :: outer ∧ n.unmarkLoop = (true, ⟨outer⟩)) ∨
      n.levels.head? ≠ some .loop ∧ n.unmarkLoop = (false, n) := by
  obtain ⟨levels⟩ := n
  cases levels with
  | nil => exact .inr ⟨nofun, rfl⟩
  | cons level outer =>
      cases level with
      | loop => exact .inl ⟨outer, rfl, rfl⟩
      | method | block => exact .inr ⟨by simp, rfl⟩

theorem Rooted.unmarkLoop {n : Nesting} (rooted : n.Rooted) : n.unmarkLoop.2.Rooted := by
  obtain ⟨levels⟩ := n
  rcases unmarkLoop_cases ⟨levels⟩ with ⟨outer, rfl, left⟩ | ⟨-, left⟩
  · rw [left]
    exact rooted.pop nofun
  · rw [left]
    exact rooted

@[simp] theorem blocks_inBlock (n : Nesting) : n.inBlock.blocks = n.blocks + 1 := by
  simp [blocks, inBlock]

@[simp] theorem blocks_markLoop (n : Nesting) : n.markLoop.blocks = n.blocks := by
  simp [blocks, markLoop]

@[simp] theorem blocks_unmarkLoop (n : Nesting) : n.unmarkLoop.2.blocks = n.blocks := by
  obtain ⟨levels⟩ := n
  rcases unmarkLoop_cases ⟨levels⟩ with ⟨outer, rfl, left⟩ | ⟨-, left⟩
  · rw [left]
    exact (blocks_markLoop ⟨outer⟩).symm
  · rw [left]

theorem inLoop_iff (n : Nesting) : n.inLoop = true ↔ n.levels.head? = some .loop := by
  cases first : n.levels.head? <;> simp [inLoop, innermost, first]

end Nesting

namespace Scope

theorem nesting_step_of_ne {s : Scope} {op : Op} (entering : op ≠ .markLoop)
    (leaving : op ≠ .unmarkLoop) : (s.step op).after.nesting = s.nesting := by
  let Kept (after : Scope) : Prop := after.nesting = s.nesting
  by_cases touched : .surroundings ∈ op.touches
  · cases op with
    | setSignature =>
        exact after_attempt (P := Kept) rfl (fun _ => rfl) (fun _ _ _ => rfl)
    | beginList | restoreList | element | splat | finishList =>
        exact after_change (P := Kept) rfl (fun _ => rfl)
    | markLoop => exact absurd rfl entering
    | unmarkLoop => exact absurd rfl leaving
    | _ => simp [Op.touches] at touched
  · apply after_step (P := Kept) op rfl
    · intro _ kept
      exact kept
    · exact fun _ _ _ _ _ => rfl
    · exact fun _ _ _ _ => rfl
    · intro _ _ _ _ kept
      exact kept
    · exact fun _ _ => rfl
    · exact fun _ _ => rfl
    · intro surrounds
      exact absurd surrounds touched

theorem step_markLoop {s : Scope} (building : s.phase = .building) :
    s.step .markLoop = .accept { s with nesting := s.nesting.markLoop } .done := by
  rw [step, markLoop, change_of_building building]
  rfl

theorem step_unmarkLoop {s : Scope} (building : s.phase = .building) :
    s.step .unmarkLoop = .accept { s with nesting := s.nesting.unmarkLoop.2 }
      (.flag s.nesting.unmarkLoop.1) := by
  rw [step, unmarkLoop, change_of_building building]
  rfl

theorem nesting_move {P : Nesting → Prop} (s : Scope) (m : Move) (stay : P s.nesting)
    (entered : P s.nesting.markLoop) (left : P s.nesting.unmarkLoop.2) :
    P (s.move m).after.nesting := by
  cases m with
  | act op =>
      by_cases entering : op = .markLoop
      · subst entering
        exact after_change (P := (P ·.nesting)) stay (fun _ => entered)
      · by_cases leaving : op = .unmarkLoop
        · subst leaving
          exact after_change (P := (P ·.nesting)) stay (fun _ => left)
        · rw [move, nesting_step_of_ne entering leaving]
          exact stay
  | finish childCount =>
      exact after_finish (P := (P ·.nesting)) childCount stay stay (fun _ _ => stay)

end Scope

namespace Tree

def tally (t : Tree) (counts : Tree → Op → Bool) : List Op → Nat
  | [] => 0
  | op :: ops => (if counts t op then 1 else 0) + (t.step op).after.tally counts ops

def entersLoop (id : ScopeId) (t : Tree) (op : Op) : Bool :=
  op = .scope id .markLoop ∧ (t.step op).answer = .ok (.scope .done)

def leavesLoop (id : ScopeId) (t : Tree) (op : Op) : Bool :=
  op = .scope id .unmarkLoop ∧ (t.step op).answer = .ok (.scope (.flag true))

/-- The nesting of a scope in the first tree of a run that has it. -/
def firstNesting (t : Tree) (id : ScopeId) : List Op → Option Nesting
  | [] => (t.scope? id).map (·.nesting)
  | op :: ops =>
      match t.scope? id with
      | some s => some s.nesting
      | none => (t.step op).after.firstNesting id ops

section

variable {t : Tree} {id : ScopeId} {s s' : Scope} {op : Op}

theorem step_scope (live : t.scope? id = some s) (action : Scope.Op) :
    (t.step (.scope id action)).answer = (s.step action).answer.map .scope := by
  rw [step, update_of_scope?_some _ live]
  rfl

theorem no_loop
    (entering : op = .scope id .markLoop → (t.step op).answer ≠ .ok (.scope .done))
    (leaving : op = .scope id .unmarkLoop → (t.step op).answer ≠ .ok (.scope (.flag true))) :
    entersLoop id t op = false ∧ leavesLoop id t op = false := by
  constructor
  · exact decide_eq_false fun both => entering both.1 both.2
  · exact decide_eq_false fun both => leaving both.1 both.2

theorem no_loop_of_apart (apart : ∀ action, op ≠ .scope id action) :
    entersLoop id t op = false ∧ leavesLoop id t op = false :=
  no_loop (fun same => absurd same (apart _)) (fun same => absurd same (apart _))

theorem no_loop_of_error {fault : Fault} (refused : (t.step op).answer = .error fault) :
    entersLoop id t op = false ∧ leavesLoop id t op = false := by
  apply no_loop
  · intro _ accepted
    rw [refused] at accepted
    cases accepted
  · intro _ accepted
    rw [refused] at accepted
    cases accepted

theorem no_loop_of_absent (absent : t.scope? id = none) (op : Op) :
    entersLoop id t op = false ∧ leavesLoop id t op = false := by
  by_cases own : ∃ action, op = .scope id action
  · obtain ⟨action, rfl⟩ := own
    have refused : (t.step (.scope id action)).answer = .error (.unknownScope id) := by
      rw [step, update_of_scope?_none _ absent]
      rfl
    exact no_loop_of_error refused
  · exact no_loop_of_apart fun action same => own ⟨action, same⟩

/-- The loops over a base after an action, counted up when one is entered and down when one is
left. -/
def Counted (t : Tree) (id : ScopeId) (op : Op) (base : List NestLevel) (n : Nat)
    (levels : List NestLevel) : Prop :=
  ∃ m, levels = List.replicate m .loop ++ base ∧
    m + (if leavesLoop id t op then 1 else 0) = n + (if entersLoop id t op then 1 else 0)

variable {base : List NestLevel} {n : Nat}

theorem counted_of_kept (levels : s.nesting.levels = List.replicate n .loop ++ base)
    (none : entersLoop id t op = false ∧ leavesLoop id t op = false)
    (kept : s'.nesting = s.nesting) : t.Counted id op base n s'.nesting.levels := by
  refine ⟨n, kept ▸ levels, ?_⟩
  rw [none.1, none.2]

theorem counted_markLoop (live : t.scope? id = some s) (building : s.phase = .building)
    (levels : s.nesting.levels = List.replicate n .loop ++ base) :
    t.Counted id (.scope id .markLoop) base n (s.step .markLoop).after.nesting.levels := by
  have answer := step_scope live .markLoop
  rw [Scope.step_markLoop building] at answer ⊢
  have entered : entersLoop id t (.scope id .markLoop) = true := decide_eq_true ⟨rfl, answer⟩
  have stayed : leavesLoop id t (.scope id .markLoop) = false := decide_eq_false nofun
  refine ⟨n + 1, ?_, ?_⟩
  · change .loop :: s.nesting.levels = _
    rw [levels]
    rfl
  · rw [entered, stayed]
    rfl

/-- Levels a scope was created with are never left: a block or a method is innermost of them. -/
theorem counted_unmarkLoop (live : t.scope? id = some s) (building : s.phase = .building)
    (bottom : base.head? ≠ some .loop)
    (levels : s.nesting.levels = List.replicate n .loop ++ base) :
    t.Counted id (.scope id .unmarkLoop) base n (s.step .unmarkLoop).after.nesting.levels := by
  have answer := step_scope live .unmarkLoop
  have stayed : entersLoop id t (.scope id .unmarkLoop) = false := decide_eq_false nofun
  rw [Scope.step_unmarkLoop building] at answer ⊢
  change t.Counted id _ base n s.nesting.unmarkLoop.2.levels
  rcases s.nesting.unmarkLoop_cases with ⟨outer, loop, left⟩ | ⟨other, same⟩
  · rw [left] at answer ⊢
    have counts : leavesLoop id t (.scope id .unmarkLoop) = true := decide_eq_true ⟨rfl, answer⟩
    cases n with
    | zero =>
        rw [levels] at loop
        rw [show base = .loop :: outer from loop] at bottom
        exact absurd rfl bottom
    | succ n =>
        refine ⟨n, ?_, ?_⟩
        · rw [levels] at loop
          exact (List.cons.inj loop).2.symm
        · rw [counts, stayed]
          rfl
  · rw [same] at answer ⊢
    have counts : leavesLoop id t (.scope id .unmarkLoop) = false := by
      refine decide_eq_false ?_
      rintro ⟨-, accepted⟩
      rw [answer] at accepted
      cases accepted
    exact ⟨n, levels, by rw [counts, stayed]⟩

theorem counted_acted (live : t.scope? id = some s) (bottom : base.head? ≠ some .loop)
    (levels : s.nesting.levels = List.replicate n .loop ++ base) (action : Scope.Op) :
    t.Counted id (.scope id action) base n (s.step action).after.nesting.levels := by
  have answer := step_scope live action
  cases phase : s.phase with
  | finished output =>
      rw [Scope.step_of_finished phase] at answer ⊢
      exact counted_of_kept levels (no_loop_of_error answer) rfl
  | failed =>
      rw [Scope.step_of_failed phase] at answer ⊢
      exact counted_of_kept levels (no_loop_of_error answer) rfl
  | building =>
      by_cases entering : action = .markLoop
      · subst entering
        exact counted_markLoop live phase levels
      · by_cases leaving : action = .unmarkLoop
        · subst leaving
          exact counted_unmarkLoop live phase bottom levels
        · apply counted_of_kept levels _ (Scope.nesting_step_of_ne entering leaving)
          apply no_loop
          · intro same
            exact absurd (Op.scope.inj same).2 entering
          · intro same
            exact absurd (Op.scope.inj same).2 leaving

theorem counted_step (before : t.scope? id = some s) (bottom : base.head? ≠ some .loop)
    (levels : s.nesting.levels = List.replicate n .loop ++ base)
    (live : (t.step op).after.scope? id = some s') :
    t.Counted id op base n s'.nesting.levels := by
  cases origin_step live with
  | created checked last => exact absurd last (ne_last before)
  | relisted found apart children =>
      rw [before] at found
      cases found
      exact counted_of_kept levels (no_loop_of_apart apart) rfl
  | acted found =>
      rw [before] at found
      cases found
      exact counted_acted before bottom levels _
  | @finished _ childCount found checked =>
      rw [before] at found
      cases found
      refine counted_of_kept levels (no_loop_of_apart nofun) ?_
      exact Scope.after_finish (P := (·.nesting = s.nesting)) childCount rfl rfl (fun _ _ => rfl)

theorem loops_run (ops : List Op) (before : t.scope? id = some s)
    (bottom : base.head? ≠ some .loop)
    (levels : s.nesting.levels = List.replicate n .loop ++ base)
    (live : (t.run ops).scope? id = some s') :
    ∃ m, s'.nesting.levels = List.replicate m .loop ++ base ∧
      m + t.tally (leavesLoop id) ops = n + t.tally (entersLoop id) ops := by
  induction ops generalizing t s n with
  | nil =>
      change t.scope? id = some s' at live
      rw [before] at live
      cases live
      exact ⟨n, levels, rfl⟩
  | cons op ops ih =>
      have inside := Nat.lt_of_lt_of_le (index_lt_of_scope? before) (t.frame_step op).2
      obtain ⟨next, there⟩ := live_before_run (t := (t.step op).after) ops live inside
      obtain ⟨middle, nextLevels, balance⟩ := counted_step before bottom levels there
      obtain ⟨m, final, rest⟩ := ih there nextLevels live
      refine ⟨m, final, ?_⟩
      rw [tally, tally]
      omega

theorem firstNesting_of_live (live : t.scope? id = some s) (ops : List Op) :
    t.firstNesting id ops = some s.nesting := by
  cases ops <;> simp [firstNesting, live]

theorem nestingUnder_head (outer : Option Nesting) (top : Bool) :
    (nestingUnder outer top).levels.head? ≠ some .loop := by
  unfold nestingUnder
  split
  · simp [Nesting.inBlock]
  · simp [Nesting.method]

/-- From its creation on the loops of a scope are those entered less those left. -/
theorem loops_since_creation (ops : List Op) (absent : t.scope? id = none)
    (live : (t.run ops).scope? id = some s') :
    ∃ first m, t.firstNesting id ops = some first ∧ first.levels.head? ≠ some .loop ∧
      s'.nesting.levels = List.replicate m .loop ++ first.levels ∧
      m + t.tally (leavesLoop id) ops = t.tally (entersLoop id) ops := by
  induction ops generalizing t with
  | nil =>
      change t.scope? id = some s' at live
      rw [absent] at live
      cases live
  | cons op ops ih =>
      obtain ⟨enters, leaves⟩ := no_loop_of_absent absent op
      rw [firstNesting, absent, tally, tally, enters, leaves]
      simp only [Bool.false_eq_true, if_false, Nat.zero_add]
      cases now : (t.step op).after.scope? id with
      | none => exact ih now live
      | some first =>
          have bottom : first.nesting.levels.head? ≠ some .loop := by
            cases origin_step now with
            | created checked last => exact nestingUnder_head _ _
            | relisted before | acted before | finished before =>
                rw [absent] at before
                cases before
          obtain ⟨m, levels, balance⟩ := loops_run (n := 0) ops now bottom rfl live
          rw [Nat.zero_add] at balance
          exact ⟨first.nesting, m, firstNesting_of_live now ops, bottom, levels, balance⟩

end

/-- The nesting of one scope agrees with the scopes one sees out through. -/
structure Nested (t : Tree) (id : ScopeId) (s : Scope) : Prop where
  rooted : s.nesting.Rooted
  alone : t.outer? id = none → s.nesting.blocks = 0
  inside : ∀ p above, t.outer? id = some p → t.scope? p = some above →
    s.nesting.blocks = above.nesting.blocks + 1

def AllNested (t : Tree) : Prop := ∀ id s, t.scope? id = some s → t.Nested id s

section

variable {t : Tree} {id : ScopeId} {s s' : Scope} {op : Op}

theorem blocks_step (before : t.scope? id = some s)
    (live : (t.step op).after.scope? id = some s') : s'.nesting.blocks = s.nesting.blocks := by
  apply survivor_step (P := (·.nesting.blocks = s.nesting.blocks)) before live
  · exact fun _ => rfl
  · intro m
    exact Scope.nesting_move (P := (·.blocks = s.nesting.blocks)) s m rfl (by simp) (by simp)

theorem rooted_step (before : t.scope? id = some s)
    (live : (t.step op).after.scope? id = some s') (rooted : s.nesting.Rooted) :
    s'.nesting.Rooted := by
  apply survivor_step (P := (·.nesting.Rooted)) before live
  · exact fun _ => rooted
  · intro m
    exact Scope.nesting_move s m rooted (rooted.push nofun) rooted.unmarkLoop

theorem outer?_step (before : t.scope? id = some s)
    (live : (t.step op).after.scope? id = some s') :
    (t.step op).after.outer? id = t.outer? id := by
  have same : s'.top = s.top ∧ s'.parent = s.parent := by
    apply survivor_step (P := fun s' => s'.top = s.top ∧ s'.parent = s.parent) before live
    · exact fun _ => ⟨rfl, rfl⟩
    · intro m
      have site := s.site_move m
      exact ⟨congrArg Scope.Site.top site, congrArg Scope.Site.parent site⟩
  rw [outer?_of_scope? live, outer?_of_scope? before, same.1, same.2]

theorem checkCreate_none {outer : Option Nesting} (checked : t.checkCreate none = .ok outer) :
    outer = none := by
  unfold checkCreate at checked
  split at checked
  · cases checked
    rfl
  · cases checked

theorem AllNested.created (nested : t.AllNested) {parent : Option ScopeId} {top : Bool}
    {outer : Option Nesting} (checked : t.checkCreate parent = .ok outer)
    (last : id = ⟨t.slots.size⟩)
    (live : (t.step (.create parent top)).after.scope? id =
      some (.fresh id parent top (nestingUnder outer top) t.limits)) :
    (t.step (.create parent top)).after.Nested id
      (.fresh id parent top (nestingUnder outer top) t.limits) := by
  have seen : (t.step (.create parent top)).after.outer? id = if top then none else parent :=
    outer?_of_scope? live
  rw [last] at seen
  cases parent with
  | none =>
      rw [checkCreate_none checked]
      constructor
      case rooted => exact Nesting.rooted_method
      case alone => exact fun _ => rfl
      case inside =>
        intro p above next
        rw [last, seen] at next
        cases top <;> cases next
  | some p =>
      obtain ⟨upper, found, -, -, rfl⟩ := checkCreate_ok checked
      cases top with
      | true =>
          constructor
          case rooted => exact Nesting.rooted_method
          case alone => exact fun _ => rfl
          case inside =>
            intro p above next
            rw [last, seen] at next
            cases next
      | false =>
          constructor
          case rooted => exact (nested p upper found).rooted.push nofun
          case alone =>
            intro next
            rw [last, seen] at next
            cases next
          case inside =>
            intro q above next there
            rw [last, seen] at next
            cases next
            have same : above.nesting.blocks = upper.nesting.blocks := blocks_step found there
            rw [same]
            exact Nesting.blocks_inBlock upper.nesting

theorem AllNested.step (nested : t.AllNested) (links : t.WellFormed) (op : Op) :
    (t.step op).after.AllNested := by
  intro id s' live
  have kept : ∀ s, t.scope? id = some s → (t.step op).after.Nested id s' := by
    intro s before
    have now := nested id s before
    have sight := outer?_step before live
    constructor
    case rooted => exact rooted_step before live now.rooted
    case alone =>
      intro last
      rw [blocks_step before live]
      exact now.alone (sight.symm.trans last)
    case inside =>
      intro p above next there
      have next' := sight.symm.trans next
      obtain ⟨-, upper, found⟩ := links.outer?_lt next'
      rw [blocks_step before live, blocks_step found there]
      exact now.inside p upper next' found
  cases origin_step live with
  | created checked last => exact nested.created checked last live
  | relisted before | acted before | finished before => exact kept _ before

theorem Reachable.nested (reachable : t.Reachable) : t.AllNested := by
  have both : t.WellFormed ∧ t.AllNested := by
    apply reachable.invariant (P := fun t => t.WellFormed ∧ t.AllNested)
    · intro limits
      refine ⟨wellFormed_empty limits, ?_⟩
      intro id s live
      simp [scope?] at live
    · rintro t op ⟨links, nested⟩
      exact ⟨links.step op, nested.step links op⟩
  exact both.2

theorem AllNested.search_length (nested : t.AllNested) (links : t.WellFormed) {name : String}
    {seen : List ScopeId} {result : Option Local} (search : t.Searches name id seen result)
    (live : t.scope? id = some s) :
    seen.length ≤ s.nesting.blocks + 1 ∧
      (result = none → seen.length = s.nesting.blocks + 1) := by
  induction search generalizing s with
  | found => exact ⟨Nat.le_add_left 1 _, nofun⟩
  | stopped found undeclared last =>
      rw [(nested _ s live).alone last]
      exact ⟨Nat.le_refl _, fun _ => rfl⟩
  | outward found undeclared next rest ih =>
      obtain ⟨-, above, there⟩ := links.outer?_lt next
      obtain ⟨most, all⟩ := ih there
      rw [(nested _ s live).inside _ above next there, List.length_cons]
      exact ⟨Nat.succ_le_succ most, fun absent => congrArg (· + 1) (all absent)⟩

theorem AllNested.enclosing_blocks (nested : t.AllNested) (links : t.WellFormed) (m : Nat)
    (live : t.scope? id = some s) (blocks : s.nesting.blocks = m) :
    ∃ last, t.enclosing id m = some last ∧ t.outer? last = none := by
  induction m generalizing id s with
  | zero =>
      refine ⟨id, rfl, ?_⟩
      cases next : t.outer? id with
      | none => rfl
      | some p =>
          obtain ⟨-, above, there⟩ := links.outer?_lt next
          have deeper := (nested id s live).inside p above next there
          omega
  | succ m ih =>
      cases next : t.outer? id with
      | none =>
          have none := (nested id s live).alone next
          omega
      | some p =>
          obtain ⟨-, above, there⟩ := links.outer?_lt next
          have deeper := (nested id s live).inside p above next there
          obtain ⟨last, reached, ends⟩ := ih there (by omega)
          refine ⟨last, ?_, ends⟩
          rw [enclosing_succ, next]
          exact reached

theorem AllNested.lookup_searches (nested : t.AllNested) (links : t.WellFormed)
    (live : t.scope? id = some s) (name : String) :
    ∃ seen result, t.Searches name id seen result ∧
      t.lookup id name = located (seen.length - 1) result ∧
      seen.length ≤ s.nesting.blocks + 1 ∧
      (result = none → seen.length = s.nesting.blocks + 1) := by
  obtain ⟨seen, result, search, -⟩ := links.searches_exists name live
  exact ⟨seen, result, search, links.lookup_eq live search,
    nested.search_length links search live⟩

theorem scope?_run_of_others (ops : List Op)
    (others : ∀ op ∈ ops, ∃ other action, other ≠ id ∧ op = .scope other action) :
    (t.run ops).scope? id = t.scope? id := by
  induction ops generalizing t with
  | nil => rfl
  | cons op ops ih =>
      obtain ⟨other, action, apart, rfl⟩ := others op List.mem_cons_self
      have first : (t.step (.scope other action)).after.scope? id = t.scope? id := by
        change (t.update other (·.step action)).after.scope? id = t.scope? id
        rw [scope?_update, if_neg apart.symm]
      exact (ih fun op member => others op (List.mem_cons_of_mem _ member)).trans first

end

/-- The levels of a scope are those it was created with under the loops entered and not left, which
no action on another scope changes; one method is at the bottom; and the blocks are the scopes a
search for an undeclared name goes out through, which bounds every search. -/
theorem nesting_agrees (limits : Limits) (sound : limits.Sound) (ops : List Op) {id : ScopeId}
    {s : Scope} (live : (({ limits } : Tree).run ops).scope? id = some s) :
    let empty : Tree := { limits }
    let t := empty.run ops
    (∃ first k, empty.firstNesting id ops = some first ∧
      k + empty.tally (leavesLoop id) ops = empty.tally (entersLoop id) ops ∧
      s.nesting.levels = List.replicate k .loop ++ first.levels ∧
      (s.nesting.inLoop = true ↔ 0 < k)) ∧
    (∀ later, (∀ op ∈ later, ∃ other action, other ≠ id ∧ op = .scope other action) →
      (t.run later).scope? id = some s) ∧
    (∃ inner, s.nesting.levels = inner ++ [.method] ∧ .method ∉ inner) ∧
    (∃ last, t.enclosing id s.nesting.blocks = some last ∧ t.outer? last = none) ∧
    (∀ name, t.lookup id name = .ok none →
      ∃ seen, t.Searches name id seen none ∧ seen.length = s.nesting.blocks + 1) ∧
    (∀ name place, t.lookup id name = .ok (some place) → place.hops ≤ s.nesting.blocks) ∧
    ∀ name, t.lookup id name = .error .nestingTooDeep → 255 < s.nesting.blocks := by
  intro empty t
  have reachable : t.Reachable := ⟨limits, sound, ops, rfl⟩
  have links := reachable.wellFormed
  have nested := reachable.nested
  have searched := nested.lookup_searches links live
  refine ⟨?_, ?_, (nested id s live).rooted, nested.enclosing_blocks links _ live rfl, ?_, ?_, ?_⟩
  · have absent : empty.scope? id = none := by simp [empty, scope?]
    obtain ⟨first, k, created, bottom, levels, balance⟩ := loops_since_creation ops absent live
    refine ⟨first, k, created, balance, levels, ?_⟩
    rw [Nesting.inLoop_iff, levels]
    cases k with
    | zero => simpa using bottom
    | succ k => simp [List.replicate_succ]
  · intro later others
    rw [scope?_run_of_others later others]
    exact live
  · intro name missing
    obtain ⟨seen, result, search, answer, -, all⟩ := searched name
    obtain rfl := located_none (answer.symm.trans missing)
    exact ⟨seen, search, all rfl⟩
  · intro name place found
    obtain ⟨seen, result, -, answer, most, -⟩ := searched name
    rw [located_some (answer.symm.trans found)]
    exact Nat.sub_le_of_le_add most
  · intro name deep
    obtain ⟨seen, result, -, answer, most, -⟩ := searched name
    obtain ⟨-, far⟩ := located_error (answer.symm.trans deep)
    omega

/-- A block created inside a loop that is left later, with loops of its own. -/
def inheritedOps : List Op :=
  [.create none false, .scope ⟨0⟩ .markLoop, .create (some ⟨0⟩) false, .scope ⟨1⟩ .unmarkLoop,
    .scope ⟨1⟩ .markLoop, .scope ⟨1⟩ .markLoop, .scope ⟨1⟩ .unmarkLoop, .scope ⟨0⟩ .unmarkLoop,
    .scope ⟨0⟩ .unmarkLoop]

theorem nesting_agrees_inherited :
    ({} : Tree).firstNesting ⟨1⟩ inheritedOps = some ⟨[.block, .loop, .method]⟩ ∧
      ({} : Tree).tally (entersLoop ⟨1⟩) inheritedOps = 2 ∧
      ({} : Tree).tally (leavesLoop ⟨1⟩) inheritedOps = 1 ∧
      ∃ s, (({} : Tree).run inheritedOps).scope? ⟨1⟩ = some s ∧
        s.nesting.levels = [.loop, .block, .loop, .method] ∧ s.nesting.inLoop = true ∧
        ∃ last, (({} : Tree).run inheritedOps).enclosing ⟨1⟩ s.nesting.blocks = some last := by
  have sound : ({} : Limits).Sound := (Limits.validate_eq_ok_iff {}).mp (by decide)
  have created : ({} : Tree).firstNesting ⟨1⟩ inheritedOps = some ⟨[.block, .loop, .method]⟩ := by
    decide +kernel
  have entered : ({} : Tree).tally (entersLoop ⟨1⟩) inheritedOps = 2 := by decide +kernel
  have left : ({} : Tree).tally (leavesLoop ⟨1⟩) inheritedOps = 1 := by decide +kernel
  have there : ((({} : Tree).run inheritedOps).scope? ⟨1⟩).isSome := by decide +kernel
  obtain ⟨s, live⟩ := Option.isSome_iff_exists.mp there
  obtain ⟨⟨first, k, born, balance, levels, loops⟩, -, -, ⟨last, reached, -⟩, -⟩ :=
    nesting_agrees {} sound inheritedOps live
  rw [created] at born
  cases born
  rw [entered, left] at balance
  obtain rfl : k = 1 := by omega
  exact ⟨created, entered, left, s, live, levels, loops.mpr Nat.one_pos, last, reached⟩

end Tree

end BytecodeScopes
