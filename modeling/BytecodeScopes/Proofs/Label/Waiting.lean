import BytecodeScopes.Proofs.Label.Run
import BytecodeScopes.Proofs.Scope.Run

/-!
Labels that wait in the queue. Resolving a label takes it out of the queue, so a label that waits
has no target, with one exception: queueing only asks whether the label was given out here, and a
label that is queued after it was resolved waits with its target.
-/

namespace BytecodeScopes

namespace Labels

variable {ls : Labels} {label : Label} {excused : Label → Prop}

/-- This very label was given out here and has a target. -/
def Resolved (ls : Labels) (label : Label) : Prop :=
  ∃ jump, ls.jump? label = some jump ∧ jump.target.isSome = true

/-- A label was given out here under this number and has no target. -/
def Open (ls : Labels) (id : LabelId) : Prop :=
  ∃ jump, ls.jump? jump.label = some jump ∧ jump.label.id = id ∧ jump.target = none

/-- All that waits was given out here, and has no target unless it is excused. -/
def Waits (ls : Labels) (excused : Label → Prop) : Prop :=
  ∀ id ∈ ls.pending, ∃ jump, ls.jump? jump.label = some jump ∧ jump.label.id = id ∧
    (jump.target = none ∨ excused jump.label)

theorem Resolved.target? (resolved : ls.Resolved label) : ls.target? label ≠ none := by
  obtain ⟨jump, found, targeted⟩ := resolved
  rw [target?_of_jump? found]
  exact Option.isSome_iff_ne_none.mp targeted

theorem Resolved.settle (resolved : ls.Resolved label) (other : Label) (target : Nat) :
    (ls.settle other target).Resolved label := by
  obtain ⟨jump, found, targeted⟩ := resolved
  obtain ⟨there, same⟩ := jump?_eq_some_iff.mp found
  by_cases own : other.id.index = label.id.index
  · refine ⟨{ jump with target := some target }, jump?_eq_some_iff.mpr ⟨?_, same⟩, rfl⟩
    simp [Labels.settle, Array.getElem?_modify, own, there]
  · refine ⟨jump, jump?_eq_some_iff.mpr ⟨?_, same⟩, targeted⟩
    simp [Labels.settle, Array.getElem?_modify, own, there]

theorem Resolved.step (resolved : ls.Resolved label) (op : Op) :
    (ls.step op).after.Resolved label := by
  obtain ⟨jump, found, targeted⟩ := resolved
  apply after_step (P := (Resolved · label)) op ⟨jump, found, targeted⟩
  · exact fun code => ⟨jump, jump?_reserve found code, targeted⟩
  · exact fun _ _ _ _ => ⟨jump, found, targeted⟩
  · exact ⟨jump, (jump?_dequeue ls label).trans found, targeted⟩
  · exact Resolved.settle ⟨jump, found, targeted⟩

theorem Resolved.run (resolved : ls.Resolved label) (ops : List Op) :
    (ls.run ops).Resolved label :=
  runBy_invariant Labels.step (P := (Resolved · label)) (fun _ op resolved => resolved.step op)
    resolved ops

theorem Resolved.queued (resolved : ls.Resolved label) :
    label.id ∈ (ls.step (.queue label)).after.pending ∧
      (ls.step (.queue label)).after.Resolved label := by
  obtain ⟨jump, found, targeted⟩ := resolved
  rw [after_queue_of_ok (checkQueue_eq_ok_iff.mpr ⟨jump, found⟩)]
  exact ⟨Array.mem_push_self, jump, found, targeted⟩

theorem Waits.of_pending {after : Labels} (waits : ls.Waits excused)
    (pending : ∀ id ∈ after.pending, id ∈ ls.pending)
    (kept : ∀ id ∈ after.pending, ∀ jump, jump.label.id = id → ls.jump? jump.label = some jump →
      after.jump? jump.label = some jump) : after.Waits excused := by
  intro id member
  obtain ⟨jump, found, same, free⟩ := waits id (pending id member)
  exact ⟨jump, kept id member jump same found, same, free⟩

theorem Waits.reserve (waits : ls.Waits excused) (code : Code) :
    (ls.reserve code).2.1.Waits excused := by
  apply waits.of_pending
  · exact fun _ member => member
  · exact fun _ _ _ _ found => jump?_reserve found code

theorem Waits.dequeue (waits : ls.Waits excused) : ls.dequeue.2.Waits excused := by
  apply waits.of_pending
  · unfold Labels.dequeue
    split
    · exact fun _ member => member
    · intro id member
      obtain ⟨i, -, -, rfl⟩ := Array.mem_extract_iff_getElem.mp member
      exact Array.getElem_mem _
  · intro id member jump same found
    rw [jump?_dequeue, found]

theorem Waits.settle (waits : ls.Waits excused) (label : Label) (target : Nat) :
    (ls.settle label target).Waits excused := by
  have left : ∀ id ∈ (ls.settle label target).pending, id ∈ ls.pending ∧ id ≠ label.id := by
    simp [Labels.settle]
  apply waits.of_pending
  · exact fun id member => (left id member).1
  · intro id member jump same found
    have apart : jump.label.id ≠ label.id := by
      rw [same]
      exact (left id member).2
    rw [jump?_settle_other apart, found]

theorem Waits.enqueue (waits : ls.Waits excused) {jump : Jump} (found : ls.jump? label = some jump)
    (late : ls.Resolved label → excused label) : (ls.enqueue label).Waits excused := by
  intro id member
  have own : jump.label = label := (jump?_eq_some_iff.mp found).2
  rcases Array.mem_push.mp member with older | rfl
  · exact waits id older
  · refine ⟨jump, ?_, congrArg Label.id own, ?_⟩
    · rw [own]
      exact found
    · cases targeted : jump.target with
      | none => exact .inl rfl
      | some target =>
          have queuedLate : ls.Resolved label := ⟨jump, found, by rw [targeted]; rfl⟩
          rw [own]
          exact .inr (late queuedLate)

theorem Waits.step (waits : ls.Waits excused) (op : Op)
    (late : ∀ label, op = .queue label → ls.Resolved label → excused label) :
    (ls.step op).after.Waits excused := by
  apply after_step (P := (Waits · excused)) op waits
  · exact waits.reserve
  · intro label jump queued found
    exact waits.enqueue found (late label queued)
  · exact waits.dequeue
  · exact waits.settle

theorem Waits.run (waits : ls.Waits excused) (ops : List Op)
    (late : ∀ front label back, ops = front ++ .queue label :: back →
      (ls.run front).Resolved label → excused label) : (ls.run ops).Waits excused := by
  apply runBy_along Labels.step (P := (Waits · excused)) waits
  intro front op back split waits
  apply waits.step op
  rintro label rfl
  exact late front label back split

theorem waits_empty (excused : Label → Prop) : ({} : Labels).Waits excused := by
  intro id member
  simp at member

theorem Waits.next (waits : ls.Waits excused) (taken : ls.dequeue.1 = some label) :
    ∃ jump, ls.dequeue.2.jump? label = some jump ∧ (jump.target = none ∨ excused label) := by
  simp only [jump?_dequeue]
  unfold Labels.dequeue at taken
  split at taken
  · cases taken
  · rename_i id first
    obtain ⟨jump, found, rfl, free⟩ := waits id (Array.mem_of_getElem? first)
    obtain ⟨there, -⟩ := jump?_eq_some_iff.mp found
    have own : jump.label = label := by simpa [there] using taken
    rw [own] at found free
    exact ⟨jump, found, free⟩

theorem Waits.checkResolve_next (waits : ls.Waits excused) (taken : ls.dequeue.1 = some label)
    (counted : ¬ excused label) (code : Code) (limits : Limits) (target : Nat) :
    ls.dequeue.2.checkResolve code limits label target ≠ .error (.labelResolved label.id) := by
  obtain ⟨jump, found, free⟩ := waits.next taken
  have untargeted : jump.target = none := free.resolve_right counted
  simp only [checkResolve, found, untargeted, Option.isSome_none, Bool.false_eq_true, if_false]
  split
  · unfold Code.checkPatch
    split <;> simp [Except.map]
  · simp

theorem checkResolve_of_refused {code : Code} {limits : Limits} {target : Nat} {fault : Fault}
    (refused : (ls.resolve code limits label target).answer = .error fault) :
    ls.checkResolve code limits label target = .error fault := by
  unfold resolve at refused
  cases checked : ls.checkResolve code limits label target with
  | ok distance =>
      rw [checked] at refused
      cases refused
  | error found =>
      rw [checked] at refused
      exact congrArg Except.error (Except.error.inj refused)

theorem not_open_of_resolved (resolved : ls.Resolved label) : ¬ ls.Open label.id := by
  rintro ⟨jump, found, same, free⟩
  obtain ⟨other, known, targeted⟩ := resolved
  have here := (jump?_eq_some_iff.mp found).1
  rw [same, (jump?_eq_some_iff.mp known).1, Option.some.injEq] at here
  rw [here, free] at targeted
  cases targeted

section

variable {σ ι α : Type} {step : σ → ι → Reply σ α} {state : σ}

/-- In a run a request is made of a state with some property. -/
def MadeWhen (step : σ → ι → Reply σ α) (state : σ) (op : ι) (P : σ → Prop) (ops : List ι) : Prop :=
  ∃ front back, ops = front ++ op :: back ∧ P (runBy step state front)

theorem MadeWhen.append {op : ι} {P : σ → Prop} {front : List ι}
    (made : MadeWhen step state op P front) (back : List ι) :
    MadeWhen step state op P (front ++ back) := by
  obtain ⟨start, rest, rfl, held⟩ := made
  exact ⟨start, rest ++ back, by simp, held⟩

theorem MadeWhen.lasting {op : ι} {P Q : σ → Prop} {ops : List ι}
    (made : MadeWhen step state op P ops) (enough : ∀ s, P s → Q s)
    (kept : ∀ s op, Q s → Q (step s op).after) : Q (runBy step state ops) := by
  obtain ⟨front, back, rfl, held⟩ := made
  rw [runBy_append]
  exact runBy_invariant step kept (enough _ held) _

/-- Where a label is excused only for being queued late, nothing but open labels waits all along if
and only if none is queued late. The labels may be those of any system that is run by requests. -/
theorem open_iff_none_late (labels : σ → Labels) (queue : Label → ι) {late : Label → σ → Prop}
    (waits : ∀ ops, (labels (runBy step state ops)).Waits fun label =>
      MadeWhen step state (queue label) (late label) ops)
    (queued : ∀ label s, late label s → label.id ∈ (labels (step s (queue label)).after).pending ∧
      (labels (step s (queue label)).after).Resolved label) (ops : List ι) :
    (∀ front back, ops = front ++ back → ∀ id ∈ (labels (runBy step state front)).pending,
        (labels (runBy step state front)).Open id) ↔
      ∀ label, ¬ MadeWhen step state (queue label) (late label) ops := by
  constructor
  · rintro opened label ⟨front, back, rfl, targeted⟩
    -- right after it was queued
    have after := opened (front ++ [queue label]) back (by simp) label.id
    rw [runBy_concat] at after
    obtain ⟨member, resolved⟩ := queued label _ targeted
    exact not_open_of_resolved resolved (after member)
  · rintro none front back rfl id member
    obtain ⟨jump, found, same, free⟩ := waits front id member
    refine ⟨jump, found, same, free.resolve_right fun made => ?_⟩
    exact none jump.label (made.append back)

end

/-- A label is queued in a run when it has its target already. -/
def QueuedLate (ops : List Op) (label : Label) : Prop :=
  MadeWhen step {} (.queue label) (Resolved · label) ops

theorem waits_run (ops : List Op) : (({} : Labels).run ops).Waits (QueuedLate ops) := by
  apply (waits_empty _).run ops
  intro front label back split late
  exact ⟨front, back, split, late⟩

end Labels

namespace Scope

variable {s : Scope} {label : Label} {excused : Label → Prop}

theorem resolved_step (resolved : s.labels.Resolved label) (op : Op) :
    (s.step op).after.labels.Resolved label := by
  rcases s.labels_step op with ⟨ops, -, reached⟩ | ⟨queued, -, -, reached⟩
  · rw [reached]
    exact resolved.run ops
  · rw [reached]
    exact resolved.step _

theorem waits_step (waits : s.labels.Waits excused) (op : Op)
    (late : ∀ label, op = .queue label → s.phase = .building → s.labels.Resolved label →
      excused label) : (s.step op).after.labels.Waits excused := by
  rcases s.labels_step op with ⟨ops, quiet, reached⟩ | ⟨label, rfl, building, reached⟩
  · rw [reached]
    apply waits.run ops
    rintro front label back rfl
    exact absurd (by simp) (quiet label)
  · rw [reached]
    apply waits.step
    rintro other ⟨⟩
    exact late label rfl building

theorem waits_run (waits : s.labels.Waits excused) (ops : List Op)
    (late : ∀ front label back, ops = front ++ .queue label :: back →
      (s.run front).phase = .building → (s.run front).labels.Resolved label → excused label) :
    (s.run ops).labels.Waits excused := by
  apply runBy_along step (P := (·.labels.Waits excused)) waits
  intro front op back split waits
  apply waits_step waits op
  rintro label rfl
  exact late front label back split

def QueuedLate (s : Scope) (ops : List Op) (label : Label) : Prop :=
  Labels.MadeWhen step s (.queue label)
    (fun s => s.phase = .building ∧ s.labels.Resolved label) ops

theorem checkResolve_of_refused {target : Nat} {fault : Fault} (building : s.phase = .building)
    (refused : (s.step (.resolve label target)).answer = .error fault) :
    s.checkResolve label target = .error fault := by
  have stuck : (s.resolve label target).answer = .error fault := Reply.map_eq_error_iff.mp refused
  rw [resolve, whileBuilding_of_building building] at stuck
  cases checked : s.checkResolve label target with
  | ok distance =>
      rw [(resolveAll_cons_ok checked []).1] at stuck
      cases stuck
  | error found =>
      rw [resolveAll_cons_error checked, answer_abort] at stuck
      exact congrArg Except.error (Except.error.inj stuck)

theorem resolve_of_dequeued (waits : s.labels.Waits excused) (counted : ¬ excused label)
    (taken : (s.step .dequeue).answer = .ok (.waiting (some label))) (target : Nat) :
    ((s.step .dequeue).after.step (.resolve label target)).answer ≠
      .error (.labelResolved label.id) := by
  have building := building_of_accepted taken
  let next : Scope := { s with labels := s.labels.dequeue.2 }
  have dequeued : s.step .dequeue = .accept next (.waiting s.labels.dequeue.1) := by
    rw [step, dequeue, change_of_building building]
    rfl
  have first : s.labels.dequeue.1 = some label := by
    rw [dequeued] at taken
    simpa [Reply.accept] using taken
  rw [dequeued]
  intro refused
  exact waits.checkResolve_next first counted s.code s.limits target
    (checkResolve_of_refused (s := next) building refused)

end Scope

/-- A label that waits is an open label of the registry unless it was queued when it had its target
already. Only open labels wait all along if and only if that never happens, and then nobody who
takes a label from the queue and resolves it is told that it is resolved. A scope's labels are no
different. -/
theorem waiting_labels_open_unless_late (requests : List Labels.Op) {s : Scope}
    (unused : s.labels = {}) (actions : List Scope.Op) :
    ((({} : Labels).run requests).Waits (Labels.QueuedLate requests) ∧
      ((∀ front back, requests = front ++ back → ∀ id ∈ (({} : Labels).run front).pending,
          (({} : Labels).run front).Open id) ↔ ∀ label, ¬ Labels.QueuedLate requests label) ∧
      ∀ label, ¬ Labels.QueuedLate requests label →
        (({} : Labels).run requests).dequeue.1 = some label → ∀ code limits target,
          ((({} : Labels).run requests).dequeue.2.resolve code limits label target).answer ≠
            .error (.labelResolved label.id)) ∧
    (s.run actions).labels.Waits (s.QueuedLate actions) ∧
      ((∀ front back, actions = front ++ back → ∀ id ∈ (s.run front).labels.pending,
          (s.run front).labels.Open id) ↔ ∀ label, ¬ s.QueuedLate actions label) ∧
      ∀ label, ¬ s.QueuedLate actions label →
        ((s.run actions).step .dequeue).answer = .ok (.waiting (some label)) → ∀ target,
          (((s.run actions).step .dequeue).after.step (.resolve label target)).answer ≠
            .error (.labelResolved label.id) := by
  have waits : ∀ ops, (s.run ops).labels.Waits (s.QueuedLate ops) := by
    intro ops
    apply Scope.waits_run
    · rw [unused]
      exact Labels.waits_empty _
    · intro front label back split building resolved
      exact ⟨front, back, split, building, resolved⟩
  refine ⟨⟨Labels.waits_run requests, ?_, ?_⟩, waits actions, ?_, ?_⟩
  · exact Labels.open_iff_none_late (fun ls => ls) .queue Labels.waits_run
      (fun _ _ late => late.queued) requests
  · intro label counted taken code limits target refused
    exact (Labels.waits_run requests).checkResolve_next taken counted code limits target
      (Labels.checkResolve_of_refused refused)
  · refine Labels.open_iff_none_late Scope.labels .queue waits ?_ actions
    rintro label s ⟨building, late⟩
    rw [Scope.labels_queue building]
    exact late.queued
  · intro label counted taken
    exact Scope.resolve_of_dequeued (waits actions) counted taken

/-- A loop with one exit; the exit and, twice, a later jump are queued before the loop is closed. -/
def queuedLoop : List Scope.Op :=
  [.openLoop, .reserve, .reserve, .queue ⟨⟨1⟩, 2, 4⟩, .queue ⟨⟨0⟩, 0, 2⟩, .queue ⟨⟨1⟩, 2, 4⟩,
    .addExit ⟨⟨0⟩, 0, 2⟩, .closeLoop]

/-- What closing the loop does to the labels, done to labels alone. -/
def queuedExit : List Labels.Op :=
  [.reserve ⟨#[]⟩, .reserve ⟨#[0, 0]⟩, .queue ⟨⟨1⟩, 2, 4⟩, .queue ⟨⟨0⟩, 0, 2⟩, .queue ⟨⟨1⟩, 2, 4⟩,
    .resolve ⟨#[0, 0, 0, 0]⟩ {} ⟨⟨0⟩, 0, 2⟩ 4]

theorem waiting_labels_open_unless_late_loop :
    ((({} : Labels).run queuedExit).pending = #[⟨1⟩, ⟨1⟩] ∧
      ((({} : Labels).run queuedExit).dequeue.2.resolve ⟨#[0, 2, 0, 0]⟩ {} ⟨⟨1⟩, 2, 4⟩ 4).answer ≠
        .error (.labelResolved ⟨1⟩)) ∧
    ((Scope.fresh ⟨0⟩ none true .method {}).run queuedLoop).labels.pending = #[⟨1⟩, ⟨1⟩] ∧
      (((((Scope.fresh ⟨0⟩ none true .method {}).run queuedLoop).step .dequeue).after.step
        (.resolve ⟨⟨1⟩, 2, 4⟩ 4)).answer ≠ .error (.labelResolved ⟨1⟩)) := by
  have unused : (Scope.fresh ⟨0⟩ none true .method {}).labels = {} := rfl
  obtain ⟨⟨-, -, alone⟩, -, -, within⟩ :=
    waiting_labels_open_unless_late queuedExit unused queuedLoop
  refine ⟨⟨by decide +kernel, alone ⟨⟨1⟩, 2, 4⟩ ?_ (by decide +kernel) _ _ _⟩,
    by decide +kernel, within ⟨⟨1⟩, 2, 4⟩ ?_ rfl 4⟩
  · intro late
    have resolved := late.lasting (fun _ held => held) fun _ op held => held.step op
    exact resolved.target? (by decide +kernel)
  · intro late
    have resolved := late.lasting (fun _ held => held.2)
      fun _ op held => Scope.resolved_step held op
    exact resolved.target? (by decide +kernel)

def landed : Label := ⟨⟨0⟩, 0, 2⟩

def landedLabels : Labels :=
  ({} : Labels).run [.reserve ⟨#[]⟩, .resolve ⟨#[0, 0]⟩ {} landed 2, .queue landed]

def landedScope : Scope :=
  (Scope.fresh ⟨0⟩ none true .method {}).run [.reserve, .resolve landed 2, .queue landed]

/-- It waits, is handed out, and cannot be resolved. -/
theorem resolved_label_waits :
    (landed.id ∈ landedLabels.pending ∧ ¬ landedLabels.Open landed.id ∧
      landedLabels.dequeue.1 = some landed ∧
      (landedLabels.dequeue.2.resolve ⟨#[0, 0]⟩ {} landed 2).answer =
        .error (.labelResolved landed.id)) ∧
    landed.id ∈ landedScope.labels.pending ∧ ¬ landedScope.labels.Open landed.id ∧
      (landedScope.step .dequeue).answer = .ok (.waiting (some landed)) ∧
      ((landedScope.step .dequeue).after.step (.resolve landed 2)).answer =
        .error (.labelResolved landed.id) := by
  have alone : landedLabels.Resolved landed := ⟨⟨landed, some 2⟩, by decide +kernel, rfl⟩
  have within : landedScope.labels.Resolved landed := ⟨⟨landed, some 2⟩, by decide +kernel, rfl⟩
  exact ⟨⟨by decide +kernel, Labels.not_open_of_resolved alone, by decide +kernel, rfl⟩,
    by decide +kernel, Labels.not_open_of_resolved within, rfl, rfl⟩

end BytecodeScopes
