import BytecodeScopes.Event

/-!
The outcome of a request: an answer or a fault, the state it leaves behind, and what it reports.
Most requests run in two phases, a check that only reads and a commit that cannot fail, so a
refused request changes nothing.
-/

namespace BytecodeScopes

structure Reply (σ α : Type) where
  answer : Except Fault α
  after : σ
  log : List Event

namespace Reply

variable {σ τ α β : Type}

def accept (state : σ) (a : α) : Reply σ α := ⟨.ok a, state, []⟩

def refuse (state : σ) (fault : Fault) : Reply σ α := ⟨.error fault, state, []⟩

@[inline] def attempt (state : σ) (check : σ → Except Fault β) (commit : σ → β → α × σ) :
    Reply σ α :=
  match check state with
  | .ok plan =>
      let (a, after) := commit state plan
      accept after a
  | .error fault => refuse state fault

def map (f : α → β) (r : Reply σ α) : Reply σ β :=
  { answer := r.answer.map f, after := r.after, log := r.log }

def embed (f : σ → τ) (r : Reply σ α) : Reply τ α :=
  { answer := r.answer, after := f r.after, log := r.log }

theorem attempt_of_ite {p : Prop} [Decidable p] (state : σ) (check : σ → Except Fault β)
    (commit : σ → β → α × σ) {plan : β} {fault : Fault}
    (checked : check state = if p then .ok plan else .error fault) :
    attempt state check commit =
      if p then accept (commit state plan).2 (commit state plan).1 else refuse state fault := by
  rw [attempt, checked]
  by_cases allowed : p
  · rw [if_pos allowed, if_pos allowed]
  · rw [if_neg allowed, if_neg allowed]

theorem attempt_error {state : σ} {check : σ → Except Fault β} {commit : σ → β → α × σ}
    {fault : Fault} (refused : (attempt state check commit).answer = .error fault) :
    (attempt state check commit).after = state := by
  cases checked : check state with
  | ok plan =>
      rw [attempt, checked] at refused
      cases refused
  | error found =>
      rw [attempt, checked]
      rfl

end Reply

section

variable {σ ι α : Type} (step : σ → ι → Reply σ α)

/-- The state after requests made one after another, of which some may be refused. -/
def runBy (state : σ) (ops : List ι) : σ := ops.foldl (fun state op => (step state op).after) state

def answersBy (state : σ) : List ι → List (ι × Except Fault α)
  | [] => []
  | op :: ops => (op, (step state op).answer) :: answersBy (step state op).after ops

def acceptsBy (state : σ) (ops : List ι) : Bool := (answersBy step state ops).all (·.2.isOk)

theorem runBy_append (state : σ) (front back : List ι) :
    runBy step state (front ++ back) = runBy step (runBy step state front) back := List.foldl_append

theorem runBy_concat (state : σ) (ops : List ι) (op : ι) :
    runBy step state (ops ++ [op]) = (step (runBy step state ops) op).after :=
  runBy_append step state ops [op]

/-- What every request of a run keeps, given what came before it, holds in the end. -/
theorem runBy_along {P : σ → Prop} {state : σ} (start : P state) (ops : List ι)
    (kept : ∀ front op back, ops = front ++ op :: back → P (runBy step state front) →
      P (step (runBy step state front) op).after) : P (runBy step state ops) := by
  induction ops generalizing state with
  | nil => exact start
  | cons op ops ih =>
      -- a request of the rest is one of the whole run, which starts with `op`
      apply ih (kept [] op ops rfl start)
      rintro front later back rfl
      exact kept (op :: front) later back rfl

theorem runBy_invariant {P : σ → Prop} (kept : ∀ state op, P state → P (step state op).after)
    {state : σ} (start : P state) (ops : List ι) : P (runBy step state ops) :=
  runBy_along step start ops fun _ op _ _ => kept _ op

theorem answersBy_append (state : σ) (front back : List ι) :
    answersBy step state (front ++ back) =
      answersBy step state front ++ answersBy step (runBy step state front) back := by
  induction front generalizing state with
  | nil => rfl
  | cons op front ih => exact congrArg (_ :: ·) (ih (step state op).after)

theorem mem_answersBy {state : σ} {ops : List ι} {entry : ι × Except Fault α}
    (member : entry ∈ answersBy step state ops) :
    ∃ front back, ops = front ++ entry.1 :: back ∧
      entry.2 = (step (runBy step state front) entry.1).answer := by
  induction ops generalizing state with
  | nil => cases member
  | cons op ops ih =>
      rcases List.mem_cons.mp member with first | later
      · rw [first]
        exact ⟨[], ops, rfl, rfl⟩
      · obtain ⟨front, back, split, answer⟩ := ih later
        exact ⟨op :: front, back, congrArg (op :: ·) split, answer⟩

theorem mem_of_mem_answersBy {state : σ} {ops : List ι} {entry : ι × Except Fault α}
    (member : entry ∈ answersBy step state ops) : entry.1 ∈ ops := by
  obtain ⟨front, back, split, -⟩ := mem_answersBy step member
  rw [split]
  exact List.mem_append_right front List.mem_cons_self

theorem filterMap_answersBy_cons {β : Type} (f : ι × Except Fault α → Option β) (state : σ)
    (op : ι) (ops : List ι) :
    (answersBy step state (op :: ops)).filterMap f =
      (f (op, (step state op).answer)).toList ++
        (answersBy step (step state op).after ops).filterMap f := by
  rw [answersBy, List.filterMap_cons]
  cases f (op, (step state op).answer) <;> rfl

theorem acceptsBy_append (state : σ) (front back : List ι) :
    acceptsBy step state (front ++ back) = true ↔
      acceptsBy step state front = true ∧ acceptsBy step (runBy step state front) back = true := by
  rw [acceptsBy, answersBy_append, List.all_append, Bool.and_eq_true]
  rfl

theorem acceptsBy_cons {state : σ} {op : ι} {ops : List ι} :
    acceptsBy step state (op :: ops) = true ↔
      (∃ answer, (step state op).answer = .ok answer) ∧
        acceptsBy step (step state op).after ops = true := by
  rw [acceptsBy, answersBy, List.all_cons, Bool.and_eq_true]
  refine and_congr ?_ Iff.rfl
  cases (step state op).answer with
  | ok answer => exact ⟨fun _ => ⟨answer, rfl⟩, fun _ => rfl⟩
  | error fault =>
      constructor
      · intro accepted
        cases accepted
      · rintro ⟨answer, accepted⟩
        cases accepted

end

end BytecodeScopes
