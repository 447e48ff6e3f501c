import BytecodeScopes.Proofs.Table.FirstSeen

namespace BytecodeScopes.Symbols

inductive Op where
  | add (name : String)
  | addSetter (name : String)
  | popSetter
  deriving DecidableEq, Repr

inductive Answer where
  | index (i : Nat)
  | setter (s : Option Setter)
  deriving DecidableEq, Repr

def step (t : Symbols) : Op → Reply Symbols Answer
  | .add name => (t.add name).map .index
  | .addSetter name => (t.addSetter name).map .index
  | .popSetter => .accept t.popSetter.2 (.setter t.popSetter.1)

def run (t : Symbols) (ops : List Op) : Symbols := runBy step t ops

def answers (t : Symbols) (ops : List Op) : List (Op × Except Fault Answer) := answersBy step t ops

/-- Adds a setter through the table, whether or not it is in use; it goes on the stack if it is not
there. -/
def addSetterByTable (t : Symbols) (name : String) : Reply Symbols Nat :=
  .attempt t (·.checkAdd (selector name)) fun t _ =>
    let (i, next) := t.intern (selector name) .synthesized
    match t.setter? (selector name) with
    | some _ => (i, next)
    | none => (i, { next with setters := ⟨selector name, i⟩ :: next.setters })

def stepByTable (t : Symbols) : Op → Reply Symbols Answer
  | .addSetter name => (t.addSetterByTable name).map .index
  | op => t.step op

variable {t : Symbols} {name : String}

theorem intern_of_some {i : Nat} (known : t.find? name = some i) (origin : Origin) :
    t.intern name origin = (i, t) := by
  have same : t.table.insert ⟨name, origin⟩ = (i, t.table) := Interned.insert_of_find?_some known
  rw [intern, same]

theorem find?_intern (t : Symbols) (name : String) (origin : Origin) :
    (t.intern name origin).2.find? name = some (t.intern name origin).1 :=
  t.table.find?_insert ⟨name, origin⟩

theorem find?_intern_of_some {other : String} {i : Nat} (known : t.find? other = some i)
    (name : String) (origin : Origin) : (t.intern name origin).2.find? other = some i :=
  Interned.find?_insert_of_some known ⟨name, origin⟩

theorem mem_setters_of_setter? {setter : Setter} (used : t.setter? name = some setter) :
    setter ∈ t.setters ∧ setter.selector = name := by
  refine ⟨List.mem_of_find?_eq_some used, ?_⟩
  simpa using List.find?_some used

theorem not_mem_of_setter?_none (unused : t.setter? name = none) :
    name ∉ t.setters.map (·.selector) := by
  intro member
  obtain ⟨setter, inside, same⟩ := List.mem_map.mp member
  have different := List.find?_eq_none.mp unused setter inside
  simp [same] at different

def pushSetter (t : Symbols) (name : String) : Nat × Symbols :=
  let i := (t.intern (selector name) .synthesized).1
  let next := (t.intern (selector name) .synthesized).2
  (i, { next with setters := ⟨selector name, i⟩ :: next.setters })

theorem addSetter_of_used {setter : Setter} (used : t.setter? (selector name) = some setter) :
    t.addSetter name = .accept t setter.index := by
  have checked : t.checkSetter name = .ok (some setter.index) := by
    rw [checkSetter, used]
  simp only [addSetter, Reply.attempt, checked]
  rfl

theorem addSetter_of_unused (unused : t.setter? (selector name) = none) :
    t.addSetter name =
      .attempt t (·.checkAdd (selector name)) fun t _ => t.pushSetter name := by
  cases checked : t.checkAdd (selector name) with
  | ok done =>
      have fresh : t.checkSetter name = .ok none := by
        rw [checkSetter, unused, checked]
        rfl
      simp only [addSetter, Reply.attempt, fresh, checked]
      rfl
  | error fault =>
      have refused : t.checkSetter name = .error fault := by
        rw [checkSetter, unused, checked]
        rfl
      simp only [addSetter, Reply.attempt, refused, checked]

structure Coherent (t : Symbols) : Prop where
  distinct : (t.setters.map (·.selector)).Nodup
  indexed : ∀ setter ∈ t.setters, t.find? setter.selector = some setter.index

theorem coherent_empty : ({} : Symbols).Coherent where
  distinct := List.nodup_nil
  indexed := by simp

theorem Coherent.find?_of_used {setter : Setter} (coherent : t.Coherent)
    (used : t.setter? name = some setter) : t.find? name = some setter.index := by
  obtain ⟨member, own⟩ := mem_setters_of_setter? used
  rw [← own]
  exact coherent.indexed setter member

theorem Coherent.intern (coherent : t.Coherent) (name : String) (origin : Origin) :
    (t.intern name origin).2.Coherent where
  distinct := coherent.distinct
  indexed := fun setter member =>
    find?_intern_of_some (coherent.indexed setter member) name origin

theorem Coherent.pushSetter (coherent : t.Coherent) (unused : t.setter? (selector name) = none) :
    (t.pushSetter name).2.Coherent where
  distinct := List.nodup_cons.mpr ⟨not_mem_of_setter?_none unused, coherent.distinct⟩
  indexed := by
    intro setter member
    rcases List.mem_cons.mp member with new | old
    · rw [new]
      exact find?_intern t (selector name) .synthesized
    · exact (coherent.intern (selector name) .synthesized).indexed setter old

theorem Coherent.popSetter (coherent : t.Coherent) : t.popSetter.2.Coherent := by
  cases stack : t.setters with
  | nil =>
      rw [Symbols.popSetter, stack]
      exact coherent
  | cons setter rest =>
      have distinct := coherent.distinct
      rw [stack, List.map_cons, List.nodup_cons] at distinct
      rw [Symbols.popSetter, stack]
      refine ⟨distinct.2, ?_⟩
      intro other member
      apply coherent.indexed other
      rw [stack]
      exact List.mem_cons_of_mem setter member

theorem Coherent.attempt {α β : Type} (coherent : t.Coherent) {check : Symbols → Except Fault β}
    {commit : Symbols → β → α × Symbols} (committed : ∀ plan, (commit t plan).2.Coherent) :
    (Reply.attempt t check commit).after.Coherent := by
  cases checked : check t with
  | ok plan =>
      rw [Reply.attempt, checked]
      exact committed plan
  | error fault =>
      rw [Reply.attempt, checked]
      exact coherent

theorem Coherent.step (coherent : t.Coherent) (op : Op) : (t.step op).after.Coherent := by
  cases op with
  | add name =>
      change (t.add name).after.Coherent
      exact coherent.attempt fun _ => coherent.intern name .source
  | popSetter => exact coherent.popSetter
  | addSetter name =>
      change (t.addSetter name).after.Coherent
      cases used : t.setter? (selector name) with
      | some setter =>
          rw [addSetter_of_used used]
          exact coherent
      | none =>
          rw [addSetter_of_unused used]
          exact coherent.attempt fun _ => coherent.pushSetter used

theorem Coherent.run (coherent : t.Coherent) (ops : List Op) : (t.run ops).Coherent :=
  runBy_invariant Symbols.step (fun _ op coherent => coherent.step op) coherent ops

theorem Coherent.addSetterByTable (coherent : t.Coherent) (name : String) :
    t.addSetterByTable name = t.addSetter name := by
  cases used : t.setter? (selector name) with
  | some setter =>
      -- the table has the selector, so it takes nothing in and gives the index on the stack
      have known := coherent.find?_of_used used
      have there : selector name ∈ t.names := (t.mem_names_iff _).mpr (by rw [known]; rfl)
      have admitted := (t.checkAdd_eq_ok_iff (selector name)).mpr (.inl there)
      rw [addSetter_of_used used]
      simp only [Symbols.addSetterByTable, Reply.attempt, admitted, intern_of_some known, used]
  | none =>
      rw [addSetter_of_unused used]
      cases checked : t.checkAdd (selector name) with
      | ok done =>
          simp only [Symbols.addSetterByTable, Reply.attempt, checked, used]
          rfl
      | error fault => simp only [Symbols.addSetterByTable, Reply.attempt, checked]

theorem Coherent.stepByTable (coherent : t.Coherent) (op : Op) : t.stepByTable op = t.step op := by
  cases op with
  | addSetter name => exact congrArg (Reply.map Answer.index) (coherent.addSetterByTable name)
  | add | popSetter => rfl

theorem Coherent.answersByTable (coherent : t.Coherent) (ops : List Op) :
    answersBy Symbols.stepByTable t ops = t.answers ops ∧
      runBy Symbols.stepByTable t ops = t.run ops := by
  induction ops generalizing t with
  | nil => exact ⟨rfl, rfl⟩
  | cons op ops ih =>
      have same := coherent.stepByTable op
      obtain ⟨answers, run⟩ := ih (coherent.step op)
      constructor
      · rw [answersBy, same, answers]
        rfl
      · calc
          runBy Symbols.stepByTable t (op :: ops) =
              runBy Symbols.stepByTable (t.stepByTable op).after ops := rfl
          _ = (t.step op).after.run ops := by rw [same, run]
          _ = t.run (op :: ops) := rfl

/-- The stack of setters holds no selector twice and each with the index it has in the table. All
answers of a run, the symbols and the stack are as if the table were asked for every setter. -/
theorem setter_stack_agrees (ops : List Op) :
    let t := ({} : Symbols).run ops
    (t.setters.map (·.selector)).Nodup ∧
    (∀ setter ∈ t.setters, t.find? setter.selector = some setter.index ∧
      ∀ i, (t.get? i).map (·.name) = some setter.selector ↔ i = setter.index) ∧
    answersBy stepByTable {} ops = ({} : Symbols).answers ops ∧
    runBy stepByTable {} ops = t := by
  intro t
  have coherent : t.Coherent := coherent_empty.run ops
  refine ⟨coherent.distinct, ?_, coherent_empty.answersByTable ops⟩
  intro setter member
  have known := coherent.indexed setter member
  refine ⟨known, fun i => ?_⟩
  rw [get?, ← Interned.find?_eq_some_iff]
  change t.find? setter.selector = some i ↔ i = setter.index
  rw [known, Option.some.injEq, eq_comm]

end BytecodeScopes.Symbols
