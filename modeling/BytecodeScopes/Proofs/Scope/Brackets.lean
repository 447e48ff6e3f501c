/-!
Sequences of actions of which one opens and one closes. In a balanced stretch each opening is closed
again, the last one first. The frames that a sequence leaves open split it at their openings, with
balanced stretches between; what is closed next is therefore the frame of the opening that matches.
-/

namespace BytecodeScopes

variable {α φ : Type} {opening closing : α}

/-- Stretches that close just what they open, last opened first closed. -/
inductive Balanced (opening closing : α) : List α → Prop where
  | nil : Balanced opening closing []
  | other {a : α} {rest : List α} (opens : a ≠ opening) (closes : a ≠ closing)
      (after : Balanced opening closing rest) : Balanced opening closing (a :: rest)
  | pair {inner rest : List α} (inside : Balanced opening closing inner)
      (after : Balanced opening closing rest) :
      Balanced opening closing (opening :: (inner ++ closing :: rest))

namespace Balanced

variable {front back inner : List α}

theorem append (first : Balanced opening closing front) (second : Balanced opening closing back) :
    Balanced opening closing (front ++ back) := by
  induction first with
  | nil => exact second
  | other opens closes _ ih => exact .other opens closes ih
  | pair inside _ _ ih =>
      rw [List.cons_append, List.append_assoc, List.cons_append]
      exact .pair inside ih

theorem concat (balanced : Balanced opening closing front) {a : α} (opens : a ≠ opening)
    (closes : a ≠ closing) : Balanced opening closing (front ++ [a]) :=
  balanced.append (.other opens closes .nil)

theorem enclose (before : Balanced opening closing front)
    (inside : Balanced opening closing inner) :
    Balanced opening closing (front ++ opening :: (inner ++ [closing])) :=
  before.append (.pair inside .nil)

end Balanced

/-- The frames that actions have opened and not closed, innermost first. A frame is made from the
actions before its opening and the balanced stretch since, up to the next frame inside it. -/
inductive Opened (opening closing : α) (frame : List α → List α → φ) : List α → List φ → Prop where
  | none {actions : List α} (balanced : Balanced opening closing actions) :
      Opened opening closing frame actions []
  | inside {front inner : List α} {outer : List φ}
      (around : Opened opening closing frame front outer)
      (balanced : Balanced opening closing inner) :
      Opened opening closing frame (front ++ opening :: inner) (frame front inner :: outer)

namespace Opened

variable {frame : List α → List α → φ} {actions : List α} {frames : List φ}

theorem enter (opened : Opened opening closing frame actions frames) :
    Opened opening closing frame (actions ++ [opening]) (frame actions [] :: frames) :=
  .inside opened .nil

theorem stay (opened : Opened opening closing frame actions frames) {a : α} (opens : a ≠ opening)
    (closes : a ≠ closing) {change : φ → φ}
    (changed : ∀ front inner, Balanced opening closing inner →
      frame front (inner ++ [a]) = change (frame front inner)) :
    Opened opening closing frame (actions ++ [a]) (frames.modifyHead change) := by
  cases opened with
  | none balanced => exact .none (balanced.concat opens closes)
  | @inside front inner outer around balanced =>
      rw [List.modifyHead_cons, ← changed front inner balanced, List.append_assoc,
        List.cons_append]
      exact .inside around (balanced.concat opens closes)

theorem pass (opened : Opened opening closing frame actions frames) {a : α} (opens : a ≠ opening)
    (closes : a ≠ closing)
    (kept : ∀ front inner, Balanced opening closing inner →
      frame front (inner ++ [a]) = frame front inner) :
    Opened opening closing frame (actions ++ [a]) frames := by
  have same : Opened opening closing frame (actions ++ [a]) (frames.modifyHead fun last => last) :=
    opened.stay opens closes kept
  cases frames <;> exact same

theorem leave {last : φ} (opened : Opened opening closing frame actions (last :: frames))
    (passed : ∀ front before inner, Balanced opening closing before →
      Balanced opening closing inner →
      frame front (before ++ opening :: (inner ++ [closing])) = frame front before) :
    Opened opening closing frame (actions ++ [closing]) frames := by
  cases opened with
  | @inside front inner outer around balanced =>
      rw [List.append_assoc, List.cons_append]
      cases around with
      | none before => exact .none (before.enclose balanced)
      | @inside farther before outer around earlier =>
          rw [List.append_assoc, List.cons_append, ← passed farther before inner earlier balanced]
          exact .inside around (earlier.enclose balanced)

/-- The innermost frame is that of the last opening without a closing of its own. -/
theorem innermost {last : φ} (opened : Opened opening closing frame actions (last :: frames)) :
    ∃ front inner, actions = front ++ opening :: inner ∧ Balanced opening closing inner ∧
      last = frame front inner := by
  cases opened with
  | @inside front inner _ _ balanced => exact ⟨front, inner, rfl, balanced, rfl⟩

end Opened

end BytecodeScopes
