/-!
Spans of code that are opened and closed like brackets, at a place that only moves forward. Of two
closed spans the one closed first lies inside the other or ends before it starts. So of the closed
spans that cover a place, the first in order of closing lies inside all others.
-/

namespace BytecodeScopes

structure Span where
  start : Nat
  stop : Nat
  deriving DecidableEq, Repr

namespace Span

def covers (r : Span) (place : Nat) : Bool := decide (r.start ≤ place ∧ place < r.stop)

def Within (inner outer : Span) : Prop := outer.start ≤ inner.start ∧ inner.stop ≤ outer.stop

/-- The first lies inside the second, or is over before the second starts. -/
def Yields (first second : Span) : Prop := first.Within second ∨ first.stop ≤ second.start

/-- Spans in order of closing, and the starts of those still open, innermost first, at a place that
none goes beyond. -/
structure Nested (closed : List Span) (opened : List Nat) (here : Nat) : Prop where
  forward : ∀ r ∈ closed, r.start ≤ r.stop ∧ r.stop ≤ here
  yielding : closed.Pairwise Yields
  behind : ∀ start ∈ opened, start ≤ here
  inward : opened.Pairwise (· ≥ ·)
  apart : ∀ r ∈ closed, ∀ start ∈ opened, r.stop ≤ start ∨ start ≤ r.start

namespace Nested

variable {closed : List Span} {opened : List Nat} {start here there : Nat}

theorem none (here : Nat) : Nested [] [] here := by
  constructor <;> simp

theorem advance (nested : Nested closed opened here) (ahead : here ≤ there) :
    Nested closed opened there where
  forward := by
    intro r member
    obtain ⟨forward, reached⟩ := nested.forward r member
    exact ⟨forward, Nat.le_trans reached ahead⟩
  yielding := nested.yielding
  behind := fun start member => Nat.le_trans (nested.behind start member) ahead
  inward := nested.inward
  apart := nested.apart

theorem opening (nested : Nested closed opened here) : Nested closed (here :: opened) here where
  forward := nested.forward
  yielding := nested.yielding
  behind := by
    intro start member
    rcases List.mem_cons.mp member with rfl | outer
    · exact Nat.le_refl _
    · exact nested.behind start outer
  inward := List.pairwise_cons.mpr ⟨nested.behind, nested.inward⟩
  apart := by
    intro r member start opening
    rcases List.mem_cons.mp opening with rfl | outer
    · exact .inl (nested.forward r member).2
    · exact nested.apart r member start outer

theorem closing (nested : Nested closed (start :: opened) here) :
    Nested (closed ++ [⟨start, here⟩]) opened here := by
  have reached : start ≤ here := nested.behind start List.mem_cons_self
  obtain ⟨outward, inward⟩ := List.pairwise_cons.mp nested.inward
  constructor
  case forward =>
    intro r member
    rcases List.mem_append.mp member with older | last
    · exact nested.forward r older
    · rw [List.mem_singleton.mp last]
      exact ⟨reached, Nat.le_refl _⟩
  case yielding =>
    refine List.pairwise_append.mpr ⟨nested.yielding, List.pairwise_singleton _ _, ?_⟩
    intro r older last member
    rw [List.mem_singleton.mp member]
    rcases nested.apart r older start List.mem_cons_self with before | since
    · exact .inr before
    · exact .inl ⟨since, (nested.forward r older).2⟩
  case behind => exact fun outer member => nested.behind outer (List.mem_cons_of_mem start member)
  case inward => exact inward
  case apart =>
    intro r member outer opening
    rcases List.mem_append.mp member with older | last
    · exact nested.apart r older outer (List.mem_cons_of_mem start opening)
    · rw [List.mem_singleton.mp last]
      exact .inr (outward outer opening)

end Nested

theorem covers_iff (r : Span) (place : Nat) :
    r.covers place = true ↔ r.start ≤ place ∧ place < r.stop := decide_eq_true_iff

/-- Where spans yield to later ones, the first that covers a place lies inside all that do. -/
theorem first_within {spans : List Span} (yielding : spans.Pairwise Yields) {place : Nat}
    {first r : Span} (found : spans.find? (·.covers place) = some first) (member : r ∈ spans)
    (covering : r.covers place = true) : first.Within r := by
  obtain ⟨covered, front, back, rfl, missing⟩ := List.find?_eq_some_iff_append.mp found
  rw [covers_iff] at covered
  rcases List.mem_append.mp member with early | late
  · have none := missing r early
    simp [covering] at none
  · rcases List.mem_cons.mp late with rfl | later
    · exact ⟨Nat.le_refl _, Nat.le_refl _⟩
    · have yields := (List.pairwise_cons.mp (List.pairwise_append.mp yielding).2.1).1 r later
      rw [covers_iff] at covering
      rcases yields with inside | before
      · exact inside
      · omega

end Span

end BytecodeScopes
