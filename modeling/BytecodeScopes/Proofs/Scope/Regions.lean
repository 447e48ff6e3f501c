import BytecodeScopes.Proofs.Scope.Run
import BytecodeScopes.Proofs.Scope.Spans

/-!
Protected regions and the order of handlers. When regions are closed in the reverse of the order
they were opened in, a handler is recorded before the handlers of the regions around it, so the
first handler in the table that covers a place is the innermost one there.
-/

namespace BytecodeScopes

namespace Handler

def span (h : Handler) : Span := ⟨h.start.toNat, h.stop.toNat⟩

def covers (h : Handler) (place : Nat) : Bool := h.span.covers place

end Handler

namespace Handlers

def spans (t : Handlers) : List Span := t.entries.toList.map Handler.span

def at? (t : Handlers) (place : Nat) : Option Handler := t.entries.find? (·.covers place)

theorem spans_push (t : Handlers) (h : Handler) : (t.push h).spans = t.spans ++ [h.span] := by
  simp [spans, push]

theorem mem_spans {t : Handlers} {h : Handler} (member : h ∈ t.entries) : h.span ∈ t.spans :=
  List.mem_map_of_mem (Array.mem_toList_iff.mpr member)

theorem find?_spans (t : Handlers) (place : Nat) :
    t.spans.find? (·.covers place) = (t.at? place).map Handler.span := by
  rw [spans, List.find?_map, at?, ← Array.find?_toList]
  rfl

end Handlers

namespace Scope

variable {s : Scope} {opened after : List Nat}

/-- The regions open after a move, innermost first. Only what is accepted counts; none if the move
closes a region that is not the innermost, or records a handler that has no region. -/
def regionsAfter (s : Scope) (opened : List Nat) : Move → Option (List Nat)
  | .finish _ => some opened
  | .act op =>
      match op, (s.step op).answer with
      | .openRegion, .ok (.position start) => some (start :: opened)
      | .closeRegion start _ _, .ok _ =>
          match opened with
          | [] => none
          | innermost :: outer => if start = innermost then some outer else none
      | .addHandler _, .ok _ => none
      | _, _ => some opened

def regions (s : Scope) (opened : List Nat) : List Move → Option (List Nat)
  | [] => some opened
  | m :: moves => (s.regionsAfter opened m).bind fun opened => (s.move m).after.regions opened moves

theorem handlers_step_of_apart {op : Op} (apart : .handlers ∉ op.touches) :
    (s.step op).after.handlers = s.handlers := by
  apply after_step (P := (·.handlers = s.handlers)) op rfl
  · intro _ kept
    exact kept
  · exact fun _ _ _ _ _ => rfl
  · exact fun _ _ _ _ => rfl
  · intro _ _ _ _ kept
    exact kept
  · exact fun _ _ => rfl
  · intro touched
    exact absurd touched apart
  · exact fun _ _ _ _ => rfl

theorem handlers_finish (s : Scope) (childCount : Nat) :
    (s.finish childCount).after.handlers = s.handlers :=
  after_finish (P := (·.handlers = s.handlers)) childCount rfl rfl (fun _ _ => rfl)

theorem addHandler_cases (s : Scope) (handler : Handler) :
    s.phase = .building ∧ (s.addHandler handler).answer = .ok () ∧
        (s.addHandler handler).after.handlers = s.handlers.push handler ∨
      (∃ fault, (s.addHandler handler).answer = .error fault) ∧
        (s.addHandler handler).after.handlers = s.handlers := by
  rcases attempt_cases s (·.handlers.checkAdd) fun s _ =>
      ((), { s with handlers := s.handlers.push handler })
    with ⟨plan, building, -, accepted⟩ | ⟨fault, phase, refused, stopped⟩
  · rw [addHandler, accepted]
    exact .inl ⟨building, rfl, rfl⟩
  · rw [addHandler, stopped]
    exact .inr ⟨⟨fault, refused⟩, rfl⟩

/-- The table as spans, and the open regions, nested up to where the code goes. -/
def Protected (s : Scope) (opened : List Nat) : Prop :=
  Span.Nested s.handlers.spans opened s.extent

theorem Protected.keep (guarded : s.Protected opened) (m : Move)
    (kept : (s.move m).after.handlers = s.handlers) : (s.move m).after.Protected opened := by
  rw [Protected, kept]
  exact Span.Nested.advance guarded (extent_move s m)

theorem extent_of_building (building : s.phase = .building) : s.extent = s.position :=
  extent_of_unfinished (output?_of_building building)

theorem position_lt (s : Scope) : s.position < 4294967296 := by
  simp only [position, Code.position]
  omega

theorem protected_openRegion (guarded : s.Protected opened)
    (follows : s.regionsAfter opened (.act .openRegion) = some after) :
    (s.move (.act .openRegion)).after.Protected after := by
  have kept : (s.step .openRegion).after.handlers = s.handlers :=
    handlers_step_of_apart List.not_mem_nil
  have still := guarded.keep (.act .openRegion) kept
  cases phase : s.phase with
  | finished output =>
      simp only [regionsAfter, step_of_finished phase, Reply.refuse] at follows
      cases follows
      exact still
  | failed =>
      simp only [regionsAfter, step_of_failed phase, Reply.refuse] at follows
      cases follows
      exact still
  | building =>
      have reply : s.step .openRegion = .accept s (.position s.position) := by
        rw [step, openRegion, change_of_building phase]
        rfl
      simp only [regionsAfter, reply, Reply.accept] at follows
      cases follows
      rw [move, reply]
      change Span.Nested s.handlers.spans (s.position :: opened) s.extent
      rw [← extent_of_building phase]
      exact Span.Nested.opening guarded

theorem protected_closeRegion {start : Nat} {kind : HandlerKind} {target : UInt32}
    (guarded : s.Protected opened)
    (follows : s.regionsAfter opened (.act (.closeRegion start kind target)) = some after) :
    (s.move (.act (.closeRegion start kind target))).after.Protected after := by
  have reply : s.step (.closeRegion start kind target) =
      (s.addHandler ⟨kind, .ofNat start, .ofNat s.position, target⟩).map fun _ => .done := rfl
  rcases s.addHandler_cases ⟨kind, .ofNat start, .ofNat s.position, target⟩ with
    ⟨building, accepted, recorded⟩ | ⟨⟨fault, refused⟩, kept⟩
  · cases opened with
    | nil =>
        simp only [regionsAfter, reply, Reply.map, accepted, Except.map] at follows
        cases follows
    | cons innermost outer =>
        simp only [regionsAfter, reply, Reply.map, accepted, Except.map,
          Option.ite_none_right_eq_some, Option.some.injEq] at follows
        obtain ⟨rfl, rfl⟩ := follows
        -- Both ends are positions, so the words of the record hold them whole.
        have reached : start ≤ s.position := by
          rw [← extent_of_building building]
          exact guarded.behind start List.mem_cons_self
        have bound := s.position_lt
        have span : Handler.span ⟨kind, .ofNat start, .ofNat s.position, target⟩ =
            ⟨start, s.position⟩ := by
          rw [Handler.span, UInt32.toNat_ofNat_of_lt' (Nat.lt_of_le_of_lt reached bound),
            UInt32.toNat_ofNat_of_lt' bound]
        have closed := Span.Nested.closing guarded
        rw [extent_of_building building, ← span, ← Handlers.spans_push] at closed
        have grown := extent_move s (.act (.closeRegion start kind target))
        rw [extent_of_building building] at grown
        rw [Protected, move, reply, Reply.after_map, recorded]
        exact closed.advance grown
  · simp only [regionsAfter, reply, Reply.map, refused, Except.map] at follows
    cases follows
    exact guarded.keep _ kept

theorem protected_addHandler {handler : Handler} (guarded : s.Protected opened)
    (follows : s.regionsAfter opened (.act (.addHandler handler)) = some after) :
    (s.move (.act (.addHandler handler))).after.Protected after := by
  have reply : s.step (.addHandler handler) = (s.addHandler handler).map fun _ => .done := rfl
  rcases s.addHandler_cases handler with ⟨building, accepted, recorded⟩ | ⟨⟨fault, refused⟩, kept⟩
  · simp only [regionsAfter, reply, Reply.map, accepted, Except.map] at follows
    cases follows
  · simp only [regionsAfter, reply, Reply.map, refused, Except.map] at follows
    cases follows
    exact guarded.keep _ kept

theorem protected_move {m : Move} (guarded : s.Protected opened)
    (follows : s.regionsAfter opened m = some after) : (s.move m).after.Protected after := by
  cases m with
  | finish childCount =>
      cases follows
      exact guarded.keep _ (s.handlers_finish childCount)
  | act op =>
      cases op with
      | openRegion => exact protected_openRegion guarded follows
      | closeRegion start kind target => exact protected_closeRegion guarded follows
      | addHandler handler => exact protected_addHandler guarded follows
      | _ =>
          cases follows
          exact guarded.keep _ (handlers_step_of_apart (by simp [Op.touches]))

theorem protected_play (moves : List Move) (guarded : s.Protected opened)
    (follows : s.regions opened moves = some after) : (s.play moves).Protected after := by
  induction moves generalizing s opened with
  | nil =>
      cases follows
      exact guarded
  | cons m moves ih =>
      obtain ⟨between, first, rest⟩ := Option.bind_eq_some_iff.mp follows
      exact ih (protected_move guarded first) rest

/-- After moves that open and close regions like brackets, whatever else they do and whatever is
refused, handlers cover code that is there: they end at the position at most if no move is to finish
the scope, and within the code handed on if it is finished. Of two handlers the earlier one lies
inside the later or ends before it starts; and the first that covers a place lies inside all that
cover it. -/
theorem handlers_innermost_first (id : ScopeId) (parent : Option ScopeId) (top : Bool)
    (nesting : Nesting) (limits : Limits) (moves : List Move) (opened : List Nat)
    (bracketed : (fresh id parent top nesting limits).regions [] moves = some opened) :
    let s := (fresh id parent top nesting limits).play moves
    ((∀ childCount, .finish childCount ∉ moves) →
      ∀ h ∈ s.handlers.entries, h.start.toNat ≤ h.stop.toNat ∧ h.stop.toNat ≤ s.position) ∧
    (∀ h ∈ s.handlers.entries, h.start.toNat ≤ h.stop.toNat ∧
      (s.isFinished = false → h.stop.toNat ≤ s.position) ∧
      ∀ output, s.output? = some output → h.stop.toNat ≤ output.codeSize) ∧
    (s.handlers.entries.toList.Pairwise fun first second =>
      second.start.toNat ≤ first.start.toNat ∧ first.stop.toNat ≤ second.stop.toNat ∨
        first.stop.toNat ≤ second.start.toNat) ∧
    ∀ place first, s.handlers.at? place = some first →
      ∀ h ∈ s.handlers.entries, h.covers place = true →
        h.start.toNat ≤ first.start.toNat ∧ first.stop.toNat ≤ h.stop.toNat := by
  intro s
  have start : (fresh id parent top nesting limits).Protected [] := Span.Nested.none _
  have guarded : s.Protected opened := protected_play moves start bracketed
  have inside : ∀ h ∈ s.handlers.entries,
      h.start.toNat ≤ h.stop.toNat ∧ h.stop.toNat ≤ s.extent := by
    intro h member
    exact guarded.forward h.span (Handlers.mem_spans member)
  refine ⟨?_, ?_, List.pairwise_map.mp guarded.yielding, ?_⟩
  · intro acts
    have unfinished : s.output? = none := output?_play_of_acts acts
    rw [← extent_of_unfinished unfinished]
    exact inside
  · intro h member
    obtain ⟨forward, reached⟩ := inside h member
    refine ⟨forward, ?_, ?_⟩
    · intro unfinished
      rw [isFinished_eq, Option.isSome_eq_false_iff, Option.isNone_iff_eq_none] at unfinished
      rw [← extent_of_unfinished unfinished]
      exact reached
    · intro output given
      rw [← extent_of_output? given]
      exact reached
  · intro place first found h member covering
    have leading : s.handlers.spans.find? (·.covers place) = some first.span := by
      rw [Handlers.find?_spans, found]
      rfl
    exact Span.first_within guarded.yielding leading (Handlers.mem_spans member) covering

/-- A region around two that touch and an empty one, a local declared twice, and a region that is
still open when the scope fails. -/
def regionMoves : List Move :=
  [.act .openRegion, .act (.emitAll #[1, 2, 3]), .act .openRegion, .act (.emitAll #[4, 5]),
    .act (.closeRegion 3 .rescue 20), .act .openRegion, .act (.declare "x" .next),
    .act (.declare "x" .next), .act (.emit 6), .act (.closeRegion 5 .rescue 21), .act .openRegion,
    .act (.closeRegion 6 .ensure 22), .act (.emit 7), .act (.closeRegion 0 .ensure 23),
    .act .openRegion, .act (.popMany 9), .act (.closeRegion 7 .rescue 24)]

theorem handlers_innermost_first_touching :
    ∃ s : Scope, s = (fresh ⟨0⟩ none true .method {}).play regionMoves ∧
      (fresh ⟨0⟩ none true .method {}).regions [] regionMoves = some [7] ∧ s.phase = .failed ∧
      s.handlers.spans = [⟨3, 5⟩, ⟨5, 6⟩, ⟨6, 6⟩, ⟨0, 7⟩] ∧ s.position = 7 ∧
      (∀ h ∈ s.handlers.entries, h.stop.toNat ≤ 7) ∧
      ∃ first, s.handlers.at? 5 = some first ∧ first.span = ⟨5, 6⟩ ∧
        ∀ h ∈ s.handlers.entries, h.covers 5 = true →
          h.start.toNat ≤ first.start.toNat ∧ first.stop.toNat ≤ h.stop.toNat := by
  have bracketed : (fresh ⟨0⟩ none true .method {}).regions [] regionMoves = some [7] := by decide
  have acts : ∀ childCount, .finish childCount ∉ regionMoves := by simp [regionMoves]
  obtain ⟨inside, -, -, innermost⟩ :=
    handlers_innermost_first ⟨0⟩ none true .method {} regionMoves [7] bracketed
  refine ⟨_, rfl, bracketed, by decide, by decide, by decide, ?_, _, rfl, by decide,
    innermost 5 _ rfl⟩
  intro h member
  exact (inside acts h member).2

end Scope

end BytecodeScopes
