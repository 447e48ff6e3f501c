import BytecodeScopes.Proofs.Label.Issued
import BytecodeScopes.Proofs.Label.Waiting
import Mathlib.Data.List.Induction
import Mathlib.Data.List.Nodup

/-!
What becomes of the labels put into the queue. A label can wait more than once, so an entry of the
queue is told apart by the time it was put there. Every entry still waits, or it was taken from the
front of the queue, or it was dropped when its label was resolved, and no entry overtakes another.
-/

namespace BytecodeScopes.Labels

structure Entry where
  label : Label
  time : Nat
  deriving DecidableEq, Repr

inductive Fate where
  | waiting
  | taken (time : Nat)
  | dropped (time : Nat)
  deriving DecidableEq, Repr

def Fate.left? : Fate → Option Nat
  | .waiting => none
  | .taken time => some time
  | .dropped time => some time

def arrival? : (Op × Except Fault Answer) × Nat → Option Entry
  | ((.queue label, .ok _), time) => some ⟨label, time⟩
  | _ => none

/-- The entries that were put into the queue, oldest first. Times are places in the history. -/
def entries (h : List (Op × Except Fault Answer)) : List Entry := h.zipIdx.filterMap arrival?

def TakenAt (h : List (Op × Except Fault Answer)) (time : Nat) (label : Label) : Prop :=
  h[time]? = some (.dequeue, .ok (.waiting (some label)))

def ResolvedAt (h : List (Op × Except Fault Answer)) (time : Nat) (label : Label) : Prop :=
  ∃ code limits target, h[time]? = some (.resolve code limits label target, .ok .done)

section Times

variable {h : List (Op × Except Fault Answer)} {x y : Op × Except Fault Answer} {e : Entry}
  {time : Nat} {label : Label}

theorem getElem?_concat_eq_some_iff :
    (h ++ [x])[time]? = some y ↔ h[time]? = some y ∨ time = h.length ∧ x = y := by
  rw [List.getElem?_append]
  by_cases inside : time < h.length
  · simp [inside, Nat.ne_of_lt inside]
  · have absent : h[time]? = none := List.getElem?_eq_none (by omega)
    rw [if_neg inside, absent, List.getElem?_singleton]
    by_cases last : time = h.length
    · simp [last]
    · rw [if_neg (by omega)]
      simp [last]

theorem TakenAt.lt (taken : TakenAt h time label) : time < h.length :=
  (List.getElem?_eq_some_iff.mp taken).1

theorem ResolvedAt.lt (resolved : ResolvedAt h time label) : time < h.length := by
  obtain ⟨code, limits, target, there⟩ := resolved
  exact (List.getElem?_eq_some_iff.mp there).1

theorem TakenAt.concat (taken : TakenAt h time label) (x : Op × Except Fault Answer) :
    TakenAt (h ++ [x]) time label := getElem?_concat_eq_some_iff.mpr (.inl taken)

theorem ResolvedAt.concat (resolved : ResolvedAt h time label) (x : Op × Except Fault Answer) :
    ResolvedAt (h ++ [x]) time label := by
  obtain ⟨code, limits, target, there⟩ := resolved
  exact ⟨code, limits, target, getElem?_concat_eq_some_iff.mpr (.inl there)⟩

theorem takenAt_concat_iff : TakenAt (h ++ [x]) time label ↔
    TakenAt h time label ∨ time = h.length ∧ x = (.dequeue, .ok (.waiting (some label))) :=
  getElem?_concat_eq_some_iff

theorem resolvedAt_concat_iff : ResolvedAt (h ++ [x]) time label ↔
    ResolvedAt h time label ∨ time = h.length ∧ ∃ code limits target,
      x = (.resolve code limits label target, .ok .done) := by
  simp only [ResolvedAt, getElem?_concat_eq_some_iff]
  constructor
  · rintro ⟨code, limits, target, old | ⟨last, same⟩⟩
    · exact .inl ⟨code, limits, target, old⟩
    · exact .inr ⟨last, code, limits, target, same⟩
  · rintro (⟨code, limits, target, old⟩ | ⟨last, code, limits, target, same⟩)
    · exact ⟨code, limits, target, .inl old⟩
    · exact ⟨code, limits, target, .inr ⟨last, same⟩⟩

theorem entries_concat (h : List (Op × Except Fault Answer)) (x : Op × Except Fault Answer) :
    entries (h ++ [x]) = entries h ++ (arrival? (x, h.length)).toList := by
  rw [entries, List.zipIdx_append, List.filterMap_append, Nat.zero_add]
  cases found : arrival? (x, h.length) <;> simp [entries, found]

theorem time_of_arrival? (made : arrival? (x, time) = some e) : e.time = time := by
  unfold arrival? at made
  split at made
  · rename_i shape
    cases shape
    cases made
    rfl
  · cases made

theorem time_lt (member : e ∈ entries h) : e.time < h.length := by
  obtain ⟨⟨x, time⟩, there, made⟩ := List.mem_filterMap.mp member
  rw [time_of_arrival? made]
  exact (List.getElem?_eq_some_iff.mp (List.mem_zipIdx_iff_getElem?.mp there)).1

theorem mem_entries_concat (member : e ∈ entries (h ++ [x])) :
    e ∈ entries h ∨ arrival? (x, h.length) = some e := by
  rw [entries_concat, List.mem_append, Option.mem_toList] at member
  exact member

theorem pairwise_entries (h : List (Op × Except Fault Answer)) :
    (entries h).Pairwise fun e later => e.time < later.time := by
  induction h using List.reverseRecOn with
  | nil => exact .nil
  | append_singleton h x ih =>
      rw [entries_concat, List.pairwise_append]
      refine ⟨ih, ?_, ?_⟩
      · cases arrival? (x, h.length) <;> simp
      · intro e old later new
        rw [time_of_arrival? (Option.mem_toList.mp new)]
        exact time_lt old

theorem nodup_entries (h : List (Op × Except Fault Answer)) : (entries h).Nodup := by
  apply (pairwise_entries h).imp
  intro e later before same
  rw [same] at before
  omega

end Times

/-- The queue of a history, with what became of each entry that was ever in it. Every request that
took a label from the queue took one entry, whatever is older had left before it, and no entry is
left of a label that was resolved after it was queued. -/
structure Conserved (h : List (Op × Except Fault Answer)) (fate : Entry → Fate)
    (queue : List LabelId) : Prop where
  waiting : queue = ((entries h).filter (fate · = .waiting)).map (·.label.id)
  taken : ∀ e ∈ entries h, ∀ time, fate e = .taken time → e.time < time ∧ TakenAt h time e.label
  dropped : ∀ e ∈ entries h, ∀ time, fate e = .dropped time →
    e.time < time ∧ ResolvedAt h time e.label
  once : ∀ time label, TakenAt h time label → ∃ e ∈ entries h, fate e = .taken time ∧
    ∀ other ∈ entries h, fate other = .taken time → other = e
  ordered : ∀ e ∈ entries h, ∀ later ∈ entries h, e.time < later.time →
    ∀ time, fate later = .taken time → ∃ left, (fate e).left? = some left ∧ left < time
  cleared : ∀ e ∈ entries h, ∀ time, e.time < time → ResolvedAt h time e.label →
    ∃ left, (fate e).left? = some left ∧ left ≤ time

theorem Fate.exists_left {fate : Fate} (gone : fate ≠ .waiting) :
    ∃ left, fate.left? = some left := by
  cases fate with
  | waiting => exact absurd rfl gone
  | taken time => exact ⟨time, rfl⟩
  | dropped time => exact ⟨time, rfl⟩

theorem Fate.ne_waiting {fate : Fate} {left : Nat} (gone : fate.left? = some left) :
    fate ≠ .waiting := by
  intro waits
  rw [waits] at gone
  cases gone

def taking (fate : Entry → Fate) (first : Entry) (time : Nat) (e : Entry) : Fate :=
  if e = first then .taken time else fate e

def dropping (fate : Entry → Fate) (label : Label) (time : Nat) (e : Entry) : Fate :=
  if fate e = .waiting ∧ e.label = label ∧ e.time < time then .dropped time else fate e

section Fates

variable {h : List (Op × Except Fault Answer)} {fate : Entry → Fate} {queue : List LabelId}
  {e first : Entry} {rest : List Entry} {time left : Nat} {label : Label}

theorem taking_self : taking fate first time first = .taken time := if_pos rfl

theorem taking_of_ne (different : e ≠ first) : taking fate first time e = fate e :=
  if_neg different

theorem taking_of_left (waits : fate first = .waiting) (gone : fate e ≠ .waiting) :
    taking fate first time e = fate e := by
  apply taking_of_ne
  intro same
  rw [same] at gone
  exact gone waits

theorem left?_taking (waits : fate first = .waiting) (gone : (fate e).left? = some left) :
    (taking fate first time e).left? = some left := by
  rw [taking_of_left waits (Fate.ne_waiting gone)]
  exact gone

theorem dropping_of_left (gone : fate e ≠ .waiting) : dropping fate label time e = fate e := by
  rw [dropping, if_neg]
  exact fun holds => gone holds.1

theorem left?_dropping (gone : (fate e).left? = some left) :
    (dropping fate label time e).left? = some left := by
  rw [dropping_of_left (Fate.ne_waiting gone)]
  exact gone

theorem dropping_eq_taken_iff {moment : Nat} :
    dropping fate label time e = .taken moment ↔ fate e = .taken moment := by
  unfold dropping
  split
  · rename_i holds
    simp [holds.1]
  · rfl

theorem waits_of_front (front : (entries h).filter (fate · = .waiting) = first :: rest) :
    first ∈ entries h ∧ fate first = .waiting := by
  have inside : first ∈ (entries h).filter (fate · = .waiting) := by simp [front]
  simpa using inside

theorem left_of_older (front : (entries h).filter (fate · = .waiting) = first :: rest)
    (member : e ∈ entries h) (older : e.time < first.time) : fate e ≠ .waiting := by
  intro still
  have listed : e ∈ first :: rest := by
    rw [← front]
    simp [member, still]
  -- entries wait in the order of their times, so none behind the first is older
  have sorted : (first :: rest).Pairwise fun e later => e.time < later.time :=
    front ▸ (pairwise_entries h).filter _
  rcases List.mem_cons.mp listed with here | behind
  · rw [here] at older
    omega
  · have after := List.rel_of_pairwise_cons sorted behind
    omega

theorem filter_taking (front : (entries h).filter (fate · = .waiting) = first :: rest) :
    (entries h).filter (taking fate first time · = .waiting) = rest := by
  have distinct : (first :: rest).Nodup := front ▸ (nodup_entries h).filter _
  have still : ∀ e, taking fate first time e = .waiting ↔ e ≠ first ∧ fate e = .waiting := by
    intro e
    by_cases own : e = first
    · simp [own, taking_self]
    · simp [own, taking_of_ne]
  have others : rest.filter (· ≠ first) = rest := by
    rw [List.filter_eq_self]
    intro e inside
    have different : e ≠ first := fun own => (List.nodup_cons.mp distinct).1 (own ▸ inside)
    simpa using different
  calc
    (entries h).filter (taking fate first time · = .waiting) =
        ((entries h).filter (fate · = .waiting)).filter (· ≠ first) := by
      rw [List.filter_filter]
      apply List.filter_congr
      intro e _
      simp [still]
    _ = rest := by rw [front, List.filter_cons_of_neg (by simp), others]

theorem filter_dropping (apart : ∀ e ∈ entries h, e.label.id = label.id → e.label = label) :
    (entries h).filter (dropping fate label h.length · = .waiting) =
      ((entries h).filter (fate · = .waiting)).filter (·.label.id ≠ label.id) := by
  rw [List.filter_filter]
  apply List.filter_congr
  intro e inside
  have began := time_lt inside
  have own : e.label = label ↔ e.label.id = label.id :=
    ⟨fun equal => congrArg Label.id equal, apart e inside⟩
  by_cases waits : fate e = .waiting
  · by_cases labelled : e.label.id = label.id
    · simp [dropping, waits, own, labelled, began]
    · simp [dropping, waits, own, labelled]
  · simp [dropping_of_left waits, waits]

namespace Conserved

theorem left_lt (conserved : Conserved h fate queue) (member : e ∈ entries h)
    (gone : (fate e).left? = some left) : left < h.length := by
  cases what : fate e with
  | waiting => simp [what, Fate.left?] at gone
  | taken moment =>
      have same : moment = left := by simpa [what, Fate.left?] using gone
      exact same ▸ (conserved.taken e member moment what).2.lt
  | dropped moment =>
      have same : moment = left := by simpa [what, Fate.left?] using gone
      exact same ▸ (conserved.dropped e member moment what).2.lt

theorem concat (conserved : Conserved h fate queue)
    (fresh : ∀ e, h.length ≤ e.time → fate e = .waiting) {x : Op × Except Fault Answer}
    (nothingTaken : ∀ label, x ≠ (.dequeue, .ok (.waiting (some label))))
    (nothingResolved : ∀ code limits label target,
      x ≠ (.resolve code limits label target, .ok .done)) :
    Conserved (h ++ [x]) fate (queue ++ (arrival? (x, h.length)).toList.map (·.label.id)) := by
  have new : ∀ e, arrival? (x, h.length) = some e → e.time = h.length ∧ fate e = .waiting := by
    intro e made
    have now := time_of_arrival? made
    exact ⟨now, fresh e (by omega)⟩
  have taken_iff : ∀ {time label}, TakenAt (h ++ [x]) time label ↔ TakenAt h time label := by
    intro time label
    simp [takenAt_concat_iff, nothingTaken]
  have resolved_iff : ∀ {time label},
      ResolvedAt (h ++ [x]) time label ↔ ResolvedAt h time label := by
    intro time label
    simp [resolvedAt_concat_iff, nothingResolved]
  constructor
  case waiting =>
    rw [entries_concat, List.filter_append, List.map_append, ← conserved.waiting]
    congr 1
    cases made : arrival? (x, h.length) with
    | none => rfl
    | some e => simp [(new e made).2]
  case taken =>
    intro e member time gone
    rcases mem_entries_concat member with old | made
    · have holds := conserved.taken e old time gone
      exact ⟨holds.1, taken_iff.mpr holds.2⟩
    · rw [(new e made).2] at gone
      cases gone
  case dropped =>
    intro e member time gone
    rcases mem_entries_concat member with old | made
    · have holds := conserved.dropped e old time gone
      exact ⟨holds.1, resolved_iff.mpr holds.2⟩
    · rw [(new e made).2] at gone
      cases gone
  case once =>
    intro time label taken
    obtain ⟨e, member, gone, only⟩ := conserved.once time label (taken_iff.mp taken)
    refine ⟨e, by rw [entries_concat]; exact List.mem_append_left _ member, gone, ?_⟩
    intro other also same
    rcases mem_entries_concat also with old | made
    · exact only other old same
    · rw [(new other made).2] at same
      cases same
  case ordered =>
    intro e member later after before time gone
    rcases mem_entries_concat after with old | made
    · have earlier := time_lt old
      rcases mem_entries_concat member with older | made
      · exact conserved.ordered e older later old before time gone
      · have now := (new e made).1
        omega
    · rw [(new later made).2] at gone
      cases gone
  case cleared =>
    intro e member time since resolved
    have before := resolved_iff.mp resolved
    rcases mem_entries_concat member with old | made
    · exact conserved.cleared e old time since before
    · have now := (new e made).1
      have past := before.lt
      omega

theorem take (conserved : Conserved h fate queue)
    (front : (entries h).filter (fate · = .waiting) = first :: rest) :
    Conserved (h ++ [(.dequeue, .ok (.waiting (some first.label)))])
      (taking fate first h.length) (rest.map (·.label.id)) := by
  have same : entries (h ++ [(.dequeue, .ok (.waiting (some first.label)))]) = entries h := by
    simp [entries_concat, arrival?]
  obtain ⟨member, waits⟩ := waits_of_front front
  constructor
  case waiting => rw [same, filter_taking front]
  case taken =>
    rw [same]
    intro e inside time gone
    by_cases own : e = first
    · rw [own, taking_self] at gone
      cases gone
      rw [own]
      exact ⟨time_lt member, takenAt_concat_iff.mpr (.inr ⟨rfl, rfl⟩)⟩
    · rw [taking_of_ne own] at gone
      have holds := conserved.taken e inside time gone
      exact ⟨holds.1, holds.2.concat _⟩
  case dropped =>
    rw [same]
    intro e inside time gone
    by_cases own : e = first
    · rw [own, taking_self] at gone
      cases gone
    · rw [taking_of_ne own] at gone
      have holds := conserved.dropped e inside time gone
      exact ⟨holds.1, holds.2.concat _⟩
  case once =>
    rw [same]
    intro time label taken
    rcases takenAt_concat_iff.mp taken with old | ⟨now, -⟩
    · obtain ⟨e, inside, gone, only⟩ := conserved.once time label old
      have past := old.lt
      refine ⟨e, inside, ?_, ?_⟩
      · rw [taking_of_left waits (by simp [gone])]
        exact gone
      · intro other also moment
        by_cases own : other = first
        · rw [own, taking_self] at moment
          cases moment
          omega
        · rw [taking_of_ne own] at moment
          exact only other also moment
    · refine ⟨first, member, by rw [now, taking_self], ?_⟩
      intro other also moment
      by_contra own
      rw [taking_of_ne own] at moment
      have past := (conserved.taken other also time moment).2.lt
      omega
  case ordered =>
    rw [same]
    intro e inside later also before time gone
    by_cases own : later = first
    · rw [own, taking_self] at gone
      cases gone
      obtain ⟨left, away⟩ := Fate.exists_left (left_of_older front inside (own ▸ before))
      exact ⟨left, left?_taking waits away, conserved.left_lt inside away⟩
    · rw [taking_of_ne own] at gone
      obtain ⟨left, away, earlier⟩ := conserved.ordered e inside later also before time gone
      exact ⟨left, left?_taking waits away, earlier⟩
  case cleared =>
    rw [same]
    intro e inside time since resolved
    have old : ResolvedAt h time e.label := by simpa [resolvedAt_concat_iff] using resolved
    obtain ⟨left, away, earlier⟩ := conserved.cleared e inside time since old
    exact ⟨left, left?_taking waits away, earlier⟩

theorem drop (conserved : Conserved h fate queue)
    (apart : ∀ e ∈ entries h, e.label.id = label.id → e.label = label) (code : Code)
    (limits : Limits) (target : Nat) :
    Conserved (h ++ [(.resolve code limits label target, .ok .done)])
      (dropping fate label h.length) (queue.filter (· ≠ label.id)) := by
  have same : entries (h ++ [(.resolve code limits label target, .ok .done)]) = entries h := by
    simp [entries_concat, arrival?]
  constructor
  case waiting =>
    rw [same, filter_dropping apart, conserved.waiting, List.filter_map]
    rfl
  case taken =>
    rw [same]
    intro e inside time gone
    have holds := conserved.taken e inside time (dropping_eq_taken_iff.mp gone)
    exact ⟨holds.1, holds.2.concat _⟩
  case dropped =>
    rw [same]
    intro e inside time gone
    unfold dropping at gone
    split at gone
    · rename_i holds
      cases gone
      refine ⟨holds.2.2, resolvedAt_concat_iff.mpr (.inr ⟨rfl, code, limits, target, ?_⟩)⟩
      rw [holds.2.1]
    · have holds := conserved.dropped e inside time gone
      exact ⟨holds.1, holds.2.concat _⟩
  case once =>
    rw [same]
    intro time other taken
    have old : TakenAt h time other := by simpa [takenAt_concat_iff] using taken
    obtain ⟨e, inside, gone, only⟩ := conserved.once time other old
    refine ⟨e, inside, dropping_eq_taken_iff.mpr gone, ?_⟩
    intro entry also moment
    exact only entry also (dropping_eq_taken_iff.mp moment)
  case ordered =>
    rw [same]
    intro e inside later also before time gone
    obtain ⟨left, away, earlier⟩ :=
      conserved.ordered e inside later also before time (dropping_eq_taken_iff.mp gone)
    exact ⟨left, left?_dropping away, earlier⟩
  case cleared =>
    rw [same]
    intro e inside time since resolved
    rcases resolvedAt_concat_iff.mp resolved with old | ⟨now, _, _, _, shape⟩
    · obtain ⟨left, away, earlier⟩ := conserved.cleared e inside time since old
      exact ⟨left, left?_dropping away, earlier⟩
    · have own : e.label = label := by
        cases shape
        rfl
      rw [now] at since ⊢
      by_cases waits : fate e = .waiting
      · refine ⟨h.length, ?_, Nat.le_refl _⟩
        rw [dropping, if_pos ⟨waits, own, since⟩]
        rfl
      · obtain ⟨left, away⟩ := Fate.exists_left waits
        refine ⟨left, left?_dropping away, ?_⟩
        exact Nat.le_of_lt (conserved.left_lt inside away)

end Conserved

end Fates

variable {ls after : Labels} {op : Op} {answer : Except Fault Answer}

theorem dequeue_of_nil (empty : ls.pending.toList = []) : ls.dequeue = (none, ls) := by
  have absent : ls.pending[0]? = none := by
    rw [← Array.getElem?_toList, empty]
    rfl
  rw [dequeue, absent]

theorem dequeue_of_cons {id : LabelId} {rest : List LabelId}
    (front : ls.pending.toList = id :: rest) :
    ls.dequeue.1 = ls.jumps[id.index]?.map (·.label) ∧ ls.dequeue.2.pending.toList = rest := by
  have first : ls.pending[0]? = some id := by
    rw [← Array.getElem?_toList, front]
    rfl
  have size : ls.pending.size = rest.length + 1 := by
    rw [← Array.length_toList, front, List.length_cons]
  rw [dequeue, first]
  refine ⟨rfl, ?_⟩
  simp [front, size]

/-- Fates that account for the queue of a registry. An entry not yet made counts as waiting. -/
structure Ledger (h : List (Op × Except Fault Answer)) (fate : Entry → Fate) (ls : Labels) :
    Prop where
  conserved : Conserved h fate ls.pending.toList
  fresh : ∀ e, h.length ≤ e.time → fate e = .waiting
  known : ∀ e ∈ entries h, e.label ∈ ls.known

namespace Ledger

variable {h : List (Op × Except Fault Answer)} {fate : Entry → Fate}

theorem concat (ledger : Ledger h fate ls) {x : Op × Except Fault Answer}
    (nothingTaken : ∀ label, x ≠ (.dequeue, .ok (.waiting (some label))))
    (nothingResolved : ∀ code limits label target,
      x ≠ (.resolve code limits label target, .ok .done))
    (pending : after.pending.toList =
      ls.pending.toList ++ (arrival? (x, h.length)).toList.map (·.label.id))
    (known : ∀ e ∈ entries (h ++ [x]), e.label ∈ after.known) : Ledger (h ++ [x]) fate after where
  conserved := by
    rw [pending]
    exact ledger.conserved.concat ledger.fresh nothingTaken nothingResolved
  fresh := by
    intro e later
    rw [List.length_append] at later
    exact ledger.fresh e (by omega)
  known := known

theorem effect (ledger : Ledger h fate ls) (numbered : ls.Numbered)
    (effect : ls.Effect op answer after) : ∃ fate, Ledger (h ++ [(op, answer)]) fate after := by
  have grown : ∀ e ∈ entries h, e.label ∈ after.known := by
    intro e member
    rw [effect.known]
    exact List.mem_append_left _ (ledger.known e member)
  cases effect with
  | reserved code =>
      refine ⟨fate, ledger.concat (by simp) (by simp) ?_ ?_⟩
      · simp [arrival?, Labels.reserve]
      · simpa [entries_concat, arrival?] using grown
  | @queued label jump found =>
      refine ⟨fate, ledger.concat (by simp) (by simp) ?_ ?_⟩
      · simp [arrival?, enqueue]
      · intro e member
        rcases mem_entries_concat member with old | made
        · exact grown e old
        · cases made
          exact mem_known_of_jump? found
  | refused op fault =>
      have nothing : arrival? ((op, .error fault), h.length) = none := by
        cases op <;> rfl
      refine ⟨fate, ledger.concat (by simp) (by simp) ?_ ?_⟩
      · simp [nothing]
      · simpa [entries_concat, nothing] using grown
  | dequeued =>
      cases front : ls.pending.toList with
      | nil =>
          rw [dequeue_of_nil front] at grown ⊢
          refine ⟨fate, ledger.concat (by simp) (by simp) ?_ ?_⟩
          · simp [arrival?]
          · simpa [entries_concat, arrival?] using grown
      | cons id rest =>
          have listed := ledger.conserved.waiting
          rw [front] at listed
          obtain ⟨first, others, split, number, ids⟩ := List.map_eq_cons_iff.mp listed.symm
          obtain ⟨member, -⟩ := waits_of_front split
          obtain ⟨jump, found⟩ := numbered.mem_known_iff.mp (ledger.known first member)
          obtain ⟨there, own⟩ := jump?_eq_some_iff.mp found
          obtain ⟨given, remaining⟩ := dequeue_of_cons front
          have taken : ls.dequeue.1 = some first.label := by
            rw [given, ← number, there, Option.map_some, own]
          rw [taken]
          refine ⟨taking fate first h.length, ?_, ?_, ?_⟩
          · rw [remaining, ← ids]
            exact ledger.conserved.take split
          · intro e later
            rw [List.length_append] at later
            have began := time_lt member
            have different : e ≠ first := by
              rintro rfl
              omega
            rw [taking_of_ne different]
            exact ledger.fresh e (by omega)
          · simpa [entries_concat, arrival?] using grown
  | @settled code limits label target found =>
      have apart : ∀ e ∈ entries h, e.label.id = label.id → e.label = label := by
        intro e member same
        obtain ⟨jump, there⟩ := numbered.mem_known_iff.mp (ledger.known e member)
        exact eq_of_jump? found there same
      refine ⟨dropping fate label h.length, ?_, ?_, ?_⟩
      · have dropped := ledger.conserved.drop apart code limits target
        simpa [settle] using dropped
      · intro e later
        rw [List.length_append] at later
        have unmade : ¬ e.time < h.length := by omega
        rw [dropping, if_neg fun holds => unmade holds.2.2]
        exact ledger.fresh e (by omega)
      · simpa [entries_concat, arrival?] using grown

end Ledger

theorem ledger_run (ops : List Op) :
    ∃ fate, Ledger (({} : Labels).answers ops) fate (({} : Labels).run ops) := by
  induction ops using List.reverseRecOn with
  | nil =>
      refine ⟨fun _ => .waiting, ?_, fun _ _ => rfl, ?_⟩
      · constructor <;> simp [entries, answers, answersBy, run, runBy, TakenAt]
      · simp [entries, answers, answersBy]
  | append_singleton ops op ih =>
      obtain ⟨fate, ledger⟩ := ih
      rw [answers, answersBy_append, run, runBy_concat]
      exact ledger.effect (numbered_run ops) (step_effect _ op)

theorem Waits.dequeue_eq_none_iff {excused : Label → Prop} (waits : ls.Waits excused) :
    ls.dequeue.1 = none ↔ ls.pending = #[] := by
  cases front : ls.pending.toList with
  | nil =>
      rw [dequeue_of_nil front]
      simpa using front
  | cons id rest =>
      have member : id ∈ ls.pending := by simp [← Array.mem_toList_iff, front]
      obtain ⟨jump, found, number, -⟩ := waits id member
      have there := (jump?_eq_some_iff.mp found).1
      have filled : ls.pending ≠ #[] := by
        intro empty
        simp [empty] at front
      rw [(dequeue_of_cons front).1, ← number, there]
      simp [filled]

/-- Every label that was put into the queue is taken from it by one request, in the order of
queueing, or dropped when it is resolved, or it waits. A refused request leaves the queue alone, and
no label is given only if none waits. -/
theorem queue_conserved (ops : List Op) :
    let ls := ({} : Labels).run ops
    (∃ fate, Conserved (({} : Labels).answers ops) fate ls.pending.toList) ∧
    (∀ label fault, (ls.queue label).answer = .error fault → (ls.queue label).after = ls) ∧
    (∀ code limits label target fault, (ls.resolve code limits label target).answer = .error fault →
      (ls.resolve code limits label target).after.1 = ls) ∧
    (ls.dequeue.1 = none ↔ ls.pending = #[]) := by
  intro ls
  obtain ⟨fate, ledger⟩ := ledger_run ops
  refine ⟨⟨fate, ledger.conserved⟩, ?_, ?_, (waits_run ops).dequeue_eq_none_iff⟩
  · intro label fault refused
    exact Reply.attempt_error refused
  · intro code limits label target fault refused
    rw [resolve_error refused]

end BytecodeScopes.Labels
