import BytecodeScopes.ListShape
import Mathlib.Data.List.DropRight

/-!
Lists inside lists. A list is started, gets its items one after another, is finished and gives way
to the list around it. Its shape and the counts it sends out at its splats depend on its own
elements and splats alone: a list that is one of its items leaves no trace in it.
-/

namespace BytecodeScopes

/-- An item of a list, which may be a list with items of its own. -/
inductive ListItem where
  | element
  | splat
  | list (items : List ListItem)

inductive ListAnswer where
  | counted
  | flushed (count : Nat)
  | listed (answers : List ListAnswer) (shape : ListShape)

def ListAnswer.flushed? : ListAnswer → Option Nat
  | .flushed count => some count
  | _ => none

namespace ListState

mutual

def runItem (s : ListState) : ListItem → ListAnswer × ListState
  | .element => (.counted, s.element)
  | .splat => (.flushed s.mark.1, s.mark.2)
  | .list items =>
      let (outer, inner) := s.begin
      let (answers, inner) := runItems inner items
      let (shape, idle) := inner.finish
      (.listed answers shape, idle.restore outer)

def runItems (s : ListState) : List ListItem → List ListAnswer × ListState
  | [] => ([], s)
  | item :: items =>
      let (answer, next) := runItem s item
      let (answers, last) := runItems next items
      (answer :: answers, last)

end

/-- What a whole list gives: the answers to its items, its shape, and the states after it is
finished and after the list around it is restored. -/
structure Run where
  answers : List ListAnswer
  shape : ListShape
  idle : ListState
  restored : ListState

def runList (s : ListState) (items : List ListItem) : Run :=
  let (outer, inner) := s.begin
  let (answers, inner) := runItems inner items
  let (shape, idle) := inner.finish
  { answers, shape, idle, restored := idle.restore outer }

theorem runItem_list (s : ListState) (items : List ListItem) :
    s.runItem (.list items) =
      (.listed (s.runList items).answers (s.runList items).shape, (s.runList items).restored) := by
  rw [runItem]
  rfl

theorem runItems_cons (s : ListState) (item : ListItem) (items : List ListItem) :
    s.runItems (item :: items) =
      ((s.runItem item).1 :: ((s.runItem item).2.runItems items).1,
        ((s.runItem item).2.runItems items).2) := by
  rw [runItems]

theorem runItems_append (s : ListState) (front back : List ListItem) :
    s.runItems (front ++ back) =
      ((s.runItems front).1 ++ ((s.runItems front).2.runItems back).1,
        ((s.runItems front).2.runItems back).2) := by
  induction front generalizing s with
  | nil => rw [List.nil_append, runItems, List.nil_append]
  | cons item front ih =>
      rw [List.cons_append, runItems, runItems]
      simp only [ih, List.cons_append]

theorem length_answers (s : ListState) (items : List ListItem) :
    (s.runItems items).1.length = items.length := by
  induction items generalizing s with
  | nil => rw [runItems]; rfl
  | cons item items ih =>
      rw [runItems]
      simp only [List.length_cons, ih]

end ListState

namespace ListItem

def isElement : ListItem → Bool
  | .element => true
  | _ => false

def isSplat : ListItem → Bool
  | .splat => true
  | _ => false

def isList : ListItem → Bool
  | .list _ => true
  | _ => false

def elements (items : List ListItem) : Nat := items.countP isElement

def splats (items : List ListItem) : Bool := items.any isSplat

/-- The items before the first splat, or all. -/
def beforeSplat (items : List ListItem) : List ListItem := items.takeWhile (!·.isSplat)

/-- The items after the last splat, or all. -/
def sinceSplat (items : List ListItem) : List ListItem := items.rtakeWhile (!·.isSplat)

def own (items : List ListItem) : List ListItem := items.filter (!·.isList)

variable {items : List ListItem}

theorem splats_eq_false_iff : splats items = false ↔ ∀ item ∈ items, (!item.isSplat) = true := by
  simp [splats]

theorem splats_concat (items : List ListItem) (item : ListItem) :
    splats (items ++ [item]) = (splats items || item.isSplat) := by
  simp [splats]

theorem elements_concat (items : List ListItem) (item : ListItem) :
    elements (items ++ [item]) = elements items + if item.isElement then 1 else 0 := by
  rw [elements, List.countP_append, List.countP_singleton]
  rfl

theorem sinceSplat_concat (items : List ListItem) (item : ListItem) :
    sinceSplat (items ++ [item]) = if item.isSplat then [] else sinceSplat items ++ [item] := by
  rw [sinceSplat, List.rtakeWhile_concat]
  cases item.isSplat <;> rfl

theorem sinceSplat_of_splats_false (lacks : splats items = false) : sinceSplat items = items :=
  List.rtakeWhile_eq_self_iff.mpr (splats_eq_false_iff.mp lacks)

theorem beforeSplat_of_splats_false (lacks : splats items = false) :
    beforeSplat (items ++ [.splat]) = items := by
  rw [beforeSplat, List.takeWhile_append_of_pos (splats_eq_false_iff.mp lacks)]
  exact List.append_nil items

theorem beforeSplat_concat_of_splats (has : splats items = true) (item : ListItem) :
    beforeSplat (items ++ [item]) = beforeSplat items := by
  rw [beforeSplat, List.takeWhile_append, if_neg]
  · rfl
  · intro whole
    have all := List.takeWhile_eq_self_iff.mp ((List.takeWhile_prefix _).eq_of_length whole)
    rw [splats_eq_false_iff.mpr all] at has
    cases has

end ListItem

namespace ListState

open ListItem

/-- The state of a list that was started and got the items. -/
def holding (items : List ListItem) : ListState where
  splat := if splats items then .after else .before
  phase := if splats items then .split else .gathering
  count := min (elements (sinceSplat items)) countMax
  leading := if splats items then min (elements (beforeSplat items)) countMax else 0

theorem holding_concat {item : ListItem} (plain : item.isSplat = false) (items : List ListItem) :
    holding (items ++ [item]) =
      { holding items with
        count :=
          min (elements (sinceSplat items) + if item.isElement then 1 else 0) countMax } := by
  have same : splats (items ++ [item]) = splats items := by
    rw [splats_concat, plain, Bool.or_false]
  have since : sinceSplat (items ++ [item]) = sinceSplat items ++ [item] := by
    rw [sinceSplat_concat, plain]
    rfl
  simp only [holding, same, since, elements_concat]
  by_cases has : splats items = true
  · rw [beforeSplat_concat_of_splats has]
  · simp only [if_neg has]

theorem holding_mark (items : List ListItem) :
    (holding items).mark =
      (min (elements (sinceSplat items)) countMax, holding (items ++ [.splat])) := by
  have now : splats (items ++ [.splat]) = true := by
    rw [splats_concat, isSplat, Bool.or_true]
  have since : sinceSplat (items ++ [.splat]) = [] := sinceSplat_concat items .splat
  rw [mark, holding, holding, now, since]
  by_cases has : splats items = true
  · rw [beforeSplat_concat_of_splats has]
    simp only [has]
    rfl
  · have lacks : splats items = false := Bool.eq_false_iff.mpr has
    rw [beforeSplat_of_splats_false lacks, sinceSplat_of_splats_false lacks]
    simp only [lacks]
    rfl

theorem runItem_holding (items : List ListItem) (item : ListItem) :
    ((holding items).runItem item).2 = holding (items ++ [item]) := by
  cases item with
  | element =>
      rw [runItem, holding_concat rfl]
      have count : min (min (elements (sinceSplat items)) countMax + 1) countMax =
          min (elements (sinceSplat items) + 1) countMax := by omega
      exact congrArg (fun n => { holding items with count := n }) count
  | splat => rw [runItem, holding_mark]
  | list inner =>
      rw [runItem_list, holding_concat rfl]
      rfl

theorem runItems_started (items : List ListItem) : (started.runItems items).2 = holding items := by
  induction items using List.reverseRecOn with
  | nil => rw [runItems]; rfl
  | append_singleton items item ih =>
      rw [runItems_append, ih, runItems]
      simp only [runItems, runItem_holding]

theorem answers_runList (s : ListState) (front : List ListItem) (item : ListItem)
    (back : List ListItem) :
    (s.runList (front ++ item :: back)).answers[front.length]? =
      some ((holding front).runItem item).1 := by
  change (started.runItems (front ++ item :: back)).1[front.length]? = _
  rw [runItems_append, runItems_started, runItems,
    List.getElem?_append_right (Nat.le_of_eq (length_answers ..)), length_answers, Nat.sub_self]
  rfl

theorem shape_holding (items : List ListItem) :
    (holding items).shape =
      if splats items then
        .split (min (elements (beforeSplat items)) countMax)
          (min (elements (sinceSplat items)) countMax)
      else .whole (min (elements items) countMax) := by
  rw [shape, holding]
  by_cases has : splats items = true
  · simp only [has]
    rfl
  · have lacks : splats items = false := Bool.eq_false_iff.mpr has
    rw [sinceSplat_of_splats_false lacks]
    simp only [lacks]
    rfl

theorem runItems_own (s : ListState) (items : List ListItem) :
    (s.runItems (own items)).2 = (s.runItems items).2 ∧
      (s.runItems (own items)).1.filterMap ListAnswer.flushed? =
        (s.runItems items).1.filterMap ListAnswer.flushed? := by
  induction items generalizing s with
  | nil => exact ⟨rfl, rfl⟩
  | cons item items ih =>
      cases item with
      | element | splat =>
          -- the item stays, and the rest follows in the state after it
          obtain ⟨state, counts⟩ := ih (s.runItem _).2
          rw [own, List.filter_cons_of_pos rfl, ← own, runItems_cons, runItems_cons]
          refine ⟨state, ?_⟩
          simp only [List.filterMap_cons, counts]
      | list inner =>
          rw [own, List.filter_cons_of_neg (by simp [isList]), runItems_cons, runItem_list]
          exact ih s

/-- The shape of a list is that of its own elements and splats: counted as a whole if there is no
splat, else before the first and after the last. Each splat sends out the elements since the one
before it. Counts stop at the largest. A finished list leaves nothing behind, and the list around it
is as it was; a list inside gives what it gives anywhere, and the list around it what it gives
without. -/
theorem lists_compose (s : ListState) (items : List ListItem) :
    let run := s.runList items
    run.shape =
      (if splats items then
        .split (min (elements (beforeSplat items)) 65535) (min (elements (sinceSplat items)) 65535)
      else .whole (min (elements items) 65535)) ∧
    (∀ front back, items = front ++ .splat :: back →
      run.answers[front.length]? = some (.flushed (min (elements (sinceSplat front)) 65535))) ∧
    run.idle = {} ∧ run.restored = s ∧
    (∀ front inner back t, items = front ++ .list inner :: back →
      run.answers[front.length]? =
        some (.listed (runList t inner).answers (runList t inner).shape)) ∧
    (∀ others, own others = own items →
      (s.runList others).shape = run.shape ∧
      (s.runList others).answers.filterMap ListAnswer.flushed? =
        run.answers.filterMap ListAnswer.flushed?) := by
  intro run
  have shape : ∀ items, (s.runList items).shape = (holding items).shape := by
    intro items
    rw [← runItems_started items]
    rfl
  refine ⟨?_, ?_, rfl, rfl, ?_, ?_⟩
  · rw [shape, shape_holding]
    rfl
  · rintro front back rfl
    rw [answers_runList, runItem, holding_mark]
    rfl
  · rintro front inner back t rfl
    rw [answers_runList, runItem_list]
    rfl
  · intro others same
    obtain ⟨state, counts⟩ := runItems_own started others
    obtain ⟨state', counts'⟩ := runItems_own started items
    rw [same] at state counts
    rw [shape, shape, ← runItems_started, ← runItems_started, ← state, ← state']
    exact ⟨rfl, counts.symm.trans counts'⟩

/-- A splat inside does not split the list around it. -/
example : (runList {} [.element, .list [.splat, .element], .element]).shape = .whole 2 := by decide

end ListState

end BytecodeScopes
