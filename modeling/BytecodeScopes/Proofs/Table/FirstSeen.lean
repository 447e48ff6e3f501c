import BytecodeScopes.Proofs.Scope.Tables
import Mathlib.Data.List.Basic
import Mathlib.Data.List.Induction

/-!
Tables that entries are offered to one after another. An entry whose key is new is put at the end
while there is room, so the keys are those offered, each where it was first seen, as many as fit; an
entry is the first that was offered with its key, and its place never changes.
-/

namespace BytecodeScopes.Interned

section FirstSeen

variable {κ : Type} [BEq κ]

/-- The different members of a list in the order of their first appearance, cut at a length. -/
def firstSeen (capacity : Nat) (ks : List κ) : List κ := ks.eraseDups.take capacity

variable {capacity : Nat} {ks : List κ} {k : κ}

theorem length_firstSeen_le (capacity : Nat) (ks : List κ) :
    (firstSeen capacity ks).length ≤ capacity := List.length_take_le ..

theorem firstSeen_of_room (room : (firstSeen capacity ks).length < capacity) :
    firstSeen capacity ks = ks.eraseDups := by
  rw [firstSeen, List.length_take] at room
  exact List.take_of_length_le (by omega)

variable [LawfulBEq κ]

theorem eraseDups_concat (ks : List κ) (k : κ) :
    (ks ++ [k]).eraseDups = if k ∈ ks then ks.eraseDups else ks.eraseDups ++ [k] := by
  rw [List.eraseDups_append]
  by_cases seen : k ∈ ks
  · simp [List.removeAll, seen]
  · simp [List.removeAll, seen, List.eraseDups_cons]

theorem firstSeen_concat (capacity : Nat) (ks : List κ) (k : κ) :
    firstSeen capacity (ks ++ [k]) =
      if k ∈ firstSeen capacity ks ∨ capacity ≤ (firstSeen capacity ks).length then
        firstSeen capacity ks
      else firstSeen capacity ks ++ [k] := by
  by_cases room : (firstSeen capacity ks).length < capacity
  · have whole := firstSeen_of_room room
    rw [whole] at room ⊢
    rw [firstSeen, eraseDups_concat]
    by_cases seen : k ∈ ks
    · rw [if_pos seen, if_pos (.inl (List.mem_eraseDups.mpr seen))]
      exact List.take_of_length_le (by omega)
    · have new : ¬ (k ∈ ks.eraseDups ∨ capacity ≤ ks.eraseDups.length) := by
        simp only [List.mem_eraseDups, seen, false_or]
        omega
      rw [if_neg seen, if_neg new]
      apply List.take_of_length_le
      rw [List.length_append, List.length_singleton]
      omega
  · have full : capacity ≤ ks.eraseDups.length := by
      rw [firstSeen, List.length_take] at room
      omega
    rw [if_pos (.inr (by omega)), firstSeen, eraseDups_concat]
    split
    · rfl
    · exact List.take_append_of_le_length full

theorem firstSeen_grows (capacity : Nat) (front back : List κ) :
    firstSeen capacity front <+: firstSeen capacity (front ++ back) := by
  rw [firstSeen, firstSeen, List.eraseDups_append, List.take_append]
  exact List.prefix_append ..

/-- What is cut off once is cut off for good. -/
theorem mem_firstSeen_iff (capacity : Nat) (front back : List κ) (k : κ) :
    k ∈ firstSeen capacity (front ++ k :: back) ↔
      k ∈ firstSeen capacity front ∨ (firstSeen capacity front).length < capacity := by
  have next : firstSeen capacity (front ++ [k]) <+: firstSeen capacity (front ++ k :: back) := by
    have longer := firstSeen_grows capacity (front ++ [k]) back
    rw [List.append_assoc] at longer
    exact longer
  rw [firstSeen_concat] at next
  by_cases seen : k ∈ firstSeen capacity front
  · rw [if_pos (.inl seen)] at next
    exact ⟨fun _ => .inl seen, fun _ => next.subset seen⟩
  · by_cases room : (firstSeen capacity front).length < capacity
    · rw [if_neg (by simp only [seen, false_or]; omega)] at next
      exact ⟨fun _ => .inr room, fun _ => next.subset (by simp)⟩
    · rw [if_pos (.inr (by omega))] at next
      have bound := length_firstSeen_le capacity (front ++ k :: back)
      have same := next.eq_of_length_le (by omega)
      rw [← same]
      exact ⟨.inl, fun holds => holds.resolve_right room⟩

theorem idxOf_firstSeen {front : List κ} (seen : k ∈ firstSeen capacity front) (back : List κ) :
    (firstSeen capacity (front ++ back)).idxOf k = (firstSeen capacity front).idxOf k := by
  obtain ⟨more, split⟩ := firstSeen_grows capacity front back
  rw [← split, List.idxOf_append, if_pos seen]

variable {ι : Type} [BEq ι] [LawfulBEq ι] {f : ι → κ}

theorem firstSeen_map (injective : Function.Injective f) (capacity : Nat) (names : List ι) :
    firstSeen capacity (names.map f) = (firstSeen capacity names).map f := by
  induction names using List.reverseRecOn with
  | nil => simp [firstSeen]
  | append_singleton names a ih =>
      rw [List.map_append, List.map_singleton, firstSeen_concat, firstSeen_concat, ih]
      simp only [List.mem_map_of_injective injective, List.length_map]
      split
      · rfl
      · rw [List.map_append, List.map_singleton]

theorem idxOf_map (injective : Function.Injective f) (names : List ι) (a : ι) :
    (names.map f).idxOf (f a) = names.idxOf a := by
  induction names with
  | nil => rfl
  | cons b names ih =>
      rw [List.map_cons]
      by_cases same : b = a
      · rw [same, List.idxOf_cons_self, List.idxOf_cons_self]
      · rw [List.idxOf_cons_ne _ (injective.ne same), List.idxOf_cons_ne _ same, ih]

end FirstSeen

variable {α κ : Type} [BEq κ] [Hashable κ] {key : α → κ}

def keys (t : Interned key) : List κ := t.entries.toList.map key

theorem length_keys (t : Interned key) : t.keys.length = t.size := by
  simp [keys, size]

theorem find?_eq_some_iff_keys (t : Interned key) (k : κ) (i : Nat) :
    t.find? k = some i ↔ t.keys[i]? = some k := by
  rw [find?_eq_some_iff, keys, List.getElem?_map, Array.getElem?_toList]
  rfl

variable {t : Interned key} {a : α} {k : κ} {capacity : Nat}

theorem find?_of_not_mem (absent : k ∉ t.keys) : t.find? k = none := by
  rw [Option.eq_none_iff_forall_ne_some]
  intro i found
  exact absent (List.mem_of_getElem? ((t.find?_eq_some_iff_keys k i).mp found))

theorem admits_iff : t.admits capacity k = true ↔ k ∈ t.keys ∨ t.keys.length < capacity := by
  rw [admits, Bool.or_eq_true, decide_eq_true_eq, isSome_find?_iff, length_keys]
  rfl

variable [LawfulBEq κ]

theorem find?_of_mem (member : k ∈ t.keys) : t.find? k = some (t.keys.idxOf k) := by
  have inside := List.idxOf_lt_length_iff.mpr member
  rw [find?_eq_some_iff_keys, List.getElem?_eq_getElem inside, List.getElem_idxOf inside]

theorem find?_eq (t : Interned key) (k : κ) :
    t.find? k = if k ∈ t.keys then some (t.keys.idxOf k) else none := by
  split
  · exact find?_of_mem ‹_›
  · exact find?_of_not_mem ‹_›

theorem insert_of_mem (member : key a ∈ t.keys) : t.insert a = (t.keys.idxOf (key a), t) :=
  insert_of_find?_some (find?_of_mem member)

theorem keys_insert_of_not_mem (absent : key a ∉ t.keys) :
    (t.insert a).2.keys = t.keys ++ [key a] := by
  rw [keys, (insert_of_find?_none (find?_of_not_mem absent)).2]
  simp [keys]

theorem find?_insert (t : Interned key) (a : α) :
    (t.insert a).2.find? (key a) = some (t.insert a).1 := by
  by_cases member : key a ∈ t.keys
  · rw [insert_of_mem member]
    exact find?_of_mem member
  · rw [find?_eq_some_iff_keys, keys_insert_of_not_mem member,
      (insert_of_find?_none (find?_of_not_mem member)).1, ← length_keys]
    simp

theorem find?_insert_of_some {i : Nat} (known : t.find? k = some i) (a : α) :
    (t.insert a).2.find? k = some i := by
  by_cases member : key a ∈ t.keys
  · rw [insert_of_mem member]
    exact known
  · rw [find?_eq_some_iff_keys] at known ⊢
    rw [keys_insert_of_not_mem member]
    obtain ⟨inside, -⟩ := List.getElem?_eq_some_iff.mp known
    rw [List.getElem?_append_left inside, known]

/-- The table after an entry was offered, which it takes if there is room or need for none. -/
def offer (capacity : Nat) (t : Interned key) (a : α) : Interned key :=
  if t.admits capacity (key a) then (t.insert a).2 else t

theorem offer_of_mem (member : key a ∈ t.keys) : t.offer capacity a = t := by
  rw [offer, if_pos (admits_iff.mpr (.inl member)), insert_of_mem member]

theorem keys_offer (capacity : Nat) (t : Interned key) (a : α) :
    (t.offer capacity a).keys =
      if key a ∈ t.keys ∨ capacity ≤ t.keys.length then t.keys else t.keys ++ [key a] := by
  by_cases member : key a ∈ t.keys
  · rw [offer_of_mem member, if_pos (.inl member)]
  · by_cases room : t.keys.length < capacity
    · rw [offer, if_pos (admits_iff.mpr (.inr room)), keys_insert_of_not_mem member,
        if_neg (by simp only [member, false_or]; omega)]
    · have refused : ¬ t.admits capacity (key a) = true := by
        simp only [admits_iff, member, room, or_self, not_false_eq_true]
      rw [offer, if_neg refused, if_pos (.inr (by omega))]

theorem mem_entries_offer {b : α} (member : a ∈ (t.offer capacity b).entries) :
    a ∈ t.entries ∨ a = b ∧ key b ∉ t.keys ∧ t.keys.length < capacity := by
  by_cases known : key b ∈ t.keys
  · rw [offer_of_mem known] at member
    exact .inl member
  · by_cases room : t.keys.length < capacity
    · rw [offer, if_pos (admits_iff.mpr (.inr room)),
        (insert_of_find?_none (find?_of_not_mem known)).2, Array.mem_push] at member
      exact member.imp_right fun same => ⟨same, known, room⟩
    · rw [offer, if_neg (by simp only [admits_iff, known, room, or_self, not_false_eq_true])]
        at member
      exact .inl member

def collect (key : α → κ) (capacity : Nat) (offered : List α) : Interned key :=
  offered.foldl (offer capacity) empty

theorem collect_concat (capacity : Nat) (offered : List α) (a : α) :
    collect key capacity (offered ++ [a]) = (collect key capacity offered).offer capacity a :=
  List.foldl_append

theorem keys_collect (capacity : Nat) (offered : List α) :
    (collect key capacity offered).keys = firstSeen capacity (offered.map key) := by
  induction offered using List.reverseRecOn with
  | nil => simp [collect, keys, empty, firstSeen]
  | append_singleton offered a ih =>
      rw [collect_concat, keys_offer, ih, List.map_append, List.map_singleton, firstSeen_concat]

theorem admits_collect_iff (offered : List α) (a : α) (more : List α) :
    (collect key capacity offered).admits capacity (key a) = true ↔
      key a ∈ firstSeen capacity ((offered ++ a :: more).map key) := by
  rw [admits_iff, keys_collect, List.map_append, List.map_cons, mem_firstSeen_iff]

theorem insert_collect {offered more : List α}
    (member : key a ∈ firstSeen capacity ((offered ++ a :: more).map key)) :
    ((collect key capacity offered).insert a).1 =
      (firstSeen capacity ((offered ++ a :: more).map key)).idxOf (key a) := by
  have admitted := (admits_collect_iff offered a more).mpr member
  have taken : collect key capacity (offered ++ [a]) =
      ((collect key capacity offered).insert a).2 := by
    rw [collect_concat, offer, if_pos admitted]
  have seen : key a ∈ (collect key capacity (offered ++ [a])).keys := by
    rw [keys_collect]
    exact (admits_collect_iff offered a []).mp admitted
  have found : (collect key capacity (offered ++ [a])).find? (key a) =
      some ((collect key capacity offered).insert a).1 := by
    rw [taken]
    exact find?_insert _ a
  rw [find?_of_mem seen, Option.some.injEq] at found
  rw [keys_collect] at seen found
  have longer : (offered ++ a :: more).map key = (offered ++ [a]).map key ++ more.map key := by simp
  rw [← found, longer, idxOf_firstSeen seen]

/-- The place of a key among all that are ever offered decides the answer to the offer. -/
theorem answer_collect {ε : Type} (fault : ε) (offered : List α) (a : α) (more : List α) :
    let firsts := firstSeen capacity ((offered ++ a :: more).map key)
    let t := collect key capacity offered
    (if t.admits capacity (key a) then Except.ok (t.insert a).1 else .error fault) =
      if key a ∈ firsts then .ok (firsts.idxOf (key a)) else .error fault := by
  intro firsts t
  have decided : t.admits capacity (key a) = true ↔ key a ∈ firsts :=
    admits_collect_iff offered a more
  by_cases member : key a ∈ firsts
  · have place : (t.insert a).1 = firsts.idxOf (key a) := insert_collect member
    rw [if_pos (decided.mpr member), if_pos member, place]
  · rw [if_neg fun admitted => member (decided.mp admitted), if_neg member]

theorem find?_of_mem_collect {offered : List α}
    (member : a ∈ (collect key capacity offered).entries) :
    offered.find? (key · == key a) = some a := by
  induction offered using List.reverseRecOn with
  | nil => simp [collect, empty] at member
  | append_singleton offered b ih =>
      rw [List.find?_append]
      rw [collect_concat] at member
      rcases mem_entries_offer member with old | ⟨rfl, new, room⟩
      · rw [ih old, Option.some_or]
      · -- nothing was cut off yet, so a key that is not there was never offered
        rw [keys_collect] at new room
        rw [firstSeen_of_room room, List.mem_eraseDups] at new
        have never : offered.find? (key · == key a) = none := by
          rw [List.find?_eq_none]
          intro b before same
          exact new (List.mem_map.mpr ⟨b, before, eq_of_beq same⟩)
        rw [never, Option.none_or, List.find?_singleton, if_pos BEq.rfl]

end BytecodeScopes.Interned
