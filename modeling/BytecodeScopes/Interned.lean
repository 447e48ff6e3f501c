import Std.Data.HashMap

/-!
A list of entries in order of arrival, no two with the same key, and an index from each key to its
place in the list. Inserting an entry whose key is there already gives the place of the first.
-/

namespace BytecodeScopes

structure Interned {α κ : Type} [BEq κ] [Hashable κ] (key : α → κ) where
  entries : Array α
  index : Std.HashMap κ Nat
  indexed : ∀ k i, index[k]? = some i ↔ entries[i]?.map key = some k

namespace Interned

variable {α κ : Type} [BEq κ] [Hashable κ] {key : α → κ}

def empty : Interned key where
  entries := #[]
  index := ∅
  indexed := by simp

def size (t : Interned key) : Nat := t.entries.size

def find? (t : Interned key) (k : κ) : Option Nat := t.index[k]?

def get? (t : Interned key) (i : Nat) : Option α := t.entries[i]?

/-- Whether an entry with this key is there, or there is room for it below a capacity. -/
def admits (t : Interned key) (capacity : Nat) (k : κ) : Bool :=
  (t.find? k).isSome || t.size < capacity

theorem find?_eq_some_iff (t : Interned key) (k : κ) (i : Nat) :
    t.find? k = some i ↔ (t.get? i).map key = some k := t.indexed k i

variable [LawfulBEq κ]

theorem indexed_push {entries : Array α} {index : Std.HashMap κ Nat} (a : α)
    (indexed : ∀ k i, index[k]? = some i ↔ entries[i]?.map key = some k)
    (fresh : index[key a]? = none) (k : κ) (i : Nat) :
    (index.insert (key a) entries.size)[k]? = some i ↔
      (entries.push a)[i]?.map key = some k := by
  have inside : ∀ {k : κ}, index[k]? = some i → i < entries.size := by
    intro k found
    rw [indexed] at found
    rcases Nat.lt_or_ge i entries.size with h | h
    · exact h
    · simp [Array.getElem?_eq_none h] at found
  rw [Std.HashMap.getElem?_insert, Array.getElem?_push]
  by_cases same : key a = k
  · subst same
    by_cases last : i = entries.size
    · simp [last]
    · have absent : ¬ entries[i]?.map key = some (key a) := by
        rw [← indexed, fresh]
        simp
      simpa [last, eq_comm] using absent
  · by_cases last : i = entries.size
    · have absent : index[k]? ≠ some i := fun found => by
        have := inside found
        omega
      simp [same, last] at absent ⊢
      exact absent
    · simpa [same, last] using indexed k i

/-- The place of an entry's key, with the entry added at the end if the key is new. -/
def insert (t : Interned key) (a : α) : Nat × Interned key :=
  match fresh : t.index[key a]? with
  | some i => (i, t)
  | none =>
      (t.entries.size,
        { entries := t.entries.push a
          index := t.index.insert (key a) t.entries.size
          indexed := indexed_push a t.indexed fresh })

theorem insert_of_find?_some {t : Interned key} {a : α} {i : Nat}
    (known : t.find? (key a) = some i) : t.insert a = (i, t) := by
  unfold insert
  split
  · rename_i found
    rw [find?, found] at known
    cases known
    rfl
  · rename_i absent
    rw [find?, absent] at known
    cases known

theorem insert_of_find?_none {t : Interned key} {a : α} (fresh : t.find? (key a) = none) :
    (t.insert a).1 = t.size ∧ (t.insert a).2.entries = t.entries.push a := by
  unfold insert
  split
  · rename_i found
    rw [find?, found] at fresh
    cases fresh
  · exact ⟨rfl, rfl⟩

end Interned

end BytecodeScopes
