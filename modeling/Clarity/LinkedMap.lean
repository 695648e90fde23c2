/-
  Clarity/LinkedMap.lean
  ======================
  **Insertion-ordered maps.**  A map that iterates in the order in which its keys
  were first inserted: overwriting a key keeps its place.  Keys are distinct by
  construction.

    * `get?_eq_some_iff` — lookups see the entries;
    * `get?_set`, `get?_putIfAbsent` — lookups after the two ways of writing.
-/
import Mathlib.Data.List.Basic

namespace Clarity

structure LinkedMap (κ ν : Type) where
  entries : List (κ × ν)
  nodup : (entries.map Prod.fst).Nodup

namespace LinkedMap

variable {κ ν : Type}

def empty : LinkedMap κ ν := ⟨[], List.nodup_nil⟩

instance : EmptyCollection (LinkedMap κ ν) := ⟨empty⟩

variable [DecidableEq κ]

def find (k : κ) : List (κ × ν) → Option ν
  | [] => none
  | e :: rest => if e.1 = k then some e.2 else find k rest

def get? (m : LinkedMap κ ν) (k : κ) : Option ν := find k m.entries

/-- Overwrite in place, or add at the end. -/
def write (k : κ) (v : ν) : List (κ × ν) → List (κ × ν)
  | [] => [(k, v)]
  | e :: rest => if e.1 = k then (k, v) :: rest else e :: write k v rest

theorem mem_keys_write {k k' : κ} {v : ν} {l : List (κ × ν)}
    (h : k' ∈ (write k v l).map Prod.fst) : k' = k ∨ k' ∈ l.map Prod.fst := by
  induction l with
  | nil => simpa [write] using h
  | cons e rest ih =>
    by_cases he : e.1 = k
    · simp only [write, if_pos he, List.map_cons, List.mem_cons] at h
      rcases h with h | h
      · exact Or.inl h
      · exact Or.inr (List.mem_cons_of_mem _ h)
    · simp only [write, if_neg he, List.map_cons, List.mem_cons] at h
      rcases h with h | h
      · exact Or.inr (by simp [h])
      · rcases ih h with h | h
        · exact Or.inl h
        · exact Or.inr (List.mem_cons_of_mem _ h)

theorem nodup_write {k : κ} {v : ν} {l : List (κ × ν)} (h : (l.map Prod.fst).Nodup) :
    ((write k v l).map Prod.fst).Nodup := by
  induction l with
  | nil => simp [write]
  | cons e rest ih =>
    obtain ⟨hnot, hrest⟩ := List.nodup_cons.mp h
    by_cases he : e.1 = k
    · simp only [write, if_pos he, List.map_cons, List.nodup_cons]
      exact ⟨he ▸ hnot, hrest⟩
    · simp only [write, if_neg he, List.map_cons, List.nodup_cons]
      refine ⟨?_, ih hrest⟩
      intro hmem
      rcases mem_keys_write hmem with h | h
      · exact he h
      · exact hnot h

def set (m : LinkedMap κ ν) (k : κ) (v : ν) : LinkedMap κ ν :=
  ⟨write k v m.entries, nodup_write m.nodup⟩

def putIfAbsent (m : LinkedMap κ ν) (k : κ) (v : ν) : LinkedMap κ ν :=
  match m.get? k with
  | some _ => m
  | none => m.set k v

/-- Without the entry that was inserted first. -/
def dropOldest (m : LinkedMap κ ν) : LinkedMap κ ν :=
  ⟨m.entries.tail, m.nodup.sublist ((List.tail_sublist _).map _)⟩

/-- Without the entry of a key. -/
def erase (m : LinkedMap κ ν) (k : κ) : LinkedMap κ ν :=
  ⟨m.entries.filter fun e => e.1 ≠ k, m.nodup.sublist (List.filter_sublist.map _)⟩

theorem mem_write {k : κ} {v : ν} {l : List (κ × ν)} {e : κ × ν} (h : e ∈ write k v l) :
    e = (k, v) ∨ e ∈ l := by
  induction l with
  | nil => exact Or.inl (List.mem_singleton.mp h)
  | cons e' rest ih =>
    rw [write] at h
    split at h
    · rcases List.mem_cons.mp h with h | h
      · exact Or.inl h
      · exact Or.inr (List.mem_cons_of_mem _ h)
    · rcases List.mem_cons.mp h with h | h
      · exact Or.inr (h ▸ List.mem_cons_self ..)
      · rcases ih h with h | h
        · exact Or.inl h
        · exact Or.inr (List.mem_cons_of_mem _ h)

/-- A new key goes to the end. -/
theorem write_of_not_mem {k : κ} {v : ν} {l : List (κ × ν)} (h : k ∉ l.map Prod.fst) :
    write k v l = l ++ [(k, v)] := by
  induction l with
  | nil => rfl
  | cons e rest ih =>
    obtain ⟨he, hrest⟩ := not_or.mp (mt List.mem_cons.mpr h)
    rw [write, if_neg (Ne.symm he), ih hrest, List.cons_append]

theorem find_write (k k' : κ) (v : ν) (l : List (κ × ν)) :
    find k' (write k v l) = if k' = k then some v else find k' l := by
  induction l with
  | nil => simp [write, find, eq_comm]
  | cons e rest ih =>
    by_cases he : e.1 = k
    · subst he
      by_cases hk : k' = e.1 <;> simp [write, find, hk, eq_comm]
    · by_cases hk : e.1 = k'
      · subst hk
        simp [write, find, he]
      · simp [write, find, he, hk, ih]

/-- Lookups see the entries. -/
theorem get?_eq_some_iff {m : LinkedMap κ ν} {k : κ} {v : ν} :
    m.get? k = some v ↔ (k, v) ∈ m.entries := by
  obtain ⟨entries, hnodup⟩ := m
  show find k entries = some v ↔ (k, v) ∈ entries
  induction entries with
  | nil => simp [find]
  | cons e rest ih =>
    obtain ⟨hnot, hrest⟩ := List.nodup_cons.mp hnodup
    rw [find, List.mem_cons]
    split
    · rename_i he
      subst he
      constructor
      · intro h
        exact Or.inl (by rw [← Option.some.inj h])
      · rintro (h | h)
        · rw [← h]
        · exact absurd (List.mem_map_of_mem h) hnot
    · rename_i he
      rw [ih hrest]
      constructor
      · exact Or.inr
      · rintro (h | h)
        · exact absurd (by rw [← h]) he
        · exact h

@[simp] theorem get?_empty (k : κ) : (∅ : LinkedMap κ ν).get? k = none := rfl

theorem get?_set (m : LinkedMap κ ν) (k k' : κ) (v : ν) :
    (m.set k v).get? k' = if k' = k then some v else m.get? k' := find_write k k' v m.entries

@[simp] theorem get?_set_self (m : LinkedMap κ ν) (k : κ) (v : ν) :
    (m.set k v).get? k = some v := by
  simp [get?_set]

/-- The keys after a write: in place, or at the end. -/
theorem keys_write (k : κ) (v : ν) (l : List (κ × ν)) :
    (write k v l).map Prod.fst =
      if k ∈ l.map Prod.fst then l.map Prod.fst else l.map Prod.fst ++ [k] := by
  induction l with
  | nil => rfl
  | cons e rest ih =>
    by_cases he : e.1 = k
    · have hmem : k ∈ (e :: rest).map Prod.fst := he ▸ List.mem_cons_self ..
      rw [if_pos hmem, write, if_pos he, List.map_cons, List.map_cons, he]
    · rw [write, if_neg he, List.map_cons, ih]
      by_cases hk : k ∈ rest.map Prod.fst
      · have hmem : k ∈ (e :: rest).map Prod.fst := List.mem_cons_of_mem _ hk
        rw [if_pos hk, if_pos hmem, List.map_cons]
      · have hnot : k ∉ (e :: rest).map Prod.fst := by
          intro h
          rcases List.mem_cons.mp h with h | h
          · exact he h.symm
          · exact hk h
        rw [if_neg hk, if_neg hnot, List.map_cons, List.cons_append]

theorem get?_isSome {m : LinkedMap κ ν} {k : κ} :
    (m.get? k).isSome = true ↔ k ∈ m.entries.map Prod.fst := by
  rw [Option.isSome_iff_exists]
  constructor
  · rintro ⟨v, h⟩
    exact List.mem_map_of_mem (f := Prod.fst) (get?_eq_some_iff.mp h)
  · intro h
    obtain ⟨⟨k', v⟩, hmem, rfl⟩ := List.mem_map.mp h
    exact ⟨v, get?_eq_some_iff.mpr hmem⟩

/-- The first key is gone, and no other. -/
theorem get?_dropOldest {m : LinkedMap κ ν} {old : κ} {rest : List κ}
    (h : m.entries.map Prod.fst = old :: rest) (k : κ) :
    m.dropOldest.get? k = if k = old then none else m.get? k := by
  obtain ⟨entries, hnodup⟩ := m
  cases entries with
  | nil => exact nomatch h
  | cons e entries =>
    obtain ⟨rfl, -⟩ := List.cons.inj h
    have hfresh := (List.nodup_cons.mp hnodup).1
    by_cases hk : k = e.1
    · rw [if_pos hk]
      apply Option.not_isSome_iff_eq_none.mp
      rw [get?_isSome, hk]
      exact hfresh
    · rw [if_neg hk]
      show find k entries = find k (e :: entries)
      rw [find, if_neg (Ne.symm hk)]

theorem get?_putIfAbsent (m : LinkedMap κ ν) (k k' : κ) (v : ν) :
    (m.putIfAbsent k v).get? k' = if k' = k then some ((m.get? k).getD v) else m.get? k' := by
  unfold putIfAbsent
  cases hk : m.get? k with
  | none => simp [get?_set]
  | some w =>
    by_cases h : k' = k
    · subst h
      simp [hk]
    · simp [h]

end LinkedMap

end Clarity
