/-
  Clarity/Rollback.lean
  =====================
  **Handing out and rolling back**, in general: a place holds items, hands some of them
  out, loses some, and now and then is saved as it is.  Going back to what was saved
  undoes losses, additions and handings-out alike.

  Items carry tags that are never used again, so that one item handed out twice can be
  told from two equal items.  A `Ledger` that goes back only where nothing saved had
  been handed out hands every item out at most once: that is `Sound`, and one lemma for
  each thing that can happen.
-/
import Mathlib.Data.List.Nodup
import Mathlib.Data.List.Perm.Subperm

namespace Clarity.Rollback

variable {α : Type}

/-- What a place holds, what was saved of it, and what it has handed out. -/
structure Ledger (α : Type) where
  live : List (Nat × α)
  saved : List (Nat × α)
  taken : List (Nat × α)

def tags (items : List (Nat × α)) : List Nat := items.map Prod.fst

theorem tags_append (l l' : List (Nat × α)) : tags (l ++ l') = tags l ++ tags l' :=
  List.map_append

namespace Ledger

/-- Nothing. -/
def empty : Ledger α := ⟨[], [], []⟩

/-- No tag is live or handed out twice, and all are below `bound`. -/
structure Sound (L : Ledger α) (bound : Nat) : Prop where
  nodup : (tags (L.live ++ L.taken)).Nodup
  saved_nodup : (tags L.saved).Nodup
  bounded : ∀ t ∈ tags (L.live ++ L.taken) ++ tags L.saved, t < bound

theorem sound_empty (bound : Nat) : (empty : Ledger α).Sound bound :=
  ⟨List.nodup_nil, List.nodup_nil, fun _ h => absurd h List.not_mem_nil⟩

variable {L : Ledger α} {bound : Nat}

theorem Sound.taken_nodup (h : L.Sound bound) : (tags L.taken).Nodup := by
  have hnodup := h.nodup
  rw [tags_append] at hnodup
  exact (List.nodup_append.mp hnodup).2.1

theorem Sound.mono (h : L.Sound bound) {bound' : Nat} (hle : bound ≤ bound') : L.Sound bound' :=
  ⟨h.nodup, h.saved_nodup, fun t ht => Nat.lt_of_lt_of_le (h.bounded t ht) hle⟩

/-- Items move between what is live and what was handed out, or get lost. -/
theorem Sound.move (h : L.Sound bound) {live taken : List (Nat × α)}
    (hsub : List.Subperm (live ++ taken) (L.live ++ L.taken)) :
    Sound ⟨live, L.saved, taken⟩ bound where
  nodup := by
    obtain ⟨l, hperm, hsublist⟩ := hsub
    have hl : (tags l).Nodup := h.nodup.sublist (hsublist.map _)
    exact (hperm.map Prod.fst).nodup_iff.mp hl
  saved_nodup := h.saved_nodup
  bounded := by
    intro t ht
    apply h.bounded t
    rcases List.mem_append.mp ht with ht | ht
    · obtain ⟨e, he, rfl⟩ := List.mem_map.mp ht
      exact List.mem_append_left _ (List.mem_map_of_mem (hsub.subset he))
    · exact List.mem_append_right _ ht

/-- Fresh items arrive. -/
theorem Sound.add (h : L.Sound bound) {items : List (Nat × α)} {bound' : Nat}
    (hnodup : (tags items).Nodup) (hfresh : ∀ t ∈ tags items, bound ≤ t ∧ t < bound')
    (hle : bound ≤ bound') : Sound ⟨L.live ++ items, L.saved, L.taken⟩ bound' where
  nodup := by
    have hperm : List.Perm (L.live ++ items ++ L.taken) (items ++ (L.live ++ L.taken)) := by
      rw [List.append_assoc]
      exact (List.perm_append_comm_assoc ..)
    apply (hperm.map Prod.fst).nodup_iff.mpr
    rw [List.map_append]
    refine List.nodup_append.mpr ⟨hnodup, h.nodup, ?_⟩
    rintro t ht t' ht' rfl
    have hlow := (hfresh t ht).1
    have hhigh := h.bounded t (List.mem_append_left _ ht')
    exact absurd hhigh (Nat.not_lt.mpr hlow)
  saved_nodup := h.saved_nodup
  bounded := by
    intro t ht
    simp only [tags, List.map_append, List.mem_append] at ht
    rcases ht with ((ht | ht) | ht) | ht
    · refine Nat.lt_of_lt_of_le (h.bounded t ?_) hle
      simp only [tags, List.map_append, List.mem_append]
      exact Or.inl (Or.inl ht)
    · exact (hfresh t ht).2
    · refine Nat.lt_of_lt_of_le (h.bounded t ?_) hle
      simp only [tags, List.map_append, List.mem_append]
      exact Or.inl (Or.inr ht)
    · refine Nat.lt_of_lt_of_le (h.bounded t ?_) hle
      simp only [tags, List.mem_append]
      exact Or.inr ht

/-- The place is saved as it is. -/
def save (L : Ledger α) : Ledger α := { L with saved := L.live }

theorem Sound.save (h : L.Sound bound) : L.save.Sound bound where
  nodup := h.nodup
  saved_nodup := by
    have hnodup := h.nodup
    rw [tags_append] at hnodup
    exact (List.nodup_append.mp hnodup).1
  bounded := by
    intro t ht
    apply h.bounded t
    rcases List.mem_append.mp ht with ht | ht
    · exact List.mem_append_left _ ht
    · rw [tags_append]
      exact List.mem_append_left _ (List.mem_append_left _ ht)

/-- The place is what was saved of it. -/
def rollback (L : Ledger α) : Ledger α := { L with live := L.saved }

/-- Nothing that was saved has been handed out. -/
def Unused (L : Ledger α) : Prop := ∀ t ∈ tags L.saved, t ∉ tags L.taken

theorem Sound.rollback (h : L.Sound bound) (hunused : L.Unused) : L.rollback.Sound bound where
  nodup := by
    show (tags (L.saved ++ L.taken)).Nodup
    rw [tags_append]
    refine List.nodup_append.mpr ⟨h.saved_nodup, h.taken_nodup, ?_⟩
    rintro t ht t' ht' rfl
    exact hunused t ht ht'
  saved_nodup := h.saved_nodup
  bounded := by
    intro t ht
    apply h.bounded t
    have ht' : t ∈ tags (L.saved ++ L.taken) ++ tags L.saved := ht
    simp only [tags, List.map_append, List.mem_append] at ht' ⊢
    tauto

end Ledger

end Clarity.Rollback
