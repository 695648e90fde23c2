/-
  Clarity/Backlog.lean
  ====================
  **A bounded backlog.**  Entries arrive at the end; when they no longer fit, the oldest
  go first.  What is left is the longest suffix that fits, and it does not matter
  whether the bound is enforced after every arrival or once at the end.

  Entries may also expire.  In a backlog that is ordered by age the expired ones are at
  the front, so to drop them early only shortens the backlog by entries that would not
  be looked at any more.

    * `Longest` — the longest suffix of a list that fits;
    * `Longest.snoc` — it can be kept up to date entry by entry;
    * `Lags`, `Lags.snoc`, `Lags.filter` — a backlog that has lost expired entries.
-/
import Mathlib.Data.List.Infix

namespace Clarity.Backlog

variable {α : Type}

/-! ## 1. The longest suffix that fits -/

/-- Whatever fits still fits when it loses its front or its back. -/
structure Bound (fits : List α → Prop) : Prop where
  nil : fits []
  back : ∀ l l', fits (l ++ l') → fits l'
  front : ∀ l l', fits (l ++ l') → fits l

structure Longest (fits : List α → Prop) (s l : List α) : Prop where
  suffix : s <:+ l
  within : fits s
  longest : ∀ t, t <:+ l → fits t → t.length ≤ s.length

variable {fits : List α → Prop} {s s' l : List α}

theorem Longest.unique (h : Longest fits s l) (h' : Longest fits s' l) : s = s' := by
  have hlen := Nat.le_antisymm (h'.longest s h.suffix h.within) (h.longest s' h'.suffix h'.within)
  have hsuffix := List.suffix_of_suffix_length_le h.suffix h'.suffix hlen.le
  exact hsuffix.eq_of_length hlen

theorem Longest.nil (hbound : Bound fits) : Longest fits [] ([] : List α) where
  suffix := List.suffix_rfl
  within := hbound.nil
  longest := fun _ ht _ => ht.length_le

/-- The bound can be enforced entry by entry. -/
theorem Longest.snoc (hbound : Bound fits) (h : Longest fits s l) {x : α}
    (h' : Longest fits s' (s ++ [x])) : Longest fits s' (l ++ [x]) where
  suffix := by
    obtain ⟨front, rfl⟩ := h.suffix
    rw [List.append_assoc]
    exact h'.suffix.trans (List.suffix_append _ _)
  within := h'.within
  longest := by
    intro t ht hfits
    rcases List.eq_nil_or_concat t with rfl | ⟨t, y, rfl⟩
    · exact Nat.zero_le _
    · obtain ⟨front, hfront⟩ := ht
      rw [List.concat_eq_append, ← List.append_assoc] at hfront
      obtain ⟨rfl, hy⟩ := List.append_inj' hfront rfl
      cases hy
      rw [List.concat_eq_append] at hfits ⊢
      have hlen := h.longest t (List.suffix_append _ _) (hbound.front _ _ hfits)
      have hsub := List.suffix_of_suffix_length_le (List.suffix_append front t) h.suffix hlen
      apply h'.longest _ _ hfits
      obtain ⟨rest, hrest⟩ := hsub
      exact ⟨rest, by rw [← hrest, List.append_assoc]⟩

/-! ## 2. Entries that have expired -/

/-- `q` is `s` without entries at its front that have expired. -/
def Lags (expired : α → Prop) (q s : List α) : Prop :=
  ∃ front, s = front ++ q ∧ ∀ x ∈ front, expired x

variable {expired : α → Prop} {q q' : List α}

theorem Lags.refl (s : List α) : Lags expired s s :=
  ⟨[], rfl, fun _ h => absurd h List.not_mem_nil⟩

theorem Lags.mono {expired' : α → Prop} (h : Lags expired q s)
    (hmono : ∀ x, expired x → expired' x) : Lags expired' q s := by
  obtain ⟨front, hs, hfront⟩ := h
  exact ⟨front, hs, fun x hx => hmono x (hfront x hx)⟩

theorem Lags.trans (h : Lags expired q' q) (h' : Lags expired q s) : Lags expired q' s := by
  obtain ⟨front, rfl, hfront⟩ := h
  obtain ⟨front', rfl, hfront'⟩ := h'
  refine ⟨front' ++ front, (List.append_assoc ..).symm, ?_⟩
  intro x hx
  rcases List.mem_append.mp hx with hx | hx
  · exact hfront' x hx
  · exact hfront x hx

/-- Looking at the entries that have not expired, the two are the same. -/
theorem Lags.filter {keeps : α → Bool} (h : Lags (fun x => keeps x = false) q s) :
    s.filter keeps = q.filter keeps := by
  obtain ⟨front, rfl, hfront⟩ := h
  have hnone : front.filter keeps = [] := by
    apply List.filter_eq_nil_iff.mpr
    intro x hx
    rw [hfront x hx]
    exact Bool.false_ne_true
  rw [List.filter_append, hnone, List.nil_append]

/-- An arrival keeps a backlog behind the longest suffix, when both enforce the bound. -/
theorem Lags.snoc (hbound : Bound fits) (h : Lags expired q s) (hs : fits s) {x : α}
    (hq' : Longest fits q' (q ++ [x])) (hs' : Longest fits s' (s ++ [x])) :
    Lags expired q' s' := by
  obtain ⟨front, rfl, hfront⟩ := h
  rw [List.append_assoc] at hs'
  by_cases hlen : s'.length ≤ (q ++ [x]).length
  · -- the longest suffix has lost the whole front as well
    have hsuffix : s' <:+ q ++ [x] :=
      List.suffix_of_suffix_length_le hs'.suffix (List.suffix_append _ _) hlen
    have hlonger := hs'.longest q' (hq'.suffix.trans (List.suffix_append _ _)) hq'.within
    have hshorter := hq'.longest s' hsuffix hs'.within
    have heq : s' = q' := by
      have hsub := List.suffix_of_suffix_length_le hsuffix hq'.suffix hshorter
      exact hsub.eq_of_length (Nat.le_antisymm hshorter hlonger)
    rw [heq]
    exact Lags.refl q'
  · have hsuffix : q ++ [x] <:+ s' :=
      List.suffix_of_suffix_length_le (List.suffix_append _ _) hs'.suffix (Nat.le_of_not_le hlen)
    obtain ⟨rest, hrest⟩ := hsuffix
    have hfits : fits (q ++ [x]) := by
      apply hbound.back rest
      rw [hrest]
      exact hs'.within
    have heq : q' = q ++ [x] :=
      hq'.suffix.eq_of_length (Nat.le_antisymm hq'.suffix.length_le
        (hq'.longest _ List.suffix_rfl hfits))
    rw [heq]
    refine ⟨rest, hrest.symm, ?_⟩
    intro y hy
    apply hfront
    obtain ⟨lost, hlost⟩ := hs'.suffix
    rw [← hrest, ← List.append_assoc] at hlost
    have hsplit := List.append_cancel_right hlost
    rw [← hsplit]
    exact List.mem_append_right _ hy

/-- In a backlog ordered by age the expired entries are at the front. -/
theorem lags_filter {keeps : α → Bool} (h : q.Pairwise fun x y => keeps x → keeps y) :
    Lags (fun x => keeps x = false) (q.filter keeps) q := by
  induction q with
  | nil => exact Lags.refl []
  | cons x rest ih =>
    obtain ⟨hx, hrest⟩ := List.pairwise_cons.mp h
    cases hkeep : keeps x with
    | true =>
      have hall : (x :: rest).filter keeps = x :: rest := by
        apply List.filter_eq_self.mpr
        intro y hy
        rcases List.mem_cons.mp hy with rfl | hy
        · exact hkeep
        · exact hx y hy hkeep
      rw [hall]
      exact Lags.refl _
    | false =>
      obtain ⟨front, hfront, hexpired⟩ := ih hrest
      rw [List.filter_cons_of_neg (by rw [hkeep]; exact Bool.false_ne_true)]
      refine ⟨x :: front, by rw [List.cons_append, ← hfront], ?_⟩
      intro y hy
      rcases List.mem_cons.mp hy with rfl | hy
      · exact hkeep
      · exact hexpired y hy

end Clarity.Backlog
