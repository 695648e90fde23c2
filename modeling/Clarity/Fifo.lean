/-
  Clarity/Fifo.lean
  =================
  **Bounded queues of distinct elements.**  Pushing an element that is queued already does
  nothing; any other goes to the end, and when the queue grows beyond its capacity, its
  front goes out.

    * `history` — what came in is what went out and then the queue: first in, first out;
    * `pushAll_window` — between two times an element comes in, at least `cap` others do.
-/
import Mathlib.Data.List.Nodup

namespace Clarity

namespace Fifo

variable {α : Type} [DecidableEq α] {cap : Nat} {q q' l : List α} {a b : α}

/-- To the end of the queue, and the front out if the queue is too long. -/
def enqueue (cap : Nat) (q : List α) (a : α) : List α :=
  if (q ++ [a]).length > cap then (q ++ [a]).tail else q ++ [a]

def push (cap : Nat) (q : List α) (a : α) : List α := if a ∈ q then q else enqueue cap q a

def pushAll (cap : Nat) (q l : List α) : List α := l.foldl (push cap) q

/-- The elements that were not queued when they were pushed. -/
def news (cap : Nat) : List α → List α → List α
  | _, [] => []
  | q, a :: l => if a ∈ q then news cap q l else a :: news cap (enqueue cap q a) l

/-! ## 1. One push -/

omit [DecidableEq α] in
/-- What an `enqueue` does. -/
theorem enqueue_cases (hcap : 0 < cap) (q : List α) (a : α) :
    (q.length < cap ∧ enqueue cap q a = q ++ [a]) ∨
    ∃ old rest, q = old :: rest ∧ cap ≤ q.length ∧ enqueue cap q a = rest ++ [a] := by
  simp only [enqueue, List.length_append, List.length_singleton]
  by_cases h : q.length + 1 > cap
  · rw [if_pos h]
    cases q with
    | nil => simp only [List.length_nil] at h; omega
    | cons old rest =>
      exact Or.inr ⟨old, rest, rfl, by omega, rfl⟩
  · rw [if_neg h]
    exact Or.inl ⟨by omega, rfl⟩

omit [DecidableEq α] in
theorem nodup_enqueue (hcap : 0 < cap) (h : q.Nodup) (ha : a ∉ q) : (enqueue cap q a).Nodup := by
  rcases enqueue_cases hcap q a with ⟨-, heq⟩ | ⟨old, rest, rfl, -, heq⟩
  · rw [heq]
    exact List.nodup_append_comm.mp (List.nodup_cons.mpr ⟨ha, h⟩)
  · rw [heq]
    obtain ⟨-, hrest⟩ := List.nodup_cons.mp h
    apply List.nodup_append_comm.mp
    exact List.nodup_cons.mpr ⟨fun hmem => ha (List.mem_cons_of_mem _ hmem), hrest⟩

omit [DecidableEq α] in
theorem length_enqueue_le (hcap : 0 < cap) (h : q.length ≤ cap) :
    (enqueue cap q a).length ≤ cap := by
  rcases enqueue_cases hcap q a with ⟨hlt, heq⟩ | ⟨old, rest, rfl, -, heq⟩
  · rw [heq, List.length_append, List.length_singleton]
    exact hlt
  · rw [heq, List.length_append, List.length_singleton]
    exact h

omit [DecidableEq α] in
/-- The element that came in last is at the end. -/
theorem enqueue_eq_snoc (hcap : 0 < cap) (q : List α) (a : α) :
    ∃ front, enqueue cap q a = front ++ [a] ∧ ∀ b ∈ front, b ∈ q := by
  rcases enqueue_cases hcap q a with ⟨-, heq⟩ | ⟨old, rest, rfl, -, heq⟩
  · exact ⟨q, heq, fun _ hb => hb⟩
  · exact ⟨rest, heq, fun _ hb => List.mem_cons_of_mem _ hb⟩

theorem mem_of_mem_push (hcap : 0 < cap) (h : b ∈ push cap q a) : b = a ∨ b ∈ q := by
  rw [push] at h
  split at h
  · exact Or.inr h
  · obtain ⟨front, heq, hfront⟩ := enqueue_eq_snoc hcap q a
    rw [heq] at h
    rcases List.mem_append.mp h with h | h
    · exact Or.inr (hfront b h)
    · exact Or.inl (List.mem_singleton.mp h)

theorem mem_push_self (hcap : 0 < cap) (q : List α) (a : α) : a ∈ push cap q a := by
  rw [push]
  split
  · assumption
  · obtain ⟨front, heq, -⟩ := enqueue_eq_snoc hcap q a
    rw [heq]
    exact List.mem_append_right _ (List.mem_singleton_self a)

theorem nodup_push (hcap : 0 < cap) (h : q.Nodup) : (push cap q a).Nodup := by
  rw [push]
  split
  · exact h
  · rename_i ha
    exact nodup_enqueue hcap h ha

theorem length_push_le (hcap : 0 < cap) (h : q.length ≤ cap) : (push cap q a).length ≤ cap := by
  rw [push]
  split
  · exact h
  · exact length_enqueue_le hcap h

/-- **First in, first out**: what goes out of the queue, and then the queue, is what was in
    it and what comes in. -/
theorem history (hcap : 0 < cap) (h : q.Nodup) (a : α) {gone isNew : α → Bool}
    (hgone : ∀ b, gone b = true ↔ b ∉ push cap q a) (hnew : ∀ b, isNew b = true ↔ b ∉ q) :
    q.filter gone ++ push cap q a = q ++ (push cap q a).filter isNew := by
  have hkept : ∀ l : List α, (∀ b ∈ l, b ∈ push cap q a) → l.filter gone = [] := by
    intro l hl
    apply List.filter_eq_nil_iff.mpr
    intro b hb hb'
    exact (hgone b).mp hb' (hl b hb)
  have hold : ∀ l : List α, (∀ b ∈ l, b ∈ q) → l.filter isNew = [] := by
    intro l hl
    apply List.filter_eq_nil_iff.mpr
    intro b hb hb'
    exact (hnew b).mp hb' (hl b hb)
  by_cases ha : a ∈ q
  · have hpush : push cap q a = q := if_pos ha
    rw [hpush] at hkept ⊢
    rw [hkept q fun _ hb => hb, hold q fun _ hb => hb, List.append_nil, List.nil_append]
  · have hpush : push cap q a = enqueue cap q a := if_neg ha
    have hcomes : [a].filter isNew = [a] := List.filter_cons_of_pos ((hnew a).mpr ha)
    rcases enqueue_cases hcap q a with ⟨-, heq⟩ | ⟨old, rest, rfl, -, heq⟩
    · rw [hpush, heq] at hkept ⊢
      rw [hkept q fun _ hb => List.mem_append_left _ hb, List.filter_append, hcomes,
        hold q fun _ hb => hb, List.nil_append, List.nil_append]
    · obtain ⟨hself, hrest⟩ := List.nodup_cons.mp h
      obtain ⟨hne, -⟩ := not_or.mp (mt List.mem_cons.mpr ha)
      have hout : gone old = true := by
        apply (hgone old).mpr
        rw [hpush, heq]
        intro hmem
        rcases List.mem_append.mp hmem with hmem | hmem
        · exact hself hmem
        · exact hne (List.mem_singleton.mp hmem).symm
      rw [hpush, heq] at hkept ⊢
      rw [List.filter_cons_of_pos hout, hkept rest fun _ hb => List.mem_append_left _ hb,
        List.filter_append, hcomes, hold rest fun _ hb => List.mem_cons_of_mem _ hb]
      simp

/-! ## 2. Runs of pushes -/

theorem nodup_pushAll (hcap : 0 < cap) (h : q.Nodup) : (pushAll cap q l).Nodup := by
  induction l generalizing q with
  | nil => exact h
  | cons a l ih => exact ih (nodup_push hcap h)

/-- What is queued was queued before or came in. -/
theorem mem_of_mem_pushAll (hcap : 0 < cap) (h : b ∈ pushAll cap q l) :
    b ∈ q ∨ b ∈ news cap q l := by
  induction l generalizing q with
  | nil => exact Or.inl h
  | cons a l ih =>
    rw [news]
    have hrest := ih (q := push cap q a) h
    rw [push] at hrest
    split at hrest
    · rename_i ha
      rwa [if_pos ha]
    · rename_i ha
      rw [if_neg ha]
      rcases hrest with hb | hb
      · have hpush : b ∈ push cap q a := by rwa [push, if_neg ha]
        rcases mem_of_mem_push hcap hpush with rfl | hb
        · exact Or.inr (List.mem_cons_self ..)
        · exact Or.inl hb
      · exact Or.inr (List.mem_cons_of_mem _ hb)

/-- While `a` is queued with `later` behind it, it goes out only after the queue was full of
    later elements. -/
theorem pushAll_evicts (hcap : 0 < cap) {front later : List α} (h : (front ++ a :: later).Nodup)
    (hout : a ∉ pushAll cap (front ++ a :: later) l) :
    ∃ ids : List α, ids.Nodup ∧ cap ≤ ids.length ∧ a ∉ ids ∧
      ∀ b ∈ ids, b ∈ later ∨ b ∈ news cap (front ++ a :: later) l := by
  induction l generalizing front later with
  | nil => exact absurd (List.mem_append_right _ (List.mem_cons_self ..)) hout
  | cons b l ih =>
    rw [news]
    by_cases hb : b ∈ front ++ a :: later
    · rw [if_pos hb]
      apply ih h
      have hsame : push cap (front ++ a :: later) b = front ++ a :: later := if_pos hb
      rwa [pushAll, List.foldl_cons, hsame] at hout
    · rw [if_neg hb]
      have hpush : push cap (front ++ a :: later) b = enqueue cap (front ++ a :: later) b :=
        if_neg hb
      rw [pushAll, List.foldl_cons, hpush] at hout
      have hnodup := nodup_enqueue hcap h hb
      -- what comes in behind `later` is behind `a`
      have hnext : ∀ front', enqueue cap (front ++ a :: later) b = front' ++ a :: (later ++ [b]) →
          ∃ ids : List α, ids.Nodup ∧ cap ≤ ids.length ∧ a ∉ ids ∧ ∀ c ∈ ids, c ∈ later ∨
            c ∈ b :: news cap (enqueue cap (front ++ a :: later) b) l := by
        intro front' heq
        rw [heq] at hnodup hout ⊢
        obtain ⟨ids, hids, hlen, ha, hmem⟩ := ih hnodup hout
        refine ⟨ids, hids, hlen, ha, ?_⟩
        intro c hc
        rcases hmem c hc with hc | hc
        · rcases List.mem_append.mp hc with hc | hc
          · exact Or.inl hc
          · exact Or.inr (List.mem_singleton.mp hc ▸ List.mem_cons_self ..)
        · exact Or.inr (List.mem_cons_of_mem _ hc)
      rcases enqueue_cases hcap (front ++ a :: later) b with ⟨-, heq⟩ | ⟨old, rest, hq, hfull, heq⟩
      · apply hnext front
        rw [heq, List.append_assoc, List.cons_append]
      · cases front with
        | nil =>
          -- `a` itself goes out
          obtain ⟨rfl, rfl⟩ := List.cons.inj hq
          rw [List.nil_append] at h hb hfull
          obtain ⟨ha, hlater⟩ := List.nodup_cons.mp h
          obtain ⟨hba, hblater⟩ := not_or.mp (mt List.mem_cons.mpr hb)
          refine ⟨later ++ [b], ?_, ?_, ?_, ?_⟩
          · exact List.nodup_append_comm.mp (List.nodup_cons.mpr ⟨hblater, hlater⟩)
          · rw [List.length_append, List.length_singleton]
            exact hfull
          · intro hmem
            rcases List.mem_append.mp hmem with hmem | hmem
            · exact ha hmem
            · exact hba (List.mem_singleton.mp hmem).symm
          · intro c hc
            rcases List.mem_append.mp hc with hc | hc
            · exact Or.inl hc
            · exact Or.inr (List.mem_singleton.mp hc ▸ List.mem_cons_self ..)
        | cons c front' =>
          have hrest : rest = front' ++ a :: later := (List.cons.inj hq).2.symm
          apply hnext front'
          rw [heq, hrest, List.append_assoc, List.cons_append]

/-- **The window.**  An element that came in and is queued no more has had at least `cap`
    others come in after it. -/
theorem pushAll_window (hcap : 0 < cap) (h : q.Nodup) (ha : a ∉ q)
    (hout : a ∉ pushAll cap (push cap q a) l) : ∃ ids : List α, ids.Nodup ∧ cap ≤ ids.length ∧
      a ∉ ids ∧ ∀ b ∈ ids, b ∈ news cap (push cap q a) l := by
  have hpush : push cap q a = enqueue cap q a := if_neg ha
  obtain ⟨front, heq, -⟩ := enqueue_eq_snoc hcap q a
  have hnodup := nodup_push (a := a) hcap h
  rw [hpush, heq] at hnodup hout ⊢
  obtain ⟨ids, hids, hlen, hself, hmem⟩ := pushAll_evicts hcap hnodup hout
  refine ⟨ids, hids, hlen, hself, ?_⟩
  intro b hb
  rcases hmem b hb with hb | hb
  · exact absurd hb List.not_mem_nil
  · exact hb

/-- Of distinct elements the queue keeps the last ones. -/
theorem pushAll_of_nodup (hcap : 0 < cap) (hlen : q.length ≤ cap) (h : (q ++ l).Nodup) :
    pushAll cap q l = (q ++ l).drop ((q ++ l).length - cap) := by
  induction l generalizing q with
  | nil =>
    have hzero : q.length - cap = 0 := Nat.sub_eq_zero_of_le hlen
    rw [List.append_nil, hzero]
    rfl
  | cons a l ih =>
    have hsplit : q ++ a :: l = q ++ [a] ++ l := by simp
    rw [hsplit] at h ⊢
    have ha : a ∉ q := by
      obtain ⟨hq, -⟩ := List.nodup_append.mp h
      obtain ⟨-, -, hdisj⟩ := List.nodup_append.mp hq
      exact fun hmem => hdisj a hmem a (List.mem_singleton_self _) rfl
    have hpush : push cap q a = enqueue cap q a := if_neg ha
    rw [pushAll, List.foldl_cons, hpush]
    rcases enqueue_cases hcap q a with ⟨hlt, heq⟩ | ⟨old, rest, rfl, hfull, heq⟩
    · rw [heq]
      apply ih _ h
      rw [List.length_append, List.length_singleton]
      exact hlt
    · rw [heq]
      have hlen' : (rest ++ [a]).length ≤ cap := by
        rw [List.length_append, List.length_singleton]
        exact hlen
      rw [List.cons_append, List.cons_append] at h ⊢
      have hrest := ih hlen' (List.nodup_cons.mp h).2
      have hmore : (old :: (rest ++ [a] ++ l)).length - cap =
          (rest ++ [a] ++ l).length - cap + 1 := by
        simp only [List.length_cons, List.length_append, List.length_nil] at hfull ⊢
        omega
      rw [hmore, List.drop_succ_cons]
      exact hrest

end Fifo

end Clarity
