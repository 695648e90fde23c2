/-
  Clarity/Chains.lean
  ===================
  **Keys that are used once, along chains that are saved and loaded.**

  Each owner stands at a place of a chain `k, next k, next (next k), …`.  To use the
  key of a place is to move on to the next place.  A place can be saved while its owner
  is there, and much later every owner may go on from a saved place: this is what a
  crash does to a program that keeps its places in memory.

    * `Store`, `Move` — owners with their saved places, and what can happen to them;
    * `Once` — every key was used at most once, and what keeps it so;
    * `Once.move` — it is kept by every move that starts only new chains and loads only
      unused places.
-/
import Mathlib.Data.List.Nodup
import Mathlib.Data.Set.Basic
import Mathlib.Logic.Function.Iterate

namespace Clarity.Chains

variable {O K : Type}

/-! ## 1. Owners and their places -/

/-- Where the owners are, and the places that were saved for them. -/
structure Store (O K : Type) where
  live : O → Option K
  saved : O → Set K

/-- What a move does. -/
inductive Effect (O K : Type) where
  | none
  | used (place : K)
  | started (owner : O) (place : K)
  | loaded

def Effect.uses : Effect O K → List K
  | .used k => [k]
  | _ => []

def Effect.starts : Effect O K → List (O × K)
  | .started o k => [(o, k)]
  | _ => []

/-- What is saved after a move was saved before, or its owner was there. -/
def Saves (s t : Store O K) : Prop :=
  ∀ o k, k ∈ t.saved o → k ∈ s.saved o ∨ s.live o = some k ∨ t.live o = some k

inductive Move [DecidableEq O] (next : K → K) (s t : Store O K) : Effect O K → Prop where
  | rest : t.live = s.live → Move next s t .none
  | use {o : O} {k : K} : s.live o = some k →
      t.live = Function.update s.live o (some (next k)) → Move next s t (.used k)
  | start {o : O} {k : K} : t.live = Function.update s.live o (some k) →
      Move next s t (.started o k)
  | load : (∀ o k, t.live o = some k → k ∈ s.saved o) → Move next s t .loaded

theorem Saves.trans {s t u : Store O K} (h : Saves s t) (h' : Saves t u)
    (hlive : ∀ o k, t.live o = some k → s.live o = some k ∨ u.live o = some k) : Saves s u := by
  intro o k hk
  rcases h' o k hk with hk | hk | hk
  · rcases h o k hk with hk | hk | hk
    · exact Or.inl hk
    · exact Or.inr (Or.inl hk)
    · exact Or.inr (hlive o k hk)
  · exact Or.inr (hlive o k hk)
  · exact Or.inr (Or.inr hk)

theorem Move.before [DecidableEq O] {next : K → K} {r s t : Store O K} {effect : Effect O K}
    (h : Move next s t effect) (hlive : s.live = r.live) (heffect : effect ≠ .loaded) :
    Move next r t effect := by
  cases h with
  | rest h => exact .rest (h.trans hlive)
  | use hk h =>
    rw [hlive] at hk h
    exact .use hk h
  | start h =>
    rw [hlive] at h
    exact .start h
  | load h => exact absurd rfl heffect

theorem Move.after [DecidableEq O] {next : K → K} {s t u : Store O K} {effect : Effect O K}
    (h : Move next s t effect) (hlive : u.live = t.live) : Move next s u effect := by
  cases h with
  | rest h => exact .rest (hlive.trans h)
  | use hk h => exact .use hk (hlive.trans h)
  | start h => exact .start (hlive.trans h)
  | load h =>
    apply Move.load
    intro o k hk
    rw [hlive] at hk
    exact h o k hk

/-! ## 2. Places of different chains -/

section Places

variable {next : K → K}

/-- Chains that do not start behind another place meet only if they are the same. -/
theorem iterate_eq (hnext : Function.Injective next) {a b : K} (ha : ∀ j, next j ≠ a)
    (hb : ∀ j, next j ≠ b) (n m : Nat) (h : next^[n] a = next^[m] b) : n = m ∧ a = b := by
  induction n generalizing m with
  | zero =>
    cases m with
    | zero => exact ⟨rfl, h⟩
    | succ m =>
      rw [Function.iterate_succ_apply'] at h
      exact absurd h.symm (ha _)
  | succ n ih =>
    cases m with
    | zero =>
      rw [Function.iterate_succ_apply'] at h
      exact absurd h (hb _)
    | succ m =>
      rw [Function.iterate_succ_apply', Function.iterate_succ_apply'] at h
      obtain ⟨hnm, hab⟩ := ih m (hnext h)
      exact ⟨congrArg Nat.succ hnm, hab⟩

/-- The place is on a chain that was started for the owner. -/
def On (next : K → K) (starts : List (O × K)) (o : O) (k : K) : Prop :=
  ∃ a n, (o, a) ∈ starts ∧ next^[n] a = k

/-- The key of the place before was used. -/
def Reached (next : K → K) (used : List K) (k : K) : Prop := ∀ j, next j = k → j ∈ used

theorem On.step {starts : List (O × K)} {o : O} {k : K} (h : On next starts o k) :
    On next starts o (next k) := by
  obtain ⟨a, n, ha, rfl⟩ := h
  exact ⟨a, n + 1, ha, Function.iterate_succ_apply' next n a⟩

theorem On.mono {starts starts' : List (O × K)} {o : O} {k : K} (h : On next starts o k)
    (hsub : starts ⊆ starts') : On next starts' o k := by
  obtain ⟨a, n, ha, hk⟩ := h
  exact ⟨a, n, hsub ha, hk⟩

theorem Reached.mono {used used' : List K} {k : K} (h : Reached next used k)
    (hsub : used ⊆ used') : Reached next used' k := fun j hj => hsub (h j hj)

end Places

/-! ## 3. Every key is used at most once -/

/-- No used place is ahead of its owner, and no place on the way to one is unused. -/
structure Once (next : K → K) (starts : List (O × K)) (used : List K) (s : Store O K) : Prop where
  first : ∀ e ∈ starts, ∀ j, next j ≠ e.2
  distinct : ∀ e ∈ starts, ∀ e' ∈ starts, e.2 = e'.2 → e = e'
  live : ∀ o k, s.live o = some k → On next starts o k ∧ Reached next used k ∧ k ∉ used
  saved : ∀ o k, k ∈ s.saved o → On next starts o k ∧ Reached next used k
  used_on : ∀ k ∈ used, ∃ o, On next starts o k
  used_back : ∀ k, next k ∈ used → k ∈ used
  used_once : used.Nodup

namespace Once

variable {next : K → K} {starts : List (O × K)} {used : List K} {s t : Store O K}

theorem empty : Once next [] [] (⟨fun _ => none, fun _ => ∅⟩ : Store O K) where
  first := fun _ he => absurd he List.not_mem_nil
  distinct := fun _ he => absurd he List.not_mem_nil
  live := fun _ _ hk => nomatch hk
  saved := fun _ _ hk => hk.elim
  used_on := fun _ hk => absurd hk List.not_mem_nil
  used_back := fun _ hk => absurd hk List.not_mem_nil
  used_once := List.nodup_nil

/-- Two owners are never at the same place. -/
theorem owner_unique (h : Once next starts used s) (hnext : Function.Injective next) {o o' : O}
    {k : K} (hk : On next starts o k) (hk' : On next starts o' k) : o = o' := by
  obtain ⟨a, n, ha, rfl⟩ := hk
  obtain ⟨b, m, hb, heq⟩ := hk'
  obtain ⟨-, hba⟩ := iterate_eq hnext (h.first _ hb) (h.first _ ha) m n heq
  exact congrArg Prod.fst (h.distinct _ ha _ hb hba.symm)

theorem next_ne (h : Once next starts used s) (hnext : Function.Injective next) {o : O} {k : K}
    (hk : On next starts o k) : next k ≠ k := by
  obtain ⟨a, n, ha, rfl⟩ := hk
  intro heq
  rw [← Function.iterate_succ_apply' next n a] at heq
  obtain ⟨hlen, -⟩ := iterate_eq hnext (h.first _ ha) (h.first _ ha) _ _ heq
  exact Nat.succ_ne_self n hlen

theorem rest (h : Once next starts used s) (hsaves : Saves s t) (hlive : t.live = s.live) :
    Once next starts used t where
  first := h.first
  distinct := h.distinct
  live := by
    intro o k hk
    rw [hlive] at hk
    exact h.live o k hk
  saved := by
    intro o k hk
    rcases hsaves o k hk with hk | hk | hk
    · exact h.saved o k hk
    · obtain ⟨hon, hreached, -⟩ := h.live o k hk
      exact ⟨hon, hreached⟩
    · rw [hlive] at hk
      obtain ⟨hon, hreached, -⟩ := h.live o k hk
      exact ⟨hon, hreached⟩
  used_on := h.used_on
  used_back := h.used_back
  used_once := h.used_once

theorem load (h : Once next starts used s) (hsaves : Saves s t)
    (hload : ∀ o k, t.live o = some k → k ∈ s.saved o)
    (hunused : ∀ o k, t.live o = some k → k ∉ used) : Once next starts used t := by
  have hlive : ∀ o k, t.live o = some k →
      On next starts o k ∧ Reached next used k ∧ k ∉ used := by
    intro o k hk
    obtain ⟨hon, hreached⟩ := h.saved o k (hload o k hk)
    exact ⟨hon, hreached, hunused o k hk⟩
  refine ⟨h.first, h.distinct, hlive, ?_, h.used_on, h.used_back, h.used_once⟩
  intro o k hk
  rcases hsaves o k hk with hk | hk | hk
  · exact h.saved o k hk
  · obtain ⟨hon, hreached, -⟩ := h.live o k hk
    exact ⟨hon, hreached⟩
  · obtain ⟨hon, hreached, -⟩ := hlive o k hk
    exact ⟨hon, hreached⟩

section Owners

variable [DecidableEq O]

theorem use (h : Once next starts used s) (hnext : Function.Injective next) (hsaves : Saves s t)
    {o : O} {k : K} (hk : s.live o = some k)
    (hlive : t.live = Function.update s.live o (some (next k))) :
    Once next starts (used ++ [k]) t := by
  obtain ⟨hon, hreached, hunused⟩ := h.live o k hk
  have hsub : used ⊆ used ++ [k] := List.subset_append_left _ _
  have hlive' : ∀ o' k', t.live o' = some k' →
      On next starts o' k' ∧ Reached next (used ++ [k]) k' ∧ k' ∉ used ++ [k] := by
    intro o' k' hk'
    rw [hlive] at hk'
    by_cases ho : o' = o
    · subst ho
      rw [Function.update_self] at hk'
      cases hk'
      refine ⟨hon.step, ?_, ?_⟩
      · intro j hj
        rw [hnext hj]
        exact List.mem_append_right _ (List.mem_singleton_self k)
      · intro hmem
        rcases List.mem_append.mp hmem with hmem | hmem
        · exact hunused (h.used_back k hmem)
        · exact h.next_ne hnext hon (List.mem_singleton.mp hmem)
    · rw [Function.update_of_ne ho] at hk'
      obtain ⟨hon', hreached', hunused'⟩ := h.live o' k' hk'
      refine ⟨hon', hreached'.mono hsub, ?_⟩
      intro hmem
      rcases List.mem_append.mp hmem with hmem | hmem
      · exact hunused' hmem
      · cases List.mem_singleton.mp hmem
        exact ho (h.owner_unique hnext hon' hon)
  refine ⟨h.first, h.distinct, hlive', ?_, ?_, ?_, ?_⟩
  · intro o' k' hk'
    rcases hsaves o' k' hk' with hk' | hk' | hk'
    · obtain ⟨hon', hreached'⟩ := h.saved o' k' hk'
      exact ⟨hon', hreached'.mono hsub⟩
    · obtain ⟨hon', hreached', -⟩ := h.live o' k' hk'
      exact ⟨hon', hreached'.mono hsub⟩
    · obtain ⟨hon', hreached', -⟩ := hlive' o' k' hk'
      exact ⟨hon', hreached'⟩
  · intro k' hk'
    rcases List.mem_append.mp hk' with hk' | hk'
    · exact h.used_on k' hk'
    · cases List.mem_singleton.mp hk'
      exact ⟨o, hon⟩
  · intro j hj
    rcases List.mem_append.mp hj with hj | hj
    · exact hsub (h.used_back j hj)
    · exact hsub (hreached j (List.mem_singleton.mp hj))
  · refine List.nodup_append.mpr ⟨h.used_once, List.nodup_singleton k, ?_⟩
    rintro k' hk' _ hmem rfl
    cases List.mem_singleton.mp hmem
    exact hunused hk'

theorem start (h : Once next starts used s) (hsaves : Saves s t) {o : O} {k : K}
    (hlive : t.live = Function.update s.live o (some k)) (hfirst : ∀ j, next j ≠ k)
    (hnew : ∀ e ∈ starts, e.2 ≠ k) : Once next (starts ++ [(o, k)]) used t := by
  have hsub : starts ⊆ starts ++ [(o, k)] := List.subset_append_left _ _
  have hfirst' : ∀ e ∈ starts ++ [(o, k)], ∀ j, next j ≠ e.2 := by
    intro e he
    rcases List.mem_append.mp he with he | he
    · exact h.first e he
    · cases List.mem_singleton.mp he
      exact hfirst
  have hunused : k ∉ used := by
    intro hk
    obtain ⟨o', a, n, ha, hn⟩ := h.used_on k hk
    cases n with
    | zero => exact hnew _ ha hn
    | succ n =>
      rw [Function.iterate_succ_apply'] at hn
      exact hfirst _ hn
  have hlive' : ∀ o' k', t.live o' = some k' →
      On next (starts ++ [(o, k)]) o' k' ∧ Reached next used k' ∧ k' ∉ used := by
    intro o' k' hk'
    rw [hlive] at hk'
    by_cases ho : o' = o
    · subst ho
      rw [Function.update_self] at hk'
      cases hk'
      refine ⟨⟨k, 0, List.mem_append_right _ (List.mem_singleton_self _), rfl⟩, ?_, hunused⟩
      intro j hj
      exact absurd hj (hfirst j)
    · rw [Function.update_of_ne ho] at hk'
      obtain ⟨hon', hreached', hunused'⟩ := h.live o' k' hk'
      exact ⟨hon'.mono hsub, hreached', hunused'⟩
  refine ⟨hfirst', ?_, hlive', ?_, ?_, h.used_back, h.used_once⟩
  · intro e he e' he' heq
    rcases List.mem_append.mp he with he | he <;> rcases List.mem_append.mp he' with he' | he'
    · exact h.distinct e he e' he' heq
    · cases List.mem_singleton.mp he'
      exact absurd heq (hnew e he)
    · cases List.mem_singleton.mp he
      exact absurd heq.symm (hnew e' he')
    · rw [List.mem_singleton.mp he, List.mem_singleton.mp he']
  · intro o' k' hk'
    rcases hsaves o' k' hk' with hk' | hk' | hk'
    · obtain ⟨hon', hreached'⟩ := h.saved o' k' hk'
      exact ⟨hon'.mono hsub, hreached'⟩
    · obtain ⟨hon', hreached', -⟩ := h.live o' k' hk'
      exact ⟨hon'.mono hsub, hreached'⟩
    · obtain ⟨hon', hreached', -⟩ := hlive' o' k' hk'
      exact ⟨hon', hreached'⟩
  · intro k' hk'
    obtain ⟨o', hon'⟩ := h.used_on k' hk'
    exact ⟨o', hon'.mono hsub⟩

/-- **The rule for a move.** -/
theorem move (h : Once next starts used s) (hnext : Function.Injective next)
    (hsaves : Saves s t) {effect : Effect O K} (hmove : Move next s t effect)
    (hfirst : ∀ e ∈ effect.starts, (∀ j, next j ≠ e.2) ∧ ∀ e' ∈ starts, e'.2 ≠ e.2)
    (hloaded : effect = .loaded → ∀ o k, t.live o = some k → k ∉ used) :
    Once next (starts ++ effect.starts) (used ++ effect.uses) t := by
  cases hmove with
  | rest hlive =>
    simp only [Effect.starts, Effect.uses, List.append_nil]
    exact h.rest hsaves hlive
  | use hk hlive =>
    simp only [Effect.starts, Effect.uses, List.append_nil]
    exact h.use hnext hsaves hk hlive
  | start hlive =>
    simp only [Effect.starts, Effect.uses, List.append_nil]
    obtain ⟨hno, hnew⟩ := hfirst _ (List.mem_singleton_self _)
    exact h.start hsaves hlive hno hnew
  | load hload =>
    simp only [Effect.starts, Effect.uses, List.append_nil]
    exact h.load hsaves hload (hloaded rfl)

end Owners

end Once

end Clarity.Chains
