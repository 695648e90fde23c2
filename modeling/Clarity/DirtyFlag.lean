/-
  Clarity/DirtyFlag.lean
  ======================
  **A copy that is brought up to date later, among threads.**  A thread that changes what
  clients see raises a flag afterwards, under a lock of its own; a thread that finds the
  flag up copies the view and takes the flag down, under the same lock.

  Between a change and its flag the copy may be written and the flag taken down, by someone
  who read the view before the change.  Nothing is forgotten: the thread that changed the
  view has still to raise the flag.

    * `WillMark` — every way on raises the flag;
    * `Tidy` — what a program may do with the view, the copy and the flag;
    * `Tended`, `tended_run` — the invariant;
    * `marked_or_saved` — the flag is up, or the copy is up to date, or a thread will raise
      the flag.
-/
import Clarity.Locks

namespace Clarity

open Knowledge

/-- A view and its copy.  The flag and the copy are what `guard` guards. -/
structure Backup (L S A : Type) (B : L → Type) where
  part : (l : L) → S → B l
  guard : L
  view : S → A
  flag : B guard → Bool
  copy : B guard → A

namespace Backup

variable {L S A ι κ ρ : Type} {B : L → Type} (K : Backup L S A B)

def isUp (s : S) : Bool := K.flag (K.part K.guard s)

def saved (s : S) : A := K.copy (K.part K.guard s)

/-- The flag may be down in whatever state the rest is. -/
def Lowers : Prop := ∀ s, ∃ s', K.isUp s' = false ∧ ∀ l, l ≠ K.guard → K.part l s' = K.part l s

/-! ## 1. Programs -/

/-- Every way on raises the flag. -/
def WillMark : Prog L S ρ → Prop
  | .done _ => False
  | .acquire _ rest => WillMark rest
  | .release _ rest => WillMark rest
  | .act f rest => (∀ s, K.isUp (f s) = true) ∨ ∀ s, WillMark (rest s)

variable [DecidableEq L]

/-- Without the lock a program may change the view if it will raise the flag.  With the lock
    it may take the flag down if the copy is the view as it was `read` since it has the lock. -/
def Tidy : Prog L S ρ → Knowledge B → Option A → Prop
  | .done _, _, _ => True
  | .acquire l rest, known, read => ∀ b, Tidy rest (Function.update known l (some b))
      (if l = K.guard then none else read)
  | .release l rest, known, read => Tidy rest (Function.update known l none)
      (if l = K.guard then none else read)
  | .act f rest, known, read => ∀ s, Agrees K.part known s →
      (K.view (f s) = K.view s ∨ known K.guard = none ∧ K.WillMark (rest s)) ∧
      (K.isUp (f s) = true ∨ K.isUp s = false ∧ K.saved (f s) = K.saved s ∨
        read = some (K.saved (f s)) ∧ known K.guard ≠ none) ∧
      (Tidy (rest s) (look K.part known (f s)) read ∨
        Tidy (rest s) (look K.part known (f s)) (some (K.view s)))

section Tidy

variable {K} {known : Knowledge B} {read : Option A} {l : L} {p : Prog L S ρ} {f : S → S}
  {rest : S → Prog L S ρ}

@[simp] theorem tidy_done (r : ρ) : K.Tidy (.done r : Prog L S ρ) known read := trivial

@[simp] theorem tidy_acquire : K.Tidy (.acquire l p) known read ↔
    ∀ b, K.Tidy p (Function.update known l (some b)) (if l = K.guard then none else read) :=
  Iff.rfl

@[simp] theorem tidy_release : K.Tidy (.release l p) known read ↔
    K.Tidy p (Function.update known l none) (if l = K.guard then none else read) := Iff.rfl

@[simp] theorem tidy_act : K.Tidy (.act f rest) known read ↔ ∀ s, Agrees K.part known s →
    (K.view (f s) = K.view s ∨ known K.guard = none ∧ K.WillMark (rest s)) ∧
    (K.isUp (f s) = true ∨ K.isUp s = false ∧ K.saved (f s) = K.saved s ∨
      read = some (K.saved (f s)) ∧ known K.guard ≠ none) ∧
    (K.Tidy (rest s) (look K.part known (f s)) read ∨
      K.Tidy (rest s) (look K.part known (f s)) (some (K.view s))) := Iff.rfl

end Tidy

/-! ## 2. Threads -/

/-- Thread `i` has still to raise the flag. -/
def InDebt (σ : Threads L S ι κ ρ) (i : ι) : Prop :=
  ∃ c p, σ.running i = some (c, p) ∧ K.WillMark p

/-- A view that the owner of the lock has read is the view, or another thread has changed it
    and has still to raise the flag. -/
structure Tended (σ : Threads L S ι κ ρ) (known : ι → Knowledge B) (read : ι → Option A) :
    Prop where
  tidy : ∀ i c p, σ.running i = some (c, p) → K.Tidy p (known i) (read i)
  read : ∀ i a, known i K.guard ≠ none → read i = some a →
    a = K.view σ.shared ∨ ∃ j, j ≠ i ∧ K.InDebt σ j
  backed : K.isUp σ.shared = true ∨ K.saved σ.shared = K.view σ.shared ∨ ∃ i, K.InDebt σ i

variable {K} {code : κ → Prog L S ρ} {rank : L → Nat} {s₀ : S} {σ σ' : Threads L S ι κ ρ}
  {known : ι → Knowledge B} {read : ι → Option A} {i : ι}

omit [DecidableEq L] in
theorem InDebt.of_ne {j : ι} (h : K.InDebt σ j)
    (hothers : ∀ j, j ≠ i → σ'.running j = σ.running j) (hj : j ≠ i) : K.InDebt σ' j := by
  obtain ⟨c, p, hrun, hmark⟩ := h
  exact ⟨c, p, (hothers j hj).trans hrun, hmark⟩

omit [DecidableEq L] in
/-- A thread in debt whose next act does not raise the flag is in debt after it. -/
theorem InDebt.act {c : κ} {f : S → S} {rest : S → Prog L S ρ} (h : K.InDebt σ i)
    (hrun : σ.running i = some (c, .act f rest)) :
    (∀ s, K.isUp (f s) = true) ∨ ∀ s, K.WillMark (rest s) := by
  obtain ⟨c', p, hp, hmark⟩ := h
  cases hrun.symm.trans hp
  exact hmark

variable [DecidableEq ι]

/-- Thread `i` goes on, has its debts if it had any, and touches nothing shared. -/
theorem Tended.move (h : K.Tended σ known read) {mine : Knowledge B} (mine_read : Option A)
    (hothers : ∀ j, j ≠ i → σ'.running j = σ.running j)
    (htidy : ∀ c p, σ'.running i = some (c, p) → K.Tidy p mine mine_read)
    (hshared : σ'.shared = σ.shared) (hdebt : K.InDebt σ i → K.InDebt σ' i)
    (hmine : ∀ a, mine K.guard ≠ none → mine_read = some a →
      known i K.guard ≠ none ∧ read i = some a) :
    K.Tended σ' (Function.update known i mine) (Function.update read i mine_read) := by
  have hdebts (j : ι) (hj : K.InDebt σ j) : K.InDebt σ' j := by
    by_cases hji : j = i
    · subst hji
      exact hdebt hj
    · exact hj.of_ne hothers hji
  refine ⟨?_, ?_, ?_⟩
  · intro j c p hp
    by_cases hji : j = i
    · subst hji
      simpa using htidy c p hp
    · simpa [hji] using h.tidy j c p ((hothers j hji).symm.trans hp)
  · intro j a hhas hj
    rw [hshared]
    obtain ⟨hhas', hread⟩ : known j K.guard ≠ none ∧ read j = some a := by
      by_cases hji : j = i
      · subst hji
        rw [Function.update_self] at hhas hj
        exact hmine a hhas hj
      · rw [Function.update_of_ne hji] at hhas hj
        exact ⟨hhas, hj⟩
    rcases h.read j a hhas' hread with hview | ⟨k, hk, hin⟩
    · exact .inl hview
    · exact .inr ⟨k, hk, hdebts k hin⟩
  · rw [hshared]
    rcases h.backed with hflag | hcopy | ⟨k, hin⟩
    · exact .inl hflag
    · exact .inr (.inl hcopy)
    · exact .inr (.inr ⟨k, hdebts k hin⟩)

/-- An act without the lock leaves the flag alone, so a debt stays a debt. -/
theorem InDebt.act_free (hknows : Threads.Knows K.part rank σ known) (hlow : K.Lowers) {c : κ}
    {f : S → S} {rest : S → Prog L S ρ} (hrun : σ.running i = some (c, .act f rest))
    (hfree : known i K.guard = none) {j : ι} (h : K.InDebt σ j) :
    K.InDebt { σ.proceed i c (rest σ.shared) with shared := f σ.shared } j := by
  by_cases hji : j = i
  · subst hji
    rcases h.act hrun with hraise | hmark
    · obtain ⟨s, hs, hsame⟩ := hlow σ.shared
      have hagrees : Agrees K.part (known j) s := by
        intro l b hb
        have hl : l ≠ K.guard := by
          rintro rfl
          cases hfree.symm.trans hb
        rw [hsame l hl]
        exact hknows.agrees j l b hb
      obtain ⟨hpart, _⟩ := hknows.careful j _ _ hrun s hagrees
      have hup := hraise s
      rw [isUp, hpart _ hfree, ← isUp, hs] at hup
      cases hup
    · exact ⟨c, _, σ.proceed_self j c _, hmark _⟩
  · exact h.of_ne (fun k hk => σ.proceed_of_ne hk c _) hji

/-- An act without the lock. -/
theorem Tended.act_free (h : K.Tended σ known read) (hknows : Threads.Knows K.part rank σ known)
    (hlow : K.Lowers) {c : κ} {f : S → S} {rest : S → Prog L S ρ}
    (hrun : σ.running i = some (c, .act f rest)) (hfree : known i K.guard = none)
    {mine_read : Option A}
    (htidy : K.Tidy (rest σ.shared) (look K.part (known i) (f σ.shared)) mine_read) :
    K.Tended { σ.proceed i c (rest σ.shared) with shared := f σ.shared }
      (Function.update known i (look K.part (known i) (f σ.shared)))
      (Function.update read i mine_read) := by
  obtain ⟨hview, _⟩ := h.tidy i c _ hrun σ.shared (hknows.agrees i)
  have hguard : K.part K.guard (f σ.shared) = K.part K.guard σ.shared :=
    (hknows.careful i _ _ hrun σ.shared (hknows.agrees i)).1 _ hfree
  -- a view that is no longer the view makes a debt
  have hchange (a : A) (ha : a = K.view σ.shared) : a = K.view (f σ.shared) ∨
      K.InDebt { σ.proceed i c (rest σ.shared) with shared := f σ.shared } i := by
    rcases hview with hsame | ⟨_, hmark⟩
    · exact .inl (ha.trans hsame.symm)
    · exact .inr ⟨c, _, σ.proceed_self i c _, hmark⟩
  refine ⟨?_, ?_, ?_⟩
  · intro j c' p hp
    by_cases hji : j = i
    · subst hji
      cases (σ.proceed_self j c _).symm.trans hp
      simpa using htidy
    · simpa [hji] using h.tidy j c' p ((σ.proceed_of_ne hji c _).symm.trans hp)
  · intro j a hhas hread
    by_cases hji : j = i
    · subst hji
      rw [Function.update_self] at hhas
      exact absurd ((look_eq_none K.part _ _ _).mpr hfree) hhas
    · rw [Function.update_of_ne hji] at hhas hread
      rcases h.read j a hhas hread with ha | ⟨k, hk, hin⟩
      · exact (hchange a ha).imp id fun hin => ⟨i, Ne.symm hji, hin⟩
      · exact .inr ⟨k, hk, hin.act_free hknows hlow hrun hfree⟩
  · show K.isUp (f σ.shared) = true ∨ K.saved (f σ.shared) = K.view (f σ.shared) ∨ _
    rw [isUp, saved, hguard]
    rcases h.backed with hflag | hcopy | ⟨k, hin⟩
    · exact .inl hflag
    · exact .inr ((hchange _ hcopy).imp id fun hin => ⟨i, hin⟩)
    · exact .inr (.inr ⟨k, hin.act_free hknows hlow hrun hfree⟩)

/-- An act with the lock. -/
theorem Tended.act_locked (h : K.Tended σ known read)
    (hknows : Threads.Knows K.part rank σ known) {c : κ} {f : S → S} {rest : S → Prog L S ρ}
    (hrun : σ.running i = some (c, .act f rest)) (hhas : known i K.guard ≠ none)
    {mine_read : Option A} (hmine : mine_read = read i ∨ mine_read = some (K.view σ.shared))
    (htidy : K.Tidy (rest σ.shared) (look K.part (known i) (f σ.shared)) mine_read) :
    K.Tended { σ.proceed i c (rest σ.shared) with shared := f σ.shared }
      (Function.update known i (look K.part (known i) (f σ.shared)))
      (Function.update read i mine_read) := by
  obtain ⟨hkept, hflag, _⟩ := h.tidy i c _ hrun σ.shared (hknows.agrees i)
  have hview : K.view (f σ.shared) = K.view σ.shared := by
    rcases hkept with hsame | ⟨hfree, _⟩
    · exact hsame
    · exact absurd hfree hhas
  have hothers (j : ι) (hj : j ≠ i) : ({ σ.proceed i c (rest σ.shared) with
      shared := f σ.shared } : Threads L S ι κ ρ).running j = σ.running j := σ.proceed_of_ne hj c _
  have hread (a : A) (ha : read i = some a) : a = K.view (f σ.shared) ∨
      ∃ j, j ≠ i ∧ K.InDebt { σ.proceed i c (rest σ.shared) with shared := f σ.shared } j := by
    rw [hview]
    rcases h.read i a hhas ha with hsame | ⟨j, hj, hin⟩
    · exact .inl hsame
    · exact .inr ⟨j, hj, hin.of_ne hothers hj⟩
  refine ⟨?_, ?_, ?_⟩
  · intro j c' p hp
    by_cases hji : j = i
    · subst hji
      cases (σ.proceed_self j c _).symm.trans hp
      simpa using htidy
    · simpa [hji] using h.tidy j c' p ((hothers j hji).symm.trans hp)
  · intro j a hhas' ha
    by_cases hji : j = i
    · subst hji
      rw [Function.update_self] at ha
      rcases hmine with hold | hnew
      · exact hread a (hold.symm.trans ha)
      · exact .inl ((Option.some.inj (hnew.symm.trans ha)).symm.trans hview.symm)
    · rw [Function.update_of_ne hji] at hhas'
      exact absurd (hknows.eq_none (Option.isSome_iff_ne_none.mpr hhas) hji) hhas'
  · rcases hflag with hup | ⟨hdown, hcopy⟩ | ⟨hcopy, _⟩
    · exact .inl hup
    · rcases h.backed with hup | hsame | ⟨j, hin⟩
      · rw [hdown] at hup
        cases hup
      · exact .inr (.inl (hcopy.trans (hsame.trans hview.symm)))
      · by_cases hji : j = i
        · subst hji
          rcases hin.act hrun with hraise | hmark
          · exact .inl (hraise _)
          · exact .inr (.inr ⟨j, c, _, σ.proceed_self j c _, hmark _⟩)
        · exact .inr (.inr ⟨j, hin.of_ne hothers hji⟩)
    · rcases hread _ hcopy with hsame | ⟨j, _, hin⟩
      · exact .inr (.inl hsame)
      · exact .inr (.inr ⟨j, hin⟩)

theorem Tended.act (h : K.Tended σ known read) (hknows : Threads.Knows K.part rank σ known)
    (hlow : K.Lowers) {c : κ} {f : S → S} {rest : S → Prog L S ρ}
    (hrun : σ.running i = some (c, .act f rest)) :
    ∃ read', K.Tended { σ.proceed i c (rest σ.shared) with shared := f σ.shared }
      (Function.update known i (look K.part (known i) (f σ.shared))) read' := by
  obtain ⟨_, _, hrest⟩ := h.tidy i c _ hrun σ.shared (hknows.agrees i)
  obtain ⟨mine_read, hmine, htidy⟩ : ∃ mine_read,
      (mine_read = read i ∨ mine_read = some (K.view σ.shared)) ∧
      K.Tidy (rest σ.shared) (look K.part (known i) (f σ.shared)) mine_read := by
    rcases hrest with hrest | hrest
    · exact ⟨_, .inl rfl, hrest⟩
    · exact ⟨_, .inr rfl, hrest⟩
  refine ⟨Function.update read i mine_read, ?_⟩
  by_cases hfree : known i K.guard = none
  · exact h.act_free hknows hlow hrun hfree htidy
  · exact h.act_locked hknows hrun hfree hmine htidy

theorem Tended.step (hcode : ∀ c, K.Tidy (code c) nothing none) (hlow : K.Lowers)
    (h : K.Tended σ known read) (hknows : Threads.Knows K.part rank σ known)
    {new : List (CallEvent ι κ ρ)} (hstep : Threads.Step code i σ new σ') :
    ∃ read', K.Tended σ' (σ.learn K.part known i) read' := by
  cases hstep with
  | call c hidle =>
    have hnothing := hknows.idle i hidle
    refine ⟨Function.update read i none, ?_⟩
    rw [Threads.learn_of_idle hidle, ← Function.update_eq_self i known]
    refine h.move none (fun j hj => σ.proceed_of_ne hj c _) ?_ rfl ?_ ?_
    · intro c' p hp
      cases (σ.proceed_self i c _).symm.trans hp
      rw [hnothing]
      exact hcode c
    · rintro ⟨c', p, hp, _⟩
      cases hidle.symm.trans hp
    · intro a _ hnone
      cases hnone
  | @acquire c l rest hrun hfree =>
    have htidy := h.tidy i c _ hrun (K.part l σ.shared)
    rw [Threads.learn_of_running hrun]
    refine ⟨_, h.move (if l = K.guard then none else read i) (fun j hj => σ.proceed_of_ne hj c rest)
      ?_ rfl ?_ ?_⟩
    · intro c' p hp
      cases (σ.proceed_self i c rest).symm.trans hp
      exact htidy
    · rintro ⟨c', p, hp, hmark⟩
      cases hrun.symm.trans hp
      exact ⟨c, rest, σ.proceed_self i c rest, hmark⟩
    · intro a hhas hread
      by_cases hl : l = K.guard
      · rw [if_pos hl] at hread
        cases hread
      · rw [if_neg hl] at hread
        rw [Prog.learn, Function.update_of_ne (Ne.symm hl)] at hhas
        exact ⟨hhas, hread⟩
  | @release c l rest hrun =>
    have htidy := h.tidy i c _ hrun
    rw [Threads.learn_of_running hrun]
    refine ⟨_, h.move (if l = K.guard then none else read i) (fun j hj => σ.proceed_of_ne hj c rest)
      ?_ rfl ?_ ?_⟩
    · intro c' p hp
      cases (σ.proceed_self i c rest).symm.trans hp
      exact htidy
    · rintro ⟨c', p, hp, hmark⟩
      cases hrun.symm.trans hp
      exact ⟨c, rest, σ.proceed_self i c rest, hmark⟩
    · intro a hhas hread
      by_cases hl : l = K.guard
      · rw [if_pos hl] at hread
        cases hread
      · rw [if_neg hl] at hread
        rw [Prog.learn, Function.update_of_ne (Ne.symm hl)] at hhas
        exact ⟨hhas, hread⟩
  | act hrun =>
    rw [Threads.learn_of_running hrun]
    exact h.act hknows hlow hrun
  | @ret c r hrun =>
    rw [Threads.learn_of_running hrun]
    refine ⟨_, h.move none (fun j hj => Function.update_of_ne hj _ _) ?_ rfl ?_ ?_⟩
    · intro c' p hp
      simp at hp
    · rintro ⟨c', p, hp, hmark⟩
      cases hrun.symm.trans hp
      exact hmark.elim
    · intro a _ hnone
      cases hnone

theorem tended_run (hcareful : ∀ c, (code c).Careful K.part rank nothing)
    (hcode : ∀ c, K.Tidy (code c) nothing none) (hlow : K.Lowers)
    (hstart : K.saved s₀ = K.view s₀) {events : List (CallEvent ι κ ρ)}
    (h : Threads.Run code s₀ events σ) :
    ∃ known read, Threads.Knows K.part rank σ known ∧ K.Tended σ known read := by
  induction h with
  | start =>
    refine ⟨fun _ => nothing, fun _ => none, Threads.knows_start s₀, ?_, ?_, .inr (.inl hstart)⟩
    · intro i c p hp
      cases hp
    · intro i a _ hread
      cases hread
  | step i _ hstep ih =>
    obtain ⟨known, read, hknows, htended⟩ := ih
    obtain ⟨read', htended'⟩ := htended.step hcode hlow hknows hstep
    exact ⟨_, read', hknows.step hcareful hstep, htended'⟩

/-- **Nothing is forgotten.**  In every run the flag is up, or the copy is the view, or some
    thread is in a call that will raise the flag. -/
theorem marked_or_saved (hcareful : ∀ c, (code c).Careful K.part rank nothing)
    (hcode : ∀ c, K.Tidy (code c) nothing none) (hlow : K.Lowers) (hstart : K.saved s₀ = K.view s₀)
    {events : List (CallEvent ι κ ρ)} (h : Threads.Run code s₀ events σ) :
    K.isUp σ.shared = true ∨ K.saved σ.shared = K.view σ.shared ∨ ∃ i, K.InDebt σ i := by
  obtain ⟨known, read, _, htended⟩ := tended_run hcareful hcode hlow hstart h
  exact htended.backed

end Backup

end Clarity
