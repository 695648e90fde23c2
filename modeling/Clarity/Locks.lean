/-
  Clarity/Locks.lean
  ==================
  **Threads that share a state under locks.**  A call is a program of atomic acts
  between taking and giving back locks; threads take turns in any order, and a thread
  that wants a lock waits until nobody has it.

  Each lock guards a part of the state.  A thread that has the lock knows that part: nobody
  else changes it.

    * `Careful` — the program takes its locks in one order, and changes only what its locks
      guard;
    * `Knows`, `knows_run` — when all programs are careful, then in every run what a thread
      knows is so;
    * `not_stuck` — and when some thread is inside a call, some thread inside a call can
      take a step.
-/
import Mathlib.Logic.Function.Basic

namespace Clarity

/-! ## 1. Programs -/

/-- A program over the locks `L` and the shared state `S`.  What is left after an act may
    depend on the state the act found. -/
inductive Prog (L S α : Type) where
  | done (a : α)
  | acquire (l : L) (rest : Prog L S α)
  | release (l : L) (rest : Prog L S α)
  | act (f : S → S) (rest : S → Prog L S α)

namespace Prog

variable {L S α β : Type}

def bind : Prog L S α → (α → Prog L S β) → Prog L S β
  | done a, k => k a
  | acquire l rest, k => acquire l (rest.bind k)
  | release l rest, k => release l (rest.bind k)
  | act f rest, k => act f fun s => (rest s).bind k

instance : Monad (Prog L S) where
  pure := done
  bind := bind

/-- `Mutex::lock`. -/
def lock (l : L) : Prog L S Unit := acquire l (done ())

/-- The end of a guard. -/
def unlock (l : L) : Prog L S Unit := release l (done ())

def modify (f : S → S) : Prog L S Unit := act f fun _ => done ()

def get : Prog L S S := act id done

@[simp] theorem pure_eq (a : α) : (pure a : Prog L S α) = done a := rfl

@[simp] theorem done_bind (a : α) (k : α → Prog L S β) : done a >>= k = k a := rfl

@[simp] theorem acquire_bind (l : L) (p : Prog L S α) (k : α → Prog L S β) :
    acquire l p >>= k = acquire l (p >>= k) := rfl

@[simp] theorem release_bind (l : L) (p : Prog L S α) (k : α → Prog L S β) :
    release l p >>= k = release l (p >>= k) := rfl

@[simp] theorem act_bind (f : S → S) (p : S → Prog L S α) (k : α → Prog L S β) :
    act f p >>= k = act f fun s => p s >>= k := rfl

@[simp] theorem lock_bind (l : L) (k : Unit → Prog L S β) : lock l >>= k = acquire l (k ()) := rfl

@[simp] theorem unlock_bind (l : L) (k : Unit → Prog L S β) :
    unlock l >>= k = release l (k ()) := rfl

@[simp] theorem modify_bind (f : S → S) (k : Unit → Prog L S β) :
    modify f >>= k = act f fun _ => k () := rfl

@[simp] theorem get_bind (k : S → Prog L S β) : get >>= k = act id k := rfl

end Prog

/-! ## 2. Threads -/

/-- What can be seen of a thread: it starts a call, and the call returns. -/
inductive CallEvent (ι κ ρ : Type) where
  | call (i : ι) (c : κ)
  | ret (i : ι) (c : κ) (r : ρ)

/-- Threads `ι` in calls `κ` with replies `ρ`. -/
structure Threads (L S ι κ ρ : Type) where
  shared : S
  owner : L → Option ι
  -- the call a thread is in, and what is left of it
  running : ι → Option (κ × Prog L S ρ)

namespace Threads

section Steps

variable {L S ι κ ρ : Type} [DecidableEq ι]

def start (s : S) : Threads L S ι κ ρ := ⟨s, fun _ => none, fun _ => none⟩

def proceed (σ : Threads L S ι κ ρ) (i : ι) (c : κ) (rest : Prog L S ρ) : Threads L S ι κ ρ :=
  { σ with running := Function.update σ.running i (some (c, rest)) }

@[simp] theorem proceed_self (σ : Threads L S ι κ ρ) (i : ι) (c : κ) (rest : Prog L S ρ) :
    (σ.proceed i c rest).running i = some (c, rest) := by
  simp [proceed]

theorem proceed_of_ne (σ : Threads L S ι κ ρ) {i j : ι} (h : j ≠ i) (c : κ) (rest : Prog L S ρ) :
    (σ.proceed i c rest).running j = σ.running j := by
  simp [proceed, h]

variable [DecidableEq L]

/-- One step of thread `i`. -/
inductive Step (code : κ → Prog L S ρ) (i : ι) :
    Threads L S ι κ ρ → List (CallEvent ι κ ρ) → Threads L S ι κ ρ → Prop where
  | call {σ : Threads L S ι κ ρ} (c : κ) : σ.running i = none →
      Step code i σ [.call i c] (σ.proceed i c (code c))
  | acquire {σ : Threads L S ι κ ρ} {c : κ} {l : L} {rest : Prog L S ρ} :
      σ.running i = some (c, .acquire l rest) → σ.owner l = none →
      Step code i σ [] { σ.proceed i c rest with owner := Function.update σ.owner l (some i) }
  | release {σ : Threads L S ι κ ρ} {c : κ} {l : L} {rest : Prog L S ρ} :
      σ.running i = some (c, .release l rest) →
      Step code i σ [] { σ.proceed i c rest with owner := Function.update σ.owner l none }
  | act {σ : Threads L S ι κ ρ} {c : κ} {f : S → S} {rest : S → Prog L S ρ} :
      σ.running i = some (c, .act f rest) →
      Step code i σ [] { σ.proceed i c (rest σ.shared) with shared := f σ.shared }
  | ret {σ : Threads L S ι κ ρ} {c : κ} {r : ρ} : σ.running i = some (c, .done r) →
      Step code i σ [.ret i c r] { σ with running := Function.update σ.running i none }

/-- The runs, with what was seen of them. -/
inductive Run (code : κ → Prog L S ρ) (s₀ : S) :
    List (CallEvent ι κ ρ) → Threads L S ι κ ρ → Prop where
  | start : Run code s₀ [] (start s₀)
  | step {events new : List (CallEvent ι κ ρ)} {σ σ' : Threads L S ι κ ρ} (i : ι) :
      Run code s₀ events σ → Step code i σ new σ' → Run code s₀ (events ++ new) σ'

end Steps

end Threads

/-! ## 3. What threads know -/

/-- What a thread knows: the part of the state that each of its locks guards. -/
abbrev Knowledge {L : Type} (B : L → Type) := (l : L) → Option (B l)

namespace Knowledge

variable {L S : Type} {B : L → Type} (part : (l : L) → S → B l)

def Agrees (known : Knowledge B) (s : S) : Prop := ∀ l b, known l = some b → part l s = b

/-- What is known of the same parts in the state `s`. -/
def look (known : Knowledge B) (s : S) : Knowledge B := fun l => (known l).map fun _ => part l s

def nothing : Knowledge B := fun _ => none

theorem agrees_nothing (s : S) : Agrees part nothing s := by
  intro l b hb
  cases hb

theorem agrees_look (known : Knowledge B) (s : S) : Agrees part (look part known s) s := by
  intro l b hb
  obtain ⟨_, _, hb⟩ := Option.map_eq_some_iff.mp hb
  exact hb

@[simp] theorem look_nothing (s : S) : look part nothing s = nothing := rfl

@[simp] theorem isSome_look (known : Knowledge B) (s : S) (l : L) :
    (look part known s l).isSome = (known l).isSome :=
  Option.isSome_map

@[simp] theorem look_eq_none (known : Knowledge B) (s : S) (l : L) :
    look part known s l = none ↔ known l = none :=
  Option.map_eq_none_iff

@[simp] theorem nothing_apply (l : L) : (nothing : Knowledge B) l = none := rfl

variable [DecidableEq L]

@[simp] theorem look_update (known : Knowledge B) (l : L) (b : B l) (s : S) :
    look part (Function.update known l (some b)) s =
      Function.update (look part known s) l (some (part l s)) := by
  funext l'
  by_cases hl : l' = l
  · subst hl
    simp [look]
  · simp [look, hl]

@[simp] theorem update_nothing (l : L) : Function.update nothing l (none : Option (B l)) = nothing :=
  Function.update_eq_self l nothing

theorem update_one {l l' : L} (h : l' ≠ l) (b : B l) :
    Function.update (Function.update nothing l (some b)) l' (none : Option (B l')) =
      Function.update nothing l (some b) := by
  have hnone : Function.update nothing l (some b) l' = none := Function.update_of_ne h _ _
  rw [← hnone]
  exact Function.update_eq_self l' _

/-- What a thread with one lock knows. -/
theorem agrees_one (l : L) (b : B l) (s : S) :
    Agrees part (Function.update nothing l (some b)) s ↔ part l s = b := by
  constructor
  · intro hagrees
    exact hagrees l b (Function.update_self ..)
  · intro hb l' b' hb'
    by_cases hl : l' = l
    · subst hl
      rw [Function.update_self] at hb'
      exact hb.trans (Option.some.inj hb')
    · rw [Function.update_of_ne hl] at hb'
      cases hb'

/-- What a thread with two locks knows. -/
theorem agrees_two {l l' : L} (h : l' ≠ l) (b : B l) (b' : B l') (s : S) :
    Agrees part (Function.update (Function.update nothing l (some b)) l' (some b')) s ↔
      part l s = b ∧ part l' s = b' := by
  constructor
  · intro hagrees
    refine ⟨hagrees l b ?_, hagrees l' b' (Function.update_self ..)⟩
    rw [Function.update_of_ne (Ne.symm h), Function.update_self]
  · rintro ⟨hb, hb'⟩ l'' x hx
    by_cases hl' : l'' = l'
    · subst hl'
      rw [Function.update_self] at hx
      exact hb'.trans (Option.some.inj hx)
    · rw [Function.update_of_ne hl'] at hx
      exact (agrees_one part l b s).mpr hb l'' x hx

end Knowledge

open Knowledge

namespace Prog

variable {L S ρ : Type} {B : L → Type} [DecidableEq L]

/-- The program takes only locks above all those it has, gives back only locks it has, ends
    without locks, and changes only what its locks guard. -/
def Careful (part : (l : L) → S → B l) (rank : L → Nat) : Prog L S ρ → Knowledge B → Prop
  | done _, known => known = nothing
  | acquire l rest, known => (∀ l', (known l').isSome → rank l' < rank l) ∧
      ∀ b, Careful part rank rest (Function.update known l (some b))
  | release l rest, known => (known l).isSome ∧
      Careful part rank rest (Function.update known l none)
  | act f rest, known => ∀ s, Agrees part known s →
      (∀ l, known l = none → part l (f s) = part l s) ∧
      Careful part rank (rest s) (look part known (f s))

section Careful

variable {part : (l : L) → S → B l} {rank : L → Nat} {known : Knowledge B} {l : L}
  {p : Prog L S ρ} {f : S → S} {rest : S → Prog L S ρ}

@[simp] theorem careful_done (r : ρ) :
    (done r : Prog L S ρ).Careful part rank known ↔ known = nothing := Iff.rfl

@[simp] theorem careful_acquire : (acquire l p).Careful part rank known ↔
    (∀ l', (known l').isSome → rank l' < rank l) ∧
      ∀ b, p.Careful part rank (Function.update known l (some b)) := Iff.rfl

@[simp] theorem careful_release : (release l p).Careful part rank known ↔
    (known l).isSome ∧ p.Careful part rank (Function.update known l none) := Iff.rfl

@[simp] theorem careful_act : (act f rest).Careful part rank known ↔
    ∀ s, Agrees part known s → (∀ l, known l = none → part l (f s) = part l s) ∧
      (rest s).Careful part rank (look part known (f s)) := Iff.rfl

end Careful

/-- What is known after the first step of the program in the state `s`. -/
def learn (part : (l : L) → S → B l) (s : S) (known : Knowledge B) : Prog L S ρ → Knowledge B
  | done _ => known
  | acquire l _ => Function.update known l (some (part l s))
  | release l _ => Function.update known l none
  | act f _ => look part known (f s)

end Prog

namespace Threads

variable {L S ι κ ρ : Type} {B : L → Type} [DecidableEq L] [DecidableEq ι]
  {part : (l : L) → S → B l} {rank : L → Nat} {code : κ → Prog L S ρ} {s₀ : S}
  {σ σ' : Threads L S ι κ ρ} {known : ι → Knowledge B} {i : ι} {new : List (CallEvent ι κ ρ)}

/-- What the threads know after a step of thread `i`. -/
def learn (part : (l : L) → S → B l) (σ : Threads L S ι κ ρ) (known : ι → Knowledge B) (i : ι) :
    ι → Knowledge B :=
  match σ.running i with
  | none => known
  | some (_, p) => Function.update known i (p.learn part σ.shared (known i))

theorem learn_of_running {c : κ} {p : Prog L S ρ} (h : σ.running i = some (c, p)) :
    σ.learn part known i = Function.update known i (p.learn part σ.shared (known i)) := by
  simp [learn, h]

theorem learn_of_idle (h : σ.running i = none) : σ.learn part known i = known := by
  simp [learn, h]

/-- The threads have the locks that they know of, and what they know is so. -/
structure Knows (part : (l : L) → S → B l) (rank : L → Nat) (σ : Threads L S ι κ ρ)
    (known : ι → Knowledge B) : Prop where
  owner : ∀ l i, σ.owner l = some i ↔ (known i l).isSome
  agrees : ∀ i, Agrees part (known i) σ.shared
  idle : ∀ i, σ.running i = none → known i = nothing
  careful : ∀ i c p, σ.running i = some (c, p) → p.Careful part rank (known i)

namespace Knows

omit [DecidableEq ι] in
theorem eq_none (h : Knows part rank σ known) {l : L} {j : ι} (hi : (known i l).isSome)
    (hj : j ≠ i) : known j l = none := by
  cases hknown : known j l with
  | none => rfl
  | some b =>
    have hown := (h.owner l j).mpr (by simp [hknown])
    exact absurd (Option.some.inj (hown.symm.trans ((h.owner l i).mpr hi))) hj

omit [DecidableEq ι] in
theorem eq_none_of_free (h : Knows part rank σ known) {l : L} (hfree : σ.owner l = none) (j : ι) :
    known j l = none := by
  cases hj : known j l with
  | none => rfl
  | some b =>
    rw [(h.owner l j).mpr (by simp [hj])] at hfree
    cases hfree

omit [DecidableEq ι] in
/-- An act leaves alone what the other threads know of. -/
theorem agrees_of_ne (h : Knows part rank σ known) {c : κ} {f : S → S} {rest : S → Prog L S ρ}
    (hrun : σ.running i = some (c, .act f rest)) {j : ι} (hj : j ≠ i) :
    Agrees part (known j) (f σ.shared) := by
  intro l b hb
  obtain ⟨hsame, _⟩ := h.careful i _ _ hrun σ.shared (h.agrees i)
  rw [hsame l (h.eq_none (i := j) (by simp [hb]) (Ne.symm hj))]
  exact h.agrees j l b hb

/-- Thread `i` goes on, and knows `mine` from now on. -/
theorem move (h : Knows part rank σ known) {c : κ} {rest : Prog L S ρ} {mine : Knowledge B}
    (hothers : ∀ j, j ≠ i → σ'.running j = σ.running j) (hself : σ'.running i = some (c, rest))
    (howner : ∀ l j, σ'.owner l = some j ↔ (Function.update known i mine j l).isSome)
    (hmine : Agrees part mine σ'.shared)
    (hagrees : ∀ j, j ≠ i → Agrees part (known j) σ'.shared)
    (hcareful : rest.Careful part rank mine) :
    Knows part rank σ' (Function.update known i mine) where
  owner := howner
  agrees := by
    intro j
    by_cases hj : j = i
    · subst hj
      simpa using hmine
    · simpa [hj] using hagrees j hj
  idle := by
    intro j hidle
    by_cases hj : j = i
    · subst hj
      cases hself.symm.trans hidle
    · simpa [hj] using h.idle j ((hothers j hj).symm.trans hidle)
  careful := by
    intro j c' p hp
    by_cases hj : j = i
    · subst hj
      cases hself.symm.trans hp
      simpa using hcareful
    · simpa [hj] using h.careful j c' p ((hothers j hj).symm.trans hp)

theorem acquire (h : Knows part rank σ known) {c : κ} {l : L} {rest : Prog L S ρ}
    (hrun : σ.running i = some (c, .acquire l rest)) (hfree : σ.owner l = none) :
    Knows part rank { σ.proceed i c rest with owner := Function.update σ.owner l (some i) }
      (Function.update known i (Function.update (known i) l (some (part l σ.shared)))) := by
  refine h.move (fun j hj => σ.proceed_of_ne hj c rest) (σ.proceed_self i c rest) ?_ ?_
    (fun j _ => h.agrees j) ((h.careful i _ _ hrun).2 _)
  · intro l' j
    by_cases hl : l' = l
    · subst hl
      by_cases hj : j = i
      · simp [hj]
      · simp [hj, Ne.symm hj, h.eq_none_of_free hfree j]
    · by_cases hj : j = i
      · subst hj
        simp [hl, h.owner]
      · simp [hl, hj, h.owner]
  · intro l' b hb
    by_cases hl : l' = l
    · subst hl
      rw [Function.update_self] at hb
      exact Option.some.inj hb
    · rw [Function.update_of_ne hl] at hb
      exact h.agrees i l' b hb

theorem release (h : Knows part rank σ known) {c : κ} {l : L} {rest : Prog L S ρ}
    (hrun : σ.running i = some (c, .release l rest)) :
    Knows part rank { σ.proceed i c rest with owner := Function.update σ.owner l none }
      (Function.update known i (Function.update (known i) l none)) := by
  obtain ⟨hhas, hrest⟩ := h.careful i _ _ hrun
  refine h.move (fun j hj => σ.proceed_of_ne hj c rest) (σ.proceed_self i c rest) ?_ ?_
    (fun j _ => h.agrees j) hrest
  · intro l' j
    by_cases hl : l' = l
    · subst hl
      by_cases hj : j = i
      · simp [hj]
      · simp [hj, h.eq_none hhas hj]
    · by_cases hj : j = i
      · subst hj
        simp [hl, h.owner]
      · simp [hl, hj, h.owner]
  · intro l' b hb
    by_cases hl : l' = l
    · subst hl
      rw [Function.update_self] at hb
      cases hb
    · rw [Function.update_of_ne hl] at hb
      exact h.agrees i l' b hb

theorem step (hcode : ∀ c, (code c).Careful part rank nothing) (h : Knows part rank σ known)
    (hstep : Step code i σ new σ') : Knows part rank σ' (σ.learn part known i) := by
  cases hstep with
  | call c hidle =>
    have hnothing := h.idle i hidle
    rw [learn_of_idle hidle, ← Function.update_eq_self i known]
    refine h.move (fun j hj => σ.proceed_of_ne hj c _) (σ.proceed_self i c _) ?_ (h.agrees i)
      (fun j _ => h.agrees j) ?_
    · rw [Function.update_eq_self]
      exact h.owner
    · rw [hnothing]
      exact hcode c
  | acquire hrun hfree =>
    rw [learn_of_running hrun]
    exact h.acquire hrun hfree
  | release hrun =>
    rw [learn_of_running hrun]
    exact h.release hrun
  | @act c f rest hrun =>
    rw [learn_of_running hrun]
    refine h.move (fun j hj => σ.proceed_of_ne hj c _) (σ.proceed_self i c _) ?_
      (agrees_look part _ _) (fun j hj => h.agrees_of_ne hrun hj)
      (h.careful i _ _ hrun σ.shared (h.agrees i)).2
    intro l j
    refine (h.owner l j).trans ?_
    by_cases hj : j = i
    · subst hj
      simp [Prog.learn]
    · simp [hj]
  | @ret c r hrun =>
    -- a program that has ended knows nothing
    have hnothing : known i = nothing := h.careful i _ _ hrun
    have hsame : σ.learn part known i = known := by
      rw [learn_of_running hrun]
      exact Function.update_eq_self i known
    rw [hsame]
    refine ⟨h.owner, h.agrees, ?_, ?_⟩
    · intro j hj
      by_cases hji : j = i
      · rw [hji, hnothing]
      · exact h.idle j (by simpa [hji] using hj)
    · intro j c' p hp
      by_cases hji : j = i
      · subst hji
        simp at hp
      · exact h.careful j c' p (by simpa [hji] using hp)

end Knows

omit [DecidableEq ι] in
theorem knows_start (s₀ : S) :
    Knows part rank (start s₀ : Threads L S ι κ ρ) fun _ => nothing := by
  refine ⟨?_, fun _ => agrees_nothing part s₀, fun _ _ => rfl, ?_⟩
  · intro l i
    simp [start, nothing]
  · intro i c p hp
    cases hp

theorem knows_run (hcode : ∀ c, (code c).Careful part rank nothing)
    {events : List (CallEvent ι κ ρ)} (h : Run code s₀ events σ) :
    ∃ known, Knows part rank σ known := by
  induction h with
  | start => exact ⟨_, knows_start s₀⟩
  | step i _ hstep ih =>
    obtain ⟨known, hknown⟩ := ih
    exact ⟨_, hknown.step hcode hstep⟩

/-! ## 4. No deadlock -/

/-- Among the threads that wait for each other one has nobody to wait for.  The ranks of
    the locks on the way go up, so the way ends. -/
theorem Knows.goes_on (h : Knows part rank σ known) {bound : Nat} (hbound : ∀ l, rank l < bound)
    (left : Nat) : ∀ (i : ι) (c : κ) (p : Prog L S ρ), σ.running i = some (c, p) →
      (∀ l rest, p = .acquire l rest → bound ≤ left + rank l) →
      ∃ j new σ', σ.running j ≠ none ∧ Step code j σ new σ' := by
  induction left with
  | zero =>
    intro i c p hrun hwait
    have hsome : σ.running i ≠ none := by simp [hrun]
    cases p with
    | done r => exact ⟨i, _, _, hsome, .ret hrun⟩
    | release l rest => exact ⟨i, _, _, hsome, .release hrun⟩
    | act f rest => exact ⟨i, _, _, hsome, .act hrun⟩
    | acquire l rest =>
      have hlt := hbound l
      have hle := hwait l rest rfl
      omega
  | succ left ih =>
    intro i c p hrun hwait
    have hsome : σ.running i ≠ none := by simp [hrun]
    cases p with
    | done r => exact ⟨i, _, _, hsome, .ret hrun⟩
    | release l rest => exact ⟨i, _, _, hsome, .release hrun⟩
    | act f rest => exact ⟨i, _, _, hsome, .act hrun⟩
    | acquire l rest =>
      cases howner : σ.owner l with
      | none => exact ⟨i, _, _, hsome, .acquire hrun howner⟩
      | some j =>
        have hhas : (known j l).isSome := (h.owner l j).mp howner
        cases hj : σ.running j with
        | none =>
          rw [h.idle j hj] at hhas
          cases hhas
        | some e =>
          refine ih j e.1 e.2 hj ?_
          intro l' rest' hp
          -- `j` has `l`, so what it waits for ranks above it
          have hcareful := h.careful j e.1 e.2 hj
          rw [hp] at hcareful
          have hlt := hcareful.1 l hhas
          have hle := hwait l rest rfl
          omega

/-- **No deadlock.**  In every run, when some thread is inside a call, some thread inside a
    call can take a step. -/
theorem not_stuck (hcode : ∀ c, (code c).Careful part rank nothing) {bound : Nat}
    (hbound : ∀ l, rank l < bound) {events : List (CallEvent ι κ ρ)} (h : Run code s₀ events σ)
    (hi : σ.running i ≠ none) : ∃ j new σ', σ.running j ≠ none ∧ Step code j σ new σ' := by
  obtain ⟨known, hknows⟩ := knows_run hcode h
  obtain ⟨⟨c, p⟩, hrun⟩ := Option.ne_none_iff_exists'.mp hi
  refine hknows.goes_on hbound bound i c p hrun ?_
  intro l rest _
  omega

end Threads

end Clarity
