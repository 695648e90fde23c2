/-
  Clarity/CriticalSections.lean
  =============================
  **Calls that take effect in one critical section.**  Clients see what one lock guards, and
  a call may change it in many acts before it gives that lock back.

    * `Atomic` — between taking and giving back the lock the program does what its call is
      for, or nothing;
    * `Keeps` — the program keeps an invariant that speaks of what clients have seen;
    * `Marked`, `marked_run` — the invariant of the runs, with the moments at which calls
      took effect;
    * `linearizes` — every run answers as the calls one after another, each at a moment
      between its start and its end.
-/
import Clarity.Locks

namespace Clarity

open Knowledge

/-! ## 1. Programs -/

namespace Prog

variable {L S ρ : Type} {B : L → Type} [DecidableEq L]

/-- What is left does not take the lock, and the reply is `r`. -/
def Quiet (part : (l : L) → S → B l) (g : L) (r : ρ) : Prog L S ρ → Knowledge B → Prop
  | done a, _ => a = r
  | acquire l rest, known => l ≠ g ∧ ∀ b, Quiet part g r rest (Function.update known l (some b))
  | release l rest, known => Quiet part g r rest (Function.update known l none)
  | act f rest, known => ∀ s, Agrees part known s →
      Quiet part g r (rest s) (look part known (f s))

/-- Before it gives the lock back, the program does `op` to what the lock guards or leaves it as
    it was `before`, when the lock was taken.  In the end it has done `op`, or `op` may do
    nothing. -/
def Atomic (part : (l : L) → S → B l) (g : L) (op : B g → B g → ρ → Prop) :
    Prog L S ρ → Knowledge B → Option (B g) → Prop
  | done r, _, _ => ∀ a, op a a r
  | acquire l rest, known, before => ∀ b, Atomic part g op rest (Function.update known l (some b))
      (if l = g then Function.update known l (some b) g else before)
  | release l rest, known, before =>
    if l = g then ∃ a b, before = some a ∧ known g = some b ∧
      (b = a ∧ Atomic part g op rest (Function.update known l none) none ∨
        ∃ r, op a b r ∧ Quiet part g r rest (Function.update known l none))
    else Atomic part g op rest (Function.update known l none) before
  | act f rest, known, before => ∀ s, Agrees part known s →
      Atomic part g op (rest s) (look part known (f s)) before

/-- The program keeps the invariant.  `V` is what clients have seen, and there may be more of it
    by the time of an act; what the lock guards has been seen when the lock is taken. -/
def Keeps (part : (l : L) → S → B l) (g : L) (inv : (B g → Prop) → S → Prop) :
    Prog L S ρ → Knowledge B → (B g → Prop) → Prop
  | done _, _, _ => True
  | acquire l rest, known, V => ∀ W : B g → Prop, (∀ a, V a → W a) → ∀ b,
      (l = g → ∀ a, Function.update known l (some b) g = some a → W a) →
      Keeps part g inv rest (Function.update known l (some b)) W
  | release l rest, known, V => Keeps part g inv rest (Function.update known l none) V
  | act f rest, known, V => ∀ W : B g → Prop, (∀ a, V a → W a) → ∀ s, Agrees part known s →
      inv W s → inv W (f s) ∧ Keeps part g inv (rest s) (look part known (f s)) W

section Steps

variable {part : (l : L) → S → B l} {g : L} {known : Knowledge B} {l : L} {p : Prog L S ρ}
  {f : S → S} {rest : S → Prog L S ρ}

section Quiet

variable {r : ρ}

@[simp] theorem quiet_done (a : ρ) : (done a : Prog L S ρ).Quiet part g r known ↔ a = r := Iff.rfl

@[simp] theorem quiet_acquire : (acquire l p).Quiet part g r known ↔
    l ≠ g ∧ ∀ b, p.Quiet part g r (Function.update known l (some b)) := Iff.rfl

@[simp] theorem quiet_release : (release l p).Quiet part g r known ↔
    p.Quiet part g r (Function.update known l none) := Iff.rfl

@[simp] theorem quiet_act : (act f rest).Quiet part g r known ↔
    ∀ s, Agrees part known s → (rest s).Quiet part g r (look part known (f s)) := Iff.rfl

end Quiet

section Atomic

variable {op : B g → B g → ρ → Prop} {before : Option (B g)}

@[simp] theorem atomic_done (r : ρ) :
    (done r : Prog L S ρ).Atomic part g op known before ↔ ∀ a, op a a r := Iff.rfl

@[simp] theorem atomic_acquire : (acquire l p).Atomic part g op known before ↔
    ∀ b, p.Atomic part g op (Function.update known l (some b))
      (if l = g then Function.update known l (some b) g else before) := Iff.rfl

@[simp] theorem atomic_release : (release l p).Atomic part g op known before ↔
    if l = g then ∃ a b, before = some a ∧ known g = some b ∧
      (b = a ∧ p.Atomic part g op (Function.update known l none) none ∨
        ∃ r, op a b r ∧ p.Quiet part g r (Function.update known l none))
    else p.Atomic part g op (Function.update known l none) before := Iff.rfl

@[simp] theorem atomic_act : (act f rest).Atomic part g op known before ↔
    ∀ s, Agrees part known s → (rest s).Atomic part g op (look part known (f s)) before := Iff.rfl

end Atomic

section Keeps

variable {inv : (B g → Prop) → S → Prop} {V : B g → Prop}

@[simp] theorem keeps_done (r : ρ) : (done r : Prog L S ρ).Keeps part g inv known V := trivial

@[simp] theorem keeps_acquire : (acquire l p).Keeps part g inv known V ↔
    ∀ W : B g → Prop, (∀ a, V a → W a) → ∀ b,
      (l = g → ∀ a, Function.update known l (some b) g = some a → W a) →
      p.Keeps part g inv (Function.update known l (some b)) W := Iff.rfl

@[simp] theorem keeps_release : (release l p).Keeps part g inv known V ↔
    p.Keeps part g inv (Function.update known l none) V := Iff.rfl

@[simp] theorem keeps_act : (act f rest).Keeps part g inv known V ↔
    ∀ W : B g → Prop, (∀ a, V a → W a) → ∀ s, Agrees part known s →
      inv W s → inv W (f s) ∧ (rest s).Keeps part g inv (look part known (f s)) W := Iff.rfl

end Keeps

end Steps

theorem Keeps.mono {part : (l : L) → S → B l} {g : L} {inv : (B g → Prop) → S → Prop}
    {p : Prog L S ρ} {known : Knowledge B} {V W : B g → Prop} (h : Keeps part g inv p known V)
    (hVW : ∀ a, V a → W a) : Keeps part g inv p known W := by
  induction p generalizing known with
  | done a => trivial
  | acquire l rest _ => exact fun X hWX => h X fun a ha => hWX a (hVW a ha)
  | release l rest ih => exact ih h
  | act f rest _ => exact fun X hWX => h X fun a ha => hWX a (hVW a ha)

end Prog

/-- Seeing more does no harm. -/
def Grows {S A : Type} (inv : (A → Prop) → S → Prop) : Prop :=
  ∀ (V W : A → Prop) (s : S), (∀ a, V a → W a) → inv V s → inv W s

/-! ## 2. Histories -/

/-- What a thread did: a `point` is the moment at which a call takes effect, and it comes
    with the reply. -/
inductive Mark (ι κ ρ : Type) where
  | call (i : ι) (c : κ)
  | point (i : ι) (c : κ) (r : ρ)
  | ret (i : ι) (c : κ) (r : ρ)

namespace Mark

variable {ι κ ρ A : Type}

def thread : Mark ι κ ρ → ι
  | call i _ => i
  | point i _ _ => i
  | ret i _ _ => i

/-- What is seen of it. -/
def event? : Mark ι κ ρ → Option (CallEvent ι κ ρ)
  | call i c => some (.call i c)
  | point _ _ _ => none
  | ret i c r => some (.ret i c r)

def point? : Mark ι κ ρ → Option (κ × ρ)
  | point _ c r => some (c, r)
  | _ => none

/-- Where a thread is in its call. -/
inductive Stage (κ ρ : Type) where
  | idle
  | called (c : κ)
  | decided (c : κ) (r : ρ)

/-- The marks of thread `i` are calls, each with one point in it, and the reply of the point
    is what the call returns. -/
inductive Follows (i : ι) : List (Mark ι κ ρ) → Stage κ ρ → Prop where
  | nil : Follows i [] .idle
  | other {marks : List (Mark ι κ ρ)} {t : Stage κ ρ} {m : Mark ι κ ρ} :
      Follows i marks t → m.thread ≠ i → Follows i (marks ++ [m]) t
  | call {marks : List (Mark ι κ ρ)} (c : κ) : Follows i marks .idle →
      Follows i (marks ++ [call i c]) (.called c)
  | point {marks : List (Mark ι κ ρ)} {c : κ} (r : ρ) : Follows i marks (.called c) →
      Follows i (marks ++ [point i c r]) (.decided c r)
  | ret {marks : List (Mark ι κ ρ)} {c : κ} {r : ρ} : Follows i marks (.decided c r) →
      Follows i (marks ++ [ret i c r]) .idle

theorem Follows.others {i : ι} {marks more : List (Mark ι κ ρ)} {t : Stage κ ρ}
    (h : Follows i marks t) (hmore : ∀ m ∈ more, m.thread ≠ i) : Follows i (marks ++ more) t := by
  induction more generalizing marks with
  | nil => simpa using h
  | cons m more ih =>
    rw [List.append_cons]
    exact ih (h.other (hmore m (List.mem_cons_self ..)))
      fun m' hm' => hmore m' (List.mem_cons_of_mem _ hm')

/-- Calls one after another, each as `spec` has it. -/
inductive Sequential (spec : κ → A → A → ρ → Prop) (a : A) : List (κ × ρ) → A → Prop where
  | nil : Sequential spec a [] a
  | snoc {calls : List (κ × ρ)} {b b' : A} {c : κ} {r : ρ} : Sequential spec a calls b →
      spec c b b' r → Sequential spec a (calls ++ [(c, r)]) b'

/-- What the first so many calls left. -/
def SeenAt (spec : κ → A → A → ρ → Prop) (a : A) (calls : List (κ × ρ)) (b : A) : Prop :=
  ∃ earlier, earlier <+: calls ∧ Sequential spec a earlier b

/-- `marks` explains what was seen: every call took effect at one moment between its start
    and its end, and in the order of these moments the calls are those of `spec`. -/
structure Linearizes (spec : κ → A → A → ρ → Prop) (a : A) (events : List (CallEvent ι κ ρ))
    (b : A) (marks : List (Mark ι κ ρ)) : Prop where
  events : marks.filterMap event? = events
  follows : ∀ i, ∃ t, Follows i marks t
  sequential : Sequential spec a (marks.filterMap point?) b

end Mark

/-! ## 3. Threads -/

namespace Threads

variable {L S ι κ ρ : Type} {B : L → Type} [DecidableEq L] {part : (l : L) → S → B l}
  {rank : L → Nat} {code : κ → Prog L S ρ} {g : L} {inv : (B g → Prop) → S → Prop}
  {spec : κ → B g → B g → ρ → Prop} {s₀ : S}

/-- What is left of a call, at its stage. -/
inductive AtStage (part : (l : L) → S → B l) (g : L) (inv : (B g → Prop) → S → Prop)
    (spec : κ → B g → B g → ρ → Prop) (V : B g → Prop) :
    Option (κ × Prog L S ρ) → Knowledge B → Option (B g) → Mark.Stage κ ρ → Prop where
  | idle {known : Knowledge B} {before : Option (B g)} :
      AtStage part g inv spec V none known before .idle
  | called {c : κ} {p : Prog L S ρ} {known : Knowledge B} {before : Option (B g)} :
      p.Atomic part g (spec c) known before → p.Keeps part g inv known V →
      AtStage part g inv spec V (some (c, p)) known before (.called c)
  | decided {c : κ} {r : ρ} {p : Prog L S ρ} {known : Knowledge B} {before : Option (B g)} :
      p.Quiet part g r known → known g = none → p.Keeps part g inv known V →
      AtStage part g inv spec V (some (c, p)) known before (.decided c r)

theorem AtStage.mono {V W : B g → Prop} {running : Option (κ × Prog L S ρ)}
    {known : Knowledge B} {before : Option (B g)} {t : Mark.Stage κ ρ}
    (h : AtStage part g inv spec V running known before t) (hVW : ∀ a, V a → W a) :
    AtStage part g inv spec W running known before t := by
  cases h with
  | idle => exact .idle
  | called hatomic hkeeps => exact .called hatomic (hkeeps.mono hVW)
  | decided hquiet hnone hkeeps => exact .decided hquiet hnone (hkeeps.mono hVW)

/-- What clients have seen in a history. -/
def Seen {A : Type} (spec : κ → A → A → ρ → Prop) (a : A) (marks : List (Mark ι κ ρ)) : A → Prop :=
  Mark.SeenAt spec a (marks.filterMap Mark.point?)

theorem Seen.mono {A : Type} {spec : κ → A → A → ρ → Prop} {a b : A} {marks : List (Mark ι κ ρ)}
    (h : Seen spec a marks b) (more : List (Mark ι κ ρ)) : Seen spec a (marks ++ more) b := by
  obtain ⟨earlier, hprefix, hseq⟩ := h
  refine ⟨earlier, hprefix.trans ?_, hseq⟩
  rw [List.filterMap_append]
  exact List.prefix_append _ _

/-- The marks of a run and the stages they bring the threads to.  `b` is what the lock guards
    while nobody has it, and what the owner found when it took it otherwise. -/
structure Marked (part : (l : L) → S → B l) (g : L) (inv : (B g → Prop) → S → Prop)
    (spec : κ → B g → B g → ρ → Prop) (a : B g) (σ : Threads L S ι κ ρ) (known : ι → Knowledge B)
    (events : List (CallEvent ι κ ρ)) (marks : List (Mark ι κ ρ)) (before : ι → Option (B g))
    (b : B g) : Prop where
  events : marks.filterMap Mark.event? = events
  stage : ∀ i, ∃ t, Mark.Follows i marks t ∧
    AtStage part g inv spec (Seen spec a marks) (σ.running i) (known i) (before i) t
  sequential : Mark.Sequential spec a (marks.filterMap Mark.point?) b
  outside : (∀ i, known i g = none) → b = part g σ.shared
  inside : ∀ i, (known i g).isSome → before i = some b
  inv : inv (Seen spec a marks) σ.shared

namespace Marked

variable [DecidableEq ι] {a b : B g} {σ σ' : Threads L S ι κ ρ} {known : ι → Knowledge B}
  {events new : List (CallEvent ι κ ρ)} {marks : List (Mark ι κ ρ)} {before : ι → Option (B g)}
  {i : ι}

omit [DecidableEq ι] in
theorem seen (h : Marked part g inv spec a σ known events marks before b) : Seen spec a marks b :=
  ⟨_, List.prefix_refl _, h.sequential⟩

/-- Thread `i` goes on, with `more` marks. -/
theorem advance (h : Marked part g inv spec a σ known events marks before b)
    (hothers : ∀ j, j ≠ i → σ'.running j = σ.running j) (more : List (Mark ι κ ρ))
    (hmore : ∀ m ∈ more, m.thread = i) {t : Mark.Stage κ ρ}
    (hfollows : Mark.Follows i (marks ++ more) t) {mine : Knowledge B} (start : Option (B g))
    (hstage : AtStage part g inv spec (Seen spec a (marks ++ more)) (σ'.running i) mine start t)
    {b' : B g}
    (hseq : Mark.Sequential spec a (marks.filterMap Mark.point? ++ more.filterMap Mark.point?) b')
    (houtside : mine g = none → (∀ j, j ≠ i → known j g = none) → b' = part g σ'.shared)
    (hmine : (mine g).isSome → start = some b')
    (hinside : ∀ j, j ≠ i → (known j g).isSome → before j = some b')
    (hinv : inv (Seen spec a (marks ++ more)) σ'.shared) :
    Marked part g inv spec a σ' (Function.update known i mine)
      (events ++ more.filterMap Mark.event?) (marks ++ more) (Function.update before i start) b'
    where
  events := by rw [List.filterMap_append, h.events]
  stage := by
    intro j
    by_cases hj : j = i
    · subst hj
      rw [Function.update_self, Function.update_self]
      exact ⟨t, hfollows, hstage⟩
    · obtain ⟨t', hfollows', hstage'⟩ := h.stage j
      rw [hothers j hj, Function.update_of_ne hj, Function.update_of_ne hj]
      exact ⟨t', hfollows'.others fun m hm heq => hj (heq.symm.trans (hmore m hm)),
        hstage'.mono fun x hx => hx.mono more⟩
  sequential := by
    rw [List.filterMap_append]
    exact hseq
  outside := by
    intro hnone
    refine houtside ?_ ?_
    · simpa using hnone i
    · intro j hj
      simpa [hj] using hnone j
  inside := by
    intro j hj
    by_cases hji : j = i
    · subst hji
      rw [Function.update_self] at hj ⊢
      exact hmine hj
    · rw [Function.update_of_ne hji] at hj ⊢
      exact hinside j hji hj
  inv := hinv

/-- Thread `i` goes on, and there is nothing to mark. -/
theorem quiet (h : Marked part g inv spec a σ known events marks before b)
    (hothers : ∀ j, j ≠ i → σ'.running j = σ.running j) {t : Mark.Stage κ ρ}
    (hfollows : Mark.Follows i marks t) {mine : Knowledge B} (start : Option (B g))
    (hstage : AtStage part g inv spec (Seen spec a marks) (σ'.running i) mine start t)
    (houtside : mine g = none → (∀ j, j ≠ i → known j g = none) → b = part g σ'.shared)
    (hmine : (mine g).isSome → start = some b)
    (hinside : ∀ j, j ≠ i → (known j g).isSome → before j = some b)
    (hinv : inv (Seen spec a marks) σ'.shared) :
    Marked part g inv spec a σ' (Function.update known i mine) events marks
      (Function.update before i start) b := by
  have hfollows' : Mark.Follows i (marks ++ []) t := by simpa using hfollows
  have hadvance := h.advance hothers [] (by simp) hfollows' start (by simpa using hstage)
    (by simpa using h.sequential) houtside hmine hinside (by simpa using hinv)
  simpa using hadvance

/-- Thread `i` goes on, what it knows of the lock stays, and nothing else changes. -/
theorem stay (h : Marked part g inv spec a σ known events marks before b)
    (hothers : ∀ j, j ≠ i → σ'.running j = σ.running j) {t : Mark.Stage κ ρ}
    (hfollows : Mark.Follows i marks t) {mine : Knowledge B}
    (hstage : AtStage part g inv spec (Seen spec a marks) (σ'.running i) mine (before i) t)
    (hmine : mine g = known i g) (hshared : σ'.shared = σ.shared) :
    Marked part g inv spec a σ' (Function.update known i mine) events marks before b := by
  have hquiet := h.quiet hothers hfollows (before i) hstage ?_ ?_ ?_ ?_
  · rwa [Function.update_eq_self] at hquiet
  · intro hnone hrest
    rw [hshared]
    refine h.outside fun j => ?_
    by_cases hj : j = i
    · rw [hj, ← hmine, hnone]
    · exact hrest j hj
  · intro hsome
    exact h.inside i (by rwa [← hmine])
  · intro j _ hj
    exact h.inside j hj
  · rw [hshared]
    exact h.inv

theorem acquire (h : Marked part g inv spec a σ known events marks before b)
    (hknows : Knows part rank σ known) {c : κ} {l : L} {rest : Prog L S ρ}
    (hrun : σ.running i = some (c, .acquire l rest)) (hfree : σ.owner l = none) :
    ∃ before', Marked part g inv spec a
      { σ.proceed i c rest with owner := Function.update σ.owner l (some i) }
      (Function.update known i (Function.update (known i) l (some (part l σ.shared))))
      events marks before' b := by
  obtain ⟨t, hfollows, hstage⟩ := h.stage i
  rw [hrun] at hstage
  have hself : ({ σ.proceed i c rest with owner := Function.update σ.owner l (some i) } :
      Threads L S ι κ ρ).running i = some (c, rest) := σ.proceed_self i c rest
  have hothers (j : ι) (hj : j ≠ i) : ({ σ.proceed i c rest with
      owner := Function.update σ.owner l (some i) } : Threads L S ι κ ρ).running j = σ.running j :=
    σ.proceed_of_ne hj c rest
  by_cases hl : l = g
  · subst hl
    have hnone := hknows.eq_none_of_free hfree
    have hview : b = part l σ.shared := h.outside hnone
    have hstage' : AtStage part l inv spec (Seen spec a marks) (some (c, rest))
        (Function.update (known i) l (some (part l σ.shared))) (some b) t := by
      cases hstage with
      | called hatomic hkeeps =>
        have hrest := hatomic (part l σ.shared)
        rw [if_pos rfl, Function.update_self, ← hview] at hrest
        rw [← hview]
        refine .called hrest (hkeeps _ (fun _ => id) b ?_)
        intro _ x hx
        rw [Function.update_self] at hx
        cases hx
        exact h.seen
      | decided hquiet _ _ => exact absurd rfl hquiet.1
    rw [← hself] at hstage'
    refine ⟨_, h.quiet hothers hfollows (some b) hstage' ?_ (fun _ => rfl) ?_ h.inv⟩
    · intro hmine
      rw [Function.update_self] at hmine
      cases hmine
    · intro j _ hj
      rw [hnone j] at hj
      cases hj
  · refine ⟨before, h.stay hothers hfollows ?_ (Function.update_of_ne (Ne.symm hl) _ _) rfl⟩
    rw [hself]
    cases hstage with
    | called hatomic hkeeps =>
      have hrest := hatomic (part l σ.shared)
      rw [if_neg hl] at hrest
      exact .called hrest (hkeeps _ (fun _ => id) _ fun heq => absurd heq hl)
    | decided hquiet hnone hkeeps =>
      refine .decided (hquiet.2 _) ?_ (hkeeps _ (fun _ => id) _ fun heq => absurd heq hl)
      rw [Function.update_of_ne (Ne.symm hl)]
      exact hnone

theorem release (hgrows : Grows inv)
    (h : Marked part g inv spec a σ known events marks before b) (hknows : Knows part rank σ known) {c : κ} {l : L} {rest : Prog L S ρ}
    (hrun : σ.running i = some (c, .release l rest)) :
    ∃ more before' b', more.filterMap Mark.event? = [] ∧ Marked part g inv spec a
      { σ.proceed i c rest with owner := Function.update σ.owner l none }
      (Function.update known i (Function.update (known i) l none)) events (marks ++ more)
      before' b' := by
  obtain ⟨t, hfollows, hstage⟩ := h.stage i
  rw [hrun] at hstage
  have hself : ({ σ.proceed i c rest with owner := Function.update σ.owner l none } :
      Threads L S ι κ ρ).running i = some (c, rest) := σ.proceed_self i c rest
  have hothers (j : ι) (hj : j ≠ i) : ({ σ.proceed i c rest with
      owner := Function.update σ.owner l none } : Threads L S ι κ ρ).running j = σ.running j :=
    σ.proceed_of_ne hj c rest
  obtain ⟨hhas, _⟩ := hknows.careful i _ _ hrun
  by_cases hl : l = g
  · subst hl
    have hnot (j : ι) (hj : j ≠ i) (hsome : (known j l).isSome) {x : B l} :
        before j = some x := by
      rw [hknows.eq_none hhas hj] at hsome
      cases hsome
    have hno {x : B l} (hsome : (Function.update (known i) l none l).isSome) :
        (none : Option (B l)) = some x := by
      rw [Function.update_self] at hsome
      cases hsome
    cases hstage with
    | called hatomic hkeeps =>
      simp only [Prog.Atomic, if_pos] at hatomic
      obtain ⟨first, now, hbefore, hnow, hdone⟩ := hatomic
      have hfirst : first = b := Option.some.inj (hbefore.symm.trans (h.inside i hhas))
      have hview : part l σ.shared = now := hknows.agrees i l now hnow
      rcases hdone with ⟨hsame, hatomic⟩ | ⟨r, hop, hquiet⟩
      · -- nothing was done
        have hstage' : AtStage part l inv spec (Seen spec a marks) (some (c, rest)) _ none
            (.called c) := .called hatomic hkeeps
        rw [← hself] at hstage'
        refine ⟨[], Function.update before i none, b, rfl, ?_⟩
        rw [List.append_nil]
        refine h.quiet hothers hfollows none hstage' ?_ hno (fun j hj hsome => hnot j hj hsome) h.inv
        intro _ _
        exact hfirst.symm.trans (hsame.symm.trans hview.symm)
      · -- the call has taken effect
        rw [hfirst] at hop
        have hkeeps' : rest.Keeps part l inv (Function.update (known i) l none)
            (Seen spec a (marks ++ [.point i c r])) := hkeeps.mono fun x hx => hx.mono _
        have hstage' : AtStage part l inv spec (Seen spec a (marks ++ [.point i c r]))
            (some (c, rest)) (Function.update (known i) l none) none (.decided c r) :=
          .decided hquiet (Function.update_self ..) hkeeps'
        rw [← hself] at hstage'
        have hevents : ([.point i c r] : List (Mark ι κ ρ)).filterMap Mark.event? = [] := rfl
        refine ⟨[.point i c r], Function.update before i none, now, rfl, ?_⟩
        have hadvance := h.advance hothers [.point i c r] (by simp [Mark.thread])
          (hfollows.point r) none hstage' (h.sequential.snoc hop) (fun _ _ => hview.symm) hno
          (fun j hj hsome => hnot j hj hsome) (hgrows _ _ _ (fun x hx => hx.mono _) h.inv)
        rwa [hevents, List.append_nil] at hadvance
    | decided _ hnone _ =>
      rw [hnone] at hhas
      cases hhas
  · refine ⟨[], before, b, rfl, ?_⟩
    rw [List.append_nil]
    refine h.stay hothers hfollows ?_ (Function.update_of_ne (Ne.symm hl) _ _) rfl
    rw [hself]
    cases hstage with
    | called hatomic hkeeps =>
      simp only [Prog.Atomic, if_neg hl] at hatomic
      exact .called hatomic hkeeps
    | decided hquiet hnone hkeeps =>
      refine .decided hquiet ?_ hkeeps
      rw [Function.update_of_ne (Ne.symm hl)]
      exact hnone

theorem act (h : Marked part g inv spec a σ known events marks before b)
    (hknows : Knows part rank σ known) {c : κ} {f : S → S} {rest : S → Prog L S ρ}
    (hrun : σ.running i = some (c, .act f rest)) :
    Marked part g inv spec a { σ.proceed i c (rest σ.shared) with shared := f σ.shared }
      (Function.update known i (look part (known i) (f σ.shared))) events marks before b := by
  obtain ⟨t, hfollows, hstage⟩ := h.stage i
  rw [hrun] at hstage
  have hself : ({ σ.proceed i c (rest σ.shared) with shared := f σ.shared } :
      Threads L S ι κ ρ).running i = some (c, rest σ.shared) := σ.proceed_self i c _
  have hothers (j : ι) (hj : j ≠ i) : ({ σ.proceed i c (rest σ.shared) with
      shared := f σ.shared } : Threads L S ι κ ρ).running j = σ.running j := σ.proceed_of_ne hj c _
  have hagrees := hknows.agrees i
  obtain ⟨hsame, _⟩ := hknows.careful i _ _ hrun σ.shared hagrees
  obtain ⟨hstage', hinv⟩ : AtStage part g inv spec (Seen spec a marks) (some (c, rest σ.shared))
      (look part (known i) (f σ.shared)) (before i) t ∧
      inv (Seen spec a marks) (f σ.shared) := by
    cases hstage with
    | called hatomic hkeeps =>
      obtain ⟨hinv, hrest⟩ := hkeeps _ (fun _ => id) σ.shared hagrees h.inv
      exact ⟨.called (hatomic σ.shared hagrees) hrest, hinv⟩
    | decided hquiet hnone hkeeps =>
      obtain ⟨hinv, hrest⟩ := hkeeps _ (fun _ => id) σ.shared hagrees h.inv
      exact ⟨.decided (hquiet σ.shared hagrees) (by simpa using hnone) hrest, hinv⟩
  rw [← hself] at hstage'
  have hquiet := h.quiet hothers hfollows (before i) hstage' ?_ ?_ (fun j _ hj => h.inside j hj) hinv
  · rwa [Function.update_eq_self] at hquiet
  · intro hmine hrest
    have hnone : known i g = none := by simpa using hmine
    refine (h.outside fun j => ?_).trans (hsame g hnone).symm
    by_cases hj : j = i
    · rwa [hj]
    · exact hrest j hj
  · intro hsome
    exact h.inside i (by simpa using hsome)

/-- Thread `i` knows nothing of the lock, and its call begins or ends. -/
theorem border (hgrows : Grows inv)
    (h : Marked part g inv spec a σ known events marks before b) (hnone : known i g = none)
    (hothers : ∀ j, j ≠ i → σ'.running j = σ.running j) (more : List (Mark ι κ ρ))
    (hmore : ∀ m ∈ more, m.thread = i) {t : Mark.Stage κ ρ}
    (hfollows : Mark.Follows i (marks ++ more) t)
    (hstage : AtStage part g inv spec (Seen spec a (marks ++ more)) (σ'.running i) (known i)
      none t)
    (hseq : Mark.Sequential spec a (marks.filterMap Mark.point? ++ more.filterMap Mark.point?) b)
    (hshared : σ'.shared = σ.shared) :
    ∃ before', Marked part g inv spec a σ' known (events ++ more.filterMap Mark.event?)
      (marks ++ more) before' b := by
  have hadvance := h.advance hothers more hmore hfollows none hstage hseq ?_ ?_
    (fun j _ hj => h.inside j hj) ?_
  · rw [Function.update_eq_self] at hadvance
    exact ⟨_, hadvance⟩
  · intro _ hrest
    rw [hshared]
    refine h.outside fun j => ?_
    by_cases hj : j = i
    · rwa [hj]
    · exact hrest j hj
  · intro hsome
    rw [hnone] at hsome
    cases hsome
  · rw [hshared]
    exact hgrows _ _ _ (fun x hx => hx.mono more) h.inv

theorem ret (hgrows : Grows inv) (h : Marked part g inv spec a σ known events marks before b)
    (hknows : Knows part rank σ known) {c : κ} {r : ρ} (hrun : σ.running i = some (c, .done r)) :
    ∃ more before', Marked part g inv spec a
      { σ with running := Function.update σ.running i none } known (events ++ [.ret i c r])
      (marks ++ more) before' b := by
  obtain ⟨t, hfollows, hstage⟩ := h.stage i
  rw [hrun] at hstage
  have hnothing : known i = nothing := hknows.careful i _ _ hrun
  have hothers (j : ι) (hj : j ≠ i) : ({ σ with
      running := Function.update σ.running i none } : Threads L S ι κ ρ).running j = σ.running j :=
    Function.update_of_ne hj _ _
  have hself : ({ σ with running := Function.update σ.running i none } :
      Threads L S ι κ ρ).running i = none := Function.update_self ..
  have hidle (V : B g → Prop) : AtStage part g inv spec V (({ σ with
      running := Function.update σ.running i none } : Threads L S ι κ ρ).running i) (known i) none
      .idle := by
    rw [hself]
    exact .idle
  have hnone : known i g = none := by rw [hnothing]; rfl
  cases hstage with
  | called hatomic _ =>
    -- the call did not need the lock: it takes effect now
    refine ⟨_, h.border hgrows hnone hothers [.point i c r, .ret i c r] ?_ ?_ (hidle _) ?_ rfl⟩
    · simp [Mark.thread]
    · rw [List.append_cons]
      exact (hfollows.point r).ret
    · exact h.sequential.snoc (hatomic b)
  | decided hquiet _ _ =>
    cases hquiet
    have hpoints : ([.ret i c r] : List (Mark ι κ ρ)).filterMap Mark.point? = [] := rfl
    refine ⟨_, h.border hgrows hnone hothers [.ret i c r] ?_ hfollows.ret (hidle _) ?_ rfl⟩
    · simp [Mark.thread]
    · rw [hpoints, List.append_nil]
      exact h.sequential

theorem call (hgrows : Grows inv) (hatomic : ∀ c, (code c).Atomic part g (spec c) nothing none)
    (hkeeps : ∀ c V, (code c).Keeps part g inv nothing V)
    (h : Marked part g inv spec a σ known events marks before b)
    (hknows : Knows part rank σ known) (c : κ) (hidle : σ.running i = none) :
    ∃ before', Marked part g inv spec a (σ.proceed i c (code c)) known (events ++ [.call i c])
      (marks ++ [.call i c]) before' b := by
  obtain ⟨t, hfollows, hstage⟩ := h.stage i
  rw [hidle] at hstage
  cases hstage
  have hnothing : known i = nothing := hknows.idle i hidle
  have hpoints : ([.call i c] : List (Mark ι κ ρ)).filterMap Mark.point? = [] := rfl
  refine h.border hgrows (by rw [hnothing]; rfl) (fun j hj => σ.proceed_of_ne hj c _) [.call i c]
    (by simp [Mark.thread]) (hfollows.call c) ?_ ?_ rfl
  · rw [proceed_self, hnothing]
    exact .called (hatomic c) (hkeeps c _)
  · rw [hpoints, List.append_nil]
    exact h.sequential

theorem step (hgrows : Grows inv) (hatomic : ∀ c, (code c).Atomic part g (spec c) nothing none)
    (hkeeps : ∀ c V, (code c).Keeps part g inv nothing V)
    (h : Marked part g inv spec a σ known events marks before b)
    (hknows : Knows part rank σ known) (hstep : Step code i σ new σ') :
    ∃ more before' b', Marked part g inv spec a σ' (σ.learn part known i) (events ++ new)
      (marks ++ more) before' b' := by
  cases hstep with
  | call c hidle =>
    obtain ⟨before', hmarked⟩ := h.call hgrows hatomic hkeeps hknows c hidle
    rw [learn_of_idle hidle]
    exact ⟨_, before', b, hmarked⟩
  | acquire hrun hfree =>
    obtain ⟨before', hmarked⟩ := h.acquire hknows hrun hfree
    rw [learn_of_running hrun]
    exact ⟨[], before', b, by simpa [Prog.learn] using hmarked⟩
  | release hrun =>
    obtain ⟨more, before', b', _, hmarked⟩ := h.release hgrows hknows hrun
    rw [learn_of_running hrun]
    exact ⟨more, before', b', by simpa [Prog.learn] using hmarked⟩
  | act hrun =>
    rw [learn_of_running hrun]
    exact ⟨[], before, b, by simpa [Prog.learn] using h.act hknows hrun⟩
  | @ret c r hrun =>
    obtain ⟨more, before', hmarked⟩ := h.ret hgrows hknows hrun
    have hsame : σ.learn part known i = known := by
      rw [learn_of_running hrun]
      exact Function.update_eq_self i known
    rw [hsame]
    exact ⟨more, before', b, hmarked⟩

end Marked

variable [DecidableEq ι]

theorem marked_run (hgrows : Grows inv) (hcareful : ∀ c, (code c).Careful part rank nothing)
    (hatomic : ∀ c, (code c).Atomic part g (spec c) nothing none)
    (hkeeps : ∀ c V, (code c).Keeps part g inv nothing V)
    (hstart : ∀ V : B g → Prop, V (part g s₀) → inv V s₀) {events : List (CallEvent ι κ ρ)}
    {σ : Threads L S ι κ ρ} (h : Run code s₀ events σ) :
    ∃ known marks before b, Knows part rank σ known ∧
      Marked part g inv spec (part g s₀) σ known events marks before b := by
  induction h with
  | start =>
    refine ⟨fun _ => nothing, [], fun _ => none, _, knows_start s₀, rfl,
      fun i => ⟨.idle, .nil, .idle⟩, .nil, fun _ => rfl, ?_, ?_⟩
    · intro i hi
      cases hi
    · exact hstart _ ⟨[], List.prefix_refl _, .nil⟩
  | step i _ hstep ih =>
    obtain ⟨known, marks, before, b, hknows, hmarked⟩ := ih
    obtain ⟨more, before', b', hmarked'⟩ := hmarked.step hgrows hatomic hkeeps hknows hstep
    exact ⟨_, _, before', b', hknows.step hcareful hstep, hmarked'⟩

/-- **Calls with one critical section each are linearizable.**  While nobody has the lock, it
    guards what the calls have left; and the invariant holds of what clients have seen. -/
theorem linearizes (hgrows : Grows inv) (hcareful : ∀ c, (code c).Careful part rank nothing)
    (hatomic : ∀ c, (code c).Atomic part g (spec c) nothing none)
    (hkeeps : ∀ c V, (code c).Keeps part g inv nothing V)
    (hstart : ∀ V : B g → Prop, V (part g s₀) → inv V s₀) {events : List (CallEvent ι κ ρ)}
    {σ : Threads L S ι κ ρ} (h : Run code s₀ events σ) :
    ∃ marks b, Mark.Linearizes spec (part g s₀) events b marks ∧
      (σ.owner g = none → b = part g σ.shared) ∧
      inv (Mark.SeenAt spec (part g s₀) (marks.filterMap Mark.point?)) σ.shared := by
  obtain ⟨known, marks, before, b, hknows, hmarked⟩ :=
    marked_run hgrows hcareful hatomic hkeeps hstart h
  refine ⟨marks, b, ⟨hmarked.events, ?_, hmarked.sequential⟩, ?_, hmarked.inv⟩
  · intro i
    obtain ⟨t, hfollows, _⟩ := hmarked.stage i
    exact ⟨t, hfollows⟩
  · intro hfree
    exact hmarked.outside (hknows.eq_none_of_free hfree)

end Threads

end Clarity
