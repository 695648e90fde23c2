/-
  Clarity/Membership.lean
  =======================
  **Who is in a group.**  The clients of one group and the commits and welcomes under way
  between them.  A committer merges its commit before anyone else has seen it, and a
  client rejects every commit that was made in another epoch than the one it is in.

  So two commits in one epoch split the group for good, and so does a commit that
  overtakes another.  When neither happens, the epochs form one chain, and whoever was
  never removed has the commits it still misses under way to it.

    * `Groups.Inv`, `inv_run` — the chain, and what is still due to each client;
    * `members_agree` — when nothing is under way any more, all are at its end.
-/
import Clarity.Group
import Mathlib.Data.List.Induction

namespace Clarity

variable {ι : Type} [DecidableEq ι] {M : OpenMls ι}

/-! ## 1. The clients of a group -/

structure Groups (M : OpenMls ι) where
  group : ι → Option M.MlsGroup
  -- commits and welcomes under way, with the client they were sent to
  sent : List (ι × M.Message)
  invited : List (ι × M.Welcome)
  -- who was the target of a `remove_member`, and the commits made, in order
  removed : List ι
  log : List M.Message

inductive GroupsAct (M : OpenMls ι) where
  | addMember (i : ι) (keyPackage : M.KeyPackageIn)
  | removeMember (i : ι) (index : UInt32)
  /-- A commit reaches a client. -/
  | process (i : ι) (commit : M.Message)
  /-- A welcome reaches a client. -/
  | join (i : ι) (welcome : M.Welcome)

namespace Groups

/-- `creator` has created the group `g`. -/
def start (creator : ι) (g : M.MlsGroup) : Groups M :=
  ⟨fun i => if i = creator then some g else none, [], [], [], []⟩

def setGroup (σ : Groups M) (i : ι) (g : M.MlsGroup) : Groups M :=
  { σ with group := Function.update σ.group i (some g) }

/-- A commit of `i` goes to every other member of its group. -/
def fanOut (g : M.MlsGroup) (i : ι) (c : M.Message) : List (ι × M.Message) :=
  ((Group.members g).filter fun j => j ≠ i).map fun j => (j, c)

variable [DecidableEq M.Message] [DecidableEq M.Welcome]

def step (V : M.View) (σ : Groups M) : GroupsAct M → Groups M
  | .addMember i keyPackage =>
    match σ.group i with
    | none => σ
    | some g =>
      match Group.addMember g keyPackage with
      | (.error _, g') => σ.setGroup i g'
      | (.ok (c, w), g') =>
        { σ.setGroup i g' with
          sent := σ.sent ++ fanOut g i c
          invited := σ.invited ++ [(V.newcomer w, w)]
          log := σ.log ++ [c] }
  | .removeMember i index =>
    match σ.group i with
    | none => σ
    | some g =>
      match Group.removeMember g index with
      | (.error _, g') => σ.setGroup i g'
      | (.ok c, g') =>
        { σ.setGroup i g' with
          sent := σ.sent ++ fanOut g i c
          removed := σ.removed ++ ((M.members g).lookup index).toList
          log := σ.log ++ [c] }
  | .process i c =>
    if (i, c) ∈ σ.sent then
      let σ := { σ with sent := σ.sent.erase (i, c) }
      match σ.group i with
      | none => σ
      | some g => σ.setGroup i (Group.process g c).2
    else σ
  | .join i w =>
    if (i, w) ∈ σ.invited then
      let σ := { σ with invited := σ.invited.erase (i, w) }
      match Group.joinGroup i w with
      | .error _ => σ
      | .ok g => σ.setGroup i g
    else σ

/-- The runs of a group whose acts all meet `Cond`. -/
inductive Run (V : M.View) (Cond : Groups M → GroupsAct M → Prop) (creator : ι)
    (g : M.MlsGroup) : Groups M → Prop where
  | start : Run V Cond creator g (Groups.start creator g)
  | step {σ : Groups M} (act : GroupsAct M) : Run V Cond creator g σ → Cond σ act →
      Run V Cond creator g (σ.step V act)

/-- Acts that all meet `Cond`, from the state `σ` on. -/
def Along (V : M.View) (Cond : Groups M → GroupsAct M → Prop) :
    Groups M → List (GroupsAct M) → Prop
  | _, [] => True
  | σ, act :: acts => Cond σ act ∧ Along V Cond (σ.step V act) acts

theorem Run.along {V : M.View} {Cond : Groups M → GroupsAct M → Prop} {creator : ι}
    {g : M.MlsGroup} {σ : Groups M} {acts : List (GroupsAct M)} (run : Run V Cond creator g σ)
    (h : Along V Cond σ acts) : Run V Cond creator g (acts.foldl (Groups.step V) σ) := by
  induction acts generalizing σ with
  | nil => exact run
  | cons act acts ih => exact ih (run.step act h.1) h.2

theorem Along.of_true {V : M.View} (acts : List (GroupsAct M)) (σ : Groups M) :
    Along V (fun _ _ => True) σ acts := by
  induction acts generalizing σ with
  | nil => trivial
  | cons act acts ih => exact ⟨trivial, ih _⟩

/-- No commit is made in an epoch in which one was made before. -/
def FirstIn (V : M.View) (σ : Groups M) (g : M.MlsGroup) : Prop :=
  ∀ c ∈ σ.log, V.base c ≠ V.epoch g

/-- Commits are made one after another, and reach each client in the epoch they were made
    in. -/
def Ordered (V : M.View) (σ : Groups M) : GroupsAct M → Prop
  | .addMember i keyPackage => ∀ g r g', σ.group i = some g →
      Group.addMember g keyPackage = (.ok r, g') → σ.FirstIn V g
  | .removeMember i index => ∀ g c g', σ.group i = some g →
      Group.removeMember g index = (.ok c, g') → σ.FirstIn V g
  | .process i c => ∃ g, σ.group i = some g ∧ V.epoch g = V.base c
  | .join .. => True

/-! ## 2. The chain of epochs -/

/-- The epoch that a list of commits leads to. -/
def tip (V : M.View) (e₀ : V.Epoch) (log : List M.Message) : V.Epoch :=
  log.foldl (fun _ c => V.next c) e₀

/-- Each commit was made in the epoch the ones before it lead to. -/
def Chain (V : M.View) (e₀ : V.Epoch) (log : List M.Message) : Prop :=
  ∀ pre c post, log = pre ++ c :: post →
    V.IsCommit c ∧ V.base c = tip V e₀ pre ∧ V.number (V.next c) = V.number (tip V e₀ pre) + 1

section Chain

variable {V : M.View} {e₀ : V.Epoch} {log pre post : List M.Message} {c : M.Message}

omit [DecidableEq ι] [DecidableEq M.Message] [DecidableEq M.Welcome]

theorem tip_snoc : tip V e₀ (log ++ [c]) = V.next c := by
  rw [tip, List.foldl_append]
  rfl

theorem Chain.front (h : Chain V e₀ (pre ++ post)) : Chain V e₀ pre := by
  intro pre' c post' heq
  apply h pre' c (post' ++ post)
  rw [heq, List.append_assoc, List.cons_append]

theorem Chain.number_tip (h : Chain V e₀ log) :
    V.number (tip V e₀ log) = V.number e₀ + log.length := by
  induction log using List.reverseRecOn with
  | nil => rfl
  | append_singleton log c ih =>
    obtain ⟨-, -, hnumber⟩ := h log c [] rfl
    rw [tip_snoc, hnumber, ih h.front, List.length_append, List.length_singleton, Nat.add_assoc]

/-- On the chain an epoch says how many commits led to it. -/
theorem Chain.front_eq {pre' post' : List M.Message} (h : Chain V e₀ log)
    (hpre : log = pre ++ post) (hpre' : log = pre' ++ post')
    (htip : tip V e₀ pre = tip V e₀ pre') : pre = pre' ∧ post = post' := by
  have hnumber := (hpre ▸ h : Chain V e₀ (pre ++ post)).front.number_tip
  have hnumber' := (hpre' ▸ h : Chain V e₀ (pre' ++ post')).front.number_tip
  apply List.append_inj (hpre.symm.trans hpre')
  rw [htip] at hnumber
  omega

theorem Chain.snoc (h : Chain V e₀ log) (hcommit : V.IsCommit c) (hbase : V.base c = tip V e₀ log)
    (hnumber : V.number (V.next c) = V.number (tip V e₀ log) + 1) : Chain V e₀ (log ++ [c]) := by
  intro pre d post heq
  rcases List.eq_nil_or_concat post with rfl | ⟨post, d', rfl⟩
  · obtain ⟨rfl, hcd⟩ := List.append_inj' heq rfl
    obtain rfl := (List.cons.inj hcd).1
    exact ⟨hcommit, hbase, hnumber⟩
  · rw [List.concat_eq_append, ← List.cons_append, ← List.append_assoc] at heq
    obtain ⟨hlog, -⟩ := List.append_inj' heq rfl
    exact h pre d post hlog

end Chain

/-! ## 3. The invariant -/

/-- `i` is in the epoch `e`, or is on its way to it. -/
def Placed (V : M.View) (σ : Groups M) (i : ι) (e : V.Epoch) : Prop :=
  (∃ g, σ.group i = some g ∧ V.epoch g = e) ∨ ∃ w, (i, w) ∈ σ.invited ∧ V.welcomeEpoch w = e

/-- Everybody is somewhere on the chain; whoever was never removed is a member at its end,
    in one place only, and every commit from its place on is under way to it. -/
structure Inv (V : M.View) (e₀ : V.Epoch) (σ : Groups M) : Prop where
  chain : Chain V e₀ σ.log
  holds : ∀ i g, σ.group i = some g →
    V.owner g = i ∧ ∃ pre post, σ.log = pre ++ post ∧ V.epoch g = tip V e₀ pre
  invites : ∀ i w, (i, w) ∈ σ.invited →
    V.newcomer w = i ∧ ∃ pre post, σ.log = pre ++ post ∧ V.welcomeEpoch w = tip V e₀ pre
  sent : ∀ i c, (i, c) ∈ σ.sent → c ∈ σ.log ∧ i ∈ V.roster (V.base c) ∧ i ≠ V.committer c
  due : ∀ i, i ∉ σ.removed → ∀ pre post, σ.log = pre ++ post → σ.Placed V i (tip V e₀ pre) →
    (∀ c ∈ post, (i, c) ∈ σ.sent) ∧ i ∈ V.roster (tip V e₀ σ.log)
  alone : ∀ i, i ∉ σ.removed → ∀ w, (i, w) ∈ σ.invited → σ.group i = none
  single : ∀ i, i ∉ σ.removed → (σ.invited.filter fun p => p.1 = i).length ≤ 1

section Inv

variable {V : M.View} {e₀ : V.Epoch} {σ : Groups M} {i : ι} {g g' : M.MlsGroup}

omit [DecidableEq M.Message] [DecidableEq M.Welcome]

@[simp] theorem group_setGroup_self : (σ.setGroup i g).group i = some g := Function.update_self ..

theorem group_setGroup_of_ne {j : ι} (h : j ≠ i) : (σ.setGroup i g).group j = σ.group j :=
  Function.update_of_ne h ..

theorem mem_fanOut {j : ι} {c d : M.Message} :
    (j, d) ∈ fanOut g i c ↔ j ∈ Group.members g ∧ j ≠ i ∧ d = c := by
  simp only [fanOut, List.mem_map, List.mem_filter, decide_eq_true_eq, Prod.mk.injEq]
  constructor
  · rintro ⟨x, ⟨hx, hne⟩, rfl, rfl⟩
    exact ⟨hx, hne, rfl⟩
  · rintro ⟨hj, hne, rfl⟩
    exact ⟨j, ⟨hj, hne⟩, rfl, rfl⟩

theorem inv_start (hcreate : Group.createGroup i = .ok g) :
    Inv V (V.epoch g) (Groups.start i g) := by
  have hnew : M.newWithGroupId i = .ok g := by
    unfold Group.createGroup mls at hcreate
    cases hout : M.newWithGroupId i with
    | error e =>
      rw [hout] at hcreate
      exact nomatch hcreate
    | ok g₁ =>
      rw [hout] at hcreate
      rw [Except.ok.inj hcreate]
  obtain ⟨howner, hroster⟩ := V.newWithGroupId_ok i g hnew
  have hgroup : ∀ j g₁, (Groups.start i g).group j = some g₁ → j = i ∧ g₁ = g := by
    intro j g₁ h
    simp only [Groups.start] at h
    split at h
    · rename_i hj
      exact ⟨hj, (Option.some.inj h).symm⟩
    · exact nomatch h
  refine ⟨?_, ?_, ?_, ?_, ?_, ?_, ?_⟩
  · intro pre c post h
    exact absurd h (by simp [Groups.start])
  · intro j g₁ h
    obtain ⟨rfl, rfl⟩ := hgroup j g₁ h
    exact ⟨howner, [], [], rfl, rfl⟩
  · intro j w h
    exact absurd h List.not_mem_nil
  · intro j c h
    exact absurd h List.not_mem_nil
  · intro j _ pre post hlog hplaced
    obtain ⟨rfl, rfl⟩ := List.append_eq_nil_iff.mp hlog.symm
    rcases hplaced with ⟨g₁, h, -⟩ | ⟨w, hw, -⟩
    · obtain ⟨rfl, rfl⟩ := hgroup j g₁ h
      refine ⟨fun c hc => absurd hc List.not_mem_nil, ?_⟩
      show j ∈ V.roster (V.epoch g₁)
      rw [hroster]
      exact List.mem_singleton_self j
    · exact absurd hw List.not_mem_nil
  · intro j _ w h
    exact absurd h List.not_mem_nil
  · intro j _
    exact Nat.zero_le _

/-- A call that fails leaves the group in its epoch. -/
theorem Inv.same (inv : Inv V e₀ σ) (hg : σ.group i = some g) (howner : V.owner g' = V.owner g)
    (hepoch : V.epoch g' = V.epoch g) : Inv V e₀ (σ.setGroup i g') := by
  have hback : ∀ j g₁, (σ.setGroup i g').group j = some g₁ → ∃ g₂, σ.group j = some g₂ ∧
      V.owner g₁ = V.owner g₂ ∧ V.epoch g₁ = V.epoch g₂ := by
    intro j g₁ h
    by_cases hj : j = i
    · subst hj
      rw [group_setGroup_self] at h
      obtain rfl := Option.some.inj h
      exact ⟨g, hg, howner, hepoch⟩
    · rw [group_setGroup_of_ne hj] at h
      exact ⟨g₁, h, rfl, rfl⟩
  refine { inv with holds := ?_, due := ?_, alone := ?_ }
  · intro j g₁ h
    obtain ⟨g₂, h₂, ho, he⟩ := hback j g₁ h
    rw [ho, he]
    exact inv.holds j g₂ h₂
  · intro j hj pre post hlog hplaced
    refine inv.due j hj pre post hlog (hplaced.imp_left ?_)
    rintro ⟨g₁, h, htip⟩
    obtain ⟨g₂, h₂, -, he⟩ := hback j g₁ h
    exact ⟨g₂, h₂, he.symm.trans htip⟩
  · intro j hj w hw
    have hnone := inv.alone j hj w hw
    by_cases hji : j = i
    · subst hji
      exact nomatch hg.symm.trans hnone
    · rwa [group_setGroup_of_ne hji]

/-- Whoever is not a member, and was never removed, is nowhere. -/
theorem Inv.absent (inv : Inv V e₀ σ) {j : ι} (hj : j ∉ σ.removed)
    (hroster : j ∉ V.roster (tip V e₀ σ.log)) :
    σ.group j = none ∧ ∀ w, (j, w) ∉ σ.invited := by
  have hnot : ∀ pre post, σ.log = pre ++ post → ¬σ.Placed V j (tip V e₀ pre) :=
    fun pre post hlog hplaced => hroster (inv.due j hj pre post hlog hplaced).2
  constructor
  · apply Option.eq_none_iff_forall_ne_some.mpr
    intro g hg
    obtain ⟨-, pre, post, hlog, hepoch⟩ := inv.holds j g hg
    exact hnot pre post hlog (Or.inl ⟨g, hg, hepoch⟩)
  · intro w hw
    obtain ⟨-, pre, post, hlog, hepoch⟩ := inv.invites j w hw
    exact hnot pre post hlog (Or.inr ⟨w, hw, hepoch⟩)

/-- A client at an epoch in which no commit was made is at the end of the chain. -/
theorem Inv.at_tip (inv : Inv V e₀ σ) (hg : σ.group i = some g) (hfirst : σ.FirstIn V g) :
    V.epoch g = tip V e₀ σ.log := by
  obtain ⟨-, pre, post, hlog, hepoch⟩ := inv.holds i g hg
  cases post with
  | nil => rw [hlog, List.append_nil, hepoch]
  | cons c post =>
    obtain ⟨-, hbase, -⟩ := inv.chain pre c post hlog
    refine absurd (hbase.trans hepoch.symm) (hfirst c ?_)
    rw [hlog]
    exact List.mem_append_right _ (List.mem_cons_self ..)

/-- **A commit at the end of the chain.**  The committer goes on alone; every other member,
    and every newcomer, has what takes it there under way. -/
theorem Inv.commit (inv : Inv V e₀ σ) (hg : σ.group i = some g) {c : M.Message}
    (made : Group.Made V g c g') (hfirst : σ.FirstIn V g) (newcomers : List (ι × M.Welcome))
    (gone : List ι)
    (hstays : ∀ j, j ∉ gone → j ∈ V.roster (V.epoch g) → j ∈ V.roster (V.next c))
    (hnew : ∀ j w, (j, w) ∈ newcomers → V.newcomer w = j ∧ V.welcomeEpoch w = V.next c ∧
      j ∉ V.roster (V.epoch g) ∧ j ∈ V.roster (V.next c))
    (hone : newcomers.length ≤ 1) :
    Inv V e₀ { σ.setGroup i g' with
      sent := σ.sent ++ fanOut g i c
      invited := σ.invited ++ newcomers
      removed := σ.removed ++ gone
      log := σ.log ++ [c] } := by
  have htip := inv.at_tip hg hfirst
  have hchain := inv.chain.snoc made.isCommit (made.base.trans htip) (by rw [made.number, htip])
  have hnext : tip V e₀ (σ.log ++ [c]) = V.next c := tip_snoc
  have hown : V.owner g = i := (inv.holds i g hg).1
  have hmember : i ∈ V.roster (V.epoch g) := hown ▸ made.member
  have hlater : ∀ {pre post : List M.Message}, σ.log = pre ++ post →
      σ.log ++ [c] = pre ++ (post ++ [c]) := by
    intro pre post hlog
    rw [hlog, List.append_assoc]
  refine ⟨hchain, ?_, ?_, ?_, ?_, ?_, ?_⟩
  · intro j g₁ h
    by_cases hj : j = i
    · subst hj
      obtain rfl := Option.some.inj (group_setGroup_self.symm.trans h)
      exact ⟨made.owner.trans hown, σ.log ++ [c], [], (List.append_nil _).symm,
        made.epoch.trans hnext.symm⟩
    · obtain ⟨ho, pre, post, hlog, hepoch⟩ :=
        inv.holds j g₁ ((group_setGroup_of_ne hj).symm.trans h)
      exact ⟨ho, pre, post ++ [c], hlater hlog, hepoch⟩
  · intro j w h
    rcases List.mem_append.mp h with h | h
    · obtain ⟨hw, pre, post, hlog, hepoch⟩ := inv.invites j w h
      exact ⟨hw, pre, post ++ [c], hlater hlog, hepoch⟩
    · obtain ⟨hw, hepoch, -, -⟩ := hnew j w h
      exact ⟨hw, σ.log ++ [c], [], (List.append_nil _).symm, hepoch.trans hnext.symm⟩
  · intro j d h
    rcases List.mem_append.mp h with h | h
    · obtain ⟨hlog, hrest⟩ := inv.sent j d h
      exact ⟨List.mem_append_left _ hlog, hrest⟩
    · obtain ⟨hj, hne, rfl⟩ := mem_fanOut.mp h
      rw [Group.members_eq V] at hj
      refine ⟨List.mem_append_right _ (List.mem_singleton_self _), made.base ▸ hj, ?_⟩
      rwa [made.committer, hown]
  · intro j hj pre post hlog hplaced
    obtain ⟨hold, hgone⟩ := not_or.mp (mt List.mem_append.mpr hj)
    -- a place in the new epoch has nothing after it
    have hend : j ∈ V.roster (V.next c) → tip V e₀ pre = V.next c →
        (∀ d ∈ post, (j, d) ∈ σ.sent ++ fanOut g i c) ∧
          j ∈ V.roster (tip V e₀ (σ.log ++ [c])) := by
      intro hroster hpre
      obtain ⟨-, rfl⟩ := hchain.front_eq hlog (List.append_nil _).symm (hpre.trans hnext.symm)
      exact ⟨fun d hd => absurd hd List.not_mem_nil, hnext ▸ hroster⟩
    -- and at a place it had before, a client gets the new commit too
    have hbefore : σ.Placed V j (tip V e₀ pre) → j ≠ i → (∃ pre₀ post₀, σ.log = pre₀ ++ post₀ ∧
        tip V e₀ pre = tip V e₀ pre₀) → (∀ d ∈ post, (j, d) ∈ σ.sent ++ fanOut g i c) ∧
          j ∈ V.roster (tip V e₀ (σ.log ++ [c])) := by
      rintro hplaced hne ⟨pre₀, post₀, hlog₀, hpre⟩
      obtain ⟨rfl, rfl⟩ := hchain.front_eq hlog (hlater hlog₀) hpre
      obtain ⟨hdue, hroster⟩ := inv.due j hold pre post₀ hlog₀ hplaced
      rw [← htip] at hroster
      refine ⟨?_, hnext ▸ hstays j hgone hroster⟩
      intro d hd
      rcases List.mem_append.mp hd with hd | hd
      · exact List.mem_append_left _ (hdue d hd)
      · refine List.mem_append_right _ (mem_fanOut.mpr ⟨?_, hne, List.mem_singleton.mp hd⟩)
        rwa [Group.members_eq V]
    rcases hplaced with ⟨g₁, h, hepoch⟩ | ⟨w, hw, hepoch⟩
    · by_cases hji : j = i
      · subst hji
        obtain rfl := Option.some.inj (group_setGroup_self.symm.trans h)
        exact hend (hstays j hgone hmember) (hepoch.symm.trans made.epoch)
      · have h' := (group_setGroup_of_ne hji).symm.trans h
        obtain ⟨-, pre₀, post₀, hlog₀, hepoch₀⟩ := inv.holds j g₁ h'
        exact hbefore (Or.inl ⟨g₁, h', hepoch⟩) hji
          ⟨pre₀, post₀, hlog₀, hepoch.symm.trans hepoch₀⟩
    · rcases List.mem_append.mp hw with hw' | hw'
      · have hji : j ≠ i := by
          rintro rfl
          exact nomatch hg.symm.trans (inv.alone j hold w hw')
        obtain ⟨-, pre₀, post₀, hlog₀, hepoch₀⟩ := inv.invites j w hw'
        exact hbefore (Or.inr ⟨w, hw', hepoch⟩) hji
          ⟨pre₀, post₀, hlog₀, hepoch.symm.trans hepoch₀⟩
      · obtain ⟨-, hwelcome, -, hroster⟩ := hnew j w hw'
        exact hend hroster (hepoch.symm.trans hwelcome)
  · intro j hj w hw
    obtain ⟨hold, -⟩ := not_or.mp (mt List.mem_append.mpr hj)
    rcases List.mem_append.mp hw with hw | hw
    · have hnone := inv.alone j hold w hw
      have hji : j ≠ i := by
        rintro rfl
        exact nomatch hg.symm.trans hnone
      exact (group_setGroup_of_ne hji).trans hnone
    · obtain ⟨-, -, hnot, -⟩ := hnew j w hw
      have hji : j ≠ i := by
        rintro rfl
        exact hnot hmember
      exact (group_setGroup_of_ne hji).trans (inv.absent hold (htip ▸ hnot)).1
  · intro j hj
    obtain ⟨hold, -⟩ := not_or.mp (mt List.mem_append.mpr hj)
    show ((σ.invited ++ newcomers).filter fun p => p.1 = j).length ≤ 1
    rw [List.filter_append, List.length_append]
    by_cases hmem : ∃ w, (j, w) ∈ newcomers
    · obtain ⟨w, hw⟩ := hmem
      obtain ⟨-, -, hnot, -⟩ := hnew j w hw
      have hnone : σ.invited.filter (fun p => p.1 = j) = [] := by
        apply List.filter_eq_nil_iff.mpr
        rintro ⟨k, w'⟩ hw' hk
        obtain rfl : k = j := of_decide_eq_true hk
        exact (inv.absent hold (htip ▸ hnot)).2 w' hw'
      rw [hnone, List.length_nil, Nat.zero_add]
      exact Nat.le_trans (List.length_filter_le ..) hone
    · have hnone : newcomers.filter (fun p => p.1 = j) = [] := by
        apply List.filter_eq_nil_iff.mpr
        rintro ⟨k, w'⟩ hw' hk
        obtain rfl : k = j := of_decide_eq_true hk
        exact hmem ⟨w', hw'⟩
      rw [hnone, List.length_nil]
      exact inv.single j hold

/-- A member takes a commit in the epoch it was made in. -/
theorem Inv.process [DecidableEq M.Message] (inv : Inv V e₀ σ) (hg : σ.group i = some g)
    {c : M.Message} (hsent : (i, c) ∈ σ.sent) (hepoch : V.epoch g = V.base c) :
    Inv V e₀ { σ.setGroup i (Group.process g c).2 with sent := σ.sent.erase (i, c) } := by
  obtain ⟨hmem, hroster, hother⟩ := inv.sent i c hsent
  obtain ⟨pre, post, hlog⟩ := List.append_of_mem hmem
  obtain ⟨hcommit, hbase, -⟩ := inv.chain pre c post hlog
  have hown := (inv.holds i g hg).1
  obtain ⟨g', hprocess, howner', hnext⟩ :=
    Group.process_commit V hcommit hepoch (hown ▸ hroster) (hown ▸ hother)
  rw [hprocess]
  have hafter : V.epoch g' = tip V e₀ (pre ++ [c]) := hnext.trans tip_snoc.symm
  have hlog' : σ.log = (pre ++ [c]) ++ post := by
    rw [hlog, List.append_assoc, List.singleton_append]
  refine ⟨inv.chain, ?_, inv.invites, ?_, ?_, ?_, inv.single⟩
  · intro j g₁ h
    by_cases hj : j = i
    · subst hj
      obtain rfl := Option.some.inj (group_setGroup_self.symm.trans h)
      exact ⟨howner'.trans hown, pre ++ [c], post, hlog', hafter⟩
    · exact inv.holds j g₁ ((group_setGroup_of_ne hj).symm.trans h)
  · intro j d h
    exact inv.sent j d (List.mem_of_mem_erase h)
  · intro j hj pre₁ post₁ hlog₁ hplaced
    by_cases hji : j = i
    · subst hji
      have hplaced₁ : V.epoch g' = tip V e₀ pre₁ := by
        rcases hplaced with ⟨g₁, h, h₁⟩ | ⟨w, hw, -⟩
        · obtain rfl := Option.some.inj (group_setGroup_self.symm.trans h)
          exact h₁
        · exact nomatch hg.symm.trans (inv.alone j hj w hw)
      obtain ⟨rfl, rfl⟩ := inv.chain.front_eq hlog₁ hlog' (hplaced₁.symm.trans hafter)
      obtain ⟨hdue, htip⟩ := inv.due j hj pre (c :: post₁) hlog
        (Or.inl ⟨g, hg, hepoch.trans hbase⟩)
      refine ⟨?_, htip⟩
      intro d hd
      refine (List.mem_erase_of_ne ?_).mpr (hdue d (List.mem_cons_of_mem _ hd))
      intro heq
      -- the commit does not come twice on the chain
      obtain rfl := (Prod.mk.inj heq).2
      obtain ⟨mid, rest, rfl⟩ := List.append_of_mem hd
      have hagain : σ.log = (pre ++ d :: mid) ++ d :: rest := by
        rw [hlog, List.append_assoc, List.cons_append]
      obtain ⟨-, hbase', -⟩ := inv.chain _ d rest hagain
      have hlen := congrArg List.length
        (inv.chain.front_eq hlog hagain (hbase.symm.trans hbase')).1
      rw [List.length_append, List.length_cons] at hlen
      omega
    · have hplaced' : σ.Placed V j (tip V e₀ pre₁) := by
        refine hplaced.imp_left ?_
        rintro ⟨g₁, h, h₁⟩
        exact ⟨g₁, (group_setGroup_of_ne hji).symm.trans h, h₁⟩
      obtain ⟨hdue, htip⟩ := inv.due j hj pre₁ post₁ hlog₁ hplaced'
      refine ⟨?_, htip⟩
      intro d hd
      exact (List.mem_erase_of_ne fun heq => hji (Prod.mk.inj heq).1).mpr (hdue d hd)
  · intro j hj w hw
    have hnone := inv.alone j hj w hw
    have hji : j ≠ i := by
      rintro rfl
      exact nomatch hg.symm.trans hnone
    exact (group_setGroup_of_ne hji).trans hnone

/-- A newcomer joins in the epoch its welcome is for. -/
theorem Inv.join [DecidableEq M.Welcome] (inv : Inv V e₀ σ) {w : M.Welcome}
    (hw : (i, w) ∈ σ.invited) : ∃ g, Group.joinGroup i w = .ok g ∧
      Inv V e₀ { σ.setGroup i g with invited := σ.invited.erase (i, w) } := by
  obtain ⟨rfl, pre, post, hlog, hwelcome⟩ := inv.invites i w hw
  obtain ⟨g, hjoin, howner, hepoch⟩ := Group.joinGroup_newcomer V w
  have hother : ∀ {j : ι}, j ≠ V.newcomer w →
      (σ.setGroup (V.newcomer w) g).group j = σ.group j := group_setGroup_of_ne
  refine ⟨g, hjoin, inv.chain, ?_, ?_, inv.sent, ?_, ?_, ?_⟩
  · intro j g₁ h
    by_cases hj : j = V.newcomer w
    · subst hj
      obtain rfl := Option.some.inj (group_setGroup_self.symm.trans h)
      exact ⟨howner, pre, post, hlog, hepoch.trans hwelcome⟩
    · exact inv.holds j g₁ ((hother hj).symm.trans h)
  · intro j w' h
    exact inv.invites j w' (List.mem_of_mem_erase h)
  · intro j hj pre₁ post₁ hlog₁ hplaced
    refine inv.due j hj pre₁ post₁ hlog₁ ?_
    rcases hplaced with ⟨g₁, h, h₁⟩ | ⟨w', hw', h₁⟩
    · by_cases hjw : j = V.newcomer w
      · subst hjw
        obtain rfl := Option.some.inj (group_setGroup_self.symm.trans h)
        exact Or.inr ⟨w, hw, hepoch.symm.trans h₁⟩
      · exact Or.inl ⟨g₁, (hother hjw).symm.trans h, h₁⟩
    · exact Or.inr ⟨w', List.mem_of_mem_erase hw', h₁⟩
  · intro j hj w' hw'
    have hnone := inv.alone j hj w' (List.mem_of_mem_erase hw')
    by_cases hjw : j = V.newcomer w
    · subst hjw
      -- its one welcome has just been used
      have hsingle := inv.single _ hj
      have hperm := (List.perm_cons_erase hw).filter fun p => decide (p.1 = V.newcomer w)
      rw [List.filter_cons_of_pos (by simp)] at hperm
      rw [hperm.length_eq, List.length_cons] at hsingle
      have hmem : (V.newcomer w, w') ∈ (σ.invited.erase (V.newcomer w, w)).filter
          fun p => decide (p.1 = V.newcomer w) := List.mem_filter.mpr ⟨hw', by simp⟩
      have hpos := List.length_pos_of_mem hmem
      omega
    · exact (hother hjw).trans hnone
  · intro j hj
    exact Nat.le_trans (List.erase_sublist.filter _).length_le (inv.single j hj)

end Inv

/-! ## 4. Runs -/

section Runs

variable {V : M.View} {σ : Groups M}

theorem inv_step {e₀ : V.Epoch} (inv : Inv V e₀ σ) (act : GroupsAct M)
    (hordered : σ.Ordered V act) : Inv V e₀ (σ.step V act) := by
  cases act with
  | addMember i keyPackage =>
    rw [step]
    split
    · exact inv
    · rename_i g hg
      rcases Group.addMember_cases V g keyPackage with
        ⟨c, w, g', hadd, made, hnew, hwelcome, hroster⟩ | ⟨e, g', hadd, howner, hepoch⟩
      · rw [hadd]
        have next := inv.commit hg made (hordered g _ g' hg hadd) [(V.newcomer w, w)] []
          (fun j _ hj => (hroster j).mpr (Or.inl hj)) ?_ (Nat.le_refl 1)
        · rwa [List.append_nil] at next
        · intro j w' hw'
          obtain ⟨rfl, rfl⟩ := Prod.mk.inj (List.mem_singleton.mp hw')
          exact ⟨rfl, hwelcome, hnew, (hroster _).mpr (Or.inr rfl)⟩
      · rw [hadd]
        exact inv.same hg howner hepoch
  | removeMember i index =>
    rw [step]
    split
    · exact inv
    · rename_i g hg
      rcases Group.removeMember_cases V g index with
        ⟨c, t, g', hremove, made, ht, hroster⟩ | ⟨e, g', hremove, howner, hepoch⟩
      · rw [hremove]
        have next := inv.commit hg made (hordered g c g' hg hremove) [] [t]
          (fun j hj hmem => (hroster j).mpr ⟨hmem, fun h => hj (List.mem_singleton.mpr h)⟩)
          (fun _ _ h => absurd h List.not_mem_nil) (Nat.zero_le 1)
        rw [List.append_nil] at next
        simp only [ht]
        exact next
      · rw [hremove]
        exact inv.same hg howner hepoch
  | process i c =>
    rw [step]
    split
    · rename_i hsent
      obtain ⟨g, hg, hepoch⟩ := hordered
      simp only [hg]
      exact inv.process hg hsent hepoch
    · exact inv
  | join i w =>
    rw [step]
    split
    · rename_i hw
      obtain ⟨g, hjoin, next⟩ := inv.join hw
      simp only [hjoin]
      exact next
    · exact inv

theorem inv_run {creator : ι} {g : M.MlsGroup} (hcreate : Group.createGroup creator = .ok g)
    (run : Run V (Ordered V) creator g σ) : Inv V (V.epoch g) σ := by
  induction run with
  | start => exact inv_start hcreate
  | step act _ hordered ih => exact inv_step ih act hordered

omit [DecidableEq M.Message] [DecidableEq M.Welcome] in
/-- Nothing is under way to a client that was never removed: it is at the end. -/
theorem Inv.at_end {e₀ : V.Epoch} (inv : Inv V e₀ σ) (hsent : σ.sent = []) {i : ι}
    (hi : i ∉ σ.removed) {g : M.MlsGroup} (hg : σ.group i = some g) :
    V.epoch g = tip V e₀ σ.log ∧ V.owner g = i ∧ i ∈ V.roster (V.epoch g) := by
  obtain ⟨howner, pre, post, hlog, hepoch⟩ := inv.holds i g hg
  obtain ⟨hdue, hroster⟩ := inv.due i hi pre post hlog (Or.inl ⟨g, hg, hepoch⟩)
  have hpost : post = [] := by
    apply List.eq_nil_iff_forall_not_mem.mpr
    intro c hc
    have := hdue c hc
    rw [hsent] at this
    exact absurd this List.not_mem_nil
  have hend : V.epoch g = tip V e₀ σ.log := by rw [hepoch, hlog, hpost, List.append_nil]
  exact ⟨hend, howner, hend ▸ hroster⟩

/-- **Agreement.**  When commits are made one after another and reach everyone in the epoch
    they were made in, then, with no commit and no welcome under way any more, all clients
    of the group that were never removed are in one epoch, have one set of members, and
    read each other's messages. -/
theorem members_agree {creator : ι} {g₀ : M.MlsGroup}
    (hcreate : Group.createGroup creator = .ok g₀) (run : Run V (Ordered V) creator g₀ σ)
    (hsent : σ.sent = []) {i j : ι} {gi gj : M.MlsGroup} (hgi : σ.group i = some gi)
    (hgj : σ.group j = some gj) (hi : i ∉ σ.removed) (hj : j ∉ σ.removed) :
    V.epoch gi = V.epoch gj ∧ Group.members gi = Group.members gj ∧
      (i ≠ j → ∀ plaintext m g, Group.send gi plaintext = (.ok m, g) → V.Unread gj m →
        ∃ g', Group.process gj m = (.ok (.application i plaintext), g')) := by
  have inv := inv_run hcreate run
  obtain ⟨hepochi, howneri, hmemberi⟩ := inv.at_end hsent hi hgi
  obtain ⟨hepochj, hownerj, hmemberj⟩ := inv.at_end hsent hj hgj
  have hepoch : V.epoch gi = V.epoch gj := hepochi.trans hepochj.symm
  refine ⟨hepoch, ?_, ?_⟩
  · rw [Group.members_eq V, Group.members_eq V, hepoch]
  · intro hne plaintext m g hsend hunread
    rw [← howneri]
    refine Group.process_send V hsend hepoch.symm ?_ ?_ hunread
    · rw [hepoch, hownerj]
      exact hmemberj
    · rw [hownerj, howneri]
      exact hne.symm

end Runs

end Groups

/-! ## 5. A group that keeps its history -/

section Sample

inductive Change where
  | add (i : Nat)
  | remove (i : Nat)
deriving DecidableEq

/-- An epoch as everything that led to it. -/
structure History where
  creator : Nat
  changes : List (Nat × Change)
deriving DecidableEq

namespace History

def roster (h : History) : List Nat :=
  h.changes.foldl (fun members change => match change.2 with
    | .add i => members ++ [i]
    | .remove i => members.filter fun j => j ≠ i) [h.creator]

def after (h : History) (committer : Nat) (change : Change) : History :=
  { h with changes := h.changes ++ [(committer, change)] }

theorem mem_roster_add (h : History) (committer i j : Nat) :
    j ∈ (h.after committer (.add i)).roster ↔ j ∈ h.roster ∨ j = i := by
  rw [roster, after, List.foldl_append]
  exact List.mem_append.trans (or_congr Iff.rfl List.mem_singleton)

theorem mem_roster_remove (h : History) (committer i j : Nat) :
    j ∈ (h.after committer (.remove i)).roster ↔ j ∈ h.roster ∧ j ≠ i := by
  rw [roster, after, List.foldl_append]
  exact List.mem_filter.trans (and_congr Iff.rfl decide_eq_true_iff)

end History

inductive HistoryMessage where
  | commit (base : History) (committer : Nat) (change : Change)
  | application (epoch : History) (sender : Nat) (plaintext : Bytes)
deriving DecidableEq

structure HistoryGroup where
  owner : Nat
  epoch : History
  pending : Option History
deriving DecidableEq

/-- OpenMLS without its cryptography: what is secret to an epoch is its history. -/
def historyMls : OpenMls Nat where
  MlsGroup := HistoryGroup
  KeyPackageIn := Nat
  KeyPackage := Nat
  Message := HistoryMessage
  Welcome := Nat × History
  StagedCommit := History
  validate kp := .ok kp
  newWithGroupId i := .ok ⟨i, ⟨i, []⟩, none⟩
  newFromWelcome i w := if i = w.1 then .ok ⟨i, w.2, none⟩ else .error "no matching key package"
  members g := g.epoch.roster.map fun i => (UInt32.ofNat i, i)
  addMembers g kp :=
    if g.owner ∈ g.epoch.roster ∧ kp ∉ g.epoch.roster then
      let next := g.epoch.after g.owner (.add kp)
      (.ok (.commit g.epoch g.owner (.add kp), (kp, next)), { g with pending := some next })
    else (.error "invalid commit", g)
  removeMembers g index :=
    match (g.epoch.roster.map fun i => (UInt32.ofNat i, i)).lookup index with
    | none => (.error "unknown member", g)
    | some t =>
      if g.owner ∈ g.epoch.roster ∧ t ≠ g.owner then
        (.ok (.commit g.epoch g.owner (.remove t)),
          { g with pending := some (g.epoch.after g.owner (.remove t)) })
      else (.error "invalid commit", g)
  mergePendingCommit g :=
    match g.pending with
    | none => (.ok (), g)
    | some next => (.ok (), { g with epoch := next, pending := none })
  createMessage g plaintext := (.ok (.application g.epoch g.owner plaintext), g)
  processMessage g m :=
    match m with
    | .commit base committer change =>
      if g.epoch = base ∧ g.owner ∈ base.roster ∧ g.owner ≠ committer then
        (.ok ⟨committer, .stagedCommitMessage (base.after committer change)⟩, g)
      else (.error "wrong epoch", g)
    | .application epoch sender plaintext =>
      if g.epoch = epoch ∧ g.owner ∈ epoch.roster ∧ g.owner ≠ sender then
        (.ok ⟨sender, .applicationMessage plaintext⟩, g)
      else (.error "cannot decrypt", g)
  mergeStagedCommit g staged := (.ok (), { g with epoch := staged })

instance : DecidableEq historyMls.Message := inferInstanceAs (DecidableEq HistoryMessage)
instance : DecidableEq historyMls.Welcome := inferInstanceAs (DecidableEq (Nat × History))

def historyView : historyMls.View where
  Epoch := History
  number e := e.changes.length
  roster := History.roster
  owner g := g.owner
  epoch g := g.epoch
  IsCommit m := match m with
    | .commit .. => True
    | .application .. => False
  base m := match m with
    | .commit base _ _ => base
    | .application epoch _ _ => epoch
  next m := match m with
    | .commit base committer change => base.after committer change
    | .application epoch _ _ => epoch
  committer m := match m with
    | .commit _ committer _ => committer
    | .application _ sender _ => sender
  newcomer w := w.1
  welcomeEpoch w := w.2
  holder kp := kp
  Unread _ _ := True
  members_eq g := by
    show (g.epoch.roster.map fun i => (UInt32.ofNat i, i)).map Prod.snd = g.epoch.roster
    rw [List.map_map]
    exact List.map_id _
  newWithGroupId_ok i g h := by
    obtain rfl := Except.ok.inj h
    exact ⟨rfl, rfl⟩
  newFromWelcome_ok w := ⟨⟨w.1, w.2, none⟩, if_pos rfl, rfl, rfl⟩
  addMembers_ok g kp c w g₁ h := by
    simp only [historyMls] at h
    split at h
    · rename_i hvalid
      obtain ⟨hout, rfl⟩ := Prod.mk.inj h
      obtain ⟨rfl, rfl⟩ := Prod.mk.inj (Except.ok.inj hout)
      refine ⟨trivial, rfl, rfl, hvalid.1, ?_, hvalid.2, ?_, rfl, rfl, _, rfl, rfl, rfl⟩
      · exact List.length_append
      · exact History.mem_roster_add g.epoch g.owner kp
    · exact nomatch (Prod.mk.inj h).1
  addMembers_error g kp e g₁ h := by
    simp only [historyMls] at h
    split at h
    · exact nomatch (Prod.mk.inj h).1
    · obtain ⟨-, rfl⟩ := Prod.mk.inj h
      exact ⟨rfl, rfl⟩
  removeMembers_ok g k c g₁ h := by
    simp only [historyMls] at h
    split at h
    · exact nomatch (Prod.mk.inj h).1
    · rename_i t ht
      split at h
      · rename_i hvalid
        obtain ⟨hout, rfl⟩ := Prod.mk.inj h
        obtain rfl := Except.ok.inj hout
        refine ⟨trivial, rfl, rfl, hvalid.1, ?_, ⟨t, ht, hvalid.2, ?_⟩, _, rfl, rfl, rfl⟩
        · exact List.length_append
        · exact History.mem_roster_remove g.epoch g.owner t
      · exact nomatch (Prod.mk.inj h).1
  removeMembers_error g k e g₁ h := by
    simp only [historyMls] at h
    split at h
    · obtain ⟨-, rfl⟩ := Prod.mk.inj h
      exact ⟨rfl, rfl⟩
    · split at h
      · exact nomatch (Prod.mk.inj h).1
      · obtain ⟨-, rfl⟩ := Prod.mk.inj h
        exact ⟨rfl, rfl⟩
  processMessage_commit g c hcommit hepoch hmember hother := by
    cases c with
    | application => exact hcommit.elim
    | commit base committer change =>
      exact ⟨_, _, _, _, if_pos ⟨hepoch, hmember, hother⟩, rfl, rfl, rfl⟩
  processMessage_stale g c hcommit hepoch := by
    cases c with
    | application => exact hcommit.elim
    | commit base committer change => exact ⟨_, _, if_neg fun h => hepoch h.1, rfl, rfl⟩
  processMessage_application g g' p m g₁ hcreate hepoch hmember hother _ := by
    obtain ⟨hm, rfl⟩ := Prod.mk.inj hcreate
    obtain rfl := Except.ok.inj hm
    exact ⟨_, if_pos ⟨hepoch, hmember, hother⟩⟩

namespace Groups

def founder : historyMls.MlsGroup := (⟨0, ⟨0, []⟩, none⟩ : HistoryGroup)

def founded : Groups historyMls := start 0 founder

/-- Client 0 adds 1, and once 1 has joined, 2. -/
def ordered : List (GroupsAct historyMls) :=
  let first : History := ⟨0, [(0, .add 1)]⟩
  let second : History := ⟨0, [(0, .add 1), (0, .add 2)]⟩
  [.addMember 0 (1 : Nat), .join 1 ((1, first) : Nat × History), .addMember 0 (2 : Nat),
    .process 1 (HistoryMessage.commit first 0 (.add 2)), .join 2 ((2, second) : Nat × History)]

/-- Clients 0 and 1 add 2 and 3 in the same epoch. -/
def forked : List (GroupsAct historyMls) :=
  let first : History := ⟨0, [(0, .add 1)]⟩
  [.addMember 0 (1 : Nat), .join 1 ((1, first) : Nat × History),
    .addMember 0 (2 : Nat), .addMember 1 (3 : Nat),
    .process 1 (HistoryMessage.commit first 0 (.add 2)),
    .process 0 (HistoryMessage.commit first 1 (.add 3)),
    .join 2 ((2, first.after 0 (.add 2)) : Nat × History),
    .join 3 ((3, first.after 1 (.add 3)) : Nat × History)]

/-- Client 0 adds 2 and then 3; the second commit reaches 1 before the first. -/
def overtaken : List (GroupsAct historyMls) :=
  let first : History := ⟨0, [(0, .add 1)]⟩
  let second : History := ⟨0, [(0, .add 1), (0, .add 2)]⟩
  [.addMember 0 (1 : Nat), .join 1 ((1, first) : Nat × History),
    .addMember 0 (2 : Nat), .join 2 ((2, second) : Nat × History), .addMember 0 (3 : Nat),
    .join 3 ((3, second.after 0 (.add 3)) : Nat × History),
    .process 2 (HistoryMessage.commit second 0 (.add 3)),
    .process 1 (HistoryMessage.commit second 0 (.add 3)),
    .process 1 (HistoryMessage.commit first 0 (.add 2))]

/-- Nothing is under way, nobody was removed, and 0 and 1 have other members. -/
def Split (σ : Groups historyMls) : Prop :=
  σ.sent = [] ∧ σ.invited = [] ∧ σ.removed = [] ∧ ∃ g₀ g₁, σ.group 0 = some g₀ ∧
    σ.group 1 = some g₁ ∧ Group.members g₀ ≠ Group.members g₁

theorem run_ordered :
    Run historyView (Ordered historyView) 0 founder (ordered.foldl (step historyView) founded) := by
  apply Run.along .start
  refine ⟨?_, trivial, ?_, ⟨_, rfl, rfl⟩, trivial, trivial⟩
  · intro g r g' _ _ c hc
    exact nomatch hc
  · intro g r g' hg _ c hc
    obtain rfl := Option.some.inj hg
    obtain rfl := List.mem_singleton.mp hc
    have hne : (⟨0, []⟩ : History) ≠ ⟨0, [(0, .add 1)]⟩ := by decide
    exact hne

/-- Client 1 has the members of client 0 after it, and reads its messages. -/
theorem members_agree_ordered : ∃ σ : Groups historyMls, ∃ g₀ g₁, σ.group 0 = some g₀ ∧
    σ.group 1 = some g₁ ∧ Group.members g₀ = Group.members g₁ ∧ Group.members g₀ = [0, 1, 2] ∧
    ∀ plaintext m g, Group.send g₀ plaintext = (.ok m, g) →
      ∃ g', Group.process g₁ m = (.ok (.application 0 plaintext), g') := by
  refine ⟨ordered.foldl (step historyView) founded, _, _, rfl, rfl, ?_⟩
  have h := members_agree (V := historyView) rfl run_ordered rfl (i := 0) (j := 1) rfl rfl
    List.not_mem_nil List.not_mem_nil
  refine ⟨h.2.1, rfl, fun plaintext m g hsend => h.2.2 (by decide) plaintext m g hsend trivial⟩

/-- Two commits in one epoch split the group, and so does a commit that overtakes another. -/
theorem commits_split_group : ∃ σ σ' : Groups historyMls,
    Run historyView (fun _ _ => True) 0 founder σ ∧ Split σ ∧
    Run historyView (fun _ _ => True) 0 founder σ' ∧ Split σ' := by
  refine ⟨forked.foldl (step historyView) founded, overtaken.foldl (step historyView) founded,
    Run.along .start (Along.of_true _ _), ?_, Run.along .start (Along.of_true _ _), ?_⟩
  · refine ⟨rfl, rfl, rfl, _, _, rfl, rfl, ?_⟩
    decide +kernel
  · refine ⟨rfl, rfl, rfl, _, _, rfl, rfl, ?_⟩
    decide +kernel

end Groups

end Sample

end Clarity
