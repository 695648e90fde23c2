/-
  Clarity/Directory.lean
  ======================
  **The prekey directory** (`RelayStore::publish` / `fetch_bundle` in
  `relay/src/store.rs`) and the owner that fills it (`_publishBundle`,
  `_maybeReplenishPrekeys` in the app, `Session::respond` in the core).

  The directory's pool shrinks when a bundle is fetched, the owner's when a
  handshake arrives, and `publish` replaces the first by the second.

    * `dispensed_nodup` — a prekey is dispensed once in every run that publishes only
      when the owner holds no prekey that was dispensed before; and a single
      publish at any other time lets the next fetches dispense one again;
    * `dispensed_twice` — two transport starts with a fetch after each.
-/
import Clarity.SessionSpec
import Clarity.Sample

namespace Clarity

variable {C : Type} {P : Suite C}

/-! ## 1. The store -/

/-- `StoredKeys`: a base bundle, and the pool of unused one-time prekeys. -/
structure StoredKeys where
  baseBundle : PreKeyBundle
  oneTime : List (UInt32 × Bytes32)

/-- The `keys` of a relay store. -/
abbrev Directory := Std.ExtTreeMap Bytes32 StoredKeys

namespace Directory

/-- Publish (or replace) a user's prekeys. -/
def publish (d : Directory) (baseBundle : PreKeyBundle) (oneTime : List (UInt32 × Bytes32)) :
    Directory :=
  d.insert baseBundle.identityEd
    ⟨{ baseBundle with oneTimePrekey := none, oneTimePrekeyId := none }, oneTime⟩

/-- Fetch a bundle, consuming one one-time prekey if any remain. -/
def fetchBundle (d : Directory) (identity : Bytes32) : Option PreKeyBundle × Directory :=
  match d[identity]? with
  | none => (none, d)
  | some stored =>
    match stored.oneTime with
    | [] => (some stored.baseBundle, d)
    | (id, pub) :: rest =>
      (some { stored.baseBundle with oneTimePrekey := some pub, oneTimePrekeyId := some id },
        d.insert identity { stored with oneTime := rest })

theorem getElem?_publish_self (d : Directory) (b : PreKeyBundle) (l : List (UInt32 × Bytes32)) :
    (d.publish b l)[b.identityEd]? =
      some ⟨{ b with oneTimePrekey := none, oneTimePrekeyId := none }, l⟩ :=
  Std.ExtTreeMap.getElem?_insert_self

/-- Publishing and fetching touch the entry of one identity. -/
theorem getElem?_publish_of_ne (d : Directory) {b : PreKeyBundle} (l : List (UInt32 × Bytes32))
    {identity : Bytes32} (hne : b.identityEd ≠ identity) :
    (d.publish b l)[identity]? = d[identity]? := by
  simp [publish, Std.ExtTreeMap.getElem?_insert, hne]

theorem getElem?_fetchBundle_of_ne (d : Directory) {identity other : Bytes32}
    (hne : identity ≠ other) : (d.fetchBundle identity).2[other]? = d[other]? := by
  cases hget : d[identity]? with
  | none => simp [fetchBundle, hget]
  | some stored =>
    cases hpool : stored.oneTime with
    | nil => simp [fetchBundle, hget, hpool]
    | cons entry rest =>
      simp [fetchBundle, hget, hpool, Std.ExtTreeMap.getElem?_insert, hne]

/-- The ids the directory can still dispense for an identity. -/
def pool (d : Directory) (identity : Bytes32) : List UInt32 :=
  match d[identity]? with
  | none => []
  | some stored => stored.oneTime.map Prod.fst

/-- Base bundles carry no one-time prekey of their own. -/
def Stripped (d : Directory) (identity : Bytes32) : Prop :=
  ∀ stored, d[identity]? = some stored → stored.baseBundle.oneTimePrekeyId = none

end Directory

/-! ## 2. An owner and the fetches of its bundle -/

structure PrekeyService (P : Suite C) where
  owner : Account P
  directory : Directory
  -- the one-time prekey ids that fetches of the owner's bundle have returned
  dispensed : List UInt32

/-- What can happen next. -/
inductive PrekeyService.Step (P : Suite C) where
  | publish
  | replenish (secrets : List P.Secret)
  | respond (fresh : P.Secret) (m : Message C)
  | publishOther (baseBundle : PreKeyBundle) (oneTime : List (UInt32 × Bytes32))
  | fetch (identity : Bytes32)

namespace PrekeyService

/-- `_publishBundle`: the base bundle and every one-time prekey still held. -/
def publish (s : PrekeyService P) : PrekeyService P :=
  { s with directory :=
      s.directory.publish s.owner.bundleBase s.owner.oneTimePrekeyPublics }

/-- A client fetches a bundle. -/
def fetch (s : PrekeyService P) (identity : Bytes32) : PrekeyService P :=
  let (bundle, directory) := s.directory.fetchBundle identity
  { s with
    directory := directory
    dispensed :=
      if identity = s.owner.identityPublic then
        s.dispensed ++ (bundle.bind PreKeyBundle.oneTimePrekeyId).toList
      else s.dispensed }

def step (s : PrekeyService P) : Step P → PrekeyService P
  | .publish => s.publish
  | .replenish secrets => { s with owner := s.owner.replenishOneTimePrekeys secrets }
  | .respond fresh m => { s with owner := (Session.respond s.owner fresh m).2 }
  | .publishOther baseBundle oneTime =>
    { s with directory := s.directory.publish baseBundle oneTime }
  | .fetch identity => s.fetch identity

/-- Only the owner publishes under its identity. -/
def Honest (s : PrekeyService P) : Step P → Prop
  | .publishOther baseBundle _ => baseBundle.identityEd ≠ s.owner.identityPublic
  | _ => True

/-- The runs from `owner`'s first start whose steps all meet `Cond`. -/
inductive Run (Cond : PrekeyService P → Step P → Prop) (owner : Account P) :
    PrekeyService P → Prop where
  | start : Run Cond owner ⟨owner, ∅, []⟩
  | step {s : PrekeyService P} (op : Step P) :
      Run Cond owner s → s.Honest op → Cond s op → Run Cond owner (s.step op)

/-- The owner publishes only when every prekey that was dispensed has been used up. -/
def PublishesUnused (s : PrekeyService P) : Step P → Prop
  | .publish => ∀ id ∈ s.dispensed, id ∉ s.owner.oneTimePrekeys
  | _ => True

/-! ## 3. What a step does to the pools -/

/-- The ids an owner publishes are those it holds, each once. -/
theorem pool_publish (s : PrekeyService P) :
    s.publish.directory.pool s.owner.identityPublic = s.owner.oneTimePrekeys.keys := by
  have hget : s.publish.directory[s.owner.identityPublic]? =
      some ⟨s.owner.bundleBase, s.owner.oneTimePrekeyPublics⟩ :=
    Directory.getElem?_publish_self ..
  simp only [Directory.pool, hget, Account.oneTimePrekeyPublics, List.map_map]
  exact Std.ExtTreeMap.map_fst_toList_eq_keys

/-- A fetch moves one id from the pool to the dispensed ones, or does nothing. -/
theorem fetch_owner (s : PrekeyService P) (h : s.directory.Stripped s.owner.identityPublic) :
    (s.fetch s.owner.identityPublic).dispensed ++
        (s.fetch s.owner.identityPublic).directory.pool s.owner.identityPublic =
      s.dispensed ++ s.directory.pool s.owner.identityPublic ∧
    (s.fetch s.owner.identityPublic).directory.Stripped s.owner.identityPublic ∧
    ((s.fetch s.owner.identityPublic).directory.pool s.owner.identityPublic).length =
      (s.directory.pool s.owner.identityPublic).length - 1 := by
  cases hget : s.directory[s.owner.identityPublic]? with
  | none => simp [fetch, Directory.fetchBundle, Directory.pool, Directory.Stripped, hget]
  | some stored =>
    have hbase := h stored hget
    cases hpool : stored.oneTime with
    | nil =>
      simp [fetch, Directory.fetchBundle, Directory.pool, Directory.Stripped, hget, hpool, hbase]
    | cons entry rest =>
      simp [fetch, Directory.fetchBundle, Directory.pool, Directory.Stripped, hget, hpool, hbase]

/-- A fetch of another bundle leaves the owner's entry alone. -/
theorem fetch_other (s : PrekeyService P) {identity : Bytes32}
    (hne : identity ≠ s.owner.identityPublic) :
    (s.fetch identity).dispensed = s.dispensed ∧
    (s.fetch identity).directory[s.owner.identityPublic]? =
      s.directory[s.owner.identityPublic]? := by
  constructor
  · simp [fetch, hne]
  · exact Directory.getElem?_fetchBundle_of_ne s.directory hne

theorem identityPublic_step (s : PrekeyService P) (op : Step P) :
    (s.step op).owner.identityPublic = s.owner.identityPublic := by
  cases op with
  | respond fresh m =>
    rcases Session.respond_account_cases s.owner fresh m with h | ⟨id, h⟩
    · simp [step, h]
    · simp [step, h, Account.identityPublic]
  | publish => rfl
  | replenish secrets => rfl
  | publishOther baseBundle oneTime => rfl
  | fetch identity => rfl

/-! ## 4. Runs -/

/-- What was dispensed and what can still be dispensed are all different. -/
structure Inv (s : PrekeyService P) : Prop where
  stripped : s.directory.Stripped s.owner.identityPublic
  nodup : (s.dispensed ++ s.directory.pool s.owner.identityPublic).Nodup

/-- A step that leaves the owner's entry and the dispensed ids alone. -/
theorem Inv.congr {s t : PrekeyService P} (h : s.Inv)
    (hid : t.owner.identityPublic = s.owner.identityPublic) (hdisp : t.dispensed = s.dispensed)
    (hentry : t.directory[s.owner.identityPublic]? = s.directory[s.owner.identityPublic]?) :
    t.Inv := by
  constructor
  · intro stored hget
    rw [hid, hentry] at hget
    exact h.stripped stored hget
  · have hnodup := h.nodup
    simp only [Directory.pool] at hnodup ⊢
    rwa [hid, hentry, hdisp]

theorem Inv.step {s : PrekeyService P} (h : s.Inv) {op : Step P} (hhonest : s.Honest op)
    (hcond : s.PublishesUnused op) : (s.step op).Inv := by
  have hid := identityPublic_step s op
  cases op with
  | publish =>
    constructor
    · intro stored hget
      cases (Directory.getElem?_publish_self ..).symm.trans hget
      rfl
    · change (s.dispensed ++ s.publish.directory.pool s.owner.identityPublic).Nodup
      rw [pool_publish]
      apply List.nodup_append.mpr
      refine ⟨(List.nodup_append.mp h.nodup).1, Std.ExtTreeMap.nodup_keys, ?_⟩
      rintro id hdisp _ hheld rfl
      exact hcond id hdisp (Std.ExtTreeMap.mem_keys.mp hheld)
  | replenish secrets => exact h.congr hid rfl rfl
  | respond fresh m => exact h.congr hid rfl rfl
  | publishOther baseBundle oneTime =>
    have hne : baseBundle.identityEd ≠ s.owner.identityPublic := hhonest
    exact h.congr hid rfl (Directory.getElem?_publish_of_ne _ _ hne)
  | fetch identity =>
    by_cases hown : identity = s.owner.identityPublic
    · subst hown
      obtain ⟨hmoved, hstripped, _⟩ := fetch_owner s h.stripped
      constructor
      · exact hstripped
      · have hnodup := h.nodup
        rw [← hmoved] at hnodup
        exact hnodup
    · obtain ⟨hdisp, hentry⟩ := fetch_other s hown
      exact h.congr hid hdisp hentry

theorem Run.inv {owner : Account P} {s : PrekeyService P} (hrun : Run PublishesUnused owner s) :
    s.Inv := by
  induction hrun with
  | start =>
    constructor
    · intro stored hget
      simp at hget
    · simp [Directory.pool]
  | step op _ hhonest hcond ih => exact ih.step hhonest hcond

/-- Fetch the owner's bundle until its pool is empty. -/
theorem drained (s : PrekeyService P) (h : s.directory.Stripped s.owner.identityPublic) :
    ∃ n, ((fun t => t.step (.fetch s.owner.identityPublic))^[n] s).dispensed =
      s.dispensed ++ s.directory.pool s.owner.identityPublic := by
  -- by induction on what is left in the pool
  generalize hlen : (s.directory.pool s.owner.identityPublic).length = k
  induction k generalizing s with
  | zero =>
    refine ⟨0, ?_⟩
    rw [List.eq_nil_of_length_eq_zero hlen]
    simp
  | succ k ih =>
    obtain ⟨hmoved, hstripped, hless⟩ := fetch_owner s h
    obtain ⟨n, hn⟩ := ih (s.fetch s.owner.identityPublic) hstripped (by
      change ((s.fetch s.owner.identityPublic).directory.pool s.owner.identityPublic).length = k
      rw [hless, hlen, Nat.add_sub_cancel])
    refine ⟨n + 1, ?_⟩
    rw [Function.iterate_succ_apply]
    exact hn.trans hmoved

/-- **When a one-time prekey is dispensed at most once.**  It is, in every run that
    publishes only when the owner holds no prekey dispensed before.  In every other
    state a publish and enough fetches dispense one twice. -/
theorem dispensed_nodup (owner : Account P) :
    (∀ s, Run PublishesUnused owner s → s.dispensed.Nodup) ∧
    (∀ s, Run (fun _ _ => True) owner s → ¬ s.PublishesUnused .publish →
      ∃ n, ¬ ((fun t => t.step (.fetch s.owner.identityPublic))^[n]
        (s.step .publish)).dispensed.Nodup) := by
  constructor
  · intro s hrun
    exact (List.nodup_append.mp hrun.inv.nodup).1
  · intro s _ hheld
    obtain ⟨n, hn⟩ := drained (s.step .publish) (by
      intro stored hget
      cases (Directory.getElem?_publish_self ..).symm.trans hget
      rfl)
    refine ⟨n, ?_⟩
    intro hnodup
    apply hheld
    intro id hdisp hin
    change ((fun t => t.step (.fetch s.owner.identityPublic))^[n] (s.step .publish)).dispensed =
      s.dispensed ++ s.publish.directory.pool s.owner.identityPublic at hn
    rw [hn, pool_publish] at hnodup
    exact (List.nodup_append.mp hnodup).2.2 id hdisp id (Std.ExtTreeMap.mem_keys.mpr hin) rfl

/-- Bob's transport starts, a client fetches his bundle, the transport restarts
    before that client's first message arrives, and another client fetches. -/
theorem dispensed_twice :
    ¬ ∀ s, Run (fun _ _ => True) sampleBob s → s.dispensed.Nodup := by
  intro hall
  have hpublished : Run (fun _ _ => True) sampleBob _ := .step .publish .start trivial trivial
  have hfetched := hpublished.step (.fetch sampleBob.identityPublic) trivial trivial
  have hrestarted := hfetched.step .publish trivial trivial
  have hagain := hrestarted.step (.fetch sampleBob.identityPublic) trivial trivial
  have hnodup := hall _ hagain
  revert hnodup
  decide +kernel

/-- Bob publishes, his prekey is fetched, Alice's first message uses it up, and he
    publishes again. -/
theorem dispensed_nodup_sample :
    ∃ s, Run PublishesUnused sampleBob s ∧ s.dispensed = [0, 1] ∧ s.dispensed.Nodup := by
  have hany : (sampleTalk.any fun t => decide (
      let s := (((⟨sampleBob, ∅, []⟩ : PrekeyService Suite.sample).step .publish).step
        (.fetch sampleBob.identityPublic)).step (.respond (sampleSecret 70) t.first)
      (s.dispensed.all fun id => id ∉ s.owner.oneTimePrekeys) = true ∧
        ((s.step .publish).step (.fetch sampleBob.identityPublic)).dispensed = [0, 1])) = true := by
    decide +kernel
  obtain ⟨t, _, hfacts⟩ := (Option.any_eq_true _ _).mp hany
  obtain ⟨hunused, hdispensed⟩ := of_decide_eq_true hfacts
  have hpublished : Run PublishesUnused sampleBob _ :=
    .step .publish .start trivial (fun id hid => absurd hid List.not_mem_nil)
  have hfetched := hpublished.step (.fetch sampleBob.identityPublic) trivial trivial
  have hused := hfetched.step (.respond (sampleSecret 70) t.first) trivial trivial
  have hrun := (hused.step .publish trivial fun id hid =>
    of_decide_eq_true (List.all_eq_true.mp hunused id hid)).step (.fetch sampleBob.identityPublic)
    trivial trivial
  exact ⟨_, hrun, hdispensed, (dispensed_nodup sampleBob).1 _ hrun⟩

end PrekeyService

end Clarity
