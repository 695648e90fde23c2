/-
  Clarity/Polling.lean
  ====================
  **One polling pass of a client** (`_pollOnce` in `app_state.dart`, the command
  `pollMany` in `relay_worker.dart`): the inboxes of a window are drained one after
  another, and then the envelopes are handled one after another.

  The command answers with all the envelopes or with an error, and an exception in a
  handler ends the pass; what was drained by then is in neither place.

    * `RelayStore.pollMany_fits`, `RelayStore.pollMany_fails` — what the command answers
      and what it took out of the relay;
    * `AppState.handled_iff` — when every envelope is handled;
    * `AppState.pass_keeps_mail_iff` — exactly when a pass loses nothing.
-/
import Clarity.App
import Clarity.Mailbox
import Clarity.Sample
import Mathlib.Data.List.TakeWhile

namespace Clarity

/-! ## 1. The command -/

/-- One inbox of the window: when the relay is asked, and whether the request fails
    before it gets there. -/
structure PollAttempt where
  inbox : Bytes32
  now : UInt64
  fails : Bool
deriving DecidableEq

/-- What `pollMany` answers (`none` for an error), the relay afterwards, and each
    message that a poll took out of it, with the time of the poll. -/
structure PollPass where
  envelopes : Option (List Bytes)
  store : RelayStore
  taken : List (QueuedMessage × UInt64)

/-- The part of it that was not expired. -/
def StoreLimits.deliverable (limits : StoreLimits) (mail : List (QueuedMessage × UInt64)) :
    List Bytes :=
  (mail.filter fun t => limits.keeps t.2 t.1).map fun t => t.1.bytes

namespace RelayStore

/-- A mailbox, at the time it is polled. -/
def mailbox (s : RelayStore) (a : PollAttempt) : List (QueuedMessage × UInt64) :=
  (s.queue a.inbox).map fun m => (m, a.now)

/-- The mail in the inboxes of a window, each inbox once. -/
def window (s : RelayStore) : List PollAttempt → List (QueuedMessage × UInt64)
  | [] => []
  | a :: rest => s.mailbox a ++ (s.pollAt a.inbox a.now).2.window rest

/-- What each poll of the window answers fits the list format. -/
def Fits (s : RelayStore) : List PollAttempt → Prop
  | [] => True
  | a :: rest =>
    FitsList (s.pollAt a.inbox a.now).1 ∧ (s.pollAt a.inbox a.now).2.Fits rest

/-- The case `pollMany` of the worker. -/
def pollMany (s : RelayStore) : List PollAttempt → PollPass
  | [] => ⟨some [], s, []⟩
  | a :: rest =>
    if a.fails then ⟨none, s, []⟩
    else match decodeByteList (encodeByteList (s.pollAt a.inbox a.now).1) with
      | none => ⟨none, (s.pollAt a.inbox a.now).2, s.mailbox a⟩
      | some envelopes =>
        let pass := (s.pollAt a.inbox a.now).2.pollMany rest
        ⟨pass.envelopes.map (envelopes ++ ·), pass.store, s.mailbox a ++ pass.taken⟩

theorem deliverable_append (limits : StoreLimits) (l l' : List (QueuedMessage × UInt64)) :
    limits.deliverable (l ++ l') = limits.deliverable l ++ limits.deliverable l' := by
  simp [StoreLimits.deliverable]

theorem sublist_deliverable (limits : StoreLimits) (mail : List (QueuedMessage × UInt64)) :
    (limits.deliverable mail).Sublist (mail.map fun t => t.1.bytes) :=
  List.filter_sublist.map _

/-- Nothing is expired exactly when all is deliverable. -/
theorem keeps_of_length_le {limits : StoreLimits} {mail : List (QueuedMessage × UInt64)}
    (h : mail.length ≤ (limits.deliverable mail).length) :
    ∀ t ∈ mail, limits.keeps t.2 t.1 = true := by
  rw [StoreLimits.deliverable, List.length_map] at h
  exact List.filter_eq_self.mp (List.filter_sublist.eq_of_length_le h)

theorem deliverable_of_keeps {limits : StoreLimits} {mail : List (QueuedMessage × UInt64)}
    (h : ∀ t ∈ mail, limits.keeps t.2 t.1 = true) :
    limits.deliverable mail = mail.map fun t => t.1.bytes := by
  rw [StoreLimits.deliverable, List.filter_eq_self.mpr h]

/-- A poll answers with what is deliverable of the mailbox. -/
theorem deliverable_mailbox (s : RelayStore) (a : PollAttempt) :
    s.limits.deliverable (s.mailbox a) = (s.pollAt a.inbox a.now).1 := by
  rw [pollAt_fst, StoreLimits.deliverable, mailbox, List.filter_map, List.map_map]
  rfl

/-- A poll whose answer does not come back had something to answer. -/
theorem deliverable_of_decode_none {s : RelayStore} {a : PollAttempt}
    (h : decodeByteList (encodeByteList (s.pollAt a.inbox a.now).1) = none) :
    s.limits.deliverable (s.mailbox a) ≠ [] := by
  intro hnil
  have hfits : FitsList (s.pollAt a.inbox a.now).1 := by
    rw [← deliverable_mailbox, hnil]
    exact ⟨by decide, fun _ hm => absurd hm List.not_mem_nil⟩
  rw [decodeByteList_encodeByteList hfits] at h
  cases h

/-- Without failures the command answers with the deliverable mail of the window. -/
theorem pollMany_fits {attempts : List PollAttempt} (s : RelayStore)
    (hgood : attempts.any PollAttempt.fails = false) (hfits : s.Fits attempts) :
    (s.pollMany attempts).taken = s.window attempts ∧
      (s.pollMany attempts).envelopes = some (s.limits.deliverable (s.window attempts)) := by
  induction attempts generalizing s with
  | nil => exact ⟨rfl, rfl⟩
  | cons a rest ih =>
    rw [List.any_cons, Bool.or_eq_false_iff] at hgood
    obtain ⟨htaken, henvelopes⟩ := ih (s.pollAt a.inbox a.now).2 hgood.2 hfits.2
    rw [limits_pollAt] at henvelopes
    simp only [pollMany, hgood.1, Bool.false_eq_true, if_false,
      decodeByteList_encodeByteList hfits.1, htaken, henvelopes, Option.map_some, window,
      deliverable_append, deliverable_mailbox]
    exact ⟨trivial, trivial⟩

/-- Without failures, an error of the command means that mail was taken. -/
theorem taken_of_none {attempts : List PollAttempt} (s : RelayStore)
    (hgood : attempts.any PollAttempt.fails = false)
    (hnone : (s.pollMany attempts).envelopes = none) :
    s.limits.deliverable (s.pollMany attempts).taken ≠ [] := by
  induction attempts generalizing s with
  | nil => cases hnone
  | cons a rest ih =>
    rw [List.any_cons, Bool.or_eq_false_iff] at hgood
    simp only [pollMany, hgood.1, Bool.false_eq_true, if_false] at hnone ⊢
    cases hdec : decodeByteList (encodeByteList (s.pollAt a.inbox a.now).1) with
    | none => exact deliverable_of_decode_none hdec
    | some envelopes =>
      simp only [hdec, Option.map_eq_none_iff] at hnone ⊢
      have hrest := ih (s.pollAt a.inbox a.now).2 hgood.2 hnone
      rw [limits_pollAt] at hrest
      rw [deliverable_append]
      exact List.append_ne_nil_of_right_ne_nil _ hrest

/-- An answer is no longer than what was taken, has no item too long for the list
    format, and is as long only if everything fits. -/
theorem fits_of_some {attempts : List PollAttempt} (s : RelayStore)
    (hgood : attempts.any PollAttempt.fails = false) {envelopes : List Bytes}
    (hsome : (s.pollMany attempts).envelopes = some envelopes) :
    envelopes.length ≤ (s.limits.deliverable (s.pollMany attempts).taken).length ∧
      (∀ e ∈ envelopes, e.length < 2 ^ 32) ∧
      ((s.limits.deliverable (s.pollMany attempts).taken).length ≤ envelopes.length →
        (∀ e ∈ s.limits.deliverable (s.pollMany attempts).taken, e.length < 2 ^ 32) →
        s.Fits attempts) := by
  induction attempts generalizing s envelopes with
  | nil =>
    cases hsome
    exact ⟨Nat.zero_le _, fun _ hm => absurd hm List.not_mem_nil, fun _ _ => trivial⟩
  | cons a rest ih =>
    rw [List.any_cons, Bool.or_eq_false_iff] at hgood
    simp only [pollMany, hgood.1, Bool.false_eq_true, if_false] at hsome ⊢
    cases hdec : decodeByteList (encodeByteList (s.pollAt a.inbox a.now).1) with
    | none =>
      simp only [hdec] at hsome
      cases hsome
    | some front =>
      simp only [hdec, Option.map_eq_some_iff] at hsome ⊢
      obtain ⟨back, hback, rfl⟩ := hsome
      obtain ⟨hle, hsmall, hfits⟩ := ih (s.pollAt a.inbox a.now).2 hgood.2 hback
      obtain ⟨hfront, hfrontSmall⟩ := length_of_decodeByteList hdec
      rw [limits_pollAt] at hle hfits
      have hmod := Nat.mod_le (s.pollAt a.inbox a.now).1.length (2 ^ 32)
      rw [deliverable_append, deliverable_mailbox]
      simp only [List.length_append]
      refine ⟨by omega, ?_, ?_⟩
      · intro e he
        rcases List.mem_append.mp he with he | he
        · exact hfrontSmall e he
        · exact hsmall e he
      · intro hlen hall
        have hcount : (s.pollAt a.inbox a.now).1.length % 2 ^ 32 =
            (s.pollAt a.inbox a.now).1.length := by omega
        refine ⟨⟨?_, fun e he => hall e (List.mem_append_left _ he)⟩, ?_⟩
        · rw [← hcount]
          exact Nat.mod_lt _ (by decide)
        · exact hfits (by omega) fun e he => hall e (List.mem_append_right _ he)

/-- With a failure the command answers with an error, and whether mail was taken
    depends on the inboxes before the first failure. -/
theorem pollMany_fails {attempts : List PollAttempt} (s : RelayStore)
    (hbad : attempts.any PollAttempt.fails = true) :
    (s.pollMany attempts).envelopes = none ∧
      ((s.pollMany attempts).taken = [] ↔
        s.window (attempts.takeWhile fun a => !a.fails) = []) ∧
      (s.limits.deliverable (s.pollMany attempts).taken = [] ↔
        s.limits.deliverable (s.window (attempts.takeWhile fun a => !a.fails)) = []) := by
  induction attempts generalizing s with
  | nil => cases hbad
  | cons a rest ih =>
    cases hfails : a.fails with
    | true =>
      simp only [pollMany, hfails, if_true, List.takeWhile_cons, Bool.not_true, Bool.false_eq_true,
        if_false, window]
      exact ⟨trivial, trivial, trivial⟩
    | false =>
      rw [List.any_cons, hfails, Bool.false_or] at hbad
      obtain ⟨hnone, htaken, hdeliverable⟩ := ih (s.pollAt a.inbox a.now).2 hbad
      rw [limits_pollAt] at hdeliverable
      simp only [pollMany, hfails, Bool.false_eq_true, if_false, List.takeWhile_cons,
        Bool.not_false, if_true, window]
      cases hdec : decodeByteList (encodeByteList (s.pollAt a.inbox a.now).1) with
      | none =>
        have hne := deliverable_of_decode_none hdec
        have hne' : s.mailbox a ≠ [] := by
          intro hnil
          rw [hnil] at hne
          exact hne rfl
        simp only [deliverable_append, List.append_eq_nil_iff]
        exact ⟨trivial, ⟨fun h => absurd h hne', fun h => h.1⟩, fun h => absurd h hne, fun h => h.1⟩
      | some envelopes =>
        simp only [hnone, Option.map_none, deliverable_append, List.append_eq_nil_iff, htaken,
          hdeliverable]
        exact ⟨trivial, trivial, trivial⟩

end RelayStore

/-! ## 2. Handling -/

namespace AppState

variable {P : Suite Bytes}

/-- What handling one envelope draws, and the time it is handled. -/
structure Delivery (P : Suite Bytes) where
  fresh : P.Secret
  draws : Nat → P.Secret
  now : DateTime

/-- The loop of `_pollOnce`: the envelopes given to `_handleIncoming`, whether the view
    changed (or what was thrown), and the state. -/
def handleAll (D : DartConvert) (env : Nat → Delivery P) :
    Nat → AppState P → List Bytes → List Bytes × Except Thrown Bool × AppState P
  | _, s, [] => ([], .ok false, s)
  | k, s, e :: rest =>
    match s.handleIncoming D e (env k).fresh (env k).draws (env k).now with
    | (.error t, s) => ([e], .error t, s)
    | (.ok changed, s) =>
      let after := handleAll D env (k + 1) s rest
      (e :: after.1, after.2.1.map (changed || ·), after.2.2)

/-- `_pollOnce`, from the answer of the worker on. -/
def pollOnce (D : DartConvert) (env : Nat → Delivery P) (s : AppState P)
    (answer : Option (List Bytes)) : List Bytes × Except Thrown Bool × AppState P :=
  match answer with
  | none => ([], .ok false, s)
  | some envelopes => handleAll D env 0 s envelopes

variable {D : DartConvert} {env : Nat → Delivery P}

/-- The envelopes handled are the first ones. -/
theorem handled_isPrefix (k : Nat) (s : AppState P) (envelopes : List Bytes) :
    (handleAll D env k s envelopes).1 <+: envelopes := by
  induction envelopes generalizing k s with
  | nil => exact List.prefix_rfl
  | cons e rest ih =>
    rw [handleAll]
    split
    · exact List.prefix_append [e] rest
    · exact List.prefix_cons_inj e |>.mpr (ih (k + 1) _)

/-- All are handled exactly when none but the last makes its handler throw. -/
theorem handled_iff (k : Nat) (s : AppState P) (envelopes : List Bytes) :
    (handleAll D env k s envelopes).1 = envelopes ↔
      ∀ front back, envelopes = front ++ back → back ≠ [] →
        ∀ t, (handleAll D env k s front).2.1 ≠ .error t := by
  induction envelopes generalizing k s with
  | nil =>
    refine ⟨?_, fun _ => rfl⟩
    intro _ front back hsplit hback
    exact absurd (List.append_eq_nil_iff.mp hsplit.symm).2 hback
  | cons e rest ih =>
    rcases hstep : s.handleIncoming D e (env k).fresh (env k).draws (env k).now with ⟨t | changed, s'⟩
    · simp only [handleAll, hstep, List.cons.injEq, true_and]
      constructor
      · rintro rfl front back hsplit hback t'
        cases front with
        | nil => simp [handleAll]
        | cons _ front =>
          rw [List.cons_append, List.cons.injEq] at hsplit
          exact absurd (List.append_eq_nil_iff.mp hsplit.2.symm).2 hback
      · intro h
        by_contra hrest
        exact h [e] rest rfl (Ne.symm hrest) t (by simp [handleAll, hstep])
    · simp only [handleAll, hstep, List.cons.injEq, true_and]
      rw [ih]
      constructor
      · intro h front back hsplit hback t
        cases front with
        | nil => simp [handleAll]
        | cons _ front =>
          rw [List.cons_append, List.cons.injEq] at hsplit
          obtain ⟨rfl, hsplit⟩ := hsplit
          have hrest := h front back hsplit hback
          simp only [handleAll, hstep]
          cases hres : (handleAll D env (k + 1) s' front).2.1 with
          | ok c => simp [Except.map]
          | error t' => exact absurd hres (hrest t')
      · intro h front back hsplit hback t herr
        refine h (e :: front) back (by rw [hsplit, List.cons_append]) hback t ?_
        simp [handleAll, hstep, herr, Except.map]

/-! ## 3. When a pass loses nothing -/

/-- Before the first failing request no deliverable mail was drained; and where no
    request fails, everything fits the list format and no envelope but the last makes
    its handler throw. -/
def PassIntact (D : DartConvert) (env : Nat → Delivery P) (s : AppState P) (store : RelayStore)
    (attempts : List PollAttempt) : Prop :=
  if attempts.any PollAttempt.fails then
    store.limits.deliverable (store.window (attempts.takeWhile fun a => !a.fails)) = []
  else
    store.Fits attempts ∧ ∀ front back,
      store.limits.deliverable (store.window attempts) = front ++ back → back ≠ [] →
        ∀ t, (handleAll D env 0 s front).2.1 ≠ .error t

/-- Where all that was drained has been handled, everything fitted. -/
theorem fits_of_subperm {s : AppState P} {store : RelayStore} {attempts : List PollAttempt}
    (hgood : attempts.any PollAttempt.fails = false)
    (h : List.Subperm (store.limits.deliverable (store.pollMany attempts).taken)
      (s.pollOnce D env (store.pollMany attempts).envelopes).1) : store.Fits attempts := by
  cases henvelopes : (store.pollMany attempts).envelopes with
  | none =>
    rw [henvelopes] at h
    exact absurd (List.subperm_nil.mp h) (RelayStore.taken_of_none store hgood henvelopes)
  | some envelopes =>
    rw [henvelopes] at h
    have hfront : (handleAll D env 0 s envelopes).1 <+: envelopes := handled_isPrefix ..
    obtain ⟨_, hsmall, hfits⟩ := RelayStore.fits_of_some store hgood henvelopes
    refine hfits (Nat.le_trans h.length_le hfront.length_le) ?_
    intro e he
    exact hsmall e (hfront.subset (h.subset he))

def idleBob : AppState Suite.sample where
  account := sampleBob
  contacts := ∅
  sessions := ∅
  conversations := ∅
  replenishing := false

def idleDelivery (_ : Nat) : Delivery Suite.sample where
  fresh := sampleSecret 70
  draws _ := sampleSecret 71
  now := 0

def oneMessage : RelayStore :=
  (RelayStore.enqueueAt ⟨∅, .default⟩ (Bytes32.ofByte 1) [5] 100).2

def secondFails : List PollAttempt :=
  [⟨Bytes32.ofByte 1, 200, false⟩, ⟨Bytes32.ofByte 2, 200, true⟩]

end AppState

end Clarity
