/-
  Clarity/Atomicity.lean
  ======================
  **What a failed call leaves behind** (`Session::decrypt`, `Session::respond`).

  Both methods write before they know whether the message is genuine.  This file
  says exactly when a failure leaves no trace.

    * `decrypt` leaves the session as it was if and only if it refuses up front:
      no cached key is named, and the first `skip_message_keys` call turns the
      header down before it stores a key (`failed_decrypt_keeps_state`).  Every
      other failure, a flipped ciphertext bit included, moves the session on.
    * `respond` leaves the account as it was if and only if it did not get as far
      as taking a one-time prekey it holds (`failed_respond_keeps_account`).
-/
import Clarity.SessionSpec
import Clarity.Sample

namespace Clarity

variable {C : Type} {P : Suite C}

/-! ## 1. `DoubleRatchet::decrypt` -/

namespace DoubleRatchet

/-- `decrypt` turns the header down before it writes anything. -/
def RefusedUpFront (r : DoubleRatchet P) (header : RatchetHeader) : Prop :=
  r.skipped[(header.dhPub, header.n)]? = none ∧
    ((r.dhRemote ≠ some header.dhPub ∧ r.SkipRefused header.pn) ∨
      (r.dhRemote = some header.dhPub ∧ (r.chainRecv = none ∨ r.SkipRefused header.n)))

theorem skipMessageKeys_of_refused {r : DoubleRatchet P} {upTo : UInt32}
    (h : r.SkipRefused upTo) : r.skipMessageKeys upTo = (.error .decrypt, r) := by
  obtain ⟨hsome, hle, hwhy⟩ := h
  obtain ⟨ck, hck⟩ := Option.isSome_iff_exists.mp hsome
  simp only [skipMessageKeys, hck, if_neg (UInt32.not_lt.mpr hle)]
  by_cases hgap : upTo - r.nRecv > MAX_SKIP
  · rw [if_pos hgap]
  · rw [if_neg hgap]
    rcases hwhy with hwhy | hrem | ⟨hlt, hfull⟩
    · exact absurd hwhy hgap
    · rw [hrem]
    · cases hrem : r.dhRemote with
      | none => rfl
      | some remote =>
        -- the cache is full before the first of at least one key
        obtain ⟨k, hk⟩ := Nat.exists_eq_succ_of_ne_zero
          (Nat.pos_iff_ne_zero.mp ((gap_pos_iff hle).mpr hlt))
        unfold gap at hk
        simp only [hk, skipLoop_succ, if_pos hfull, Outcome.andThen_error]

@[simp] theorem dhRemote_skipMessageKeys (r : DoubleRatchet P) (upTo : UInt32) :
    (r.skipMessageKeys upTo).2.dhRemote = r.dhRemote := by
  rcases skipMessageKeys_cases r upTo with ⟨_, h⟩ | ⟨_, h⟩ | ⟨_, _, _, _, _, _, h | ⟨_, _, _, _, h⟩⟩ <;>
    rw [h] <;> rfl

@[simp] theorem dhRemote_openNext (r : DoubleRatchet P) (ciphertext : C) (ad : Bytes) :
    (r.openNext ciphertext ad).2.dhRemote = r.dhRemote := by
  unfold openNext
  split <;> rfl

/-- The second half of `decrypt` keeps the remote key. -/
theorem dhRemote_finish (r : DoubleRatchet P) (upTo : UInt32) (ciphertext : C) (ad : Bytes) :
    ((r.skipMessageKeys upTo).andThen fun _ r => r.openNext ciphertext ad).2.dhRemote =
      r.dhRemote := by
  have hs := dhRemote_skipMessageKeys r upTo
  rcases hsk : r.skipMessageKeys upTo with ⟨res, r1⟩
  rw [hsk] at hs
  cases res with
  | error e => exact hs
  | ok _ => rw [Outcome.andThen_ok, dhRemote_openNext]; exact hs

theorem add_one_ne (n : UInt32) : n + 1 ≠ n := by
  intro h
  have := congrArg UInt32.toNat h
  rw [UInt32.toNat_add, UInt32.toNat_one] at this
  have := n.toNat_lt
  omega

/-- Passing over at most `MAX_SKIP` keys never brings the counter back. -/
theorem add_ofNat_ne {n : UInt32} {k : Nat} (hpos : 0 < k) (hk : k ≤ 1001) :
    n + UInt32.ofNat k ≠ n := by
  intro h
  have := congrArg UInt32.toNat h
  rw [UInt32.toNat_add, UInt32.toNat_ofNat'] at this
  have := n.toNat_lt
  omega

theorem gap_le {r : DoubleRatchet P} {upTo : UInt32} (h : upTo - r.nRecv ≤ MAX_SKIP) :
    r.gap upTo ≤ 1000 :=
  UInt32.le_iff_toNat_le.mp h

/-- On the current chain the call moves the counter unless it stops before the
    first key. -/
theorem finish_eq_self_iff (r : DoubleRatchet P) (n : UInt32) (ciphertext : C) (ad : Bytes) :
    ((r.skipMessageKeys n).andThen fun _ r => r.openNext ciphertext ad).2 = r ↔
      r.chainRecv = none ∨ r.SkipRefused n := by
  constructor
  · intro hsame
    by_cases href : r.SkipRefused n
    · exact Or.inr href
    · refine Or.inl ?_
      have hcount := congrArg DoubleRatchet.nRecv hsame
      rcases skipMessageKeys_cases r n with ⟨_, hs⟩ | ⟨hr, _⟩ |
          ⟨ck, remote, hck, _, hle, hgap, hs | ⟨k, hpos, hk, _, hs⟩⟩
      · -- nothing to skip: only a missing chain leaves the counter alone
        rw [hs, Outcome.andThen_ok] at hcount
        cases hck : r.chainRecv with
        | none => rfl
        | some ck =>
          simp only [openNext, hck] at hcount
          exact absurd hcount (add_one_ne r.nRecv)
      · exact absurd hr href
      · exfalso
        rw [hs, Outcome.andThen_ok] at hcount
        have hnext : r.nRecv + UInt32.ofNat (r.gap n) + 1 = r.nRecv := hcount
        rw [UInt32.add_assoc, show (1 : UInt32) = UInt32.ofNat 1 from rfl, ← UInt32.ofNat_add]
          at hnext
        exact add_ofNat_ne (Nat.succ_pos _) (by have := gap_le hgap; omega) hnext
      · exfalso
        rw [hs, Outcome.andThen_error] at hcount
        have hnext : r.nRecv + UInt32.ofNat k = r.nRecv := hcount
        exact add_ofNat_ne hpos (by have := gap_le hgap; omega) hnext
  · rintro (hnone | href)
    · have hs : r.skipMessageKeys n = (.ok (), r) := by simp [skipMessageKeys, hnone]
      simp [hs, openNext, hnone]
    · rw [skipMessageKeys_of_refused href, Outcome.andThen_error]

/-- A call leaves the ratchet as it was exactly when it was refused up front. -/
theorem decrypt_eq_self_iff (r : DoubleRatchet P) (fresh : P.Secret)
    (header : RatchetHeader) (ciphertext : C) (adPrefix : Bytes) :
    (r.decrypt fresh header ciphertext adPrefix).2 = r ↔ r.RefusedUpFront header := by
  cases hcached : r.skipped[(header.dhPub, header.n)]? with
  | some messageKey =>
    -- the cached key is gone
    rw [decrypt_cached hcached]
    constructor
    · intro hsame
      have hgone := congrArg (fun r => r.skipped[(header.dhPub, header.n)]?) hsame
      simp [hcached] at hgone
    · intro href
      rw [href.1] at hcached
      cases hcached
  | none =>
    rw [decrypt_uncached hcached]
    by_cases hrem : r.dhRemote = some header.dhPub
    · -- the chain we are on
      have hfollow : r.followRemote fresh header = (.ok (), r) := by simp [followRemote, hrem]
      rw [hfollow, Outcome.andThen_ok, finish_eq_self_iff]
      constructor
      · intro hwhy
        exact ⟨hcached, Or.inr ⟨hrem, hwhy⟩⟩
      · rintro ⟨_, ⟨hne, _⟩ | ⟨_, hwhy⟩⟩
        · exact absurd hrem hne
        · exact hwhy
    · by_cases href : r.SkipRefused header.pn
      · have hfollow : r.followRemote fresh header = (.error .decrypt, r) := by
          simp [followRemote, hrem, skipMessageKeys_of_refused href]
        rw [hfollow, Outcome.andThen_error]
        exact ⟨fun _ => ⟨hcached, Or.inl ⟨hrem, href⟩⟩, fun _ => rfl⟩
      · have hnot : ¬ r.RefusedUpFront header := by
          rintro ⟨_, ⟨_, hr⟩ | ⟨heq, _⟩⟩
          · exact href hr
          · exact hrem heq
        refine ⟨fun hsame => absurd hsame ?_, fun hr => absurd hr hnot⟩
        rcases skipMessageKeys_cases r header.pn with ⟨_, hs⟩ | ⟨hr, _⟩ |
            ⟨ck, remote, _, _, _, hgap, hs | ⟨k, hpos, hk, _, hs⟩⟩
        · -- a ratchet step was taken
          intro hsame
          have hfollow : r.followRemote fresh header =
              (.ok (), r.dhRatchet fresh header.dhPub) := by
            simp [followRemote, hrem, hs]
          rw [hfollow, Outcome.andThen_ok] at hsame
          have hremote := congrArg DoubleRatchet.dhRemote hsame
          rw [dhRemote_finish] at hremote
          exact hrem hremote.symm
        · exact absurd hr href
        · intro hsame
          have hfollow : r.followRemote fresh header =
              (.ok (), (r.advanced remote ck (r.gap header.pn)).dhRatchet fresh header.dhPub) := by
            simp [followRemote, hrem, hs]
          rw [hfollow, Outcome.andThen_ok] at hsame
          have hremote := congrArg DoubleRatchet.dhRemote hsame
          rw [dhRemote_finish] at hremote
          exact hrem hremote.symm
        · -- keys of the old chain were cached, but not all of them
          intro hsame
          have hfollow : r.followRemote fresh header =
              (.error .decrypt, r.withCached remote ck k) := by
            simp [followRemote, hrem, hs]
          rw [hfollow, Outcome.andThen_error] at hsame
          have hcount : r.nRecv + UInt32.ofNat k = r.nRecv := congrArg DoubleRatchet.nRecv hsame
          exact add_ofNat_ne hpos (by have := gap_le hgap; omega) hcount

end DoubleRatchet

/-! ## 2. Sessions and their runs -/

namespace Session

theorem decrypt_error {s : Session P} {fresh : P.Secret} {m : Message C} {e : Error}
    (h : (s.decrypt fresh m).1 = .error e) :
    (s.decrypt fresh m).2 =
      { s with ratchet := (s.ratchet.decrypt fresh m.header m.ciphertext s.adPrefix).2 } := by
  unfold decrypt at h ⊢
  rcases hr : s.ratchet.decrypt fresh m.header m.ciphertext s.adPrefix with ⟨res, r⟩
  rw [hr] at h
  cases res with
  | error e' => rfl
  | ok p => cases h

theorem decrypt_error_eq_self_iff {s : Session P} {fresh : P.Secret} {m : Message C} {e : Error}
    (h : (s.decrypt fresh m).1 = .error e) :
    (s.decrypt fresh m).2 = s ↔ s.ratchet.RefusedUpFront m.header := by
  rw [decrypt_error h,
    ← DoubleRatchet.decrypt_eq_self_iff s.ratchet fresh m.header m.ciphertext s.adPrefix]
  constructor
  · intro hsame
    exact congrArg Session.ratchet hsame
  · intro hsame
    rw [hsame]

/-- Whether a reply is a rejected message. -/
def Reply.rejected : Reply C → Bool
  | .received (.error _) => true
  | _ => false

/-- Every message the run rejects is refused up front. -/
def Quiet (s : Session P) : List (Op P) → Prop
  | [] => True
  | op :: ops =>
    (∀ fresh m, op = .decrypt fresh m → (s.apply op).1.rejected = true →
      s.ratchet.RefusedUpFront m.header) ∧ (s.apply op).2.Quiet ops

/-- The run with the rejected messages left out. -/
def genuine (s : Session P) : List (Op P) → List (Op P)
  | [] => []
  | op :: ops =>
    if (s.apply op).1.rejected then (s.apply op).2.genuine ops
    else op :: (s.apply op).2.genuine ops

theorem apply_rejected {s : Session P} {op : Op P} (h : (s.apply op).1.rejected = true) :
    ∃ fresh m e, op = .decrypt fresh m ∧ (s.decrypt fresh m).1 = .error e := by
  cases op with
  | encrypt p => cases h
  | decrypt fresh m =>
    cases hres : (s.decrypt fresh m).1 with
    | error e => exact ⟨fresh, m, e, rfl, hres⟩
    | ok p =>
      simp only [apply, hres] at h
      cases h

/-- A rejected message that was refused up front is as good as never sent. -/
theorem run_eq_run_genuine (s : Session P) (ops : List (Op P)) (h : s.Quiet ops) :
    (s.run ops).2 = (s.run (s.genuine ops)).2 ∧
      (s.run ops).1.filter (fun reply => !reply.rejected) = (s.run (s.genuine ops)).1 := by
  induction ops generalizing s with
  | nil => exact ⟨rfl, rfl⟩
  | cons op ops ih =>
    obtain ⟨hop, hrest⟩ := h
    obtain ⟨hstate, hreplies⟩ := ih (s.apply op).2 hrest
    by_cases hrej : (s.apply op).1.rejected = true
    · -- the state did not move, so the rest starts from `s`
      obtain ⟨fresh, m, e, rfl, herr⟩ := apply_rejected hrej
      have hsame : (s.apply (.decrypt fresh m)).2 = s :=
        (decrypt_error_eq_self_iff herr).mpr (hop fresh m rfl hrej)
      simp only [run, genuine, List.filter_cons, hrej, Bool.not_true]
      rw [hsame] at hstate hreplies ⊢
      exact ⟨hstate, hreplies⟩
    · simp only [run, genuine, if_neg hrej, List.filter_cons]
      rw [if_pos (by simpa using hrej)]
      exact ⟨hstate, by rw [hreplies]⟩

/-- **When a failed decryption is atomic.**  A rejected message leaves the session
    as it was if and only if it is refused up front; in a run whose rejected
    messages are all of that kind, every other call behaves as if they had
    never arrived. -/
theorem failed_decrypt_keeps_state (s : Session P) :
    (∀ fresh m e, (s.decrypt fresh m).1 = .error e →
      ((s.decrypt fresh m).2 = s ↔ s.ratchet.RefusedUpFront m.header)) ∧
    (∀ ops, s.Quiet ops →
      (s.run ops).2 = (s.run (s.genuine ops)).2 ∧
        (s.run ops).1.filter (fun reply => !reply.rejected) = (s.run (s.genuine ops)).1) :=
  ⟨fun _ _ _ h => decrypt_error_eq_self_iff h, fun ops h => run_eq_run_genuine s ops h⟩

/-- Bob's session rejects a message with a foreign ciphertext, and afterwards also
    the genuine message it would have accepted. -/
theorem tampered_message_moves_session :
    ∃ s : Session Suite.sample, s.Reachable ∧ ∃ (fresh : Suite.sample.Secret)
      (tampered genuine : Message Bytes),
      (s.decrypt fresh tampered).1 = .error .decrypt ∧ (s.decrypt fresh tampered).2 ≠ s ∧
        (s.decrypt fresh genuine).1 = .ok [2] ∧
        ((s.decrypt fresh tampered).2.decrypt fresh genuine).1 = .error .decrypt := by
  have hrun : (sampleTalk.any fun t =>
      let tampered : Message Bytes := .normal t.second.header []
      let after := (t.bob.decrypt (sampleSecret 71) tampered).2
      decide ((t.bob.decrypt (sampleSecret 71) tampered).1 = .error .decrypt) &&
        decide (after.ratchet.nRecv ≠ t.bob.ratchet.nRecv) &&
        decide ((t.bob.decrypt (sampleSecret 71) t.second).1 = .ok [2]) &&
        decide ((after.decrypt (sampleSecret 71) t.second).1 = .error .decrypt)) = true := by
    decide +kernel
  simp only [Option.any_eq_true_iff_get, Bool.and_eq_true, decide_eq_true_eq] at hrun
  obtain ⟨hsome, ⟨⟨hrej, hmoved⟩, hok⟩, hlost⟩ := hrun
  refine ⟨_, talk_reachable (Option.some_get hsome).symm, sampleSecret 71, _, _,
    hrej, ?_, hok, hlost⟩
  intro hsame
  exact hmoved (by rw [hsame])

/-- A message far beyond the window is refused up front, so the session stays. -/
theorem failed_decrypt_keeps_state_sample :
    ∃ s : Session Suite.sample, ∃ m : Message Bytes,
      (s.decrypt (sampleSecret 71) m).1 = .error .decrypt ∧ s.ratchet.RefusedUpFront m.header ∧
        (s.decrypt (sampleSecret 71) m).2 = s := by
  have hrun : ∃ t, sampleTalk = some t ∧ ∃ far : Message Bytes,
      (t.bob.decrypt (sampleSecret 71) far).1 = .error .decrypt ∧
        t.bob.ratchet.skipped[(far.header.dhPub, far.header.n)]? = none ∧
        t.bob.ratchet.dhRemote = some far.header.dhPub ∧ t.bob.ratchet.chainRecv.isSome ∧
        t.bob.ratchet.nRecv ≤ far.header.n ∧
        MAX_SKIP < far.header.n - t.bob.ratchet.nRecv := by
    have hany : (sampleTalk.any fun t =>
        let far : Message Bytes := .normal { t.second.header with n := 5000 } []
        decide ((t.bob.decrypt (sampleSecret 71) far).1 = .error .decrypt ∧
          t.bob.ratchet.skipped[(far.header.dhPub, far.header.n)]? = none ∧
          t.bob.ratchet.dhRemote = some far.header.dhPub ∧ t.bob.ratchet.chainRecv.isSome ∧
          t.bob.ratchet.nRecv ≤ far.header.n ∧
          MAX_SKIP < far.header.n - t.bob.ratchet.nRecv)) = true := by
      decide +kernel
    obtain ⟨t, ht, hfar⟩ := (Option.any_eq_true _ _).mp hany
    exact ⟨t, ht, _, of_decide_eq_true hfar⟩
  obtain ⟨t, _, far, hrej, hnone, hrem, hchain, hle, hgap⟩ := hrun
  have href : t.bob.ratchet.RefusedUpFront far.header :=
    ⟨hnone, Or.inr ⟨hrem, Or.inr ⟨hchain, hle, Or.inl hgap⟩⟩⟩
  exact ⟨t.bob, far, hrej, href, ((failed_decrypt_keeps_state t.bob).1 _ _ _ hrej).mpr href⟩

end Session

/-! ## 3. `Session::respond` -/

/-- The message names a one-time prekey the account holds, and its other ids
    match, so `respond` takes that prekey before anything is authenticated. -/
def Account.NamesHeldPrekey (me : Account P) (m : Message C) : Prop :=
  ∃ hs header ciphertext id, m = .preKey hs header ciphertext ∧
    hs.kyberPrekeyId = me.kyberPrekeyId ∧ hs.signedPrekeyId = me.signedPrekeyId ∧
    hs.oneTimePrekeyId = some id ∧ id ∈ me.oneTimePrekeys

namespace Session

/-- **When a failed `respond` is free of side effects.**  It leaves the account as
    it was if and only if it did not reach a one-time prekey the account
    holds; otherwise exactly that prekey is lost. -/
theorem failed_respond_keeps_account (me : Account P) (fresh : P.Secret) (m : Message C)
    (e : Error) (h : (respond me fresh m).1 = .error e) :
    ((respond me fresh m).2 = me ↔ ¬ me.NamesHeldPrekey m) ∧
      (¬ me.NamesHeldPrekey m → ∀ fresh' later,
        respond (respond me fresh m).2 fresh' later = respond me fresh' later) := by
  have hiff : (respond me fresh m).2 = me ↔ ¬ me.NamesHeldPrekey m := by
    cases m with
    | normal header ciphertext =>
      refine ⟨fun _ => ?_, fun _ => rfl⟩
      rintro ⟨_, _, _, _, hm, _⟩
      cases hm
    | preKey hs header ciphertext =>
      rw [respond_account, Handshake.respond_account]
      by_cases hids : hs.kyberPrekeyId = me.kyberPrekeyId ∧ hs.signedPrekeyId = me.signedPrekeyId
      · rw [if_pos hids, Handshake.takeNamedPrekey_account]
        cases hid : hs.oneTimePrekeyId with
        | none =>
          refine ⟨fun _ => ?_, fun _ => rfl⟩
          rintro ⟨_, _, _, id, hm, _, _, hid', _⟩
          cases hm
          rw [hid] at hid'
          cases hid'
        | some id =>
          dsimp only
          constructor
          · rintro hsame ⟨_, _, _, id', hm, _, _, hid', hmem⟩
            cases hm
            rw [hid] at hid'
            cases hid'
            have hpool := congrArg Account.oneTimePrekeys hsame
            rw [← hpool] at hmem
            simp at hmem
          · intro hnot
            have hmem : id ∉ me.oneTimePrekeys := fun hmem =>
              hnot ⟨hs, header, ciphertext, id, rfl, hids.1, hids.2, hid, hmem⟩
            have hlookup : me.oneTimePrekeys[id]? = none :=
              Std.ExtTreeMap.getElem?_eq_none hmem
            have hacc := Handshake.takeNamedPrekey_account me (some id)
            dsimp only at hacc
            rw [← hacc]
            simp [Handshake.takeNamedPrekey, Account.takeOneTimePrekey, hlookup]
      · rw [if_neg hids]
        refine ⟨fun _ => ?_, fun _ => rfl⟩
        rintro ⟨_, _, _, _, hm, hk, hsp, _⟩
        cases hm
        exact hids ⟨hk, hsp⟩
  refine ⟨hiff, fun hnot fresh' later => ?_⟩
  rw [hiff.mpr hnot]

theorem error_of_map {α β : Type} {r : Result α} {f : α → β} {e : Error}
    (h : r.map f = .error e) : r = .error e := by
  cases r with
  | error e' => exact congrArg _ (Except.error.inj h)
  | ok a => cases h

/-- Anyone can name Bob's one-time prekey and send noise: the call fails, the
    prekey is gone, and Alice's genuine first message is rejected. -/
theorem failed_respond_burns_prekey :
    ∃ (me : Account Suite.sample) (fresh : Suite.sample.Secret) (forged genuine : Message Bytes),
      (respond me fresh forged).1 = .error .malformedKey ∧ (respond me fresh forged).2 ≠ me ∧
        (∃ s, (respond me fresh genuine).1 = .ok (s, [1])) ∧
        (respond (respond me fresh forged).2 fresh genuine).1 = .error .unknownPrekey := by
  have hrun : (sampleTalk.any fun t =>
      match t.first with
      | .normal _ _ => false
      | .preKey hs header ciphertext =>
        let forged : Message Bytes := .preKey { hs with kyberCiphertext := [] } header ciphertext
        let after := (respond sampleBob (sampleSecret 70) forged).2
        decide ((respond sampleBob (sampleSecret 70) forged).1.map (fun _ => ()) =
            .error .malformedKey ∧
          after.oneTimePrekeysRemaining ≠ sampleBob.oneTimePrekeysRemaining ∧
          (respond sampleBob (sampleSecret 70) t.first).1.map Prod.snd = .ok [1] ∧
          (respond after (sampleSecret 70) t.first).1.map (fun _ => ()) =
            .error .unknownPrekey)) = true := by
    decide +kernel
  obtain ⟨t, _, hmatch⟩ := (Option.any_eq_true _ _).mp hrun
  split at hmatch
  · cases hmatch
  · rename_i hs header ciphertext hfirst
    obtain ⟨hrej, hmoved, hok, hlost⟩ := of_decide_eq_true hmatch
    refine ⟨sampleBob, sampleSecret 70, .preKey { hs with kyberCiphertext := [] } header ciphertext,
      t.first, ?_, ?_, ?_, ?_⟩
    · exact error_of_map hrej
    · intro hsame
      exact hmoved (by rw [hsame])
    · cases hres : (respond sampleBob (sampleSecret 70) t.first).1 with
      | error e =>
        rw [hres] at hok
        cases hok
      | ok sp =>
        rw [hres] at hok
        obtain ⟨s, p⟩ := sp
        cases hok
        exact ⟨s, rfl⟩
    · exact error_of_map hlost

/-- A first message that is not a PreKey message is refused for free. -/
theorem failed_respond_keeps_account_sample :
    ∃ m : Message Bytes, (respond sampleBob (sampleSecret 70) m).1 = .error .unexpectedMessage ∧
      (respond sampleBob (sampleSecret 70) m).2 = sampleBob :=
  ⟨.normal ⟨Bytes32.ofByte 1, 0, 0⟩ [], rfl,
    (failed_respond_keeps_account sampleBob (sampleSecret 70)
      (.normal ⟨Bytes32.ofByte 1, 0, 0⟩ []) .unexpectedMessage rfl).1.mpr (by
        rintro ⟨_, _, _, _, hm, _⟩
        cases hm)⟩

end Session

end Clarity
