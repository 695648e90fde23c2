/-
  Clarity/StaleSteps.lean
  =======================
  **A DH ratchet step to an old key undoes the recovery.**

  `n_send` is a `u32` and wraps.  After 2³² messages on one chain the next `pn` is
  0, so the receiver closes the chain without caching the keys of the messages that
  are still on their way.  When one of them arrives, its ratchet key is taken for a
  new one, and `decrypt` answers with a `dh_ratchet` step to it.

    * `follow_losing` — messages that get lost only move the sending chain;
    * `step_sending` — the first step of a chainless end forgets where that was;
    * `not_recovers_after_wrap` — a run in which the other end then starts a chain
      from the leaked root.
-/
import Clarity.Healing

namespace Clarity

variable {C : Type} {P : Suite C}

/-- The ratchet with another sending chain and counter. -/
def DoubleRatchet.withSending (r : DoubleRatchet P) (chain : Option P.Key) (n : UInt32) : DoubleRatchet P :=
  { r with chainSend := chain, nSend := n }

namespace Conversation

/-! ## 1. Conversations that differ in what they noted down -/

variable {net : Network} {c d c' : Conversation P}

/-- The same conversation, with the public keys noted down in another way. -/
structure Alike (c d : Conversation P) : Prop where
  session : d.session = c.session
  account : d.account = c.account
  flight : d.flight = c.flight
  keys : ∀ p, p ∈ d.ratchetKeys ↔ p ∈ c.ratchetKeys

/-- Every step is allowed. -/
def anyStep (_ : Conversation P) (_ : Ratcheting P) : Bool := true

namespace Alike

theorem setSession (h : Alike c d) (side : Side) (s : Session P) :
    Alike (c.setSession side s) (d.setSession side s) where
  session := by simp [Conversation.setSession, h.session]
  account := h.account
  flight := h.flight
  keys := by simp [Conversation.setSession, h.keys]

theorem receive (h : Alike c d) (dest : Side) (fresh : P.Secret) (m : Message C) :
    Alike (c.receive dest fresh m).2 (d.receive dest fresh m).2 := by
  unfold Conversation.receive
  rw [h.session, h.account]
  cases c.session dest with
  | some s => exact h.setSession dest _
  | none =>
    cases dest with
    | initiator => exact h
    | responder =>
      rcases Session.respond c.account fresh m with ⟨e | ⟨s, p⟩, me⟩
      · exact ⟨rfl, rfl, h.flight, h.keys⟩
      · have hset := h.setSession .responder s
        exact ⟨hset.session, rfl, hset.flight, hset.keys⟩

theorem ratcheting (h : Alike c d) (dest : Side) (fresh : P.Secret) (m : Message C) :
    d.ratcheting dest fresh m = c.ratcheting dest fresh m := by
  simp only [Conversation.ratcheting, meets, h.session, h.account]

theorem step (h : Alike c d) {move : Move P} {made : Option (Ratcheting P)}
    (hmove : c.step net move = some (made, c')) :
    ∃ d', d.step net move = some (made, d') ∧ Alike c' d' := by
  cases move with
  | send side plaintext =>
    obtain ⟨s, m, s', hs, henc, rfl, rfl⟩ := step_send hmove
    have hset := h.setSession side s'
    refine ⟨{ d.setSession side s' with flight := d.flight ++ [⟨side.other, m, plaintext⟩] },
      ?_, hset.session, hset.account, ?_, hset.keys⟩
    · simp [Conversation.step, h.session, hs, henc]
    · simp [h.flight]
  | drop i =>
    simp only [Conversation.step, h.flight] at hmove ⊢
    split at hmove
    · rename_i hlt
      cases hmove
      rw [if_pos hlt]
      exact ⟨_, rfl, h.session, h.account, rfl, h.keys⟩
    · cases hmove
  | deliver i fresh =>
    simp only [Conversation.step, h.flight, h.keys] at hmove ⊢
    split at hmove
    · cases hmove
    · rename_i pk hpk
      split at hmove
      · cases hmove
      · rename_i hfresh
        cases hmove
        have hrecv := h.receive pk.dest fresh pk.message
        rw [if_neg hfresh, h.ratcheting]
        exact ⟨_, rfl, hrecv.session, hrecv.account, rfl, hrecv.keys⟩

theorem follow (h : Alike c d) {moves : List (Move P)}
    (hrun : c.follow net anyStep moves = some c') :
    ∃ d', d.follow net anyStep moves = some d' ∧ Alike c' d' := by
  induction moves generalizing c d with
  | nil =>
    cases hrun
    exact ⟨d, rfl, h⟩
  | cons move moves ih =>
    rw [Conversation.follow] at hrun
    split at hrun
    · cases hrun
    · rename_i made c1 hmove
      obtain ⟨d1, hd1, halike⟩ := h.step hmove
      have hall : made.all (anyStep c) = true ∧ made.all (anyStep d) = true := by
        cases made <;> exact ⟨rfl, rfl⟩
      rw [if_pos hall.1] at hrun
      obtain ⟨d', hd', halike'⟩ := ih halike hrun
      refine ⟨d', ?_, halike'⟩
      rw [Conversation.follow, hd1]
      exact (if_pos hall.2).trans hd'

end Alike

theorem follow_append {allowed : Conversation P → Ratcheting P → Bool} (moves moves' : List (Move P)) :
    c.follow net allowed (moves ++ moves') =
      (c.follow net allowed moves).bind fun c' => c'.follow net allowed moves' := by
  induction moves generalizing c with
  | nil => rfl
  | cons move moves ih =>
    rw [List.cons_append, follow, follow]
    split
    · rfl
    · split
      · exact ih
      · rfl

/-- The conversation with another sending chain and counter of one end, whose session
    is `s`. -/
def sending (c : Conversation P) (side : Side) (s : Session P) (chain : Option P.Key)
    (n : UInt32) : Conversation P :=
  { c with
    session := Function.update c.session side
      (some { s with ratchet := s.ratchet.withSending chain n }) }

/-- `n` messages of one end that all get lost. -/
def losing (side : Side) (place n : Nat) : List (Move P) :=
  (List.replicate n [Move.send side [], .drop place]).flatten

/-- **Lost messages only move the sending chain.**  Its counter is a `u32`. -/
theorem follow_losing {side : Side} {s : Session P} {ck : P.Key} (n : Nat)
    (hs : c.session side = some s) (hck : s.ratchet.chainSend = some ck)
    (hself : s.ratchet.dhSelfPub ∈ c.ratchetKeys) :
    ∃ d, c.follow net anyStep (losing side c.flight.length n) = some d ∧
      Alike (c.sending side s (some (chainKeyAt P ck n)) (s.ratchet.nSend + UInt32.ofNat n))
        d := by
  induction n generalizing c s ck with
  | zero =>
    refine ⟨c, rfl, ?_, rfl, rfl, fun _ => Iff.rfl⟩
    have hsame : s.ratchet.withSending (some ck) (s.ratchet.nSend + UInt32.ofNat 0) =
        s.ratchet := by
      simp [DoubleRatchet.withSending, ← hck]
    rw [sending, chainKeyAt_zero, hsame, ← hs, Function.update_eq_self]
  | succ n ih =>
    obtain ⟨m, s', henc, _, _⟩ := Session.encrypt_of_chain hck []
    obtain ⟨r, hr, rfl, _⟩ := Session.encrypt_ok_cases henc
    obtain ⟨ck', hck', _, _, rfl⟩ := DoubleRatchet.encrypt_ok_cases hr
    cases hck.symm.trans hck'
    let s' : Session P := { s with
      ratchet := s.ratchet.withSending (some (P.kdfCk ck).1) (s.ratchet.nSend + 1) }
    let c1 : Conversation P := c.setSession side s'
    let c2 : Conversation P := { c1 with flight := c.flight ++ [⟨side.other, m, []⟩] }
    obtain ⟨d, hd, halike⟩ := @ih c1 s' (P.kdfCk ck).1 (session_setSession c side s') rfl
      (List.mem_cons_self ..)
    refine ⟨d, ?_, ?_, halike.account, halike.flight, ?_⟩
    · have hsend : c.step net (.send side []) = some (none, c2) := by
        simp only [step, hs, henc]
        rfl
      have hdrop : c2.step net (.drop c.flight.length) = some (none, c1) := by
        have hflight : c2.flight.eraseIdx c.flight.length = c.flight := by
          simp [c2, List.eraseIdx_append_of_length_le]
        have hlt : c.flight.length < c2.flight.length := by
          simp [c2]
        simp only [step, if_pos hlt, hflight]
        rfl
      show c.follow net anyStep
        (Move.send side [] :: Move.drop c.flight.length :: losing side c.flight.length n) = some d
      rw [follow, hsend]
      simp only [Option.all_none, if_true]
      rw [follow, hdrop]
      exact hd
    · rw [halike.session]
      have hcount : s.ratchet.nSend + 1 + UInt32.ofNat n = s.ratchet.nSend + UInt32.ofNat (n + 1) := by
        rw [UInt32.add_assoc, UInt32.ofNat_add, UInt32.add_comm 1]
        rfl
      have hratchet : s'.ratchet.withSending (some (chainKeyAt P (P.kdfCk ck).1 n))
          (s'.ratchet.nSend + UInt32.ofNat n) = s.ratchet.withSending
          (some (chainKeyAt P ck (n + 1))) (s.ratchet.nSend + UInt32.ofNat (n + 1)) := by
        simp only [s', DoubleRatchet.withSending, hcount]
        rfl
      simp only [c1, sending, setSession, Function.update_idem, hratchet]
      rfl
    · intro p
      rw [halike.keys]
      show p ∈ s.ratchet.dhSelfPub :: c.ratchetKeys ↔ p ∈ c.ratchetKeys
      simp only [List.mem_cons, or_iff_right_iff_imp]
      rintro rfl
      exact hself

/-- A call that ratchets without a receiving chain replaces the sending chain unread. -/
theorem decrypt_withSending {r : DoubleRatchet P} {header : RatchetHeader}
    (hrecv : r.chainRecv = none) (hslot : r.skipped[(header.dhPub, header.n)]? = none)
    (hmoved : r.dhRemote ≠ some header.dhPub) (chain chain' : Option P.Key) (n : UInt32)
    (fresh : P.Secret) (ciphertext : C) (adPrefix : Bytes) :
    (r.withSending chain n).ratcheting fresh header =
        (r.withSending chain' n).ratcheting fresh header ∧
      (r.withSending chain n).decrypt fresh header ciphertext adPrefix =
        (r.withSending chain' n).decrypt fresh header ciphertext adPrefix := by
  constructor
  · simp [DoubleRatchet.ratcheting, DoubleRatchet.withSending, DoubleRatchet.skipMessageKeys,
      DoubleRatchet.dhRatchet, hrecv, hslot, hmoved]
  · simp [DoubleRatchet.decrypt, DoubleRatchet.withSending, DoubleRatchet.followRemote,
      DoubleRatchet.skipMessageKeys, DoubleRatchet.dhRatchet, hrecv, hslot, hmoved]

theorem step_sending {side : Side} {s : Session P} (hrecv : s.ratchet.chainRecv = none) {i : Nat}
    {pk : Packet C} (hpk : c.flight[i]? = some pk) (hdest : pk.dest = side)
    (hslot : s.ratchet.skipped[(pk.message.header.dhPub, pk.message.header.n)]? = none)
    (hmoved : s.ratchet.dhRemote ≠ some pk.message.header.dhPub) (chain chain' : Option P.Key)
    (n : UInt32) (fresh : P.Secret) :
    (c.sending side s chain n).step net (.deliver i fresh) =
      (c.sending side s chain' n).step net (.deliver i fresh) := by
  subst hdest
  obtain ⟨hmade, hdec⟩ := decrypt_withSending hrecv hslot hmoved chain chain' n fresh
    pk.message.ciphertext s.adPrefix
  have hsession (chain : Option P.Key) : (c.sending pk.dest s chain n).session pk.dest =
      some { s with ratchet := s.ratchet.withSending chain n } := by
    simp [sending]
  have hreceive : (c.sending pk.dest s chain n).receive pk.dest fresh pk.message =
      (c.sending pk.dest s chain' n).receive pk.dest fresh pk.message := by
    rw [receive_some (hsession chain), receive_some (hsession chain')]
    simp only [Session.decrypt, hdec, setSession, sending, Function.update_idem]
  have hratcheting : (c.sending pk.dest s chain n).ratcheting pk.dest fresh pk.message =
      (c.sending pk.dest s chain' n).ratcheting pk.dest fresh pk.message := by
    rw [ratcheting_some (hsession chain), ratcheting_some (hsession chain')]
    simp only [hmade]
  have hflight (chain : Option P.Key) : (c.sending pk.dest s chain n).flight[i]? = some pk := hpk
  simp only [step, hflight, hreceive, hratcheting]
  rfl

/-- **Alice's chain wraps, and Bob answers a late message of it with a step.**  Bob has
    her first message and she has his answer when `pn` comes out as 0, so that the
    key of her second message is not cached.  It arrives after the leak; the answer
    Bob sent before makes her start a chain from the leaked root. -/
theorem not_recovers_after_wrap : ¬ BreakInRecovery Suite.exact anyStep .once := by
  intro hall
  let before : List (Move Suite.exact.free) :=
    [.send .initiator [1], .send .initiator [2], .deliver 0 (exactSecret 70), .send .responder [3]]
  let after : List (Move Suite.exact.free) :=
    [.send .initiator [4], .deliver 1 (exactSecret 72), .send .responder [5]]
  -- the run as it goes on from a sending counter that is 0 again
  have hany : (exactOpened.any fun c0 => (c0.follow .once anyStep before).any fun ca =>
      ca.flight.length = 2 && (ca.session .initiator).any fun s => s.ratchet.nSend = 2 &&
      s.ratchet.chainSend.isSome && s.ratchet.chainRecv.isNone &&
      s.ratchet.dhSelfPub ∈ ca.ratchetKeys && (ca.flight[1]?).any fun pk =>
      pk.dest = .initiator &&
      s.ratchet.skipped[(pk.message.header.dhPub, pk.message.header.n)]?.isNone &&
      s.ratchet.dhRemote ≠ some pk.message.header.dhPub &&
      ((ca.sending .initiator s s.ratchet.chainSend 0).follow .once anyStep
        (.deliver 1 (exactSecret 71) :: after)).any fun c1 => (c1.session .responder).any fun t =>
      (c1.step .once (.deliver 0 (exactSecret 73))).any fun r => r.1.any fun e =>
      e.side = .responder && (r.2.step .once (.deliver 0 (exactSecret 74))).any fun r' =>
      r'.1.any fun e' => e'.made.chainSend = some (Suite.exact.free.kdfRk t.ratchet.rootKey
        (Suite.exact.free.diffieHellman t.ratchet.dhSelf e'.made.dhSelfPub)).2) = true := by
    decide +kernel
  obtain ⟨c0, hc0, hany⟩ := (Option.any_eq_true _ _).mp hany
  obtain ⟨ca, hca, hany⟩ := (Option.any_eq_true _ _).mp hany
  simp only [Option.any_eq_true, Bool.and_eq_true, decide_eq_true_eq, Option.isNone_iff_eq_none,
    Option.isSome_iff_exists] at hany
  obtain ⟨hlen, s, hs, ⟨⟨⟨hcount, ck, hck⟩, hrecv⟩, hself⟩, pk, hpk, ⟨⟨hdest, hslot⟩, hmoved⟩, c1,
    hc1, t, ht, ⟨made, c3⟩, hc3, e, rfl, hside, ⟨made', c5⟩, hc5, e', rfl, hchain⟩ := hany
  -- the messages in between are lost, until the counter comes out as 0
  obtain ⟨n, hzero⟩ : ∃ n : Nat, s.ratchet.nSend + UInt32.ofNat n = 0 :=
    ⟨2 ^ 32 - 2, by rw [hcount]; decide⟩
  obtain ⟨d, hd, halike⟩ : ∃ d, ca.follow .once anyStep
      (losing .initiator ca.flight.length n) = some d ∧ Alike (ca.sending .initiator s
        (some (chainKeyAt Suite.exact.free ck n)) 0) d := by
    rw [← hzero]
    exact follow_losing n hs hck hself
  have hfirst : (ca.sending .initiator s (some (chainKeyAt Suite.exact.free ck n)) 0).step .once
      (.deliver 1 (exactSecret 71)) = (ca.sending .initiator s s.ratchet.chainSend 0).step .once
      (.deliver 1 (exactSecret 71)) :=
    step_sending hrecv hpk hdest hslot hmoved _ _ 0 _
  have hgoes : (ca.sending .initiator s (some (chainKeyAt Suite.exact.free ck n)) 0).follow .once
      anyStep (.deliver 1 (exactSecret 71) :: after) = some c1 := by
    rw [follow, hfirst]
    exact hc1
  obtain ⟨d1, hd1, halike1⟩ := halike.follow hgoes
  obtain ⟨d3, hd3, halike3⟩ := halike1.step hc3
  obtain ⟨d5, hd5, _⟩ := halike3.step hc5
  have hbefore : c0.follow .once anyStep (before ++ (losing .initiator ca.flight.length n ++
      .deliver 1 (exactSecret 71) :: after)) = some d1 := by
    rw [follow_append, hca, Option.bind_some, follow_append, hd, Option.bind_some]
    exact hd1
  have hleak : d1.session .responder = some t := by
    rw [halike1.session]
    exact ht
  obtain ⟨_, hrest⟩ := hall exactAlice exactBob exactBob.bundle c0 d1 d1 d3 _ [] .responder t _ e
    exactBob.offers_bundle (opened_exact hc0) hbefore hleak rfl hd3 hside rfl
  obtain ⟨hsend, _⟩ := hrest [] d3 d5 _ e' rfl hd5 rfl
  apply hsend (fun _ => False) (fun _ h => h.elim) _ hchain 0
  -- Bob's root key and ratchet secret give Alice's chain key
  have hck : t.ratchet.Learns (fun _ => False) _ :=
    (DoubleRatchet.Learns.stored .root).chainKey (ascii "ClarityRootKDF-v1")
      ⟨t.ratchet.dhSelf, e'.made.dhSelfPub, Or.inl rfl, rfl⟩
  exact hck.messageKeyAt 0

end Conversation

end Clarity
