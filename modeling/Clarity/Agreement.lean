/-
  Clarity/Agreement.lean
  ======================
  **PQXDH agreement.**  Whoever opens a session on a bundle of `B` and sends a first
  message is understood: `B` rebuilds the root key, both ratchets fit together, and
  all that `B` spends is the one-time prekey the bundle carried.

    * `Account.bundleWith` — the bundles a directory can hand out for an account;
    * `DoubleRatchet.Agree` — the initiator's and the responder's ratchets after the
      first message;
    * `handshake_agrees` — for all accounts, all such bundles, and all random values.
-/
import Clarity.Sample
import Clarity.SessionSpec

namespace Clarity

variable {C : Type} {P : Suite C}

/-! ## 1. Bundles with one prekey or none -/

namespace Account

/-- The signed base material of an account with one of its one-time prekeys, or
    none. -/
def bundleWith (a : Account P) (opk : Option (UInt32 × Bytes32)) : PreKeyBundle :=
  { a.bundleBase with oneTimePrekey := opk.map Prod.snd, oneTimePrekeyId := opk.map Prod.fst }

/-- The account once the prekey is spent. -/
def spend (a : Account P) (opk : Option (UInt32 × Bytes32)) : Account P :=
  match opk with
  | none => a
  | some (id, _) => { a with oneTimePrekeys := a.oneTimePrekeys.erase id }

/-- A published prekey is held under its id. -/
theorem mem_oneTimePrekeyPublics {a : Account P} {id : UInt32} {pub : Bytes32} :
    (id, pub) ∈ a.oneTimePrekeyPublics ↔
      ∃ sk, a.oneTimePrekeys[id]? = some sk ∧ P.publicKey sk = pub := by
  unfold oneTimePrekeyPublics
  constructor
  · intro h
    obtain ⟨⟨id', sk⟩, hmem, heq⟩ := List.mem_map.mp h
    cases heq
    exact ⟨sk, Std.ExtTreeMap.mem_toList_iff_getElem?_eq_some.mp hmem, rfl⟩
  · rintro ⟨sk, hsk, rfl⟩
    exact List.mem_map.mpr ⟨(id, sk), Std.ExtTreeMap.mem_toList_iff_getElem?_eq_some.mpr hsk, rfl⟩

/-- Spending a prekey that is held succeeds, and nothing else changes. -/
theorem takeNamedPrekey_of_held {a : Account P} {opk : Option (UInt32 × Bytes32)}
    (h : ∀ e ∈ opk, e ∈ a.oneTimePrekeyPublics) :
    ∃ oneTime, Handshake.takeNamedPrekey a (opk.map Prod.fst) = (.ok oneTime, a.spend opk) ∧
      opk.map Prod.snd = oneTime.map P.publicKey := by
  cases opk with
  | none => exact ⟨none, rfl, rfl⟩
  | some e =>
    obtain ⟨id, pub⟩ := e
    obtain ⟨sk, hsk, rfl⟩ := mem_oneTimePrekeyPublics.mp (h _ rfl)
    refine ⟨some sk, ?_, rfl⟩
    simp [Handshake.takeNamedPrekey, takeOneTimePrekey, hsk, spend]

end Account

/-! ## 2. Ratchets that fit together -/

namespace DoubleRatchet

/-- `a` has sent the first message of the session and `b` has opened it: `b` stands
    where `a` stands on the chain of `a`, and `a` will follow `b` to the chain and
    the root key that `b` has moved on to. -/
structure Agree (a b : DoubleRatchet P) : Prop where
  remote : b.dhRemote = some a.dhSelfPub
  chain : b.chainRecv = a.chainSend
  count : b.nRecv = a.nSend
  rootKey : b.rootKey = (P.kdfRk a.rootKey (P.diffieHellman a.dhSelf b.dhSelfPub)).1
  reply : b.chainSend = some (P.kdfRk a.rootKey (P.diffieHellman a.dhSelf b.dhSelfPub)).2
  cacheLeft : a.skipped = ∅
  cacheRight : b.skipped = ∅

/-- A responder that starts from the same root key opens the initiator's first
    message, and the two ratchets agree. -/
theorem initResponder_agrees (hP : P.Exchange) (root : P.Key) (dhSelf spk fresh : P.Secret)
    (plaintext ad : Bytes) :
    ∃ header ciphertext a b,
      (initInitiator dhSelf root (P.publicKey spk)).encrypt plaintext ad =
        (.ok (header, ciphertext), a) ∧
      (initResponder root spk).decrypt fresh header ciphertext ad = (.ok plaintext, b) ∧
      Agree a b := by
  have hcomm : P.diffieHellman spk (P.publicKey dhSelf) =
      P.diffieHellman dhSelf (P.publicKey spk) := hP.dh_comm _ _
  have hcomm' : P.diffieHellman fresh (P.publicKey dhSelf) =
      P.diffieHellman dhSelf (P.publicKey fresh) := hP.dh_comm _ _
  have hkey : messageKeyAt P ((initResponder root spk).newChain (P.publicKey dhSelf)) 0 =
      (P.kdfCk (P.kdfRk root (P.diffieHellman dhSelf (P.publicKey spk))).2).2 := by
    simp only [newChain, initResponder, hcomm]
    rfl
  refine ⟨_, _, _, ((initResponder root spk).dhRatchet fresh (P.publicKey dhSelf)).used
    (P.publicKey dhSelf) ((initResponder root spk).newChain (P.publicKey dhSelf)) 0, rfl, ?_, ?_⟩
  · refine (decrypt_initResponder root spk UInt32.zero_le fresh _ _).trans (Prod.ext ?_ rfl)
    show P.aeadOpen (messageKeyAt P ((initResponder root spk).newChain (P.publicKey dhSelf)) 0)
      _ _ = _
    rw [hkey]
    exact hP.aeadOpen_aeadSeal _ _ _
  · constructor
    · rfl
    · show some (P.kdfCk ((initResponder root spk).newChain (P.publicKey dhSelf))).1 = _
      simp only [newChain, initResponder, hcomm]
      rfl
    · rfl
    · show (P.kdfRk (P.kdfRk root (P.diffieHellman spk (P.publicKey dhSelf))).1
        (P.diffieHellman fresh (P.publicKey dhSelf))).1 = _
      rw [hcomm, hcomm']
      rfl
    · show some (P.kdfRk (P.kdfRk root (P.diffieHellman spk (P.publicKey dhSelf))).1
        (P.diffieHellman fresh (P.publicKey dhSelf))).2 = _
      rw [hcomm, hcomm']
      rfl
    · rfl
    · rfl

end DoubleRatchet

/-! ## 3. The handshake -/

/-- Where both sides derive the same root key, the first message is understood. -/
theorem Session.respond_first (hP : P.Exchange) {alice bob bob' : Account P} {bundle : PreKeyBundle}
    {rnd : InitiateRandom P} {root : P.Key} {hs : HandshakeHeader}
    (hverify : verifyBundle P bundle = .ok ())
    (hid : bundle.identityEd = bob'.identityPublic)
    (hhs : Handshake.initiate alice bundle rnd.ephemeral rnd.coins =
      .ok (root, hs, P.publicKey bob'.signedPrekey))
    (hroot : Handshake.respond bob hs = (.ok root, bob'))
    (hspk : bob'.signedPrekeyById hs.signedPrekeyId = .ok bob'.signedPrekey) (fresh : P.Secret)
    (plaintext : Bytes) :
    ∃ opened m sent received, initiate alice bundle rnd = .ok opened ∧
      opened.encrypt plaintext = (.ok m, sent) ∧
      respond bob fresh m = (.ok (received, plaintext), bob') ∧
      DoubleRatchet.Agree sent.ratchet received.ratchet ∧ received.adPrefix = sent.adPrefix := by
  have hopened : initiate alice bundle rnd =
      .ok ⟨DoubleRatchet.initInitiator rnd.ratchet root (P.publicKey bob'.signedPrekey),
        Clarity.adPrefix hs.identityEd bob'.identityPublic, some hs⟩ := by
    unfold initiate
    rw [hverify, hhs, hid]
    rfl
  obtain ⟨header, ciphertext, a, b, henc, hdec, hagree⟩ :=
    DoubleRatchet.initResponder_agrees hP root rnd.ratchet bob'.signedPrekey fresh plaintext
      (Clarity.adPrefix hs.identityEd bob'.identityPublic)
  refine ⟨_, .preKey hs header ciphertext,
    ⟨a, Clarity.adPrefix hs.identityEd bob'.identityPublic, some hs⟩,
    ⟨b, Clarity.adPrefix hs.identityEd bob'.identityPublic, none⟩, hopened, ?_, ?_, hagree, rfl⟩
  · unfold encrypt
    rw [henc]
  · exact respond_of_handshake hroot hspk hdec

/-- **PQXDH agreement.**  On a bundle made of `bob`'s signed base material, with no
    one-time prekey or with one that `bob` still holds, both sides derive the same
    root key; the first message reaches `bob` and leaves two sessions that agree;
    and `bob`'s account has spent that prekey and is otherwise as before. -/
theorem handshake_agrees (hP : P.Lawful) (alice bob : Account P)
    (opk : Option (UInt32 × Bytes32)) (hopk : ∀ e ∈ opk, e ∈ bob.oneTimePrekeyPublics)
    (rnd : Session.InitiateRandom P) (fresh : P.Secret) (plaintext : Bytes) :
    (∃ root hs spk,
      Handshake.initiate alice (bob.bundleWith opk) rnd.ephemeral rnd.coins =
        .ok (root, hs, spk) ∧
      Handshake.respond bob hs = (.ok root, bob.spend opk)) ∧
    ∃ opened m sent received, Session.initiate alice (bob.bundleWith opk) rnd = .ok opened ∧
      opened.encrypt plaintext = (.ok m, sent) ∧
      Session.respond bob fresh m = (.ok (received, plaintext), bob.spend opk) ∧
      DoubleRatchet.Agree sent.ratchet received.ratchet ∧ received.adPrefix = sent.adPrefix := by
  obtain ⟨oneTime, htake, hpublic⟩ := Account.takeNamedPrekey_of_held hopk
  obtain ⟨ct, secret, hencap, _⟩ := hP.encapsulate_ok bob.kyber rnd.coins
  have hverify : verifyBundle P (bob.bundleWith opk) = .ok () := verifyBundle_attach hP bob _ _
  have hinit : ∃ root hs, Handshake.initiate alice (bob.bundleWith opk) rnd.ephemeral rnd.coins =
      .ok (root, hs, P.publicKey bob.signedPrekey) := by
    unfold Handshake.initiate
    rw [show (bob.bundleWith opk).kyberPrekey = P.encapsulationKey bob.kyber from rfl, hencap]
    exact ⟨_, _, rfl⟩
  obtain ⟨root, hs, hhs⟩ := hinit
  obtain ⟨_, hed, hspkId, _⟩ := Handshake.initiate_header hhs
  have hroot : Handshake.respond bob hs = (.ok root, bob.spend opk) :=
    Handshake.respond_initiate hP hhs rfl htake hpublic
  refine ⟨⟨root, hs, _, hhs, hroot⟩, ?_⟩
  have hsame : (bob.spend opk).identityPublic = bob.identityPublic ∧
      (bob.spend opk).signedPrekey = bob.signedPrekey ∧
      (bob.spend opk).signedPrekeyById hs.signedPrekeyId = .ok (bob.spend opk).signedPrekey := by
    rw [hspkId]
    cases opk <;> exact ⟨rfl, rfl, if_pos rfl⟩
  obtain ⟨hidentity, hsigned, hspk⟩ := hsame
  exact Session.respond_first hP.exchange hverify hidentity.symm (hsigned ▸ hhs) hroot hspk fresh plaintext

/-- Alice opens a session on Bob's bundle with his one-time prekey 1. -/
theorem handshake_agrees_sample :
    ∃ opened m sent received,
      Session.initiate sampleAlice (sampleBob.bundleWith
        (some (1, Suite.sample.publicKey (sampleSecret 41)))) sampleRandom = .ok opened ∧
      opened.encrypt [1] = (.ok m, sent) ∧
      Session.respond sampleBob (sampleSecret 70) m = (.ok (received, [1]), sampleBob.spend
        (some (1, Suite.sample.publicKey (sampleSecret 41)))) ∧
      DoubleRatchet.Agree sent.ratchet received.ratchet ∧ received.adPrefix = sent.adPrefix := by
  have hheld : ∀ e ∈ some ((1 : UInt32), Suite.sample.publicKey (sampleSecret 41)),
      e ∈ sampleBob.oneTimePrekeyPublics := by
    intro e he
    cases he
    decide +kernel
  exact (handshake_agrees sample_lawful sampleAlice sampleBob _ hheld sampleRandom
    (sampleSecret 70) [1]).2

end Clarity
