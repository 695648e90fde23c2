/-
  Clarity/Impersonation.lean
  ==========================
  **The handshake does not authenticate the initiator's identity.**

  The handshake header carries two identities of the initiator: the Ed25519 key
  everything else is named by, and the X25519 key that enters the DH terms.
  Nothing ties them together: the responder has no signature over `identity_dh`
  to check, and the Ed25519 key enters only the associated data, as public bytes.

    * `Knows` — what a party can compute from its own secrets and public data;
    * `impersonation` — for all accounts, a third party can open a session with
      the responder in the name of anybody.
-/
import Clarity.SessionSpec
import Clarity.Sample

namespace Clarity

variable {C : Type} {P : Suite C}

/-! ## 1. What a party can compute -/

/-- The values that are not public bytes. -/
inductive Item (P : Suite C) where
  | shared (s : P.Shared)
  | key (k : P.Key)
  | ciphertext (c : C)

/-- The X25519 secrets of an account. -/
def Account.Holds (a : Account P) (s : P.Secret) : Prop :=
  s = a.dhIdentity ∨ s = a.signedPrekey ∨ ∃ id : UInt32, a.oneTimePrekeys[id]? = some s

/-- What the owner of `a` can compute: its own secrets, any public bytes, and
    the primitives as black boxes. -/
inductive Knows (a : Account P) : Item P → Prop where
  | diffieHellman {s : P.Secret} (pub : Bytes32) :
      a.Holds s → Knows a (.shared (P.diffieHellman s pub))
  | encapsulate {publicKey : Bytes} {coins : Bytes32} {ct : Bytes} {secret : P.Shared} :
      P.encapsulate publicKey coins = .ok (ct, secret) → Knows a (.shared secret)
  | decapsulate {ct : Bytes} {secret : P.Shared} :
      P.decapsulate a.kyber ct = .ok secret → Knows a (.shared secret)
  | rootKey {ikm : List P.Shared} :
      (∀ s ∈ ikm, Knows a (.shared s)) → Knows a (.key (P.kdfRootFromIkm ikm))
  | nextRoot {k : P.Key} {s : P.Shared} :
      Knows a (.key k) → Knows a (.shared s) → Knows a (.key (P.kdfRk k s).1)
  | chainKey {k : P.Key} {s : P.Shared} :
      Knows a (.key k) → Knows a (.shared s) → Knows a (.key (P.kdfRk k s).2)
  | nextChain {k : P.Key} : Knows a (.key k) → Knows a (.key (P.kdfCk k).1)
  | messageKey {k : P.Key} : Knows a (.key k) → Knows a (.key (P.kdfCk k).2)
  | aeadSeal {k : P.Key} (plaintext ad : Bytes) :
      Knows a (.key k) → Knows a (.ciphertext (P.aeadSeal k plaintext ad))

/-- Headers are public bytes; the ciphertext is what has to be computed. -/
def Builds (a : Account P) (m : Message C) : Prop := Knows a (.ciphertext m.ciphertext)

/-- Whatever first message `mallory` builds, if `bob` accepts it then it does not
    name the identity of `alice`. -/
def AuthenticatesInitiator (alice bob mallory : Account P) : Prop :=
  ∀ (fresh : P.Secret) (hs : HandshakeHeader) (header : RatchetHeader) (ciphertext : C)
    (s : Session P) (plaintext : Bytes) (bob' : Account P),
    Builds mallory (.preKey hs header ciphertext) →
    Session.respond bob fresh (.preKey hs header ciphertext) = (.ok (s, plaintext), bob') →
    hs.identityEd ≠ alice.identityPublic

/-! ## 2. The forged first message -/

/-- The handshake header of `mallory` in the name of `alice`: her own DH identity
    key serves as ephemeral key too. -/
def forgedHandshake (alice bob mallory : Account P) (ct : Bytes) : HandshakeHeader where
  identityEd := alice.identityPublic
  identityDh := mallory.identityDhPublic
  ephemeralDh := mallory.identityDhPublic
  signedPrekeyId := bob.signedPrekeyId
  oneTimePrekeyId := none
  kyberPrekeyId := bob.kyberPrekeyId
  kyberCiphertext := ct

def forgedHeader (mallory : Account P) : RatchetHeader := ⟨mallory.identityDhPublic, 0, 0⟩

/-- The root key `mallory` computes from her DH identity key and `bob`'s bundle. -/
def forgedRoot (bob mallory : Account P) (kyberSecret : P.Shared) : P.Key :=
  let dh := P.diffieHellman mallory.dhIdentity
  P.kdfRootFromIkm [dh (P.publicKey bob.signedPrekey), dh (P.publicKey bob.dhIdentity),
    dh (P.publicKey bob.signedPrekey), kyberSecret]

def forgedMessageKey (bob mallory : Account P) (kyberSecret : P.Shared) : P.Key :=
  (P.kdfCk (P.kdfRk (forgedRoot bob mallory kyberSecret)
    (P.diffieHellman mallory.dhIdentity (P.publicKey bob.signedPrekey))).2).2

theorem knows_forgedMessageKey (bob mallory : Account P) {publicKey ct : Bytes} {coins : Bytes32}
    {kyberSecret : P.Shared} (h : P.encapsulate publicKey coins = .ok (ct, kyberSecret)) :
    Knows mallory (.key (forgedMessageKey bob mallory kyberSecret)) := by
  have hdh (pub : Bytes32) : Knows mallory (.shared (P.diffieHellman mallory.dhIdentity pub)) :=
    .diffieHellman pub (Or.inl rfl)
  refine .messageKey (.chainKey (.rootKey ?_) (hdh _))
  intro s hs
  simp only [List.mem_cons, List.not_mem_nil, or_false] at hs
  rcases hs with rfl | rfl | rfl | rfl
  · exact hdh _
  · exact hdh _
  · exact hdh _
  · exact .encapsulate h

/-- The responder arrives at the same message key. -/
theorem respond_forged (hP : P.Lawful) (alice bob mallory : Account P) {ct : Bytes}
    {kyberSecret : P.Shared} (hdecap : P.decapsulate bob.kyber ct = .ok kyberSecret)
    (fresh : P.Secret) (plaintext : Bytes) :
    ∃ s, Session.respond bob fresh (.preKey (forgedHandshake alice bob mallory ct)
        (forgedHeader mallory) (P.aeadSeal (forgedMessageKey bob mallory kyberSecret) plaintext
          (associatedData (adPrefix alice.identityPublic bob.identityPublic)
            (forgedHeader mallory)))) = (.ok (s, plaintext), bob) := by
  have hroot : Handshake.respond bob (forgedHandshake alice bob mallory ct) =
      (.ok (forgedRoot bob mallory kyberSecret), bob) := by
    rw [Handshake.respond_ok rfl rfl (show Handshake.takeNamedPrekey bob
      (forgedHandshake alice bob mallory ct).oneTimePrekeyId = (.ok none, bob) from rfl) hdecap]
    simp only [forgedHandshake, Account.identityDhPublic, hP.dh_comm bob.signedPrekey,
      hP.dh_comm bob.dhIdentity]
    rfl
  have hspk : bob.signedPrekeyById (forgedHandshake alice bob mallory ct).signedPrekeyId =
      .ok bob.signedPrekey := if_pos rfl
  have hdec := DoubleRatchet.decrypt_initResponder (forgedRoot bob mallory kyberSecret)
    bob.signedPrekey (show (forgedHeader mallory).n ≤ MAX_SKIP from UInt32.zero_le) fresh
    (P.aeadSeal (forgedMessageKey bob mallory kyberSecret) plaintext
      (associatedData (adPrefix alice.identityPublic bob.identityPublic) (forgedHeader mallory)))
    (adPrefix alice.identityPublic bob.identityPublic)
  -- the receiving chain of the responder is the chain `mallory` took the key from
  have hkey : messageKeyAt P ((DoubleRatchet.initResponder (forgedRoot bob mallory kyberSecret)
      bob.signedPrekey).newChain (forgedHeader mallory).dhPub) (forgedHeader mallory).n.toNat =
      forgedMessageKey bob mallory kyberSecret := by
    simp only [DoubleRatchet.newChain, DoubleRatchet.initResponder, forgedHeader, Account.identityDhPublic, hP.dh_comm bob.signedPrekey]
    rfl
  rw [hkey, hP.aeadOpen_aeadSeal] at hdec
  exact ⟨_, Session.respond_of_handshake hroot hspk hdec⟩

/-- **Anybody can be impersonated.**  For all accounts the property fails: with her
    own DH identity key and public data `mallory` opens a session with `bob` in
    the name of `alice`. -/
theorem impersonation (hP : P.Lawful) (alice bob mallory : Account P) :
    ¬ AuthenticatesInitiator alice bob mallory := by
  intro hauth
  obtain ⟨ct, kyberSecret, hencap, hdecap⟩ :=
    hP.encapsulate_ok bob.kyber (Bytes32.ofByte 0)
  obtain ⟨s, hresp⟩ := respond_forged hP alice bob mallory hdecap bob.signedPrekey []
  have hbuilds : Builds mallory (.preKey (forgedHandshake alice bob mallory ct)
      (forgedHeader mallory) (P.aeadSeal (forgedMessageKey bob mallory kyberSecret) []
        (associatedData (adPrefix alice.identityPublic bob.identityPublic)
          (forgedHeader mallory)))) :=
    .aeadSeal _ _ (knows_forgedMessageKey bob mallory hencap)
  exact hauth _ _ _ _ _ _ _ hbuilds hresp rfl

/-- Account 90 opens a session with Bob that names Alice's identity and her own
    DH key. -/
theorem impersonation_of_alice :
    ∃ (mallory : Account Suite.sample) (hs : HandshakeHeader) (header : RatchetHeader) (c : Bytes),
      Builds mallory (.preKey hs header c) ∧ hs.identityEd = sampleAlice.identityPublic ∧
      hs.identityDh ≠ sampleAlice.identityDhPublic ∧
      mallory.identityPublic ≠ sampleAlice.identityPublic ∧
      mallory.identityPublic ≠ sampleBob.identityPublic ∧
      ∃ s bob', Session.respond sampleBob (sampleSecret 70) (.preKey hs header c) =
        (.ok (s, [1]), bob') := by
  obtain ⟨ct, kyberSecret, hencap, hdecap⟩ :=
    sample_lawful.encapsulate_ok sampleBob.kyber (Bytes32.ofByte 7)
  obtain ⟨s, hresp⟩ := respond_forged sample_lawful sampleAlice sampleBob (sampleAccount 90 [])
    hdecap (sampleSecret 70) [1]
  exact ⟨sampleAccount 90 [], _, _, _,
    .aeadSeal _ _ (knows_forgedMessageKey sampleBob (sampleAccount 90 []) hencap), rfl,
    show (sampleAccount 90 []).identityDhPublic ≠ sampleAlice.identityDhPublic by decide,
    by decide, by decide, s, sampleBob, hresp⟩

/-- The primitives of the sample suite are lawful, so the property fails there. -/
theorem impersonation_sample : Suite.sample.Lawful ∧
    ¬ AuthenticatesInitiator sampleAlice sampleBob (sampleAccount 90 []) :=
  ⟨sample_lawful, impersonation sample_lawful sampleAlice sampleBob (sampleAccount 90 [])⟩

end Clarity
