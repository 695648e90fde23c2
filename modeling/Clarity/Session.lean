/-
  Clarity/Session.lean
  ====================
  **Handshake and sessions** (`core/src/handshake.rs`, `core/src/session.rs`).

  `Handshake.initiate` / `Handshake.respond` are the two sides of PQXDH, and
  `Session` is the API the application calls.  As in the other modules the
  randomness the code draws is an argument.
-/
import Clarity.Identity
import Clarity.Ratchet

namespace Clarity

variable {C : Type} {P : Suite C}

/-! ## The initial key agreement -/

namespace Handshake

/-- Initiator side: the root secret, the header to send, and the responder's
    signed prekey. -/
def initiate (my : Account P) (bundle : PreKeyBundle) (ephemeral : P.Secret) (coins : Bytes32) :
    Result (P.Key × HandshakeHeader × Bytes32) := do
  let dh1 := P.diffieHellman my.dhIdentity bundle.signedPrekey
  let dh2 := P.diffieHellman ephemeral bundle.identityDh
  let dh3 := P.diffieHellman ephemeral bundle.signedPrekey
  let dh4 := bundle.oneTimePrekey.toList.map (P.diffieHellman ephemeral)
  let (kyberCiphertext, kyberSecret) ← P.encapsulate bundle.kyberPrekey coins
  let root := P.kdfRootFromIkm ([dh1, dh2, dh3] ++ dh4 ++ [kyberSecret])
  let header : HandshakeHeader :=
    { identityEd := my.identityPublic
      identityDh := P.publicKey my.dhIdentity
      ephemeralDh := P.publicKey ephemeral
      signedPrekeyId := bundle.signedPrekeyId
      oneTimePrekeyId := bundle.oneTimePrekeyId
      kyberPrekeyId := bundle.kyberPrekeyId
      kyberCiphertext := kyberCiphertext }
  return (root, header, bundle.signedPrekey)

/-- Consume the one-time prekey if the initiator used one. -/
def takeNamedPrekey (my : Account P) : Option UInt32 → Outcome (Account P) (Option P.Secret)
  | some id => (my.takeOneTimePrekey id).andThen fun sk my => (.ok (some sk), my)
  | none => (.ok none, my)

/-- Responder side: rebuild the root secret, consuming the one-time prekey the
    header names. -/
def respond (my : Account P) (hs : HandshakeHeader) : Outcome (Account P) P.Key :=
  if hs.kyberPrekeyId ≠ my.kyberPrekeyId then (.error .unknownPrekey, my)
  else
    (Outcome.lift (my.signedPrekeyById hs.signedPrekeyId) my).andThen fun signedPrekey my =>
    let identityDh := my.dhIdentity
    (takeNamedPrekey my hs.oneTimePrekeyId).andThen fun oneTime my =>
    let dh1 := P.diffieHellman signedPrekey hs.identityDh
    let dh2 := P.diffieHellman identityDh hs.ephemeralDh
    let dh3 := P.diffieHellman signedPrekey hs.ephemeralDh
    let dh4 := oneTime.toList.map fun opk => P.diffieHellman opk hs.ephemeralDh
    (Outcome.lift (P.decapsulate my.kyber hs.kyberCiphertext) my).andThen fun kyberSecret my =>
    (.ok (P.kdfRootFromIkm ([dh1, dh2, dh3] ++ dh4 ++ [kyberSecret])), my)

end Handshake

/-! ## Sessions -/

/-- The two ends of a session. -/
inductive Side where
  | initiator
  | responder
deriving DecidableEq, Repr

def Side.other : Side → Side
  | initiator => responder
  | responder => initiator

/-- One end of an end-to-end encrypted conversation. -/
structure Session (P : Suite C) where
  ratchet : DoubleRatchet P
  /-- `initiator_ed ‖ responder_ed`. -/
  adPrefix : Bytes
  /-- Present on the initiator until the first reply arrives. -/
  pendingHandshake : Option HandshakeHeader

/-- The two identities in (initiator, responder) order. -/
def adPrefix (initiatorEd responderEd : Bytes32) : Bytes := initiatorEd.bytes ++ responderEd.bytes

namespace Session

/-- The random values `Session::initiate` draws. -/
structure InitiateRandom (P : Suite C) where
  ephemeral : P.Secret
  coins : Bytes32
  ratchet : P.Secret

/-- Begin a session with a contact, given their prekey bundle. -/
def initiate (me : Account P) (theirBundle : PreKeyBundle) (rnd : InitiateRandom P) :
    Result (Session P) := do
  verifyBundle P theirBundle
  let (root, handshakeHeader, remoteSpk) ←
    Handshake.initiate me theirBundle rnd.ephemeral rnd.coins
  return {
    ratchet := DoubleRatchet.initInitiator rnd.ratchet root remoteSpk
    adPrefix := Clarity.adPrefix handshakeHeader.identityEd theirBundle.identityEd
    pendingHandshake := some handshakeHeader }

/-- Accept an inbound first message. -/
def respond (me : Account P) (fresh : P.Secret) (firstMessage : Message C) :
    Outcome (Account P) (Session P × Bytes) :=
  match firstMessage with
  | .normal _ _ => (.error .unexpectedMessage, me)
  | .preKey handshakeHeader header ciphertext =>
    (Handshake.respond me handshakeHeader).andThen fun root me =>
    let adPrefix := Clarity.adPrefix handshakeHeader.identityEd me.identityPublic
    (Outcome.lift (me.signedPrekeyById handshakeHeader.signedPrekeyId) me).andThen fun spk me =>
    match (DoubleRatchet.initResponder root spk).decrypt fresh header ciphertext adPrefix with
    | (.error e, _) => (.error e, me)
    | (.ok plaintext, ratchet) =>
      (.ok ({ ratchet := ratchet, adPrefix := adPrefix, pendingHandshake := none }, plaintext), me)

/-- Encrypt an outgoing message. -/
def encrypt (s : Session P) (plaintext : Bytes) : Outcome (Session P) (Message C) :=
  match s.ratchet.encrypt plaintext s.adPrefix with
  | (.error e, ratchet) => (.error e, { s with ratchet := ratchet })
  | (.ok (header, ciphertext), ratchet) =>
    (.ok (match s.pendingHandshake with
      | some hs => .preKey hs header ciphertext
      | none => .normal header ciphertext), { s with ratchet := ratchet })

/-- Decrypt an incoming message. -/
def decrypt (s : Session P) (fresh : P.Secret) (message : Message C) :
    Outcome (Session P) Bytes :=
  match s.ratchet.decrypt fresh message.header message.ciphertext s.adPrefix with
  | (.error e, ratchet) => (.error e, { s with ratchet := ratchet })
  | (.ok plaintext, ratchet) =>
    (.ok plaintext, { s with ratchet := ratchet, pendingHandshake := none })

/-! ## Runs of one session -/

/-- A call on an established session. -/
inductive Op (P : Suite C) where
  | encrypt (plaintext : Bytes)
  | decrypt (fresh : P.Secret) (message : Message C)

/-- What the call returned. -/
inductive Reply (C : Type) where
  | sent (result : Result (Message C))
  | received (result : Result Bytes)

def apply (s : Session P) : Op P → Reply C × Session P
  | .encrypt plaintext => ((.sent (s.encrypt plaintext).1), (s.encrypt plaintext).2)
  | .decrypt fresh message => ((.received (s.decrypt fresh message).1), (s.decrypt fresh message).2)

/-- A whole run: the replies in order, and the final state. -/
def run (s : Session P) : List (Op P) → List (Reply C) × Session P
  | [] => ([], s)
  | op :: ops =>
    let rest := (s.apply op).2.run ops
    ((s.apply op).1 :: rest.1, rest.2)

/-- The sessions the API can produce. -/
inductive Reachable : Session P → Prop where
  | initiated {me : Account P} {bundle : PreKeyBundle} {rnd : InitiateRandom P} {s : Session P} :
      initiate me bundle rnd = .ok s → Reachable s
  | responded {me me' : Account P} {fresh : P.Secret} {m : Message C} {s : Session P} {p : Bytes} :
      respond me fresh m = (.ok (s, p), me') → Reachable s
  | step {s : Session P} (op : Op P) : Reachable s → Reachable (s.apply op).2

end Session

end Clarity
