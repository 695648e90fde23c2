/-
  Clarity/Ratchet.lean
  ====================
  **The Double Ratchet** (`core/src/ratchet.rs`).

  A faithful state-passing model: every method takes the state and returns the
  state it leaves behind, also when it fails (`Outcome`).  `decrypt` writes in
  five places before the AEAD tag is checked, and the model keeps each of those
  writes where the code has it.

  Counters are `u32` and wrap (release builds do not check overflow); the
  skipped-key cache is a `BTreeMap`.  Where `dh_ratchet` draws a fresh key from
  the operating system, the model takes the drawn secret as the argument
  `fresh`; a call that does not ratchet does not look at it.
-/
import Clarity.Suite
import Clarity.Wire

namespace Clarity

/-- Maximum number of message keys skipped within one receiving chain. -/
def MAX_SKIP : UInt32 := 1000

/-- Total cap on cached skipped keys across all chains. -/
def MAX_SKIPPED_CACHE : Nat := 4000

variable {C : Type}

/-- A live Double Ratchet session state. -/
structure DoubleRatchet (P : Suite C) where
  rootKey : P.Key
  dhSelf : P.Secret
  dhSelfPub : Bytes32
  dhRemote : Option Bytes32
  chainSend : Option P.Key
  chainRecv : Option P.Key
  nSend : UInt32
  nRecv : UInt32
  pn : UInt32
  skipped : Std.ExtTreeMap (Bytes32 × UInt32) P.Key

/-- Associated data bound into every message: the session's bytes followed by
    the encoding of the ratchet header. -/
def associatedData (adPrefix : Bytes) (header : RatchetHeader) : Bytes :=
  adPrefix ++ RatchetHeader.codec.enc header

namespace DoubleRatchet

variable {P : Suite C}

/-- Initialize the ratchet for the session initiator. -/
def initInitiator (dhSelf : P.Secret) (root : P.Key) (remoteDhPub : Bytes32) :
    DoubleRatchet P :=
  let dhSelfPub := P.publicKey dhSelf
  let (rootKey, chainSend) := P.kdfRk root (P.diffieHellman dhSelf remoteDhPub)
  { rootKey := rootKey
    dhSelf := dhSelf
    dhSelfPub := dhSelfPub
    dhRemote := some remoteDhPub
    chainSend := some chainSend
    chainRecv := none
    nSend := 0
    nRecv := 0
    pn := 0
    skipped := ∅ }

/-- Initialize the ratchet for the session responder; `dhSelf` is its signed
    prekey. -/
def initResponder (root : P.Key) (dhSelf : P.Secret) : DoubleRatchet P :=
  { rootKey := root
    dhSelf := dhSelf
    dhSelfPub := P.publicKey dhSelf
    dhRemote := none
    chainSend := none
    chainRecv := none
    nSend := 0
    nRecv := 0
    pn := 0
    skipped := ∅ }

/-- Encrypt `plaintext`, binding the session's associated data and the header. -/
def encrypt (r : DoubleRatchet P) (plaintext adPrefix : Bytes) :
    Outcome (DoubleRatchet P) (RatchetHeader × C) :=
  match r.chainSend with
  | none => (.error .unexpectedMessage, r)
  | some ck =>
    let (nextCk, messageKey) := P.kdfCk ck
    let header : RatchetHeader := { dhPub := r.dhSelfPub, pn := r.pn, n := r.nSend }
    let r := { r with chainSend := some nextCk, nSend := r.nSend + 1 }
    (.ok (header, P.aeadSeal messageKey plaintext (associatedData adPrefix header)), r)

/-- The `while self.n_recv < until` loop of `skip_message_keys`, with `left`
    iterations to go.  Its early return keeps the keys cached so far and the
    counter, but not the advanced chain key. -/
def skipLoop (remote : Bytes32) : (left : Nat) → P.Key → DoubleRatchet P →
    Outcome (DoubleRatchet P) P.Key
  | 0, ck, r => (.ok ck, r)
  | left + 1, ck, r =>
    let (nextCk, messageKey) := P.kdfCk ck
    if MAX_SKIPPED_CACHE ≤ r.skipped.size then (.error .decrypt, r)
    else skipLoop remote left nextCk
      { r with skipped := r.skipped.insert (remote, r.nRecv) messageKey, nRecv := r.nRecv + 1 }

/-- Advance the receiving chain, caching skipped message keys up to `upTo`. -/
def skipMessageKeys (r : DoubleRatchet P) (upTo : UInt32) : Outcome (DoubleRatchet P) Unit :=
  match r.chainRecv with
  | none => (.ok (), r)
  | some ck =>
    if upTo < r.nRecv then (.ok (), r)
    else if upTo - r.nRecv > MAX_SKIP then (.error .decrypt, r)
    else match r.dhRemote with
      | none => (.error .decrypt, r)
      | some remote =>
        (skipLoop remote (upTo - r.nRecv).toNat ck r).andThen fun ck r =>
          (.ok (), { r with chainRecv := some ck })

/-- Perform a Diffie-Hellman ratchet step against a new remote public key. -/
def dhRatchet (r : DoubleRatchet P) (fresh : P.Secret) (remotePub : Bytes32) :
    DoubleRatchet P :=
  let (rootKey, chainRecv) := P.kdfRk r.rootKey (P.diffieHellman r.dhSelf remotePub)
  let (rootKey, chainSend) := P.kdfRk rootKey (P.diffieHellman fresh remotePub)
  { r with
    pn := r.nSend
    nSend := 0
    nRecv := 0
    dhRemote := some remotePub
    chainRecv := some chainRecv
    dhSelfPub := P.publicKey fresh
    dhSelf := fresh
    rootKey := rootKey
    chainSend := some chainSend }

/-- Step 2 of `decrypt`: a new remote ratchet key closes the current receiving
    chain and performs a DH ratchet step. -/
def followRemote (r : DoubleRatchet P) (fresh : P.Secret) (header : RatchetHeader) :
    Outcome (DoubleRatchet P) Unit :=
  if r.dhRemote ≠ some header.dhPub then
    (r.skipMessageKeys header.pn).andThen fun _ r => (.ok (), r.dhRatchet fresh header.dhPub)
  else (.ok (), r)

/-- The end of `decrypt`: take the next key off the receiving chain and open. -/
def openNext (r : DoubleRatchet P) (ciphertext : C) (ad : Bytes) :
    Outcome (DoubleRatchet P) Bytes :=
  match r.chainRecv with
  | none => (.error .decrypt, r)
  | some ck =>
    let (nextCk, messageKey) := P.kdfCk ck
    (P.aeadOpen messageKey ciphertext ad, { r with chainRecv := some nextCk, nRecv := r.nRecv + 1 })

/-- Decrypt a message given its ratchet header and the session's associated data. -/
def decrypt (r : DoubleRatchet P) (fresh : P.Secret) (header : RatchetHeader) (ciphertext : C)
    (adPrefix : Bytes) : Outcome (DoubleRatchet P) Bytes :=
  let ad := associatedData adPrefix header
  match r.skipped[(header.dhPub, header.n)]? with
  | some messageKey =>
    (P.aeadOpen messageKey ciphertext ad,
      { r with skipped := r.skipped.erase (header.dhPub, header.n) })
  | none =>
    (r.followRemote fresh header).andThen fun _ r =>
    (r.skipMessageKeys header.n).andThen fun _ r =>
    r.openNext ciphertext ad

end DoubleRatchet

end Clarity
