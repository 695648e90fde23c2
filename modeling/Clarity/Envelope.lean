/-
  Clarity/Envelope.lean
  =====================
  **Sealed-sender envelopes** (`core/src/envelope.rs`): a payload padded to its size
  bucket and sealed, together with the sender's identity keys, to the X25519
  identity of the recipient.

    * `openEnvelope_sealEnvelope` — the recipient gets back the payload and the
      sender's keys.
-/
import Clarity.Identity

namespace Clarity

/-! ## 1. Buckets -/

def SEALED_ENVELOPE_VERSION : UInt8 := 2
def HEADER_LEN : Nat := 1 + 32
def INNER_PREFIX_LEN : Nat := 64
def LEN_PREFIX : Nat := 4
def MIN_BUCKET : Nat := 512
def MAX_POW2_BUCKET : Nat := 8 * 1024

/-- `usize::next_power_of_two`. -/
def nextPowerOfTwo (n : Nat) : Nat := if n ≤ 1 then 1 else 2 ^ ((n - 1).log2 + 1)

/-- The padded size of a payload, length field included. -/
def bucket (len : Nat) : Nat :=
  let needed := len + LEN_PREFIX
  if needed ≤ MIN_BUCKET then MIN_BUCKET
  else if needed ≤ MAX_POW2_BUCKET then nextPowerOfTwo needed
  else (needed + MAX_POW2_BUCKET - 1) / MAX_POW2_BUCKET * MAX_POW2_BUCKET

theorem le_nextPowerOfTwo (n : Nat) : n ≤ nextPowerOfTwo n := by
  unfold nextPowerOfTwo
  split
  · assumption
  · have hlt : n - 1 < 2 ^ ((n - 1).log2 + 1) := Nat.lt_log2_self
    omega

/-- The bucket has room for the length field and the payload. -/
theorem le_bucket (len : Nat) : len + LEN_PREFIX ≤ bucket len := by
  unfold bucket
  simp only
  split
  · assumption
  · split
    · exact le_nextPowerOfTwo _
    · unfold MAX_POW2_BUCKET
      omega

/-! ## 2. Sealing and opening -/

/-- A successfully opened envelope; the sender is what it claims to be. -/
structure OpenedEnvelope where
  senderIdentityEd : Bytes32
  senderIdentityDh : Bytes32
  payload : Bytes
deriving DecidableEq

variable {P : Suite Bytes}

def deriveSealKey (shared : P.Shared) (ephPub recipientDh : Bytes32) : P.Key :=
  P.hkdf32 (ascii "Clarity-sealed-salt-v1") [shared]
    (ascii "Clarity-sealed-v1" ++ ephPub.bytes ++ recipientDh.bytes)

/-- `Vec::resize` with zeros. -/
def resize (b : Bytes) (n : Nat) : Bytes := (b ++ List.replicate (n - b.length) 0).take n

/-- The plaintext of an envelope: keys, length field, payload, padding. -/
def envelopeInner (sender : Account P) (payload : Bytes) : Bytes :=
  resize (sender.identityPublic.bytes ++ sender.identityDhPublic.bytes ++
    Codec.leBytes LEN_PREFIX payload.length ++ payload) (INNER_PREFIX_LEN + bucket payload.length)

/-- Seal a payload to the recipient's X25519 identity. -/
def sealEnvelope (sender : Account P) (recipientIdentityDh : Bytes32) (payload : Bytes)
    (ephSecret : P.Secret) : Bytes :=
  let ephPub := P.publicKey ephSecret
  let sealKey :=
    deriveSealKey (P.diffieHellman ephSecret recipientIdentityDh) ephPub recipientIdentityDh
  SEALED_ENVELOPE_VERSION :: ephPub.bytes ++
    P.aeadSeal sealKey (envelopeInner sender payload) ephPub.bytes

/-- Take the plaintext of an envelope apart. -/
def parseInner (inner : Bytes) : Result OpenedEnvelope :=
  match (Codec.bytes32.pair (Codec.bytes32.pair (Codec.le LEN_PREFIX))).dec inner with
  | none => .error .decrypt
  | some ((senderEd, senderDh, payloadLen), rest) =>
    if payloadLen > rest.length then .error .decrypt
    else .ok ⟨senderEd, senderDh, rest.take payloadLen⟩

/-- Open an envelope with the recipient's X25519 identity. -/
def openEnvelope (recipient : Account P) (blob : Bytes) : Result OpenedEnvelope :=
  if blob.length ≤ HEADER_LEN ∨ blob.head? ≠ some SEALED_ENVELOPE_VERSION then .error .decrypt
  else match Codec.bytes32.dec (blob.drop 1) with
    | none => .error .decrypt
    | some (ephPub, ciphertext) =>
      let sealKey := deriveSealKey (P.diffieHellman recipient.dhIdentity ephPub) ephPub
        recipient.identityDhPublic
      match P.aeadOpen sealKey ciphertext ephPub.bytes with
      | .error e => .error e
      | .ok inner => parseInner inner

/-! ## 3. The round trip -/

theorem resize_eq {b : Bytes} {n : Nat} (h : b.length ≤ n) :
    resize b n = b ++ List.replicate (n - b.length) 0 := by
  unfold resize
  apply List.take_of_length_le
  simp
  omega

theorem parseInner_envelopeInner (sender : Account P) {payload : Bytes}
    (h : payload.length < 2 ^ 32) :
    parseInner (envelopeInner sender payload) =
      .ok ⟨sender.identityPublic, sender.identityDhPublic, payload⟩ := by
  have hroom := le_bucket payload.length
  have hlen : (sender.identityPublic.bytes ++ sender.identityDhPublic.bytes ++
      Codec.leBytes LEN_PREFIX payload.length ++ payload).length ≤
        INNER_PREFIX_LEN + bucket payload.length := by
    simp only [List.length_append, Bytes32.length_bytes, Codec.length_leBytes, INNER_PREFIX_LEN]
    omega
  have hvalid : (Codec.bytes32.pair (Codec.bytes32.pair (Codec.le LEN_PREFIX))).Valid
      (sender.identityPublic, sender.identityDhPublic, payload.length) := ⟨trivial, trivial, h⟩
  have hdec := Codec.dec_enc _ hvalid
    (payload ++ List.replicate (INNER_PREFIX_LEN + bucket payload.length -
      (sender.identityPublic.bytes ++ sender.identityDhPublic.bytes ++
        Codec.leBytes LEN_PREFIX payload.length ++ payload).length) 0)
  have henc : (Codec.bytes32.pair (Codec.bytes32.pair (Codec.le LEN_PREFIX))).enc
      (sender.identityPublic, sender.identityDhPublic, payload.length) =
        sender.identityPublic.bytes ++ (sender.identityDhPublic.bytes ++
          Codec.leBytes LEN_PREFIX payload.length) := rfl
  rw [henc] at hdec
  unfold parseInner envelopeInner
  rw [resize_eq hlen]
  simp only [List.append_assoc] at hdec ⊢
  rw [hdec]
  simp

/-- A ciphertext carries a tag, so it is never empty. -/
def Suite.Tagged (P : Suite Bytes) : Prop := ∀ m p ad, P.xchachaEncrypt m p ad ≠ []

/-- **Envelopes open to what was sealed.** -/
theorem openEnvelope_sealEnvelope (hP : P.Lawful) (htag : P.Tagged)
    (sender recipient : Account P) {payload : Bytes} (h : payload.length < 2 ^ 32)
    (ephSecret : P.Secret) :
    openEnvelope recipient (sealEnvelope sender recipient.identityDhPublic payload ephSecret) =
      .ok ⟨sender.identityPublic, sender.identityDhPublic, payload⟩ := by
  set ephPub := P.publicKey ephSecret with heph
  have hcomm : P.diffieHellman recipient.dhIdentity ephPub =
      P.diffieHellman ephSecret recipient.identityDhPublic := hP.dh_comm _ _
  set ciphertext := P.aeadSeal (deriveSealKey (P.diffieHellman ephSecret
    recipient.identityDhPublic) ephPub recipient.identityDhPublic) (envelopeInner sender payload)
    ephPub.bytes with hct
  have hne : 0 < ciphertext.length := List.length_pos_iff.mpr (htag _ _ _)
  have hblob : sealEnvelope sender recipient.identityDhPublic payload ephSecret =
      SEALED_ENVELOPE_VERSION :: (ephPub.bytes ++ ciphertext) := rfl
  have hguard : ¬ ((SEALED_ENVELOPE_VERSION :: (ephPub.bytes ++ ciphertext)).length ≤ HEADER_LEN ∨
      (SEALED_ENVELOPE_VERSION :: (ephPub.bytes ++ ciphertext)).head? ≠
        some SEALED_ENVELOPE_VERSION) := by
    simp only [List.length_cons, List.length_append, Bytes32.length_bytes, HEADER_LEN,
      List.head?_cons, ne_eq, not_true_eq_false, or_false, Nat.not_le]
    omega
  have hdec : Codec.bytes32.dec (ephPub.bytes ++ ciphertext) = some (ephPub, ciphertext) :=
    Codec.bytes32.dec_enc trivial ciphertext
  unfold openEnvelope
  rw [hblob, if_neg hguard, List.drop_one, List.tail_cons, hdec]
  simp only [hcomm]
  rw [hct, hP.aeadOpen_aeadSeal]
  exact parseInner_envelopeInner sender h

end Clarity
