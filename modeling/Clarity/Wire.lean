/-
  Clarity/Wire.lean
  =================
  **Wire types and their encoding** (`core/src/wire.rs`).

  Wire types hold plain bytes.  Their `bincode` layout is assembled from the
  codecs of `Clarity.Bincode`, field by field in declaration order, so encoding
  and decoding are the two directions of one definition.
-/
import Clarity.Bincode

namespace Clarity

/-- Current wire protocol version. -/
def PROTOCOL_VERSION : UInt8 := 1

/-- A published prekey bundle. -/
structure PreKeyBundle where
  identityEd : Bytes32
  identityDh : Bytes32
  identityDhSig : Bytes
  signedPrekey : Bytes32
  signedPrekeyId : UInt32
  signedPrekeySig : Bytes
  kyberPrekey : Bytes
  kyberPrekeyId : UInt32
  kyberPrekeySig : Bytes
  oneTimePrekey : Option Bytes32
  oneTimePrekeyId : Option UInt32
deriving DecidableEq

/-- Per-message Double Ratchet header. -/
structure RatchetHeader where
  /-- Sender's current ratchet public key. -/
  dhPub : Bytes32
  /-- Number of messages in the previous sending chain. -/
  pn : UInt32
  /-- Message number within the current sending chain. -/
  n : UInt32
deriving DecidableEq

/-- The extra header carried on the initiator's first messages. -/
structure HandshakeHeader where
  identityEd : Bytes32
  identityDh : Bytes32
  ephemeralDh : Bytes32
  signedPrekeyId : UInt32
  oneTimePrekeyId : Option UInt32
  kyberPrekeyId : UInt32
  kyberCiphertext : Bytes
deriving DecidableEq

/-- A wire message; the AEAD ciphertext type is the suite's. -/
inductive Message (C : Type) where
  | preKey (handshake : HandshakeHeader) (header : RatchetHeader) (ciphertext : C)
  | normal (header : RatchetHeader) (ciphertext : C)
deriving DecidableEq

namespace Message

variable {C : Type}

/-- The ratchet header, regardless of variant. -/
def header : Message C → RatchetHeader
  | preKey _ header _ => header
  | normal header _ => header

/-- The ratchet ciphertext, regardless of variant. -/
def ciphertext : Message C → C
  | preKey _ _ ciphertext => ciphertext
  | normal _ ciphertext => ciphertext

end Message

/-! ## Layouts -/

namespace RatchetHeader

/-- `dh_pub`, `pn`, `n`: forty bytes. -/
def codec : Codec RatchetHeader :=
  (Codec.bytes32.pair (Codec.u32.pair Codec.u32)).imap
    (fun h => (h.dhPub, h.pn, h.n)) (fun p => some ⟨p.1, p.2.1, p.2.2⟩)
    (fun _ => rfl)
    (by
      intro a h hab
      simp only [Option.some.injEq] at hab
      subst hab
      rfl)

theorem codec_valid (h : RatchetHeader) : codec.Valid h :=
  ⟨trivial, Codec.u32_valid _, Codec.u32_valid _⟩

end RatchetHeader

namespace HandshakeHeader

def codec : Codec HandshakeHeader :=
  (Codec.bytes32.pair (Codec.bytes32.pair (Codec.bytes32.pair (Codec.u32.pair
    (Codec.u32.option.pair (Codec.u32.pair Codec.vec)))))).imap
    (fun h => (h.identityEd, h.identityDh, h.ephemeralDh, h.signedPrekeyId,
      h.oneTimePrekeyId, h.kyberPrekeyId, h.kyberCiphertext))
    (fun p => some ⟨p.1, p.2.1, p.2.2.1, p.2.2.2.1, p.2.2.2.2.1, p.2.2.2.2.2.1, p.2.2.2.2.2.2⟩)
    (fun _ => rfl)
    (by
      intro a h hab
      simp only [Option.some.injEq] at hab
      subst hab
      rfl)

/-- Everything but an over-long KEM ciphertext fits the format. -/
theorem codec_valid {h : HandshakeHeader} (hlen : h.kyberCiphertext.length < 256 ^ 8) :
    codec.Valid h :=
  ⟨trivial, trivial, trivial, Codec.u32_valid _, fun _ _ => Codec.u32_valid _,
    Codec.u32_valid _, hlen⟩

end HandshakeHeader

/-- The text of a `bincode` failure; the core only passes it on. -/
def bincodeError : String := "bincode error"

namespace PreKeyBundle

def codec : Codec PreKeyBundle :=
  (Codec.bytes32.pair (Codec.bytes32.pair (Codec.vec.pair (Codec.bytes32.pair (Codec.u32.pair
    (Codec.vec.pair (Codec.vec.pair (Codec.u32.pair (Codec.vec.pair
    (Codec.bytes32.option.pair Codec.u32.option)))))))))).imap
    (fun b => (b.identityEd, b.identityDh, b.identityDhSig, b.signedPrekey, b.signedPrekeyId,
      b.signedPrekeySig, b.kyberPrekey, b.kyberPrekeyId, b.kyberPrekeySig, b.oneTimePrekey,
      b.oneTimePrekeyId))
    (fun p => some ⟨p.1, p.2.1, p.2.2.1, p.2.2.2.1, p.2.2.2.2.1, p.2.2.2.2.2.1, p.2.2.2.2.2.2.1,
      p.2.2.2.2.2.2.2.1, p.2.2.2.2.2.2.2.2.1, p.2.2.2.2.2.2.2.2.2.1, p.2.2.2.2.2.2.2.2.2.2⟩)
    (fun _ => rfl)
    (by
      intro a b hab
      simp only [Option.some.injEq] at hab
      subst hab
      rfl)

/-- Everything but an over-long signature or KEM key fits the format. -/
theorem codec_valid {b : PreKeyBundle} (h1 : b.identityDhSig.length < 256 ^ 8)
    (h2 : b.signedPrekeySig.length < 256 ^ 8) (h3 : b.kyberPrekey.length < 256 ^ 8)
    (h4 : b.kyberPrekeySig.length < 256 ^ 8) : codec.Valid b :=
  ⟨trivial, trivial, h1, trivial, Codec.u32_valid _, h2, h3, Codec.u32_valid _, h4,
    fun _ _ => trivial, fun _ _ => Codec.u32_valid _⟩

/-- `PreKeyBundle::encode`. -/
def encode (b : PreKeyBundle) : Bytes := codec.enc b

/-- `PreKeyBundle::decode`. -/
def decode (bytes : Bytes) : Result PreKeyBundle :=
  match codec.dec bytes with
  | some (b, _) => .ok b
  | none => .error (.wire bincodeError)

theorem decode_encode {b : PreKeyBundle} (h : codec.Valid b) : decode (encode b) = .ok b := by
  simp [decode, encode, Codec.dec_enc_nil codec h]

end PreKeyBundle

namespace Message

/-- Variant index, then the fields of the variant. -/
def codec : Codec (Message Bytes) :=
  ((HandshakeHeader.codec.pair (RatchetHeader.codec.pair Codec.vec)).either
    (RatchetHeader.codec.pair Codec.vec)).imap
    (fun
      | preKey handshake header ciphertext => .inl (handshake, header, ciphertext)
      | normal header ciphertext => .inr (header, ciphertext))
    (fun
      | .inl p => some (preKey p.1 p.2.1 p.2.2)
      | .inr p => some (normal p.1 p.2))
    (by intro m; cases m <;> rfl)
    (by
      intro a m h
      cases a <;>
        · simp only [Option.some.injEq] at h
          subst h
          rfl)

/-- `Message::encode`: the version byte, then the body. -/
def encode (m : Message Bytes) : Bytes := PROTOCOL_VERSION :: codec.enc m

/-- `Message::decode`.  `bincode::deserialize` ignores bytes after the value. -/
def decode (bytes : Bytes) : Result (Message Bytes) :=
  match bytes with
  | [] => .error (.wire "empty message")
  | version :: body =>
    if version ≠ PROTOCOL_VERSION then
      .error (.wire ("unsupported version " ++ toString version.toNat))
    else match codec.dec body with
      | some (m, _) => .ok m
      | none => .error (.wire bincodeError)

/-- A message that can be written down at all fits the format. -/
theorem codec_valid_of_length {m : Message Bytes} (h : m.encode.length < 2 ^ 32) :
    codec.Valid m := by
  cases m with
  | preKey handshake header ciphertext =>
    have hlen : handshake.kyberCiphertext.length + ciphertext.length ≤
        (encode (preKey handshake header ciphertext)).length := by
      simp only [encode, codec, HandshakeHeader.codec, Codec.imap, Codec.either, Codec.pair,
        Codec.vec, List.length_cons, List.length_append]
      omega
    have hkem : handshake.kyberCiphertext.length < 256 ^ 8 := by omega
    exact ⟨HandshakeHeader.codec_valid hkem, RatchetHeader.codec_valid header,
      show ciphertext.length < 256 ^ 8 by omega⟩
  | normal header ciphertext =>
    have hlen : ciphertext.length ≤ (encode (normal header ciphertext)).length := by
      simp only [encode, codec, Codec.imap, Codec.either, Codec.pair, Codec.vec,
        List.length_cons, List.length_append]
      omega
    exact ⟨RatchetHeader.codec_valid header, show ciphertext.length < 256 ^ 8 by omega⟩

theorem decode_encode {m : Message Bytes} (h : codec.Valid m) : decode (encode m) = .ok m := by
  simp [decode, encode, Codec.dec_enc_nil codec h]

end Message

end Clarity
