/-
  Clarity/Suite.lean
  ==================
  **The primitives and the key schedule** (`core/src/kdf.rs`, `core/src/pqkem.rs`).

  The core calls X25519, Ed25519, ML-KEM-1024, HMAC/HKDF-SHA256 and
  XChaCha20-Poly1305 from the dalek and RustCrypto crates.  None of that code is
  in the repository, so a `Suite` takes it as a parameter: the types of the
  secret values, and one function for each primitive the core calls.  Public
  values are bytes, exactly as on the wire; only the AEAD ciphertext type is a
  parameter, so that a symbolic suite can use terms for it.

  What the code may rely on is not built in.  `Suite.Lawful` collects the
  functional correctness of the primitives (Diffie-Hellman commutes,
  decapsulation undoes encapsulation, opening undoes sealing, signatures
  verify); the results that need it say so.  Nothing about secrecy is assumed
  here — `Clarity.Symbolic` gives the free key schedule for that.
-/
import Clarity.Base

namespace Clarity

/-- The third-party primitives, as the core calls them. -/
structure Suite (Cipher : Type) where
  /-- `x25519_dalek::StaticSecret`. -/
  Secret : Type
  /-- A 32-byte shared value: an X25519 output or an ML-KEM shared secret. -/
  Shared : Type
  /-- A 32-byte symmetric key: root, chain, message and sealing keys. -/
  Key : Type
  /-- The AEAD key together with its 24-byte nonce. -/
  Material : Type
  /-- `ed25519_dalek::SigningKey`. -/
  SigningKey : Type
  /-- The ML-KEM decapsulation key. -/
  DecapKey : Type
  publicKey : Secret → Bytes32
  diffieHellman : Secret → Bytes32 → Shared
  /-- HMAC-SHA256 under a 32-byte key. -/
  hmac : Key → Bytes → Key
  /-- HKDF-SHA256 with a constant salt, 32 bytes of output. -/
  hkdf32 : (salt : Bytes) → (ikm : List Shared) → (info : Bytes) → Key
  /-- HKDF-SHA256 salted with a key, 64 bytes of output split in two. -/
  hkdf64 : (salt : Key) → (ikm : Shared) → (info : Bytes) → Key × Key
  /-- HKDF-SHA256 of a key with the zero salt, 56 bytes split into key and nonce. -/
  hkdf56 : (ikm : Key) → (info : Bytes) → Material
  /-- XChaCha20-Poly1305. -/
  xchachaEncrypt : Material → (msg : Bytes) → (aad : Bytes) → Cipher
  xchachaDecrypt : Material → (msg : Cipher) → (aad : Bytes) → Option Bytes
  verifyingKey : SigningKey → Bytes32
  /-- Whether `VerifyingKey::from_bytes` accepts the 32 bytes. -/
  isVerifyingKey : Bytes32 → Bool
  sign : SigningKey → Bytes → Bytes
  verify : (identity : Bytes32) → (msg : Bytes) → (sig : Bytes) → Bool
  encapsulationKey : DecapKey → Bytes
  /-- ML-KEM on a key of the right length, with its 32 random bytes. -/
  kemEncapsulate : (publicKey : Bytes) → (coins : Bytes32) → Option (Bytes × Shared)
  kemDecapsulate : DecapKey → (ciphertext : Bytes) → Option Shared

namespace Suite

variable {C : Type} (P : Suite C)

/-! ## `kdf.rs` -/

/-- Root-key KDF (the asymmetric ratchet step): next root key, fresh chain key. -/
def kdfRk (rootKey : P.Key) (dhOutput : P.Shared) : P.Key × P.Key :=
  P.hkdf64 rootKey dhOutput (ascii "ClarityRootKDF-v1")

/-- Chain-key KDF (the symmetric ratchet step): `(next chain key, message key)`. -/
def kdfCk (chainKey : P.Key) : P.Key × P.Key :=
  let messageKey := P.hmac chainKey [0x01]
  let nextChain := P.hmac chainKey [0x02]
  (nextChain, messageKey)

/-- Expand a message key into the AEAD's `(key, nonce)` pair. -/
def deriveMessageMaterial (messageKey : P.Key) : P.Material :=
  P.hkdf56 messageKey (ascii "ClarityMsgKey-v1")

def aeadSeal (messageKey : P.Key) (plaintext associatedData : Bytes) : C :=
  P.xchachaEncrypt (P.deriveMessageMaterial messageKey) plaintext associatedData

def aeadOpen (messageKey : P.Key) (ciphertext : C) (associatedData : Bytes) : Result Bytes :=
  match P.xchachaDecrypt (P.deriveMessageMaterial messageKey) ciphertext associatedData with
  | some plaintext => .ok plaintext
  | none => .error .decrypt

/-- Compress the handshake's shared values into the first root key.  Each of
    them is 32 bytes long, so the list stands for its concatenation. -/
def kdfRootFromIkm (ikm : List P.Shared) : P.Key :=
  P.hkdf32 (ascii "Clarity-PQXDH-salt-v1") ikm (ascii "Clarity-PQXDH-root-v1")

/-! ## `pqkem.rs` -/

/-- Length of an ML-KEM-1024 encapsulation key, in bytes. -/
def KYBER_PUBLIC_LEN : Nat := 1568
/-- Length of an ML-KEM-1024 ciphertext, in bytes. -/
def KYBER_CIPHERTEXT_LEN : Nat := 1568

def encapsulate (publicKey : Bytes) (coins : Bytes32) : Result (Bytes × P.Shared) :=
  if publicKey.length ≠ KYBER_PUBLIC_LEN then .error .malformedKey
  else match P.kemEncapsulate publicKey coins with
    | some out => .ok out
    | none => .error .decrypt

def decapsulate (decap : P.DecapKey) (ciphertext : Bytes) : Result P.Shared :=
  if ciphertext.length ≠ KYBER_CIPHERTEXT_LEN then .error .malformedKey
  else match P.kemDecapsulate decap ciphertext with
    | some secret => .ok secret
    | none => .error .decrypt

/-! ## What the primitives guarantee -/

/-- Length of an Ed25519 signature, in bytes. -/
def SIGNATURE_LEN : Nat := 64

/-- Functional correctness of the primitives. -/
structure Lawful : Prop where
  dh_comm : ∀ a b, P.diffieHellman a (P.publicKey b) = P.diffieHellman b (P.publicKey a)
  decrypt_encrypt : ∀ m p ad, P.xchachaDecrypt m (P.xchachaEncrypt m p ad) ad = some p
  isVerifyingKey_verifyingKey : ∀ k, P.isVerifyingKey (P.verifyingKey k) = true
  length_sign : ∀ k msg, (P.sign k msg).length = SIGNATURE_LEN
  verify_sign : ∀ k msg, P.verify (P.verifyingKey k) msg (P.sign k msg) = true
  length_encapsulationKey : ∀ k, (P.encapsulationKey k).length = KYBER_PUBLIC_LEN
  decapsulate_encapsulate : ∀ k coins, ∃ ct secret,
    P.kemEncapsulate (P.encapsulationKey k) coins = some (ct, secret) ∧
      ct.length = KYBER_CIPHERTEXT_LEN ∧ P.kemDecapsulate k ct = some secret

/-- The part of it that has nothing to do with signatures. -/
structure Exchange : Prop where
  dh_comm : ∀ a b, P.diffieHellman a (P.publicKey b) = P.diffieHellman b (P.publicKey a)
  decrypt_encrypt : ∀ m p ad, P.xchachaDecrypt m (P.xchachaEncrypt m p ad) ad = some p
  length_encapsulationKey : ∀ k, (P.encapsulationKey k).length = KYBER_PUBLIC_LEN
  decapsulate_encapsulate : ∀ k coins, ∃ ct secret,
    P.kemEncapsulate (P.encapsulationKey k) coins = some (ct, secret) ∧
      ct.length = KYBER_CIPHERTEXT_LEN ∧ P.kemDecapsulate k ct = some secret

variable {P}

theorem Lawful.exchange (h : P.Lawful) : P.Exchange :=
  ⟨h.dh_comm, h.decrypt_encrypt, h.length_encapsulationKey, h.decapsulate_encapsulate⟩

theorem Exchange.aeadOpen_aeadSeal (h : P.Exchange) (k : P.Key) (p ad : Bytes) :
    P.aeadOpen k (P.aeadSeal k p ad) ad = .ok p := by
  unfold aeadOpen aeadSeal
  rw [h.decrypt_encrypt]

/-- Encapsulating to an honest key succeeds, and its owner recovers the secret. -/
theorem Exchange.encapsulate_ok (h : P.Exchange) (k : P.DecapKey) (coins : Bytes32) :
    ∃ ct secret, P.encapsulate (P.encapsulationKey k) coins = .ok (ct, secret) ∧
      P.decapsulate k ct = .ok secret := by
  obtain ⟨ct, secret, henc, hlen, hdec⟩ := h.decapsulate_encapsulate k coins
  refine ⟨ct, secret, ?_, ?_⟩
  · unfold encapsulate
    rw [if_neg (not_not_intro (h.length_encapsulationKey k)), henc]
  · unfold decapsulate
    rw [if_neg (not_not_intro hlen), hdec]

theorem Lawful.aeadOpen_aeadSeal (h : P.Lawful) (k : P.Key) (p ad : Bytes) :
    P.aeadOpen k (P.aeadSeal k p ad) ad = .ok p := h.exchange.aeadOpen_aeadSeal k p ad

theorem Lawful.encapsulate_ok (h : P.Lawful) (k : P.DecapKey) (coins : Bytes32) :
    ∃ ct secret, P.encapsulate (P.encapsulationKey k) coins = .ok (ct, secret) ∧
      P.decapsulate k ct = .ok secret := h.exchange.encapsulate_ok k coins

end Suite

end Clarity
