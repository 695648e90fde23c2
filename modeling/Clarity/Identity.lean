/-
  Clarity/Identity.lean
  =====================
  **Accounts and prekeys** (`core/src/identity.rs`): the secret key material of
  a user, the signed bundle published from it, the one-time prekey pool, and
  the verification of a fetched bundle.

  Random values are arguments: where the code draws a `StaticSecret` from the
  operating system, the model takes the secret that was drawn.
-/
import Clarity.Suite
import Clarity.Wire

namespace Clarity

/-- Number of one-time prekeys minted for a fresh account. -/
def DEFAULT_ONE_TIME_PREKEYS : UInt32 := 100

def SIG_CTX_IDENTITY_DH : Bytes := ascii "Clarity-sig-identity-dh-v1"
def SIG_CTX_SIGNED_PREKEY : Bytes := ascii "Clarity-sig-signed-prekey-v1"
def SIG_CTX_KYBER_PREKEY : Bytes := ascii "Clarity-sig-kyber-prekey-v1"

variable {C : Type}

/-- A user's secret key material. -/
structure Account (P : Suite C) where
  edSigning : P.SigningKey
  dhIdentity : P.Secret
  signedPrekeyId : UInt32
  signedPrekey : P.Secret
  kyberPrekeyId : UInt32
  kyber : P.DecapKey
  oneTimePrekeys : Std.ExtTreeMap UInt32 P.Secret
  nextOpkId : UInt32

namespace Account

variable {P : Suite C}

/-- Mint one-time prekeys from the drawn secrets, at consecutive ids. -/
def mint (ids : UInt32) : List P.Secret → Std.ExtTreeMap UInt32 P.Secret →
    Std.ExtTreeMap UInt32 P.Secret
  | [], pool => pool
  | sk :: rest, pool => mint (ids + 1) rest (pool.insert ids sk)

/-- `Account::generate_with_prekeys`, one drawn secret for each one-time prekey. -/
def generateWithPrekeys (edSigning : P.SigningKey) (dhIdentity signedPrekey : P.Secret)
    (kyber : P.DecapKey) (secrets : List P.Secret) : Account P where
  edSigning := edSigning
  dhIdentity := dhIdentity
  signedPrekeyId := 0
  signedPrekey := signedPrekey
  kyberPrekeyId := 0
  kyber := kyber
  oneTimePrekeys := mint 0 secrets ∅
  nextOpkId := UInt32.ofNat secrets.length

/-- The random values `Account::generate` draws. -/
structure GenerateRandom (P : Suite C) where
  edSigning : P.SigningKey
  dhIdentity : P.Secret
  signedPrekey : P.Secret
  kyber : P.DecapKey
  oneTimePrekeys : List P.Secret
  length_oneTimePrekeys : oneTimePrekeys.length = DEFAULT_ONE_TIME_PREKEYS.toNat

def generate (rnd : GenerateRandom P) : Account P :=
  generateWithPrekeys rnd.edSigning rnd.dhIdentity rnd.signedPrekey rnd.kyber rnd.oneTimePrekeys

/-- The stable public identity: the Ed25519 verifying key. -/
def identityPublic (a : Account P) : Bytes32 := P.verifyingKey a.edSigning

/-- The X25519 identity DH public key. -/
def identityDhPublic (a : Account P) : Bytes32 := P.publicKey a.dhIdentity

def sign (a : Account P) (context message : Bytes) : Bytes :=
  P.sign a.edSigning (context ++ message)

/-- The signed bundle, with the lowest-id one-time prekey still available. -/
def bundle (a : Account P) : PreKeyBundle :=
  let identityDhPub := P.publicKey a.dhIdentity
  let signedPrekeyPub := P.publicKey a.signedPrekey
  let kyberPub := P.encapsulationKey a.kyber
  let first := a.oneTimePrekeys.toList.head?
  { identityEd := a.identityPublic
    identityDh := identityDhPub
    identityDhSig := a.sign SIG_CTX_IDENTITY_DH identityDhPub.bytes
    signedPrekey := signedPrekeyPub
    signedPrekeyId := a.signedPrekeyId
    signedPrekeySig := a.sign SIG_CTX_SIGNED_PREKEY signedPrekeyPub.bytes
    kyberPrekey := kyberPub
    kyberPrekeyId := a.kyberPrekeyId
    kyberPrekeySig := a.sign SIG_CTX_KYBER_PREKEY kyberPub
    oneTimePrekey := first.map fun e => P.publicKey e.2
    oneTimePrekeyId := first.map fun e => e.1 }

/-- The bundle with the one-time prekey taken out (`split_bundle`,
    `clarity_account_bundle_base`). -/
def bundleBase (a : Account P) : PreKeyBundle :=
  { a.bundle with oneTimePrekey := none, oneTimePrekeyId := none }

/-- Look up a signed-prekey private key by id. -/
def signedPrekeyById (a : Account P) (id : UInt32) : Result P.Secret :=
  if id = a.signedPrekeyId then .ok a.signedPrekey else .error .unknownPrekey

/-- Consume a one-time prekey by id, removing it from the pool. -/
def takeOneTimePrekey (a : Account P) (id : UInt32) : Outcome (Account P) P.Secret :=
  match a.oneTimePrekeys[id]? with
  | some sk => (.ok sk, { a with oneTimePrekeys := a.oneTimePrekeys.erase id })
  | none => (.error .unknownPrekey, a)

/-- Number of one-time prekeys still available. -/
def oneTimePrekeysRemaining (a : Account P) : Nat := a.oneTimePrekeys.size

/-- Public halves of all one-time prekeys, in id order. -/
def oneTimePrekeyPublics (a : Account P) : List (UInt32 × Bytes32) :=
  a.oneTimePrekeys.toList.map fun e => (e.1, P.publicKey e.2)

/-- `replenish_one_time_prekeys`, one drawn secret for each new prekey. -/
def replenishOneTimePrekeys (a : Account P) (secrets : List P.Secret) : Account P :=
  { a with
    oneTimePrekeys := mint a.nextOpkId secrets a.oneTimePrekeys
    nextOpkId := a.nextOpkId + UInt32.ofNat secrets.length }

end Account

/-! ## Verifying a fetched bundle -/

section Verify

variable (P : Suite C)

def verifySig (vk : Bytes32) (context message sigBytes : Bytes) : Result Unit :=
  if sigBytes.length ≠ Suite.SIGNATURE_LEN then .error .badSignature
  else if P.verify vk (context ++ message) sigBytes then .ok () else .error .badSignature

/-- Verify every signature in a fetched bundle. -/
def verifyBundle (bundle : PreKeyBundle) : Result Unit := do
  if !P.isVerifyingKey bundle.identityEd then throw .malformedKey
  verifySig P bundle.identityEd SIG_CTX_IDENTITY_DH bundle.identityDh.bytes bundle.identityDhSig
  verifySig P bundle.identityEd SIG_CTX_SIGNED_PREKEY bundle.signedPrekey.bytes
    bundle.signedPrekeySig
  verifySig P bundle.identityEd SIG_CTX_KYBER_PREKEY bundle.kyberPrekey bundle.kyberPrekeySig

variable {P}

/-- An account's own signatures verify under its identity. -/
theorem verifySig_sign (h : P.Lawful) (a : Account P) (context message : Bytes) :
    verifySig P a.identityPublic context message (a.sign context message) = .ok () := by
  unfold verifySig Account.sign Account.identityPublic
  rw [if_neg (not_not_intro (h.length_sign _ _)), if_pos (h.verify_sign _ _)]

/-- The signed part of an account's bundle verifies, whatever one-time prekey a
    directory attaches to it. -/
theorem verifyBundle_attach (h : P.Lawful) (a : Account P) (opk : Option Bytes32)
    (id : Option UInt32) :
    verifyBundle P { a.bundle with oneTimePrekey := opk, oneTimePrekeyId := id } = .ok () := by
  have hvk : P.isVerifyingKey a.identityPublic = true := h.isVerifyingKey_verifyingKey _
  simp only [verifyBundle, Account.bundle, verifySig_sign h, hvk]
  rfl

end Verify

end Clarity
