/-
  Clarity/Symbolic.lean
  =====================
  **The free key schedule.**  Results about secrecy and key reuse read the
  outputs of HKDF and HMAC as free terms over whatever Diffie-Hellman produces,
  and the AEAD as ideal: a ciphertext is the term that records under which key,
  over which plaintext and with which associated data it was sealed.

  `Suite.free` replaces exactly these two parts of a suite.  The curve, the KEM
  and the signatures stay those of the suite it is built from, so nothing is
  assumed about Diffie-Hellman outputs.

  Keys of one session are told apart by their *position* (`KeyTerm.msgPos`): how
  many root-key steps lie below the chain, and how far along the chain the key
  sits.  `KeyTerm.Descends` follows a key back to the root it was derived from,
  and `Derivable` / `Crafted` say what an adversary can compute from the keys it
  knows and the ciphertexts it has seen.
-/
import Clarity.Suite

namespace Clarity

/-- A symmetric key as a term over the shared values `S`. -/
inductive KeyTerm (S : Type) where
  | atom (n : Nat)
  | hkdf32 (salt : Bytes) (ikm : List S) (info : Bytes)
  | hkdf64Fst (salt : KeyTerm S) (ikm : S) (info : Bytes)
  | hkdf64Snd (salt : KeyTerm S) (ikm : S) (info : Bytes)
  | hmac (key : KeyTerm S) (data : Bytes)
deriving DecidableEq

/-- A ciphertext as a term: sealed under some AEAD material, or bytes that were
    never the output of a seal. -/
inductive CipherTerm (S : Type) where
  | sealed (key : KeyTerm S) (info : Bytes) (msg aad : Bytes)
  | raw (bytes : Bytes)
deriving DecidableEq

/-- The key a ciphertext was sealed under. -/
def CipherTerm.key? {S : Type} : CipherTerm S → Option (KeyTerm S)
  | sealed key _ _ _ => some key
  | raw _ => none

namespace Suite

variable {C : Type}

/-- The suite with the free key schedule and the ideal AEAD. -/
def free (P : Suite C) [DecidableEq P.Shared] : Suite (CipherTerm P.Shared) where
  Secret := P.Secret
  Shared := P.Shared
  Key := KeyTerm P.Shared
  Material := KeyTerm P.Shared × Bytes
  SigningKey := P.SigningKey
  DecapKey := P.DecapKey
  publicKey := P.publicKey
  diffieHellman := P.diffieHellman
  hmac := .hmac
  hkdf32 := .hkdf32
  hkdf64 salt ikm info := (.hkdf64Fst salt ikm info, .hkdf64Snd salt ikm info)
  hkdf56 ikm info := (ikm, info)
  xchachaEncrypt m msg aad := .sealed m.1 m.2 msg aad
  xchachaDecrypt m c aad :=
    match c with
    | .sealed key info msg aad' => if (key, info) = m ∧ aad' = aad then some msg else none
    | .raw _ => none
  verifyingKey := P.verifyingKey
  isVerifyingKey := P.isVerifyingKey
  sign := P.sign
  verify := P.verify
  encapsulationKey := P.encapsulationKey
  kemEncapsulate := P.kemEncapsulate
  kemDecapsulate := P.kemDecapsulate

variable {P : Suite C} [DecidableEq P.Shared]

instance : DecidableEq P.free.Key := inferInstanceAs (DecidableEq (KeyTerm P.Shared))

/-- The free key schedule is as correct as the suite it is built from. -/
theorem Lawful.free (h : P.Lawful) : P.free.Lawful where
  dh_comm := h.dh_comm
  decrypt_encrypt := by
    intro m p ad
    obtain ⟨k, info⟩ := m
    simp [Suite.free]
  isVerifyingKey_verifyingKey := h.isVerifyingKey_verifyingKey
  length_sign := h.length_sign
  verify_sign := h.verify_sign
  length_encapsulationKey := h.length_encapsulationKey
  decapsulate_encapsulate := h.decapsulate_encapsulate

/-- **The AEAD is ideal.**  What opens is exactly what was sealed under the same
    key and with the same associated data. -/
theorem free_aeadOpen_eq_ok {k : P.free.Key} {c : CipherTerm P.Shared} {p ad : Bytes}
    (h : P.free.aeadOpen k c ad = .ok p) : c = P.free.aeadSeal k p ad := by
  unfold aeadOpen at h
  split at h
  · rename_i p' hdec
    simp only [Except.ok.injEq] at h
    subst h
    cases c with
    | raw b => simp [free] at hdec
    | sealed key info msg aad =>
      simp only [free, Option.ite_none_right_eq_some, Option.some.injEq] at hdec
      obtain ⟨⟨hm, rfl⟩, rfl⟩ := hdec
      have hm' : (key, info) = (k, ascii "ClarityMsgKey-v1") := hm
      obtain ⟨rfl, rfl⟩ := Prod.mk.inj hm'
      rfl
  · cases h

theorem free_aeadSeal_key? (k : P.free.Key) (p ad : Bytes) :
    (P.free.aeadSeal k p ad).key? = some k := rfl

/-- What opens under a key was sealed under it. -/
theorem free_key?_of_open {k : P.free.Key} {c : CipherTerm P.Shared} {p ad : Bytes}
    (h : P.free.aeadOpen k c ad = .ok p) : c.key? = some k := by
  rw [free_aeadOpen_eq_ok h]
  rfl

/-- One ciphertext has one key, one plaintext and one associated data. -/
theorem free_aeadSeal_inj {k k' : P.free.Key} {p p' ad ad' : Bytes}
    (h : P.free.aeadSeal k p ad = P.free.aeadSeal k' p' ad') : k = k' ∧ p = p' ∧ ad = ad' := by
  have h' : CipherTerm.sealed k (ascii "ClarityMsgKey-v1") p ad =
      CipherTerm.sealed k' (ascii "ClarityMsgKey-v1") p' ad' := h
  obtain ⟨hk, _, hp, had⟩ := CipherTerm.sealed.inj h'
  exact ⟨hk, hp, had⟩

end Suite

/-! ## Diffie-Hellman

What the results about recovery need in addition: a shared value tells the two
keys it was made from, up to their order. -/

namespace Suite

variable {C : Type}

/-- No two pairs of keys have the same shared value. -/
def SymbolicDh (P : Suite C) : Prop :=
  ∀ a p b q, P.diffieHellman a p = P.diffieHellman b q →
    (P.publicKey a = P.publicKey b ∧ p = q) ∨ (P.publicKey a = q ∧ p = P.publicKey b)

theorem Exchange.free {P : Suite C} [DecidableEq P.Shared] (h : P.Exchange) : P.free.Exchange where
  dh_comm := h.dh_comm
  decrypt_encrypt := by
    intro m p ad
    obtain ⟨k, info⟩ := m
    simp [Suite.free]
  length_encapsulationKey := h.length_encapsulationKey
  decapsulate_encapsulate := h.decapsulate_encapsulate

end Suite

/-! ## Positions

`rootDepth` counts the root-key steps below a root key, `chainPos` places a chain
key (the turn it belongs to and its index in that turn), and `msgPos` gives a
message key the place of the chain key it came from. -/

namespace KeyTerm

variable {S : Type}

def rootDepth : KeyTerm S → Nat
  | hkdf64Fst k _ _ => k.rootDepth + 1
  | _ => 0

def chainPos : KeyTerm S → Nat × Nat
  | hkdf64Snd k _ _ => (k.rootDepth + 1, 0)
  | hmac k _ => (k.chainPos.1, k.chainPos.2 + 1)
  | _ => (0, 0)

def msgPos : KeyTerm S → Nat × Nat
  | hmac k _ => k.chainPos
  | _ => (0, 0)

/-- `Descends root k`: `k` was derived from `root` by root-key and chain steps. -/
inductive Descends (root : KeyTerm S) : KeyTerm S → Prop where
  | refl : Descends root root
  | hkdf64Fst {k} (s : S) (info : Bytes) : Descends root k → Descends root (.hkdf64Fst k s info)
  | hkdf64Snd {k} (s : S) (info : Bytes) : Descends root k → Descends root (.hkdf64Snd k s info)
  | hmac {k} (data : Bytes) : Descends root k → Descends root (.hmac k data)

/-- What can be computed from the keys in `K`: the KDFs are public functions,
    and every shared value is conceded. -/
inductive Derivable (K : Set (KeyTerm S)) : KeyTerm S → Prop where
  | known {k} : k ∈ K → Derivable K k
  | hkdf64Fst {k} (s : S) (info : Bytes) : Derivable K k → Derivable K (.hkdf64Fst k s info)
  | hkdf64Snd {k} (s : S) (info : Bytes) : Derivable K k → Derivable K (.hkdf64Snd k s info)
  | hmac {k} (data : Bytes) : Derivable K k → Derivable K (.hmac k data)

/-- **An unknown root protects everything derived from it.**  If the known keys
    were not derived from a handshake root, nothing computed from them was. -/
theorem not_descends_of_derivable {K : Set (KeyTerm S)} {salt info : Bytes} {ikm : List S}
    (hK : ∀ k ∈ K, ¬ Descends (.hkdf32 salt ikm info) k) {k : KeyTerm S} (h : Derivable K k) :
    ¬ Descends (.hkdf32 salt ikm info) k := by
  induction h with
  | known hk => exact hK _ hk
  | hkdf64Fst s info _ ih =>
    intro hd
    cases hd with
    | hkdf64Fst _ _ hd => exact ih hd
  | hkdf64Snd s info _ ih =>
    intro hd
    cases hd with
    | hkdf64Snd _ _ hd => exact ih hd
  | hmac data _ ih =>
    intro hd
    cases hd with
    | hmac _ hd => exact ih hd

end KeyTerm

/-- What an adversary that knows `K` and has seen `seen` can put on the wire as a
    ciphertext: a replay, something it sealed itself, or noise. -/
inductive Crafted {S : Type} (K : Set (KeyTerm S)) (seen : List (CipherTerm S)) :
    CipherTerm S → Prop where
  | replay {c} : c ∈ seen → Crafted K seen c
  | forge {k} (info msg aad : Bytes) : k.Derivable K → Crafted K seen (.sealed k info msg aad)
  | noise (bytes : Bytes) : Crafted K seen (.raw bytes)

/-! ## The key schedule, in positions -/

section Positions

variable {C : Type} {P : Suite C} [DecidableEq P.Shared]

@[simp] theorem rootDepth_kdfRk (k : P.free.Key) (s : P.free.Shared) :
    KeyTerm.rootDepth (P.free.kdfRk k s).1 = KeyTerm.rootDepth k + 1 := rfl

@[simp] theorem chainPos_kdfRk (k : P.free.Key) (s : P.free.Shared) :
    KeyTerm.chainPos (P.free.kdfRk k s).2 = (KeyTerm.rootDepth k + 1, 0) := rfl

@[simp] theorem chainPos_kdfCk (k : P.free.Key) :
    KeyTerm.chainPos (P.free.kdfCk k).1 =
      ((KeyTerm.chainPos k).1, (KeyTerm.chainPos k).2 + 1) := rfl

@[simp] theorem msgPos_kdfCk (k : P.free.Key) :
    KeyTerm.msgPos (P.free.kdfCk k).2 = KeyTerm.chainPos k := rfl

theorem descends_kdfRk {root k : P.free.Key} (s : P.free.Shared) (h : KeyTerm.Descends root k) :
    KeyTerm.Descends root (P.free.kdfRk k s).1 ∧ KeyTerm.Descends root (P.free.kdfRk k s).2 :=
  ⟨.hkdf64Fst _ _ h, .hkdf64Snd _ _ h⟩

theorem descends_kdfCk {root k : P.free.Key} (h : KeyTerm.Descends root k) :
    KeyTerm.Descends root (P.free.kdfCk k).1 ∧ KeyTerm.Descends root (P.free.kdfCk k).2 :=
  ⟨.hmac _ h, .hmac _ h⟩

end Positions

end Clarity
