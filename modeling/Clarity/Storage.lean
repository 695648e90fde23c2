/-
  Clarity/Storage.lean
  ====================
  **Stored accounts and sessions** (`Account::to_bytes` / `from_bytes`,
  `DoubleRatchet::serialize` / `deserialize`, `Session::serialize` / `deserialize`).

  The stored structs hold what the live ones hold, with the maps written out as
  vectors in key order.  How a single key is written is up to the crate it comes
  from, so the codecs of the key types are a parameter (`KeyCodecs`); in the code
  each of the first three is 32 raw bytes.

    * `collect_toList` — a map written out and collected again is the same map;
    * `Account.fromBytes_toBytes` — a stored account comes back as it was.
-/
import Clarity.Session
import Mathlib.Data.List.Nodup
import Mathlib.Data.List.Perm.Subperm

namespace Clarity

variable {C : Type}

/-- The byte forms of the secret key types. -/
structure KeyCodecs (P : Suite C) where
  -- `[u8; 32]` keys, `StaticSecret::to_bytes` / `from`, `SigningKey::to_bytes` / `from_bytes`
  key : Codec P.Key
  secret : Codec P.Secret
  signingKey : Codec P.SigningKey
  -- `KyberKeyPair::private_bytes` / `from_private_bytes`
  privateBytes : P.DecapKey → Bytes
  fromPrivateBytes : Bytes → Option P.DecapKey

variable {P : Suite C}

/-- The entries of a map in key order, collected into a map again. -/
def collect {κ ν : Type} [Ord κ] [Std.TransOrd κ] (entries : List (κ × ν)) :
    Std.ExtTreeMap κ ν :=
  entries.foldl (fun m e => m.insert e.1 e.2) ∅

/-! ## 1. Accounts -/

/-- `StoredAccount`. -/
structure StoredAccount (P : Suite C) where
  edSigning : P.SigningKey
  dhIdentity : P.Secret
  signedPrekeyId : UInt32
  signedPrekey : P.Secret
  kyberPrekeyId : UInt32
  kyberPrivate : Bytes
  oneTimePrekeys : List (UInt32 × P.Secret)
  nextOpkId : UInt32

def StoredAccount.codec (K : KeyCodecs P) : Codec (StoredAccount P) :=
  (K.signingKey.pair (K.secret.pair (Codec.u32.pair (K.secret.pair (Codec.u32.pair (Codec.vec.pair
    ((Codec.u32.pair K.secret).list.pair Codec.u32))))))).imap
    (fun a => (a.edSigning, a.dhIdentity, a.signedPrekeyId, a.signedPrekey, a.kyberPrekeyId,
      a.kyberPrivate, a.oneTimePrekeys, a.nextOpkId))
    (fun p => some ⟨p.1, p.2.1, p.2.2.1, p.2.2.2.1, p.2.2.2.2.1, p.2.2.2.2.2.1, p.2.2.2.2.2.2.1,
      p.2.2.2.2.2.2.2⟩)
    (fun _ => rfl)
    (by
      intro a h hab
      simp only [Option.some.injEq] at hab
      subst hab
      rfl)

namespace Account

def stored (K : KeyCodecs P) (a : Account P) : StoredAccount P where
  edSigning := a.edSigning
  dhIdentity := a.dhIdentity
  signedPrekeyId := a.signedPrekeyId
  signedPrekey := a.signedPrekey
  kyberPrekeyId := a.kyberPrekeyId
  kyberPrivate := K.privateBytes a.kyber
  oneTimePrekeys := a.oneTimePrekeys.toList
  nextOpkId := a.nextOpkId

def toBytes (K : KeyCodecs P) (a : Account P) : Bytes := (StoredAccount.codec K).enc (a.stored K)

def fromBytes (K : KeyCodecs P) (bytes : Bytes) : Result (Account P) :=
  match (StoredAccount.codec K).dec bytes with
  | none => .error (.wire bincodeError)
  | some (stored, _) =>
    match K.fromPrivateBytes stored.kyberPrivate with
    | none => .error .malformedKey
    | some kyber => .ok
      { edSigning := stored.edSigning
        dhIdentity := stored.dhIdentity
        signedPrekeyId := stored.signedPrekeyId
        signedPrekey := stored.signedPrekey
        kyberPrekeyId := stored.kyberPrekeyId
        kyber := kyber
        oneTimePrekeys := collect stored.oneTimePrekeys
        nextOpkId := stored.nextOpkId }

end Account

/-! ## 2. Ratchets and sessions -/

/-- `StoredRatchet`. -/
structure StoredRatchet (P : Suite C) where
  rootKey : P.Key
  dhSelf : P.Secret
  dhSelfPub : Bytes32
  dhRemote : Option Bytes32
  chainSend : Option P.Key
  chainRecv : Option P.Key
  nSend : UInt32
  nRecv : UInt32
  pn : UInt32
  skipped : List ((Bytes32 × UInt32) × P.Key)

def StoredRatchet.codec (K : KeyCodecs P) : Codec (StoredRatchet P) :=
  (K.key.pair (K.secret.pair (Codec.bytes32.pair (Codec.bytes32.option.pair (K.key.option.pair
    (K.key.option.pair (Codec.u32.pair (Codec.u32.pair (Codec.u32.pair
    ((Codec.bytes32.pair Codec.u32).pair K.key).list))))))))).imap
    (fun r => (r.rootKey, r.dhSelf, r.dhSelfPub, r.dhRemote, r.chainSend, r.chainRecv, r.nSend,
      r.nRecv, r.pn, r.skipped))
    (fun p => some ⟨p.1, p.2.1, p.2.2.1, p.2.2.2.1, p.2.2.2.2.1, p.2.2.2.2.2.1, p.2.2.2.2.2.2.1,
      p.2.2.2.2.2.2.2.1, p.2.2.2.2.2.2.2.2.1, p.2.2.2.2.2.2.2.2.2⟩)
    (fun _ => rfl)
    (by
      intro a h hab
      simp only [Option.some.injEq] at hab
      subst hab
      rfl)

namespace DoubleRatchet

def stored (r : DoubleRatchet P) : StoredRatchet P where
  rootKey := r.rootKey
  dhSelf := r.dhSelf
  dhSelfPub := r.dhSelfPub
  dhRemote := r.dhRemote
  chainSend := r.chainSend
  chainRecv := r.chainRecv
  nSend := r.nSend
  nRecv := r.nRecv
  pn := r.pn
  skipped := r.skipped.toList

def serialize (K : KeyCodecs P) (r : DoubleRatchet P) : Bytes :=
  (StoredRatchet.codec K).enc r.stored

def deserialize (K : KeyCodecs P) (bytes : Bytes) : Result (DoubleRatchet P) :=
  match (StoredRatchet.codec K).dec bytes with
  | none => .error (.wire bincodeError)
  | some (s, _) => .ok
    { rootKey := s.rootKey
      dhSelf := s.dhSelf
      dhSelfPub := s.dhSelfPub
      dhRemote := s.dhRemote
      chainSend := s.chainSend
      chainRecv := s.chainRecv
      nSend := s.nSend
      nRecv := s.nRecv
      pn := s.pn
      skipped := collect s.skipped }

end DoubleRatchet

/-- `StoredSession`. -/
structure StoredSession where
  ratchet : Bytes
  adPrefix : Bytes
  pendingHandshake : Option HandshakeHeader

def StoredSession.codec : Codec StoredSession :=
  (Codec.vec.pair (Codec.vec.pair HandshakeHeader.codec.option)).imap
    (fun s => (s.ratchet, s.adPrefix, s.pendingHandshake))
    (fun p => some ⟨p.1, p.2.1, p.2.2⟩)
    (fun _ => rfl)
    (by
      intro a h hab
      simp only [Option.some.injEq] at hab
      subst hab
      rfl)

namespace Session

def serialize (K : KeyCodecs P) (s : Session P) : Bytes :=
  StoredSession.codec.enc
    { ratchet := s.ratchet.serialize K
      adPrefix := s.adPrefix
      pendingHandshake := s.pendingHandshake }

def deserialize (K : KeyCodecs P) (bytes : Bytes) : Result (Session P) :=
  match StoredSession.codec.dec bytes with
  | none => .error (.wire bincodeError)
  | some (s, _) =>
    match DoubleRatchet.deserialize K s.ratchet with
    | .error e => .error e
    | .ok ratchet => .ok
      { ratchet := ratchet
        adPrefix := s.adPrefix
        pendingHandshake := s.pendingHandshake }

end Session

/-! ## 3. What was stored comes back -/

section Collect

variable {κ ν : Type} [Ord κ] [Std.TransOrd κ] [Std.LawfulEqOrd κ]

/-- Entries with distinct keys: inserting them one after another finds each of them,
    and leaves the other keys as they were. -/
theorem getElem?_foldl_insert {entries : List (κ × ν)}
    (hdistinct : (entries.map Prod.fst).Nodup) (m : Std.ExtTreeMap κ ν) (k : κ) :
    (∀ v, (k, v) ∈ entries → (entries.foldl (fun m e => m.insert e.1 e.2) m)[k]? = some v) ∧
      (k ∉ entries.map Prod.fst →
        (entries.foldl (fun m e => m.insert e.1 e.2) m)[k]? = m[k]?) := by
  induction entries generalizing m with
  | nil => exact ⟨fun v h => absurd h List.not_mem_nil, fun _ => rfl⟩
  | cons e rest ih =>
    obtain ⟨hnot, hrest⟩ := List.nodup_cons.mp hdistinct
    obtain ⟨hmem, hother⟩ := ih hrest (m.insert e.1 e.2)
    rw [List.foldl_cons]
    constructor
    · intro v hv
      rcases List.mem_cons.mp hv with rfl | hv
      · rw [hother hnot, Std.ExtTreeMap.getElem?_insert_self]
      · exact hmem v hv
    · intro hk
      rw [List.map_cons, List.mem_cons, not_or] at hk
      have hne : ¬ compare e.1 k = .eq := fun heq => hk.1 (Std.LawfulEqOrd.eq_of_compare heq).symm
      rw [hother hk.2, Std.ExtTreeMap.getElem?_insert, if_neg hne]

theorem nodup_keys_toList (m : Std.ExtTreeMap κ ν) : (m.toList.map Prod.fst).Nodup := by
  apply List.pairwise_map.mpr
  apply m.distinct_keys_toList.imp
  intro a b hne heq
  rw [heq] at hne
  exact hne Std.ReflCmp.compare_self

theorem collect_toList (m : Std.ExtTreeMap κ ν) : collect m.toList = m := by
  ext k v
  obtain ⟨hmem, hother⟩ := getElem?_foldl_insert (nodup_keys_toList m) ∅ k
  unfold collect
  cases hk : m[k]? with
  | some w => rw [hmem w (Std.ExtTreeMap.mem_toList_iff_getElem?_eq_some.mpr hk)]
  | none =>
    have hnot : k ∉ m.toList.map Prod.fst := by
      intro h
      obtain ⟨⟨_, w⟩, hw, rfl⟩ := List.mem_map.mp h
      rw [Std.ExtTreeMap.mem_toList_iff_getElem?_eq_some.mp hw] at hk
      cases hk
    rw [hother hnot, Std.ExtTreeMap.getElem?_empty]

end Collect

/-- A map keyed by `u32` fits a length field. -/
theorem length_toList_u32 {ν : Type} (m : Std.ExtTreeMap UInt32 ν) :
    m.toList.length < 256 ^ 8 := by
  have hnodup : ((m.toList.map Prod.fst).map UInt32.toNat).Nodup :=
    (nodup_keys_toList m).map fun a b h => UInt32.toNat_inj.mp h
  have hsub : (m.toList.map Prod.fst).map UInt32.toNat ⊆ List.range (2 ^ 32) := by
    intro n hn
    obtain ⟨id, _, rfl⟩ := List.mem_map.mp hn
    exact List.mem_range.mpr id.toNat_lt
  have hle := (hnodup.subperm hsub).length_le
  rw [List.length_map, List.length_map, List.length_range] at hle
  exact Nat.lt_of_le_of_lt hle (by decide)

/-- The keys of an account can be written and read back. -/
structure KeyCodecs.Restores (K : KeyCodecs P) : Prop where
  secret : ∀ s, K.secret.Valid s
  signingKey : ∀ k, K.signingKey.Valid k
  fromPrivateBytes : ∀ k, K.fromPrivateBytes (K.privateBytes k) = some k
  length_privateBytes : ∀ k, (K.privateBytes k).length < 256 ^ 8

/-- **A stored account comes back as it was.** -/
theorem Account.fromBytes_toBytes {K : KeyCodecs P} (hK : K.Restores) (a : Account P) :
    fromBytes K (a.toBytes K) = .ok a := by
  have hpool : ((Codec.u32.pair K.secret).list).Valid a.oneTimePrekeys.toList :=
    ⟨length_toList_u32 _, fun e _ => ⟨Codec.u32_valid _, hK.secret _⟩⟩
  have hvalid : (StoredAccount.codec K).Valid (a.stored K) :=
    ⟨hK.signingKey _, hK.secret _, Codec.u32_valid _, hK.secret _, Codec.u32_valid _,
      hK.length_privateBytes _, hpool, Codec.u32_valid _⟩
  unfold fromBytes toBytes
  rw [Codec.dec_enc_nil _ hvalid]
  simp only [stored, hK.fromPrivateBytes, collect_toList]

end Clarity
