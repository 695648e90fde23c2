/-
  Clarity/KeyUse.lean
  ===================
  **Which keys a ratchet ever holds.**

  In the free key schedule every key of a session has a position: the number of
  root-key steps below it (its turn) and its index along the chain of that turn.
  `KeysFrom` states where the keys of one end can sit.  Its sending chains live
  at turns of one parity and its receiving chains at turns of the other, no
  matter what `decrypt` was called with; this survives forged ratchet keys,
  failed calls and the early return of the skip loop.

    * `KeysFrom.encrypt`, `KeysFrom.decrypt` — the invariant is kept by every call;
    * `sealed_keys_distinct` — over every run of the two ends of a session, no
      message key is used to seal twice.
-/
import Clarity.RatchetSpec
import Clarity.Session
import Clarity.Symbolic

namespace Clarity

variable {C : Type} {P : Suite C} [DecidableEq P.Shared]

/-! ## 1. Positions along a chain -/

theorem chainPos_chainKeyAt (ck : P.free.Key) (n : Nat) :
    KeyTerm.chainPos (chainKeyAt P.free ck n) =
      ((KeyTerm.chainPos ck).1, (KeyTerm.chainPos ck).2 + n) := by
  induction n with
  | zero => rfl
  | succ n ih => rw [← kdfCk_chainKeyAt, chainPos_kdfCk, ih, Nat.add_assoc]

theorem msgPos_messageKeyAt (ck : P.free.Key) (n : Nat) :
    KeyTerm.msgPos (messageKeyAt P.free ck n) =
      ((KeyTerm.chainPos ck).1, (KeyTerm.chainPos ck).2 + n) := by
  rw [messageKeyAt, msgPos_kdfCk, chainPos_chainKeyAt]

theorem descends_chainKeyAt {root ck : P.free.Key} (h : KeyTerm.Descends root ck) (n : Nat) :
    KeyTerm.Descends root (chainKeyAt P.free ck n) := by
  induction n with
  | zero => exact h
  | succ n ih =>
    rw [← kdfCk_chainKeyAt]
    exact (descends_kdfCk ih).1

theorem descends_messageKeyAt {root ck : P.free.Key} (h : KeyTerm.Descends root ck) (n : Nat) :
    KeyTerm.Descends root (messageKeyAt P.free ck n) :=
  (descends_kdfCk (descends_chainKeyAt h n)).2

/-! ## 2. Where the keys of one end sit -/

namespace DoubleRatchet

/-- The keys of an end whose sending turns have the given parity. -/
structure KeysFrom (root : P.free.Key) (parity : Nat) (r : DoubleRatchet P.free) : Prop where
  root_descends : KeyTerm.Descends root r.rootKey
  root_parity : KeyTerm.rootDepth r.rootKey % 2 = parity
  send : ∀ ck, r.chainSend = some ck →
    KeyTerm.Descends root ck ∧ (KeyTerm.chainPos ck).1 = KeyTerm.rootDepth r.rootKey
  recv : ∀ ck, r.chainRecv = some ck →
    KeyTerm.Descends root ck ∧ (KeyTerm.chainPos ck).1 + 1 = KeyTerm.rootDepth r.rootKey
  cached : ∀ (slot : Bytes32 × UInt32) (k : P.free.Key), r.skipped[slot]? = some k →
    KeyTerm.Descends root k ∧ (KeyTerm.msgPos k).1 % 2 ≠ parity

variable {root : P.free.Key} {parity : Nat} {r : DoubleRatchet P.free}

theorem keysFrom_initInitiator (root : P.free.Key) (dhSelf : P.free.Secret) (remote : Bytes32) :
    KeysFrom root ((KeyTerm.rootDepth root + 1) % 2) (initInitiator dhSelf root remote) where
  root_descends := (descends_kdfRk _ .refl).1
  root_parity := rfl
  send := by
    intro ck hck
    cases hck
    exact ⟨(descends_kdfRk _ .refl).2, rfl⟩
  recv := by
    intro ck hck
    cases hck
  cached := by
    intro slot k hk
    simp [initInitiator] at hk

theorem keysFrom_initResponder (root : P.free.Key) (spk : P.free.Secret) :
    KeysFrom root (KeyTerm.rootDepth root % 2) (initResponder root spk) where
  root_descends := .refl
  root_parity := rfl
  send := by
    intro ck hck
    cases hck
  recv := by
    intro ck hck
    cases hck
  cached := by
    intro slot k hk
    simp [initResponder] at hk

namespace KeysFrom

theorem drop (h : KeysFrom root parity r) (slot : Bytes32 × UInt32) :
    KeysFrom root parity { r with skipped := r.skipped.erase slot } where
  root_descends := h.root_descends
  root_parity := h.root_parity
  send := h.send
  recv := h.recv
  cached := by
    intro slot' k hk
    simp only [Std.ExtTreeMap.getElem?_erase] at hk
    split at hk
    · cases hk
    · exact h.cached slot' k hk

/-- The keys cached by a skip come from the receiving chain, however far it got. -/
theorem withCached (h : KeysFrom root parity r) {remote : Bytes32} {ck : P.free.Key}
    (hck : r.chainRecv = some ck) {k : Nat} (hk : k ≤ 2 ^ 32) :
    KeysFrom root parity (r.withCached remote ck k) where
  root_descends := h.root_descends
  root_parity := h.root_parity
  send := h.send
  recv := h.recv
  cached := by
    rintro ⟨pub, i⟩ key hkey
    simp only [DoubleRatchet.withCached, getElem?_cacheKeys P.free remote k ck _ _ hk] at hkey
    split at hkey
    · cases hkey
      obtain ⟨hdesc, hturn⟩ := h.recv ck hck
      refine ⟨descends_messageKeyAt hdesc _, ?_⟩
      have hpar := h.root_parity
      rw [msgPos_messageKeyAt]
      dsimp only
      omega
    · exact h.cached _ _ hkey

theorem advanced (h : KeysFrom root parity r) {remote : Bytes32} {ck : P.free.Key}
    (hck : r.chainRecv = some ck) {k : Nat} (hk : k ≤ 2 ^ 32) :
    KeysFrom root parity (r.advanced remote ck k) where
  root_descends := h.root_descends
  root_parity := h.root_parity
  send := h.send
  recv := by
    intro ck' hck'
    cases hck'
    obtain ⟨hdesc, hturn⟩ := h.recv ck hck
    refine ⟨descends_chainKeyAt hdesc k, ?_⟩
    rw [chainPos_chainKeyAt]
    exact hturn
  cached := (h.withCached hck hk).cached

theorem skipMessageKeys (h : KeysFrom root parity r) (upTo : UInt32) :
    KeysFrom root parity (r.skipMessageKeys upTo).2 := by
  rcases skipMessageKeys_cases r upTo with ⟨_, hs⟩ | ⟨_, hs⟩ |
      ⟨ck, remote, hck, _, _, _, hs | ⟨k, _, hk, _, hs⟩⟩
  · rw [hs]; exact h
  · rw [hs]; exact h
  · rw [hs]
    exact h.advanced hck (Nat.le_of_lt (UInt32.toNat_lt _))
  · rw [hs]
    exact h.withCached hck (Nat.le_of_lt (Nat.lt_trans hk (UInt32.toNat_lt _)))

/-- A ratchet step adds two root-key steps: the first for the receiving chain,
    the second for the sending chain. -/
theorem dhRatchet (h : KeysFrom root parity r) (fresh : P.free.Secret) (pub : Bytes32) :
    KeysFrom root parity (r.dhRatchet fresh pub) where
  root_descends := (descends_kdfRk _ (descends_kdfRk _ h.root_descends).1).1
  root_parity := by
    have hpar := h.root_parity
    show (KeyTerm.rootDepth r.rootKey + 1 + 1) % 2 = parity
    omega
  send := by
    intro ck hck
    cases hck
    exact ⟨(descends_kdfRk _ (descends_kdfRk _ h.root_descends).1).2, rfl⟩
  recv := by
    intro ck hck
    cases hck
    exact ⟨(descends_kdfRk _ h.root_descends).2, rfl⟩
  cached := h.cached

theorem openNext (h : KeysFrom root parity r) (ciphertext : CipherTerm P.Shared) (ad : Bytes) :
    KeysFrom root parity (r.openNext ciphertext ad).2 := by
  unfold DoubleRatchet.openNext
  cases hck : r.chainRecv with
  | none => exact h
  | some ck =>
    obtain ⟨hdesc, hturn⟩ := h.recv ck hck
    refine ⟨h.root_descends, h.root_parity, h.send, ?_, h.cached⟩
    intro ck' hck'
    cases hck'
    exact ⟨(descends_kdfCk hdesc).1, hturn⟩

theorem followRemote (h : KeysFrom root parity r) (fresh : P.free.Secret)
    (header : RatchetHeader) : KeysFrom root parity (r.followRemote fresh header).2 :=
  followRemote_preserves (KeysFrom root parity) (fun _ _ => True)
    (fun _ upTo _ h => h.skipMessageKeys upTo) (fun _ fresh pub h => h.dhRatchet fresh pub)
    h fresh (fun _ => trivial)

theorem decrypt (h : KeysFrom root parity r) (fresh : P.free.Secret) (header : RatchetHeader)
    (ciphertext : CipherTerm P.Shared) (adPrefix : Bytes) :
    KeysFrom root parity (r.decrypt fresh header ciphertext adPrefix).2 :=
  decrypt_preserves (KeysFrom root parity) (fun _ slot h => h.drop slot)
    (fun _ upTo h => h.skipMessageKeys upTo) (fun _ fresh pub h => h.dhRatchet fresh pub)
    (fun _ c ad h => h.openNext c ad) h fresh header ciphertext adPrefix

theorem encrypt (h : KeysFrom root parity r) (plaintext adPrefix : Bytes) :
    KeysFrom root parity (r.encrypt plaintext adPrefix).2 := by
  unfold DoubleRatchet.encrypt
  cases hck : r.chainSend with
  | none => exact h
  | some ck =>
    obtain ⟨hdesc, hturn⟩ := h.send ck hck
    refine ⟨h.root_descends, h.root_parity, ?_, h.recv, h.cached⟩
    intro ck' hck'
    cases hck'
    exact ⟨(descends_kdfCk hdesc).1, hturn⟩

end KeysFrom

end DoubleRatchet

/-! ## 3. The two ends of a session -/

/-- The ratchets of the two ends. -/
abbrev Ends (P : Suite C) := Side → DoubleRatchet P

namespace Ends

section Runs

variable {P : Suite C}

/-- `init_initiator` on one side, `init_responder` on the other. -/
def init (root : P.Key) (dhSelf : P.Secret) (remoteDhPub : Bytes32) (spk : P.Secret) : Ends P
  | .initiator => DoubleRatchet.initInitiator dhSelf root remoteDhPub
  | .responder => DoubleRatchet.initResponder root spk

inductive Op (P : Suite C) where
  | encrypt (side : Side) (plaintext adPrefix : Bytes)
  | decrypt (side : Side) (fresh : P.Secret) (header : RatchetHeader) (ciphertext : C)
      (adPrefix : Bytes)

def apply (e : Ends P) : Op P → Ends P
  | .encrypt side plaintext adPrefix =>
    Function.update e side ((e side).encrypt plaintext adPrefix).2
  | .decrypt side fresh header ciphertext adPrefix =>
    Function.update e side ((e side).decrypt fresh header ciphertext adPrefix).2

/-- The ciphertext the call sealed, if it sealed one. -/
def sealed (e : Ends P) : Op P → Option C
  | .encrypt side plaintext adPrefix =>
    match ((e side).encrypt plaintext adPrefix).1 with
    | .ok (_, ciphertext) => some ciphertext
    | .error _ => none
  | .decrypt _ _ _ _ _ => none

/-- All ciphertexts sealed over a run, in order. -/
def sealedRun (e : Ends P) : List (Op P) → List C
  | [] => []
  | op :: ops => (e.sealed op).toList ++ (e.apply op).sealedRun ops

end Runs

end Ends

/-! ## 4. No message key seals twice -/

namespace DoubleRatchet

/-- The sending side of `r` has moved past the key `k`. -/
def Behind (r : DoubleRatchet P.free) (k : P.free.Key) : Prop :=
  (KeyTerm.msgPos k).1 < KeyTerm.rootDepth r.rootKey ∨
    ∃ ck, r.chainSend = some ck ∧ (KeyTerm.msgPos k).1 = (KeyTerm.chainPos ck).1 ∧
      (KeyTerm.msgPos k).2 < (KeyTerm.chainPos ck).2

theorem behind_skipMessageKeys {r : DoubleRatchet P.free} {k : P.free.Key} (h : r.Behind k)
    (upTo : UInt32) : (r.skipMessageKeys upTo).2.Behind k := by
  rcases skipMessageKeys_cases r upTo with ⟨_, hs⟩ | ⟨_, hs⟩ |
      ⟨ck, remote, _, _, _, _, hs | ⟨_, _, _, _, hs⟩⟩ <;>
    rw [hs] <;> exact h

/-- Receiving never brings a used sending key back: the sending chain stays, or
    a later turn replaces it. -/
theorem behind_decrypt {root : P.free.Key} {parity : Nat} {r : DoubleRatchet P.free}
    {k : P.free.Key} (hkeys : r.KeysFrom root parity) (h : r.Behind k) (fresh : P.free.Secret)
    (header : RatchetHeader) (ciphertext : CipherTerm P.Shared) (adPrefix : Bytes) :
    (r.decrypt fresh header ciphertext adPrefix).2.Behind k := by
  refine (decrypt_preserves (fun r => r.KeysFrom root parity ∧ r.Behind k) ?_ ?_ ?_ ?_
    ⟨hkeys, h⟩ fresh header ciphertext adPrefix).2
  · intro r slot ⟨hk, hb⟩
    exact ⟨hk.drop slot, hb⟩
  · intro r upTo ⟨hk, hb⟩
    exact ⟨hk.skipMessageKeys upTo, behind_skipMessageKeys hb upTo⟩
  · intro r fresh pub ⟨hk, hb⟩
    refine ⟨hk.dhRatchet fresh pub, Or.inl ?_⟩
    show (KeyTerm.msgPos k).1 < KeyTerm.rootDepth r.rootKey + 1 + 1
    rcases hb with hlt | ⟨ck, hck, hturn, _⟩
    · omega
    · have := (hk.send ck hck).2
      omega
  · intro r c ad ⟨hk, hb⟩
    refine ⟨hk.openNext c ad, ?_⟩
    unfold openNext
    cases r.chainRecv <;> exact hb

theorem behind_encrypt {r : DoubleRatchet P.free} {k : P.free.Key} (h : r.Behind k)
    (plaintext adPrefix : Bytes) : (r.encrypt plaintext adPrefix).2.Behind k := by
  rcases h with hlt | ⟨ck, hck, hturn, hlt⟩
  · refine Or.inl ?_
    unfold encrypt
    cases r.chainSend <;> exact hlt
  · refine Or.inr ⟨(P.free.kdfCk ck).1, ?_, hturn, Nat.lt_succ_of_lt hlt⟩
    simp [encrypt, hck]

end DoubleRatchet

namespace Ends

/-- The parity of the turns at which a side sends. -/
def sendParity (root : P.free.Key) : Side → Nat
  | .initiator => (KeyTerm.rootDepth root + 1) % 2
  | .responder => KeyTerm.rootDepth root % 2

theorem sendParity_ne_other (root : P.free.Key) (side : Side) :
    sendParity root side ≠ sendParity root side.other := by
  cases side <;>
    · simp only [sendParity, Side.other]
      omega

theorem keysFrom_init (root : P.free.Key) (dhSelf : P.free.Secret) (remoteDhPub : Bytes32)
    (spk : P.free.Secret) (side : Side) :
    (init root dhSelf remoteDhPub spk side).KeysFrom root (sendParity root side) := by
  cases side
  · exact DoubleRatchet.keysFrom_initInitiator root dhSelf remoteDhPub
  · exact DoubleRatchet.keysFrom_initResponder root spk

/-- The keys sealed so far: pairwise distinct, each behind the sending side of
    the end that used it. -/
structure Sealed (root : P.free.Key) (used : List (CipherTerm P.Shared)) (e : Ends P.free) :
    Prop where
  keys : ∀ side, (e side).KeysFrom root (sendParity root side)
  nodup : (used.map CipherTerm.key?).Nodup
  behind : ∀ c ∈ used, ∃ side k, c.key? = some k ∧
    (KeyTerm.msgPos k).1 % 2 = sendParity root side ∧ (e side).Behind k

variable {root : P.free.Key} {used : List (CipherTerm P.Shared)} {e : Ends P.free}

/-- Replacing one end keeps what is known of both. -/
theorem Sealed.update (h : Sealed root used e) (side : Side) {r : DoubleRatchet P.free}
    (hkeys : r.KeysFrom root (sendParity root side))
    (hbehind : ∀ k, (e side).Behind k → r.Behind k) :
    Sealed root used (Function.update e side r) where
  keys := by
    intro side'
    by_cases hs : side' = side
    · subst hs
      rw [Function.update_self]
      exact hkeys
    · rw [Function.update_of_ne hs]
      exact h.keys side'
  nodup := h.nodup
  behind := by
    intro c hc
    obtain ⟨side', k, hk, hpar, hb⟩ := h.behind c hc
    refine ⟨side', k, hk, hpar, ?_⟩
    by_cases hs : side' = side
    · subst hs
      rw [Function.update_self]
      exact hbehind k hb
    · rw [Function.update_of_ne hs]
      exact hb

/-- One call: the key it seals with, if any, was not used before. -/
theorem Sealed.step (h : Sealed root used e) (op : Op P.free) :
    Sealed root (used ++ (e.sealed op).toList) (e.apply op) := by
  cases op with
  | decrypt side fresh header ciphertext adPrefix =>
    rw [sealed, Option.toList_none, List.append_nil]
    exact h.update side ((h.keys side).decrypt _ _ _ _)
      (fun k hb => DoubleRatchet.behind_decrypt (h.keys side) hb _ _ _ _)
  | encrypt side plaintext adPrefix =>
    have hstep : Sealed root used (e.apply (.encrypt side plaintext adPrefix)) :=
      h.update side ((h.keys side).encrypt _ _)
        (fun k hb => DoubleRatchet.behind_encrypt hb _ _)
    rcases henc : (e side).encrypt plaintext adPrefix with ⟨_ | ⟨header, c⟩, r'⟩
    · simp only [sealed, henc, Option.toList_none, List.append_nil]
      exact hstep
    · obtain ⟨ck, hck, _, hc, hr'⟩ := DoubleRatchet.encrypt_ok_cases henc
      have hturn := ((h.keys side).send ck hck).2
      have hparity := (h.keys side).root_parity
      have hkey : c.key? = some (P.free.kdfCk ck).2 := by
        rw [hc, Suite.free_aeadSeal_key?]
      simp only [sealed, henc, Option.toList_some]
      refine ⟨hstep.keys, ?_, ?_⟩
      · -- an old key at the same position would be behind itself
        rw [List.map_append, List.nodup_append]
        refine ⟨h.nodup, by simp, ?_⟩
        intro k? hk? k'? hk'? heq
        obtain ⟨c', hc', rfl⟩ := List.mem_map.mp hk?
        rw [List.map_singleton, List.mem_singleton] at hk'?
        obtain ⟨side', k, hk, hpar, hb⟩ := h.behind c' hc'
        rw [hk, hk'?, hkey] at heq
        have hpos : KeyTerm.msgPos k = KeyTerm.chainPos ck := by
          rw [Option.some.inj heq]
          rfl
        by_cases hs : side' = side
        · subst hs
          rcases hb with hlt | ⟨ck', hck', _, hlt⟩
          · rw [hpos] at hlt
            omega
          · rw [hck] at hck'
            cases hck'
            rw [hpos] at hlt
            omega
        · have hother : side' = side.other := by
            cases side <;> cases side' <;> first | rfl | exact absurd rfl hs
          have := sendParity_ne_other root side
          rw [hpos, hturn, hparity, hother] at hpar
          exact this hpar
      · intro c' hc'
        rcases List.mem_append.mp hc' with hold | hnew
        · exact hstep.behind c' hold
        · rw [List.mem_singleton] at hnew
          subst hnew
          refine ⟨side, _, hkey, ?_, Or.inr ⟨(P.free.kdfCk ck).1, ?_, rfl, Nat.lt_succ_self _⟩⟩
          · rw [msgPos_kdfCk, hturn, hparity]
          · rw [apply, Function.update_self, henc, hr']

theorem Sealed.run (h : Sealed root used e) (ops : List (Op P.free)) :
    ((used ++ e.sealedRun ops).map CipherTerm.key?).Nodup := by
  induction ops generalizing used e with
  | nil =>
    rw [sealedRun, List.append_nil]
    exact h.nodup
  | cons op ops ih =>
    rw [sealedRun, ← List.append_assoc]
    exact ih (h.step op)

/-- **Message keys are never reused.**  Over every run of the two ends, with
    arbitrary arguments to `decrypt`, the keys the two ends seal with are
    pairwise distinct. -/
theorem sealed_keys_distinct (root : P.free.Key) (dhSelf : P.free.Secret) (remoteDhPub : Bytes32)
    (spk : P.free.Secret) (ops : List (Op P.free)) :
    (((init root dhSelf remoteDhPub spk).sealedRun ops).map CipherTerm.key?).Nodup := by
  have hinit : Sealed root [] (init root dhSelf remoteDhPub spk) :=
    ⟨keysFrom_init root dhSelf remoteDhPub spk, List.nodup_nil, fun c hc => by cases hc⟩
  exact hinit.run ops

end Ends

end Clarity
