/-
  Clarity/Secrecy.lean
  ====================
  **What a stolen session gives away about the past.**

  `DoubleRatchet.Exposes r k`: whoever reads the ratchet state `r` can compute the
  key `k`, by the root and chain KDFs and with any public keys.  The KDFs are read
  as free terms, so a message key can be computed from a stored key exactly when
  the stored key is one of those it was derived from, and `KeyTerm.IsRoot`,
  `IsChain` and `IsMessage` say which those are.

    * `Session.forward_secrecy` — in a run without cut-off skips, the state never
      exposes the key of a message that was encrypted or accepted before;
    * `Session.exposed_after_cut_off` — after a cut-off skip it does.
-/
import Clarity.Replay

namespace Clarity

/-! ## 1. The keys below a message key -/

namespace KeyTerm

variable {S : Type}

/-- The root keys of a session that starts from `root`. -/
inductive IsRoot (root : KeyTerm S) : KeyTerm S → Prop where
  | refl : IsRoot root root
  | next {k} (s : S) (info : Bytes) : IsRoot root k → IsRoot root (.hkdf64Fst k s info)

/-- Its chain keys. -/
inductive IsChain (root : KeyTerm S) : KeyTerm S → Prop where
  | first {k} (s : S) (info : Bytes) : IsRoot root k → IsChain root (.hkdf64Snd k s info)
  | next {k} : IsChain root k → IsChain root (.hmac k [0x02])

/-- Its message keys. -/
def IsMessage (root k : KeyTerm S) : Prop := ∃ ck, IsChain root ck ∧ k = .hmac ck [0x01]

variable {salt info : Bytes} {ikm : List S} {x k : KeyTerm S}

/-- Below a root key there are only earlier root keys. -/
theorem IsRoot.descends (hk : IsRoot (.hkdf32 salt ikm info) k) (h : Descends x k) :
    IsRoot (.hkdf32 salt ikm info) x ∧ x.rootDepth ≤ k.rootDepth := by
  induction hk with
  | refl =>
    cases h
    exact ⟨.refl, Nat.le_refl _⟩
  | next s label hk ih =>
    cases h with
    | refl => exact ⟨hk.next s label, Nat.le_refl _⟩
    | hkdf64Fst _ _ h =>
      obtain ⟨hx, hle⟩ := ih h
      exact ⟨hx, Nat.le_succ_of_le hle⟩

/-- Below a chain key there are root keys of earlier turns, and the same chain
    further back. -/
theorem IsChain.descends (hk : IsChain (.hkdf32 salt ikm info) k) (h : Descends x k) :
    (IsRoot (.hkdf32 salt ikm info) x ∧ x.rootDepth < k.chainPos.1) ∨
      (IsChain (.hkdf32 salt ikm info) x ∧ x.chainPos.1 = k.chainPos.1 ∧
        x.chainPos.2 ≤ k.chainPos.2) := by
  induction hk with
  | first s label hk =>
    cases h with
    | refl => exact Or.inr ⟨.first s label hk, rfl, Nat.le_refl _⟩
    | hkdf64Snd _ _ h =>
      obtain ⟨hx, hle⟩ := hk.descends h
      exact Or.inl ⟨hx, Nat.lt_succ_of_le hle⟩
  | next hk ih =>
    cases h with
    | refl => exact Or.inr ⟨hk.next, rfl, Nat.le_refl _⟩
    | hmac _ h =>
      rcases ih h with hroot | ⟨hx, hturn, hle⟩
      · exact Or.inl hroot
      · exact Or.inr ⟨hx, hturn, Nat.le_succ_of_le hle⟩

/-- Below a message key there are root keys of earlier turns, and its own chain up
    to the place it was taken from. -/
theorem IsMessage.descends (hk : IsMessage (.hkdf32 salt ikm info) k) (h : Descends x k) :
    x = k ∨ (IsRoot (.hkdf32 salt ikm info) x ∧ x.rootDepth < k.msgPos.1) ∨
      (IsChain (.hkdf32 salt ikm info) x ∧ x.chainPos.1 = k.msgPos.1 ∧
        x.chainPos.2 ≤ k.msgPos.2) := by
  obtain ⟨ck, hck, rfl⟩ := hk
  cases h with
  | refl => exact Or.inl rfl
  | hmac _ h => exact Or.inr (hck.descends h)

theorem IsRoot.not_isChain (hx : IsRoot (.hkdf32 salt ikm info) x) :
    ¬ IsChain (.hkdf32 salt ikm info) x := by
  intro hc
  cases hx <;> cases hc

theorem IsMessage.not_isRoot (hx : IsMessage (.hkdf32 salt ikm info) x) :
    ¬ IsRoot (.hkdf32 salt ikm info) x := by
  obtain ⟨ck, _, rfl⟩ := hx
  intro hr
  cases hr

theorem IsMessage.not_isChain {root : KeyTerm S} (hx : IsMessage root x) : ¬ IsChain root x := by
  obtain ⟨ck, _, rfl⟩ := hx
  intro hc
  cases hc

end KeyTerm

/-! ## 2. What a ratchet state exposes -/

namespace DoubleRatchet

section Exposes

variable {C : Type} {P : Suite C}

/-- The keys of a stored ratchet. -/
inductive Stores (r : DoubleRatchet P) : P.Key → Prop where
  | root : Stores r r.rootKey
  | send {ck : P.Key} : r.chainSend = some ck → Stores r ck
  | recv {ck : P.Key} : r.chainRecv = some ck → Stores r ck
  | cached {slot : Bytes32 × UInt32} {k : P.Key} : r.skipped[slot]? = some k → Stores r k

/-- The keys that can be computed from a stored ratchet: its own, and whatever the
    KDFs make of them.  The ratchet secret is stored too, so its shared value with
    any public key is at hand. -/
inductive Exposes (r : DoubleRatchet P) : P.Key → Prop where
  | stored {k : P.Key} : r.Stores k → Exposes r k
  | nextRoot {k : P.Key} (pub : Bytes32) :
      Exposes r k → Exposes r (P.kdfRk k (P.diffieHellman r.dhSelf pub)).1
  | chainKey {k : P.Key} (pub : Bytes32) :
      Exposes r k → Exposes r (P.kdfRk k (P.diffieHellman r.dhSelf pub)).2
  | nextChain {k : P.Key} : Exposes r k → Exposes r (P.kdfCk k).1
  | messageKey {k : P.Key} : Exposes r k → Exposes r (P.kdfCk k).2

end Exposes

variable {C : Type} {P : Suite C} [DecidableEq P.Shared]

/-- What is exposed was derived from a stored key. -/
theorem Exposes.descends {r : DoubleRatchet P.free} {k : P.free.Key} (h : r.Exposes k) :
    ∃ x : P.free.Key, r.Stores x ∧ KeyTerm.Descends x k := by
  induction h with
  | stored hk => exact ⟨_, hk, .refl⟩
  | nextRoot pub _ ih =>
    obtain ⟨x, hx, hd⟩ := ih
    exact ⟨x, hx, (descends_kdfRk _ hd).1⟩
  | chainKey pub _ ih =>
    obtain ⟨x, hx, hd⟩ := ih
    exact ⟨x, hx, (descends_kdfRk _ hd).2⟩
  | nextChain _ ih =>
    obtain ⟨x, hx, hd⟩ := ih
    exact ⟨x, hx, (descends_kdfCk hd).1⟩
  | messageKey _ ih =>
    obtain ⟨x, hx, hd⟩ := ih
    exact ⟨x, hx, (descends_kdfCk hd).2⟩

/-! ## 3. Each stored key has its shape -/

/-- Root, chain and message keys are where the fields say. -/
structure Shaped (root : P.free.Key) (r : DoubleRatchet P.free) : Prop where
  rootKey : KeyTerm.IsRoot root r.rootKey
  send : ∀ ck, r.chainSend = some ck → KeyTerm.IsChain root ck
  recv : ∀ ck, r.chainRecv = some ck → KeyTerm.IsChain root ck
  cached : ∀ (slot : Bytes32 × UInt32) (k : P.free.Key), r.skipped[slot]? = some k →
    KeyTerm.IsMessage root k

theorem isChain_chainKeyAt {root ck : P.free.Key} (h : KeyTerm.IsChain root ck) (n : Nat) :
    KeyTerm.IsChain root (chainKeyAt P.free ck n) := by
  induction n with
  | zero => exact h
  | succ n ih =>
    rw [← kdfCk_chainKeyAt]
    exact ih.next

theorem isMessage_messageKeyAt {root ck : P.free.Key} (h : KeyTerm.IsChain root ck) (n : Nat) :
    KeyTerm.IsMessage root (messageKeyAt P.free ck n) :=
  ⟨_, isChain_chainKeyAt h n, rfl⟩

namespace Shaped

variable {root : P.free.Key} {r : DoubleRatchet P.free}

theorem init {r : DoubleRatchet P.free} (hroot : KeyTerm.IsRoot root r.rootKey)
    (hsend : ∀ ck, r.chainSend = some ck → KeyTerm.IsChain root ck) (hrecv : r.chainRecv = none)
    (hcache : r.skipped = ∅) : Shaped root r where
  rootKey := hroot
  send := hsend
  recv := by
    intro ck hck
    rw [hrecv] at hck
    cases hck
  cached := by
    intro slot k hk
    simp [hcache] at hk

theorem initInitiator (root : P.free.Key) (dhSelf : P.free.Secret) (remote : Bytes32) :
    Shaped root (DoubleRatchet.initInitiator dhSelf root remote) := by
  apply init (.next _ _ .refl) ?_ rfl rfl
  intro ck hck
  cases hck
  exact .first _ _ .refl

theorem initResponder (root : P.free.Key) (spk : P.free.Secret) :
    Shaped root (DoubleRatchet.initResponder root spk) := by
  have hroot : KeyTerm.IsRoot root (DoubleRatchet.initResponder root spk).rootKey := .refl
  apply init hroot ?_ rfl rfl
  intro ck hck
  cases hck

theorem drop (h : Shaped root r) (slot : Bytes32 × UInt32) :
    Shaped root { r with skipped := r.skipped.erase slot } where
  rootKey := h.rootKey
  send := h.send
  recv := h.recv
  cached := by
    intro slot' k hk
    simp only [Std.ExtTreeMap.getElem?_erase] at hk
    split at hk
    · cases hk
    · exact h.cached slot' k hk

theorem withCached (h : Shaped root r) {remote : Bytes32} {ck : P.free.Key}
    (hck : r.chainRecv = some ck) {n : Nat} (hn : n ≤ 2 ^ 32) :
    Shaped root (r.withCached remote ck n) where
  rootKey := h.rootKey
  send := h.send
  recv := h.recv
  cached := by
    rintro ⟨pub, i⟩ k hk
    simp only [DoubleRatchet.withCached, getElem?_cacheKeys P.free remote n ck _ _ hn] at hk
    split at hk
    · cases hk
      exact isMessage_messageKeyAt (h.recv ck hck) _
    · exact h.cached _ _ hk

theorem skipMessageKeys (h : Shaped root r) (upTo : UInt32) :
    Shaped root (r.skipMessageKeys upTo).2 := by
  rcases skipMessageKeys_cases r upTo with ⟨_, hs⟩ | ⟨_, hs⟩ |
      ⟨ck, remote, hck, _, _, _, hs | ⟨n, _, hn, _, hs⟩⟩
  · rw [hs]; exact h
  · rw [hs]; exact h
  · rw [hs]
    have hcached : Shaped root (r.withCached remote ck (r.gap upTo)) :=
      h.withCached hck (Nat.le_of_lt (UInt32.toNat_lt _))
    refine ⟨hcached.rootKey, hcached.send, ?_, hcached.cached⟩
    intro ck' hck'
    cases hck'
    exact isChain_chainKeyAt (h.recv ck hck) _
  · rw [hs]
    exact h.withCached hck (Nat.le_of_lt (Nat.lt_trans hn (UInt32.toNat_lt _)))

theorem dhRatchet (h : Shaped root r) (fresh : P.free.Secret) (pub : Bytes32) :
    Shaped root (r.dhRatchet fresh pub) where
  rootKey := .next _ _ (.next _ _ h.rootKey)
  send := by
    intro ck hck
    cases hck
    exact .first _ _ (.next _ _ h.rootKey)
  recv := by
    intro ck hck
    cases hck
    exact .first _ _ h.rootKey
  cached := h.cached

theorem followRemote (h : Shaped root r) (fresh : P.free.Secret) (header : RatchetHeader) :
    Shaped root (r.followRemote fresh header).2 :=
  followRemote_preserves (Shaped root) (fun _ _ => True)
    (fun _ upTo _ h => h.skipMessageKeys upTo) (fun _ fresh pub h => h.dhRatchet fresh pub)
    h fresh (fun _ => trivial)

theorem openNext (h : Shaped root r) (ciphertext : CipherTerm P.Shared) (ad : Bytes) :
    Shaped root (r.openNext ciphertext ad).2 := by
  unfold DoubleRatchet.openNext
  cases hck : r.chainRecv with
  | none => exact h
  | some ck =>
    refine ⟨h.rootKey, h.send, ?_, h.cached⟩
    intro ck' hck'
    cases hck'
    exact (h.recv ck hck).next

theorem decrypt (h : Shaped root r) (fresh : P.free.Secret) (header : RatchetHeader)
    (ciphertext : CipherTerm P.Shared) (adPrefix : Bytes) :
    Shaped root (r.decrypt fresh header ciphertext adPrefix).2 :=
  decrypt_preserves (Shaped root) (fun _ slot h => h.drop slot)
    (fun _ upTo h => h.skipMessageKeys upTo) (fun _ fresh pub h => h.dhRatchet fresh pub)
    (fun _ c ad h => h.openNext c ad) h fresh header ciphertext adPrefix

/-- What opens a message is a message key. -/
theorem opening (h : Shaped root r) {fresh : P.free.Secret} {header : RatchetHeader}
    {c : CipherTerm P.Shared} {adPrefix p : Bytes} {r' : DoubleRatchet P.free}
    (hdec : r.decrypt fresh header c adPrefix = (.ok p, r')) {k : P.free.Key}
    (hk : c.key? = some k) : KeyTerm.IsMessage root k := by
  rcases decrypt_ok_cases hdec with ⟨mk, hmk, hopen, _⟩ |
      ⟨_, r1, r2, ck, hfollow, hskip, hck, hopen, _⟩
  · cases hk.symm.trans (Suite.free_key?_of_open hopen)
    exact h.cached _ _ hmk
  · cases hk.symm.trans (Suite.free_key?_of_open hopen)
    have h1 : Shaped root r1 := by
      have := h.followRemote fresh header
      rwa [hfollow] at this
    have h2 : Shaped root r2 := by
      have := h1.skipMessageKeys header.n
      rwa [hskip] at this
    exact ⟨ck, h2.recv ck hck, rfl⟩

theorem encrypt (h : Shaped root r) (plaintext adPrefix : Bytes) :
    Shaped root (r.encrypt plaintext adPrefix).2 := by
  unfold DoubleRatchet.encrypt
  cases hck : r.chainSend with
  | none => exact h
  | some ck =>
    refine ⟨h.rootKey, ?_, h.recv, h.cached⟩
    intro ck' hck'
    cases hck'
    exact (h.send ck hck).next

end Shaped

/-! ## 4. Used keys are out of reach -/

/-- The ratchet has left the keys in `sent` and `spent` behind. -/
structure Forgot (root : P.free.Key) (parity : Nat) (sent spent : List P.free.Key)
    (r : DoubleRatchet P.free) : Prop where
  keys : r.KeysFrom root parity
  shaped : r.Shaped root
  unspent : r.Unspent spent
  sent_behind : ∀ k ∈ sent, KeyTerm.IsMessage root k ∧ (KeyTerm.msgPos k).1 % 2 = parity ∧
    r.Behind k
  spent_message : ∀ k ∈ spent, KeyTerm.IsMessage root k

namespace Forgot

variable {root : P.free.Key} {salt info : Bytes} {ikm : List P.Shared} {parity : Nat}
  {sent spent : List P.free.Key} {r : DoubleRatchet P.free}

/-- A stored key below a message key is that key, or it comes before it. -/
theorem stored_below (h : Forgot (.hkdf32 salt ikm info) parity sent spent r)
    {x k : P.free.Key} (hk : KeyTerm.IsMessage (.hkdf32 salt ikm info) k) (hx : r.Stores x)
    (hd : KeyTerm.Descends x k) :
    KeyTerm.rootDepth r.rootKey < (KeyTerm.msgPos k).1 ∨
    (∃ ck, r.chainSend = some ck ∧ (KeyTerm.chainPos ck).1 = (KeyTerm.msgPos k).1 ∧
      (KeyTerm.chainPos ck).2 ≤ (KeyTerm.msgPos k).2) ∨
    (∃ ck, r.chainRecv = some ck ∧ (KeyTerm.chainPos ck).1 = (KeyTerm.msgPos k).1 ∧
      (KeyTerm.chainPos ck).2 ≤ (KeyTerm.msgPos k).2) ∨
    ∃ slot : Bytes32 × UInt32, r.skipped[slot]? = some k := by
  have hbelow := hk.descends hd
  cases hx with
  | root =>
    rcases hbelow with rfl | ⟨_, hlt⟩ | ⟨hc, _⟩
    · exact absurd h.shaped.rootKey hk.not_isRoot
    · exact Or.inl hlt
    · exact absurd hc h.shaped.rootKey.not_isChain
  | send hck =>
    have hchain := h.shaped.send _ hck
    rcases hbelow with rfl | ⟨hr, _⟩ | ⟨_, hpos⟩
    · exact absurd hchain hk.not_isChain
    · exact absurd hchain hr.not_isChain
    · exact Or.inr (Or.inl ⟨_, hck, hpos⟩)
  | recv hck =>
    have hchain := h.shaped.recv _ hck
    rcases hbelow with rfl | ⟨hr, _⟩ | ⟨_, hpos⟩
    · exact absurd hchain hk.not_isChain
    · exact absurd hchain hr.not_isChain
    · exact Or.inr (Or.inr (Or.inl ⟨_, hck, hpos⟩))
  | cached hslot =>
    have hmsg := h.shaped.cached _ _ hslot
    rcases hbelow with rfl | ⟨hr, _⟩ | ⟨hc, _⟩
    · exact Or.inr (Or.inr (Or.inr ⟨_, hslot⟩))
    · exact absurd hr hmsg.not_isRoot
    · exact absurd hc hmsg.not_isChain

/-- **No used key can be computed from the state.** -/
theorem not_exposes (h : Forgot (.hkdf32 salt ikm info) parity sent spent r) {k : P.free.Key}
    (hk : k ∈ sent ++ spent) : ¬ r.Exposes k := by
  intro hexp
  obtain ⟨x, hx, hd⟩ := hexp.descends
  have hpar := h.keys.root_parity
  rcases List.mem_append.mp hk with hsent | hspent
  · obtain ⟨hmsg, hkpar, hbehind⟩ := h.sent_behind k hsent
    have hbefore : (KeyTerm.msgPos k).1 ≤ KeyTerm.rootDepth r.rootKey := by
      rcases hbehind with hlt | ⟨ck, hck, hturn, _⟩
      · exact Nat.le_of_lt hlt
      · rw [hturn]
        exact Nat.le_of_eq (h.keys.send ck hck).2
    rcases h.stored_below hmsg hx hd with hlt | ⟨ck, hck, hturn, hle⟩ | ⟨ck, hck, hturn, _⟩ |
        ⟨slot, hslot⟩
    · exact absurd hbefore (Nat.not_le.mpr hlt)
    · -- the sending chain stands behind the key
      have hroot := (h.keys.send ck hck).2
      rcases hbehind with hlt | ⟨ck', hck', _, hlt⟩
      · omega
      · cases hck.symm.trans hck'
        exact absurd hle (Nat.not_le.mpr hlt)
    · -- receiving chains belong to turns of the other parity
      have hroot := (h.keys.recv ck hck).2
      omega
    · exact (h.keys.cached slot k hslot).2 hkpar
  · have hpassed := h.unspent.spent_passed k hspent
    have hbefore : (KeyTerm.msgPos k).1 + 1 ≤ KeyTerm.rootDepth r.rootKey := by
      rcases hpassed with hlt | ⟨ck, hck, hturn, _⟩
      · exact Nat.le_of_lt hlt
      · rw [hturn]
        exact Nat.le_of_eq (h.keys.recv ck hck).2
    rcases h.stored_below (h.spent_message k hspent) hx hd with hlt | ⟨ck, hck, hturn, _⟩ |
        ⟨ck, hck, hturn, hle⟩ | ⟨slot, hslot⟩
    · omega
    · have hroot := (h.keys.send ck hck).2
      omega
    · have hroot := (h.keys.recv ck hck).2
      rcases hpassed with hlt | ⟨ck', hck', _, hlt⟩
      · omega
      · cases hck.symm.trans hck'
        exact absurd hle (Nat.not_le.mpr hlt)
    · exact (h.unspent.cached slot k hslot).2 hspent

/-- Moving on keeps what was forgotten. -/
theorem encrypt (h : Forgot root parity sent spent r) (plaintext adPrefix : Bytes) :
    Forgot root parity sent spent (r.encrypt plaintext adPrefix).2 ∧
      ∀ header c r', r.encrypt plaintext adPrefix = (.ok (header, c), r') →
        ∃ k : P.free.Key, c.key? = some k ∧ Forgot root parity (sent ++ [k]) spent r' := by
  have hstep : Forgot root parity sent spent (r.encrypt plaintext adPrefix).2 := by
    refine ⟨h.keys.encrypt _ _, h.shaped.encrypt _ _, h.unspent.encrypt _ _, ?_,
      h.spent_message⟩
    intro k hk
    obtain ⟨hmsg, hpar, hbehind⟩ := h.sent_behind k hk
    exact ⟨hmsg, hpar, behind_encrypt hbehind _ _⟩
  refine ⟨hstep, ?_⟩
  intro header c r' henc
  rw [henc] at hstep
  obtain ⟨ck, hck, _, hc, hr'⟩ := encrypt_ok_cases henc
  have hturn := (h.keys.send ck hck).2
  have hpar := h.keys.root_parity
  refine ⟨(P.free.kdfCk ck).2, by rw [hc, Suite.free_aeadSeal_key?], hstep.keys, hstep.shaped,
    hstep.unspent, ?_, hstep.spent_message⟩
  intro k hk
  rcases List.mem_append.mp hk with hold | hnew
  · exact hstep.sent_behind k hold
  · rw [List.mem_singleton.mp hnew]
    refine ⟨⟨ck, h.shaped.send ck hck, rfl⟩, ?_, ?_⟩
    · rw [msgPos_kdfCk, hturn]
      exact hpar
    · rw [hr']
      exact Or.inr ⟨_, rfl, rfl, Nat.lt_succ_self _⟩

theorem decrypt (h : Forgot root parity sent spent r) {fresh : P.free.Secret}
    {header : RatchetHeader} (hintact : r.SkipsMeet (fun r upTo => ¬ r.CutOff upTo) fresh header)
    (c : CipherTerm P.Shared) (adPrefix : Bytes) :
    Forgot root parity sent spent (r.decrypt fresh header c adPrefix).2 ∧
      ∀ p r', r.decrypt fresh header c adPrefix = (.ok p, r') →
        ∃ k : P.free.Key, c.key? = some k ∧ Forgot root parity sent (spent ++ [k]) r' := by
  obtain ⟨hfail, hok⟩ := h.unspent.decrypt hintact c adPrefix
  have hsent : ∀ k ∈ sent, KeyTerm.IsMessage root k ∧ (KeyTerm.msgPos k).1 % 2 = parity ∧
      (r.decrypt fresh header c adPrefix).2.Behind k := by
    intro k hk
    obtain ⟨hmsg, hpar, hbehind⟩ := h.sent_behind k hk
    exact ⟨hmsg, hpar, behind_decrypt h.keys hbehind _ _ _ _⟩
  have hkeys := h.keys.decrypt fresh header c adPrefix
  have hshaped := h.shaped.decrypt fresh header c adPrefix
  refine ⟨⟨hkeys, hshaped, hfail, hsent, h.spent_message⟩, ?_⟩
  intro p r' hdec
  obtain ⟨k, hk, hunspent⟩ := hok p r' hdec
  rw [hdec] at hsent hkeys hshaped
  refine ⟨k, hk, hkeys, hshaped, hunspent, hsent, ?_⟩
  intro k' hk'
  rcases List.mem_append.mp hk' with hold | hnew
  · exact h.spent_message k' hold
  · rw [List.mem_singleton.mp hnew]
    exact h.shaped.opening hdec hk

end Forgot

end DoubleRatchet

/-! ## 5. Runs of a session -/

namespace Session

section Runs

variable {C : Type} {P : Suite C}

/-- The message a call encrypted or accepted, if it did. -/
def usedBy (s : Session P) : Op P → Option (Message C)
  | .encrypt plaintext =>
    match (s.encrypt plaintext).1 with
    | .ok m => some m
    | .error _ => none
  | .decrypt fresh m => s.acceptedBy (.decrypt fresh m)

/-- The messages encrypted or accepted over a run, in order. -/
def used (s : Session P) : List (Op P) → List (Message C)
  | [] => []
  | op :: ops => (s.usedBy op).toList ++ (s.apply op).2.used ops

theorem used_append (s : Session P) (ops ops' : List (Op P)) :
    s.used (ops ++ ops') = s.used ops ++ (s.run ops).2.used ops' := by
  induction ops generalizing s with
  | nil => rfl
  | cons op ops ih =>
    rw [List.cons_append, used, used, ih, List.append_assoc]
    rfl

end Runs

variable {C : Type} {P : Suite C} [DecidableEq P.Shared]

/-- The keys of `messages` are out of reach of the session state. -/
def Forgot (messages : List (Message (CipherTerm P.Shared))) (s : Session P.free) : Prop :=
  ∃ ikm parity sent spent, s.ratchet.Forgot (P.free.kdfRootFromIkm ikm) parity sent spent ∧
    ∀ m ∈ messages, ∃ k ∈ sent ++ spent, m.ciphertext.key? = some k

variable {messages : List (Message (CipherTerm P.Shared))} {s : Session P.free}

/-- What every session starts from. -/
theorem Forgot.established (h : Established messages s) : s.Forgot messages := by
  cases h with
  | @initiated me bundle rnd _ hinit =>
    obtain ⟨_, root, hs, spk, hhs, rfl⟩ := initiate_ok_cases hinit
    obtain ⟨_, _, hroot, _⟩ := Handshake.initiate_ok_cases hhs
    have hkeys := DoubleRatchet.keysFrom_initInitiator root rnd.ratchet spk
    have hshaped := DoubleRatchet.Shaped.initInitiator root rnd.ratchet spk
    subst hroot
    refine ⟨_, _, [], [], ⟨hkeys, hshaped, .init rfl rfl, ?_, ?_⟩, ?_⟩
    · intro k hk
      cases hk
    · intro k hk
      cases hk
    · intro m hm
      cases hm
  | @responded me me' fresh m _ p hresp =>
    obtain ⟨hs, header, c, root, spk, r, rfl, hhs, _, hdec, rfl⟩ := respond_ok_cases hresp
    obtain ⟨_, _, _, _, _, _, hroot⟩ := Handshake.respond_ok_cases hhs
    obtain ⟨k, hk, hunspent⟩ := DoubleRatchet.Unspent.initResponder hdec
    have hinit := DoubleRatchet.Shaped.initResponder root spk
    have hkeys := (DoubleRatchet.keysFrom_initResponder root spk).decrypt fresh header c
      (Clarity.adPrefix hs.identityEd me'.identityPublic)
    have hshaped := hinit.decrypt fresh header c
      (Clarity.adPrefix hs.identityEd me'.identityPublic)
    rw [hdec] at hkeys hshaped
    have hmsg := hinit.opening hdec hk
    subst hroot
    refine ⟨_, _, [], [k], ⟨hkeys, hshaped, hunspent, ?_, ?_⟩, ?_⟩
    · intro k' hk'
      cases hk'
    · intro k' hk'
      rw [List.mem_singleton.mp hk']
      exact hmsg
    · intro m hm
      rw [List.mem_singleton.mp hm]
      exact ⟨k, List.mem_singleton.mpr rfl, hk⟩

/-- A call keeps the used keys out of reach, with the one it uses itself. -/
theorem Forgot.step (h : s.Forgot messages) {op : Op P.free}
    (hintact : ∀ fresh m, op = .decrypt fresh m →
      s.ratchet.SkipsMeet (fun r upTo => ¬ r.CutOff upTo) fresh m.header) :
    (s.apply op).2.Forgot (messages ++ (s.usedBy op).toList) := by
  obtain ⟨ikm, parity, sent, spent, hforgot, hmessages⟩ := h
  cases op with
  | encrypt plaintext =>
    obtain ⟨hfail, hok⟩ := hforgot.encrypt plaintext s.adPrefix
    rcases henc : s.encrypt plaintext with ⟨e | m, s'⟩
    · simp only [usedBy, henc, Option.toList_none, List.append_nil, apply]
      rw [← ratchet_encrypt, henc] at hfail
      exact ⟨ikm, parity, sent, spent, hfail, hmessages⟩
    · obtain ⟨r, hr, rfl, _⟩ := encrypt_ok_cases henc
      obtain ⟨k, hk, hnew⟩ := hok _ _ r hr
      simp only [usedBy, henc, Option.toList_some, apply]
      refine ⟨ikm, parity, sent ++ [k], spent, hnew, ?_⟩
      intro m' hm'
      rcases List.mem_append.mp hm' with hold | hlast
      · obtain ⟨k', hk', hkey⟩ := hmessages m' hold
        exact ⟨k', by simp at hk' ⊢; tauto, hkey⟩
      · rw [List.mem_singleton.mp hlast]
        exact ⟨k, by simp, hk⟩
  | decrypt fresh m =>
    obtain ⟨hfail, hok⟩ := hforgot.decrypt (hintact fresh m rfl) m.ciphertext s.adPrefix
    rcases hdec : s.decrypt fresh m with ⟨e | p, s'⟩
    · simp only [usedBy, acceptedBy, hdec, Option.toList_none, List.append_nil, apply]
      rw [← ratchet_decrypt, hdec] at hfail
      exact ⟨ikm, parity, sent, spent, hfail, hmessages⟩
    · obtain ⟨r, hr, rfl⟩ := decrypt_ok_cases hdec
      obtain ⟨k, hk, hnew⟩ := hok p r hr
      simp only [usedBy, acceptedBy, hdec, Option.toList_some, apply]
      refine ⟨ikm, parity, sent, spent ++ [k], hnew, ?_⟩
      intro m' hm'
      rcases List.mem_append.mp hm' with hold | hlast
      · obtain ⟨k', hk', hkey⟩ := hmessages m' hold
        exact ⟨k', by simp at hk' ⊢; tauto, hkey⟩
      · rw [List.mem_singleton.mp hlast]
        exact ⟨k, by simp, hk⟩

theorem Forgot.run (h : s.Forgot messages) (ops : List (Op P.free)) (hintact : s.Intact ops) :
    (s.run ops).2.Forgot (messages ++ s.used ops) := by
  induction ops generalizing messages s with
  | nil =>
    rw [used, List.append_nil]
    exact h
  | cons op ops ih =>
    rw [used, ← List.append_assoc]
    exact ih (h.step hintact.1) hintact.2

/-- **Forward secrecy of the session state.**  At every point of a run in which no
    skip is cut off by the full cache, the key of no message encrypted or accepted
    so far can be computed from the state. -/
theorem forward_secrecy (h : Established messages s) (ops : List (Op P.free))
    (hintact : s.Intact ops) {m : Message (CipherTerm P.Shared)}
    (hm : m ∈ messages ++ s.used ops) {k : P.free.Key} (hk : m.ciphertext.key? = some k) :
    ¬ (s.run ops).2.ratchet.Exposes k := by
  obtain ⟨ikm, parity, sent, spent, hforgot, hmessages⟩ := (Forgot.established h).run ops hintact
  obtain ⟨k', hk', hkey⟩ := hmessages m hm
  cases hk.symm.trans hkey
  exact hforgot.not_exposes hk'

/-- Bob's session after five forged headers accepts a message of Alice from the
    cache, and its receiving chain still leads to the key. -/
theorem exposed_after_cut_off :
    ¬ ∀ (first : List (Message (CipherTerm Suite.sample.Shared))) (s : Session Suite.sample.free)
      (ops : List (Op Suite.sample.free)), Established first s →
        ∀ m ∈ first ++ s.used ops, ∀ k : Suite.sample.free.Key, m.ciphertext.key? = some k →
          ¬ (s.run ops).2.ratchet.Exposes k := by
  intro hall
  obtain ⟨t, base, r, hest, hcut⟩ := cut_off_talk
  obtain ⟨m, _, _, hheader, hcipher, hok, _⟩ :=
    hcut.accepts sample_lawful.free (by decide) [3] (freeSecret 71)
  have hkey : m.ciphertext.key? = some (messageKeyAt Suite.sample.free base 4003) := by
    rw [hcipher, Suite.free_aeadSeal_key?]
  apply hall [t.first] t.bob
    (forgedHeaders t.alice.ratchet.dhSelfPub ++ [.decrypt (freeSecret 71) m]) hest m ?_ _ hkey
  · -- taking a key from the cache leaves the receiving chain where it is
    apply DoubleRatchet.Exposes.messageKey
    apply DoubleRatchet.Exposes.stored
    apply DoubleRatchet.Stores.recv
    have hslot : (t.bob.run (forgedHeaders t.alice.ratchet.dhSelfPub)).2.ratchet.skipped[
        (m.header.dhPub, m.header.n)]? = some (messageKeyAt Suite.sample.free base 4003) := by
      rw [hcut.cut, hheader]
      exact hcut.filled.cut_slot (by decide)
    rw [run_append]
    simp only [run, apply, ratchet_decrypt, DoubleRatchet.decrypt_cached hslot]
    rw [hcut.cut]
    exact hcut.filled.recv
  · rw [used_append]
    apply List.mem_append_right
    apply List.mem_append_right
    apply List.mem_append_left
    rw [usedBy, acceptedBy, hok]
    exact List.mem_singleton.mpr rfl

/-- Bob's session with Alice's first two messages: their keys are gone. -/
theorem forward_secrecy_sample :
    ∃ (t : Talk Suite.sample.free) (k k' : Suite.sample.free.Key), freeTalk = some t ∧
      t.first.ciphertext.key? = some k ∧ t.second.ciphertext.key? = some k' ∧
      ¬ (t.bob.run [.decrypt (freeSecret 71) t.second]).2.ratchet.Exposes k ∧
      ¬ (t.bob.run [.decrypt (freeSecret 71) t.second]).2.ratchet.Exposes k' := by
  have hany : (freeTalk.any fun t => decide (t.bob.ratchet.skipped.isEmpty = true ∧
      t.bob.ratchet.dhRemote = some t.second.header.dhPub ∧
      t.first.ciphertext.key?.isSome = true ∧ t.second.ciphertext.key?.isSome = true ∧
      t.bob.used [.decrypt (freeSecret 71) t.second] = [t.second])) = true := by
    decide +kernel
  obtain ⟨t, ht, hfacts⟩ := (Option.any_eq_true _ _).mp hany
  obtain ⟨hempty, hremote, hfirst, hsecond, hused⟩ := of_decide_eq_true hfacts
  obtain ⟨k, hk⟩ := Option.isSome_iff_exists.mp hfirst
  obtain ⟨k', hk'⟩ := Option.isSome_iff_exists.mp hsecond
  have hest := talk_established ht
  have hintact := intact_single (freeSecret 71) hempty hremote
  refine ⟨t, k, k', ht, hk, hk', ?_, ?_⟩
  · exact forward_secrecy hest _ hintact (m := t.first) (by simp) hk
  · exact forward_secrecy hest _ hintact (m := t.second) (by simp [hused]) hk'

end Session

end Clarity
