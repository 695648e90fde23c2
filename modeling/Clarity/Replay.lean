/-
  Clarity/Replay.lean
  ===================
  **No message is accepted twice — unless the skip loop is cut off.**

  A message key is spent when a message opens under it.  `Unspent` says that a
  spent key is gone for good: it lies behind the receiving chain and is not in
  the cache, and no two cache slots hold the same key.  Every part of `decrypt`
  keeps this, with one exception.  When the cache fills up in the middle of
  `skip_message_keys`, the early return keeps the keys stored so far but leaves
  the chain key where it was, so that those keys can be derived once more.

    * `Session.accepted_once` — in every run in which no skip is cut off, no
      message is accepted twice;
    * `Session.accepted_twice_after_cut_off` — after a cut-off skip a genuine
      message is accepted from the cache and then again from the chain.
-/
import Clarity.KeyUse
import Clarity.SessionSpec
import Clarity.Sample
import Mathlib.Data.List.Nodup

namespace Clarity

variable {C : Type} {P : Suite C} [DecidableEq P.Shared]

/-! ## 1. Spent keys -/

namespace DoubleRatchet

/-- The receiving side of `r` has moved past the key `k`. -/
def Passed (r : DoubleRatchet P.free) (k : P.free.Key) : Prop :=
  (KeyTerm.msgPos k).1 + 1 < KeyTerm.rootDepth r.rootKey ∨
    ∃ ck, r.chainRecv = some ck ∧ (KeyTerm.msgPos k).1 = (KeyTerm.chainPos ck).1 ∧
      (KeyTerm.msgPos k).2 < (KeyTerm.chainPos ck).2

/-- The keys in `spent` cannot be used again, and no cached key is stored twice. -/
structure Unspent (spent : List P.free.Key) (r : DoubleRatchet P.free) : Prop where
  recv : ∀ ck, r.chainRecv = some ck →
    (KeyTerm.chainPos ck).1 + 1 = KeyTerm.rootDepth r.rootKey
  nodup : spent.Nodup
  spent_passed : ∀ k ∈ spent, r.Passed k
  cached : ∀ (slot : Bytes32 × UInt32) (k : P.free.Key), r.skipped[slot]? = some k →
    r.Passed k ∧ k ∉ spent
  cached_inj : ∀ (slot slot' : Bytes32 × UInt32) (k : P.free.Key), r.skipped[slot]? = some k →
    r.skipped[slot']? = some k → slot = slot'

namespace Unspent

variable {spent : List P.free.Key} {r : DoubleRatchet P.free}

theorem init (hrecv : r.chainRecv = none) (hcache : r.skipped = ∅) : Unspent [] r where
  recv := by
    intro ck hck
    rw [hrecv] at hck
    cases hck
  nodup := List.nodup_nil
  spent_passed := by
    intro k hk
    cases hk
  cached := by
    intro slot k hk
    simp [hcache] at hk
  cached_inj := by
    intro slot slot' k hk
    simp [hcache] at hk

/-- The next key of the receiving chain is neither spent nor cached. -/
theorem not_passed_next (h : Unspent spent r) {ck : P.free.Key} (hck : r.chainRecv = some ck) :
    ¬ r.Passed (P.free.kdfCk ck).2 := by
  have hturn := h.recv ck hck
  rintro (hlt | ⟨ck', hck', _, hlt⟩)
  · rw [msgPos_kdfCk] at hlt
    omega
  · rw [hck] at hck'
    cases hck'
    rw [msgPos_kdfCk] at hlt
    omega

theorem drop (h : Unspent spent r) (slot : Bytes32 × UInt32) :
    Unspent spent { r with skipped := r.skipped.erase slot } where
  recv := h.recv
  nodup := h.nodup
  spent_passed := h.spent_passed
  cached := by
    intro slot' k hk
    simp only [Std.ExtTreeMap.getElem?_erase] at hk
    split at hk
    · cases hk
    · exact h.cached slot' k hk
  cached_inj := by
    intro slot' slot'' k hk' hk''
    simp only [Std.ExtTreeMap.getElem?_erase] at hk' hk''
    split at hk'
    · cases hk'
    · split at hk''
      · cases hk''
      · exact h.cached_inj slot' slot'' k hk' hk''

/-- Taking a cached key spends it. -/
theorem take (h : Unspent spent r) {slot : Bytes32 × UInt32} {k : P.free.Key}
    (hk : r.skipped[slot]? = some k) :
    Unspent (spent ++ [k]) { r with skipped := r.skipped.erase slot } where
  recv := h.recv
  nodup := by
    rw [List.nodup_append]
    refine ⟨h.nodup, by simp, ?_⟩
    intro k' hk' k'' hk'' heq
    rw [List.mem_singleton.mp hk''] at heq
    subst heq
    exact (h.cached slot _ hk).2 hk'
  spent_passed := by
    intro k' hk'
    rcases List.mem_append.mp hk' with hold | hnew
    · exact h.spent_passed k' hold
    · rw [List.mem_singleton.mp hnew]
      exact (h.cached slot k hk).1
  cached := by
    intro slot' k' hk'
    obtain ⟨hpassed, hnot⟩ := (h.drop slot).cached slot' k' hk'
    refine ⟨hpassed, ?_⟩
    intro hmem
    rcases List.mem_append.mp hmem with hold | hnew
    · exact hnot hold
    · -- the same key in another slot
      rw [List.mem_singleton.mp hnew] at hk'
      simp only [Std.ExtTreeMap.getElem?_erase] at hk'
      split at hk'
      · cases hk'
      · rename_i hne
        exact hne (by rw [h.cached_inj slot slot' k hk hk']; exact Std.ReflCmp.compare_self)
  cached_inj := (h.drop slot).cached_inj

theorem passed_advanced {ck : P.free.Key} (hck : r.chainRecv = some ck) {remote : Bytes32}
    {n : Nat} {k : P.free.Key} (h : r.Passed k) : (r.advanced remote ck n).Passed k := by
  rcases h with hlt | ⟨ck', hck', hturn, hlt⟩
  · exact Or.inl hlt
  · rw [hck] at hck'
    cases hck'
    refine Or.inr ⟨_, rfl, ?_, ?_⟩
    · rw [chainPos_chainKeyAt]
      exact hturn
    · rw [chainPos_chainKeyAt]
      exact Nat.lt_add_right n hlt

/-- The keys a completed skip stores are new: they sit between the old and the
    new place of the receiving chain. -/
theorem advanced (h : Unspent spent r) {remote : Bytes32} {ck : P.free.Key}
    (hck : r.chainRecv = some ck) {n : Nat} (hn : n ≤ 2 ^ 32) :
    Unspent spent (r.advanced remote ck n) := by
  have hlookup (slot : Bytes32 × UInt32) :
      (r.advanced remote ck n).skipped[slot]? =
        if slot.1 = remote ∧ (slot.2 - r.nRecv).toNat < n then
          some (messageKeyAt P.free ck (slot.2 - r.nRecv).toNat)
        else r.skipped[slot]? :=
    getElem?_cacheKeys P.free remote n ck r.nRecv r.skipped hn slot.1 slot.2
  -- a key of the chain from here on is not behind the chain
  have hnew (i : Nat) : ¬ r.Passed (messageKeyAt P.free ck i) := by
    have hturn := h.recv ck hck
    rintro (hlt | ⟨ck', hck', _, hlt⟩)
    · rw [msgPos_messageKeyAt] at hlt
      dsimp only at hlt
      omega
    · rw [hck] at hck'
      cases hck'
      rw [msgPos_messageKeyAt] at hlt
      dsimp only at hlt
      omega
  refine ⟨?_, h.nodup, fun k hk => passed_advanced hck (h.spent_passed k hk), ?_, ?_⟩
  · intro ck' hck'
    cases hck'
    rw [chainPos_chainKeyAt]
    exact h.recv ck hck
  · intro slot k hk
    rw [hlookup] at hk
    by_cases hslot : slot.1 = remote ∧ (slot.2 - r.nRecv).toNat < n
    · rw [if_pos hslot] at hk
      cases hk
      refine ⟨Or.inr ⟨_, rfl, ?_, ?_⟩, fun hmem => hnew _ (h.spent_passed _ hmem)⟩
      · rw [msgPos_messageKeyAt, chainPos_chainKeyAt]
      · rw [msgPos_messageKeyAt, chainPos_chainKeyAt]
        exact Nat.add_lt_add_left hslot.2 _
    · rw [if_neg hslot] at hk
      obtain ⟨hpassed, hnot⟩ := h.cached slot k hk
      exact ⟨passed_advanced hck hpassed, hnot⟩
  · intro slot slot' k hk hk'
    rw [hlookup] at hk hk'
    by_cases hslot : slot.1 = remote ∧ (slot.2 - r.nRecv).toNat < n
    · rw [if_pos hslot] at hk
      cases hk
      by_cases hslot' : slot'.1 = remote ∧ (slot'.2 - r.nRecv).toNat < n
      · rw [if_pos hslot'] at hk'
        have hpos := congrArg KeyTerm.msgPos (Option.some.inj hk')
        rw [msgPos_messageKeyAt, msgPos_messageKeyAt] at hpos
        have hidx := Nat.add_left_cancel (Prod.mk.inj hpos).2
        have hnum : slot'.2 = slot.2 := by
          rw [← UInt32.sub_add_cancel slot'.2 r.nRecv, UInt32.toNat.inj hidx,
            UInt32.sub_add_cancel]
        exact Prod.ext (hslot.1.trans hslot'.1.symm) hnum.symm
      · rw [if_neg hslot'] at hk'
        exact absurd (h.cached slot' _ hk').1 (hnew _)
    · rw [if_neg hslot] at hk
      by_cases hslot' : slot'.1 = remote ∧ (slot'.2 - r.nRecv).toNat < n
      · rw [if_pos hslot'] at hk'
        cases hk'
        exact absurd (h.cached slot _ hk).1 (hnew _)
      · rw [if_neg hslot'] at hk'
        exact h.cached_inj slot slot' k hk hk'

theorem skipMessageKeys (h : Unspent spent r) {upTo : UInt32} (hcut : ¬ r.CutOff upTo) :
    Unspent spent (r.skipMessageKeys upTo).2 := by
  rcases skipMessageKeys_cases r upTo with ⟨_, hs⟩ | ⟨_, hs⟩ |
      ⟨ck, remote, hck, hrem, hle, hgap, hs | ⟨k, hpos, hk, hfull, hs⟩⟩
  · rw [hs]; exact h
  · rw [hs]; exact h
  · rw [hs]
    exact h.advanced hck (Nat.le_of_lt (UInt32.toNat_lt _))
  · exact absurd ⟨ck, remote, k, hck, hrem, hle, hgap, hpos, hk, hfull⟩ hcut

theorem dhRatchet (h : Unspent spent r) (fresh : P.free.Secret) (pub : Bytes32) :
    Unspent spent (r.dhRatchet fresh pub) := by
  have hpassed (k : P.free.Key) (hk : r.Passed k) : (r.dhRatchet fresh pub).Passed k := by
    refine Or.inl ?_
    show (KeyTerm.msgPos k).1 + 1 < KeyTerm.rootDepth r.rootKey + 1 + 1
    rcases hk with hlt | ⟨ck, hck, hturn, _⟩
    · omega
    · have := h.recv ck hck
      omega
  refine ⟨?_, h.nodup, fun k hk => hpassed k (h.spent_passed k hk), ?_, h.cached_inj⟩
  · intro ck hck
    cases hck
    rfl
  · intro slot k hk
    obtain ⟨hp, hnot⟩ := h.cached slot k hk
    exact ⟨hpassed k hp, hnot⟩

/-- One step along the receiving chain. -/
theorem step (h : Unspent spent r) {ck : P.free.Key} (hck : r.chainRecv = some ck) :
    Unspent spent { r with chainRecv := some (P.free.kdfCk ck).1, nRecv := r.nRecv + 1 } ∧
      Unspent (spent ++ [(P.free.kdfCk ck).2])
        { r with chainRecv := some (P.free.kdfCk ck).1, nRecv := r.nRecv + 1 } := by
  have hpassed (k : P.free.Key) (hk : r.Passed k) : Passed
      { r with chainRecv := some (P.free.kdfCk ck).1, nRecv := r.nRecv + 1 } k := by
    rcases hk with hlt | ⟨ck', hck', hturn, hlt⟩
    · exact Or.inl hlt
    · rw [hck] at hck'
      cases hck'
      exact Or.inr ⟨_, rfl, hturn, Nat.lt_succ_of_lt hlt⟩
  have hnext := h.not_passed_next hck
  have hfirst : Unspent spent
      { r with chainRecv := some (P.free.kdfCk ck).1, nRecv := r.nRecv + 1 } := by
    refine ⟨?_, h.nodup, fun k hk => hpassed k (h.spent_passed k hk), ?_, h.cached_inj⟩
    · intro ck' hck'
      cases hck'
      exact h.recv ck hck
    · intro slot k hk
      obtain ⟨hp, hnot⟩ := h.cached slot k hk
      exact ⟨hpassed k hp, hnot⟩
  refine ⟨hfirst, hfirst.recv, ?_, ?_, ?_, h.cached_inj⟩
  · rw [List.nodup_append]
    refine ⟨h.nodup, by simp, ?_⟩
    intro k hk k' hk' heq
    rw [List.mem_singleton.mp hk'] at heq
    subst heq
    exact hnext (h.spent_passed _ hk)
  · intro k hk
    rcases List.mem_append.mp hk with hold | hnew
    · exact hpassed k (h.spent_passed k hold)
    · rw [List.mem_singleton.mp hnew]
      exact Or.inr ⟨_, rfl, rfl, Nat.lt_succ_self _⟩
  · intro slot k hk
    obtain ⟨hp, hnot⟩ := h.cached slot k hk
    refine ⟨hpassed k hp, ?_⟩
    intro hmem
    rcases List.mem_append.mp hmem with hold | hnew
    · exact hnot hold
    · rw [List.mem_singleton.mp hnew] at hp
      exact hnext hp

theorem openNext (h : Unspent spent r) (ciphertext : CipherTerm P.Shared) (ad : Bytes) :
    Unspent spent (r.openNext ciphertext ad).2 := by
  unfold DoubleRatchet.openNext
  cases hck : r.chainRecv with
  | none => exact h
  | some ck => exact (h.step hck).1

/-- A call without a cut-off skip spends nothing if it fails, and exactly the key
    of the ciphertext if it succeeds. -/
theorem decrypt (h : Unspent spent r) {fresh : P.free.Secret} {header : RatchetHeader}
    (hintact : r.SkipsMeet (fun r upTo => ¬ r.CutOff upTo) fresh header)
    (ciphertext : CipherTerm P.Shared) (adPrefix : Bytes) :
    Unspent spent (r.decrypt fresh header ciphertext adPrefix).2 ∧
      ∀ p r', r.decrypt fresh header ciphertext adPrefix = (.ok p, r') →
        ∃ k : P.free.Key, ciphertext.key? = some k ∧ Unspent (spent ++ [k]) r' := by
  refine ⟨decrypt_preserves_of (Unspent spent) (fun r upTo => ¬ r.CutOff upTo)
    (fun _ slot h => h.drop slot) (fun _ _ hcut h => h.skipMessageKeys hcut)
    (fun _ fresh pub h => h.dhRatchet fresh pub) (fun _ c ad h => h.openNext c ad) h hintact ciphertext adPrefix, ?_⟩
  intro p r' hok
  rcases decrypt_ok_cases hok with ⟨k, hk, hopen, rfl⟩ |
      ⟨hnone, r1, r2, ck, hfollow, hskip, hck, hopen, rfl⟩
  · exact ⟨k, Suite.free_key?_of_open hopen, h.take hk⟩
  · obtain ⟨hfirst, hsecond⟩ := hintact hnone
    have h1 : Unspent spent r1 := by
      have := followRemote_preserves (Unspent spent) (fun r upTo => ¬ r.CutOff upTo)
        (fun _ _ hcut h => h.skipMessageKeys hcut) (fun _ fresh pub h => h.dhRatchet fresh pub)
        h fresh hfirst
      rwa [hfollow] at this
    have h2 : Unspent spent r2 := by
      have := h1.skipMessageKeys (hsecond r1 hfollow)
      rwa [hskip] at this
    exact ⟨(P.free.kdfCk ck).2, Suite.free_key?_of_open hopen, (h2.step hck).2⟩

/-- The responder's first message: its key is the first one spent. -/
theorem initResponder {root : P.free.Key} {spk fresh : P.free.Secret} {header : RatchetHeader}
    {c : CipherTerm P.Shared} {adPrefix p : Bytes} {r : DoubleRatchet P.free}
    (hdec : (DoubleRatchet.initResponder root spk).decrypt fresh header c adPrefix = (.ok p, r)) :
    ∃ k : P.free.Key, c.key? = some k ∧ Unspent [k] r := by
  have hinit : (DoubleRatchet.initResponder root spk).Unspent [] := .init rfl rfl
  -- a fresh responder has an empty cache, so no skip can be cut off
  have hintact : (DoubleRatchet.initResponder root spk).SkipsMeet
      (fun r upTo => ¬ r.CutOff upTo) fresh header := by
    intro _
    refine ⟨fun _ => DoubleRatchet.not_cutOff_of_room (by simp [DoubleRatchet.initResponder,
      MAX_SKIPPED_CACHE]) _, ?_⟩
    intro r1 hr1
    cases hr1
    exact DoubleRatchet.not_cutOff_of_room (by simp [DoubleRatchet.initResponder,
      DoubleRatchet.dhRatchet, MAX_SKIPPED_CACHE]) _
  exact (hinit.decrypt hintact c adPrefix).2 p r hdec

theorem encrypt (h : Unspent spent r) (plaintext adPrefix : Bytes) :
    Unspent spent (r.encrypt plaintext adPrefix).2 := by
  unfold DoubleRatchet.encrypt
  cases r.chainSend with
  | none => exact h
  | some ck => exact ⟨h.recv, h.nodup, h.spent_passed, h.cached, h.cached_inj⟩

end Unspent

end DoubleRatchet

/-! ## 2. Runs of a session -/

namespace Session

section Runs

variable {P : Suite C}

/-- The message the call accepted, if it accepted one. -/
def acceptedBy (s : Session P) : Op P → Option (Message C)
  | .encrypt _ => none
  | .decrypt fresh m =>
    match (s.decrypt fresh m).1 with
    | .ok _ => some m
    | .error _ => none

/-- The messages accepted over a run, in order. -/
def accepted (s : Session P) : List (Op P) → List (Message C)
  | [] => []
  | op :: ops => (s.acceptedBy op).toList ++ (s.apply op).2.accepted ops

/-- No `skip_message_keys` call of the run stores part of its keys and then finds
    the cache full. -/
def Intact (s : Session P) : List (Op P) → Prop
  | [] => True
  | op :: ops =>
    (∀ fresh m, op = .decrypt fresh m →
      s.ratchet.SkipsMeet (fun r upTo => ¬ r.CutOff upTo) fresh m.header) ∧
    (s.apply op).2.Intact ops

/-- A session fresh from the API, with the message it was opened by on the
    responder's side. -/
inductive Established : List (Message C) → Session P → Prop where
  | initiated {me : Account P} {bundle : PreKeyBundle} {rnd : InitiateRandom P} {s : Session P} :
      initiate me bundle rnd = .ok s → Established [] s
  | responded {me me' : Account P} {fresh : P.Secret} {m : Message C} {s : Session P} {p : Bytes} :
      respond me fresh m = (.ok (s, p), me') → Established [m] s

end Runs

/-- The keys of the accepted messages are spent. -/
def Spent (messages : List (Message (CipherTerm P.Shared))) (s : Session P.free) : Prop :=
  ∃ keys : List (KeyTerm P.Shared),
    messages.map (fun m => m.ciphertext.key?) = keys.map some ∧ s.ratchet.Unspent keys

theorem Spent.concat {messages : List (Message (CipherTerm P.Shared))} {s : Session P.free}
    {keys : List (KeyTerm P.Shared)}
    (hkeys : messages.map (fun m => m.ciphertext.key?) = keys.map some)
    {m : Message (CipherTerm P.Shared)} {k : KeyTerm P.Shared} (hk : m.ciphertext.key? = some k)
    (h : s.ratchet.Unspent (keys ++ [k])) : s.Spent (messages ++ [m]) :=
  ⟨keys ++ [k], by
    rw [List.map_append, List.map_append, hkeys, List.map_singleton, List.map_singleton, hk], h⟩

theorem Spent.established {first : List (Message (CipherTerm P.Shared))} {s : Session P.free}
    (h : Established first s) : s.Spent first := by
  cases h with
  | initiated hinit =>
    obtain ⟨_, root, hs, spk, _, rfl⟩ := initiate_ok_cases hinit
    exact ⟨[], rfl, DoubleRatchet.Unspent.init rfl rfl⟩
  | @responded me me' fresh m _ p hresp =>
    obtain ⟨hs, header, c, root, spk, r, rfl, _, _, hdec, rfl⟩ := respond_ok_cases hresp
    obtain ⟨k, hk, hunspent⟩ := DoubleRatchet.Unspent.initResponder hdec
    exact ⟨[k], congrArg (fun key => [key]) hk, hunspent⟩

theorem Spent.step {messages : List (Message (CipherTerm P.Shared))} {s : Session P.free}
    (h : s.Spent messages) {op : Op P.free}
    (hintact : ∀ fresh m, op = .decrypt fresh m →
      s.ratchet.SkipsMeet (fun r upTo => ¬ r.CutOff upTo) fresh m.header) :
    (s.apply op).2.Spent (messages ++ (s.acceptedBy op).toList) := by
  obtain ⟨keys, hkeys, hunspent⟩ := h
  cases op with
  | encrypt plaintext =>
    rw [acceptedBy, Option.toList_none, List.append_nil]
    refine ⟨keys, hkeys, ?_⟩
    rw [apply, ratchet_encrypt]
    exact hunspent.encrypt _ _
  | decrypt fresh m =>
    obtain ⟨hfail, hok⟩ := hunspent.decrypt (hintact fresh m rfl) m.ciphertext s.adPrefix
    rcases hdec : s.decrypt fresh m with ⟨e | p, s'⟩
    · simp only [acceptedBy, hdec, Option.toList_none, List.append_nil, apply]
      refine ⟨keys, hkeys, ?_⟩
      rw [← ratchet_decrypt, hdec] at hfail
      exact hfail
    · obtain ⟨r, hr, rfl⟩ := decrypt_ok_cases hdec
      obtain ⟨k, hk, hunspent'⟩ := hok p r hr
      simp only [acceptedBy, hdec, Option.toList_some, apply]
      exact Spent.concat hkeys hk hunspent'

theorem Spent.run {messages : List (Message (CipherTerm P.Shared))} {s : Session P.free}
    (h : s.Spent messages) (ops : List (Op P.free)) (hintact : s.Intact ops) :
    ∃ s' : Session P.free, s'.Spent (messages ++ s.accepted ops) := by
  induction ops generalizing messages s with
  | nil => exact ⟨s, by rw [accepted, List.append_nil]; exact h⟩
  | cons op ops ih =>
    rw [accepted, ← List.append_assoc]
    exact ih (h.step hintact.1) hintact.2

theorem Spent.nodup {messages : List (Message (CipherTerm P.Shared))} {s : Session P.free}
    (h : s.Spent messages) : (messages.map fun m => (m.header, m.ciphertext)).Nodup := by
  obtain ⟨keys, hkeys, hunspent⟩ := h
  have hnodup : (messages.map fun m => m.ciphertext.key?).Nodup := by
    rw [hkeys]
    exact List.Nodup.map (fun _ _ => Option.some.inj) hunspent.nodup
  refine List.Nodup.of_map (fun hc => hc.2.key?) ?_
  rw [List.map_map]
  exact hnodup

/-- **No message is accepted twice**, counting the one that opened the session,
    in any run in which no skip is cut off by the full cache. -/
theorem accepted_once {first : List (Message (CipherTerm P.Shared))} {s : Session P.free}
    (h : Established first s) (ops : List (Op P.free)) (hintact : s.Intact ops) :
    ((first ++ s.accepted ops).map fun m => (m.header, m.ciphertext)).Nodup := by
  obtain ⟨s', hspent⟩ := (Spent.established h).run ops hintact
  exact hspent.nodup

end Session

/-! ## 3. A cut-off skip

Four messages with large numbers and no valid ciphertext leave 3999 keys in the
cache.  The next one asks for two more: the first is stored, the second finds
the cache full. -/

namespace DoubleRatchet

variable {P : Suite C}

/-- The receiving chain stands `d` steps after `base`, at number `n`; the cache
    holds `m` keys, none of them for a number from `n` on. -/
structure Filled (base : P.Key) (remote : Bytes32) (d n m : Nat) (r : DoubleRatchet P) : Prop where
  recv : r.chainRecv = some (chainKeyAt P base d)
  remote_eq : r.dhRemote = some remote
  count : r.nRecv = UInt32.ofNat n
  size_eq : r.skipped.size = m
  room : ∀ i, n ≤ i → i < 2 ^ 32 → r.skipped[(remote, UInt32.ofNat i)]? = none

variable {base : P.Key} {remote : Bytes32} {d n m : Nat} {r : DoubleRatchet P}

theorem ofNat_sub_ofNat {a b : Nat} (h : a ≤ b) (hb : b < 2 ^ 32) :
    (UInt32.ofNat b - UInt32.ofNat a).toNat = b - a := by
  rw [UInt32.toNat_sub, UInt32.toNat_ofNat', UInt32.toNat_ofNat']
  omega

theorem Filled.gap (h : Filled base remote d n m r) {g : Nat} (hn : n + g < 2 ^ 32) :
    r.gap (UInt32.ofNat (n + g)) = g := by
  unfold DoubleRatchet.gap
  rw [h.count, ofNat_sub_ofNat (Nat.le_add_right n g) hn]
  omega

theorem Filled.le (h : Filled base remote d n m r) {g : Nat} (hn : n + g < 2 ^ 32) :
    r.nRecv ≤ UInt32.ofNat (n + g) := by
  rw [h.count, UInt32.le_iff_toNat_le, UInt32.toNat_ofNat', UInt32.toNat_ofNat']
  omega

/-- The loop stores the next `g` keys. -/
theorem Filled.withCached (h : Filled base remote d n m r) {g : Nat} (hn : n + g < 2 ^ 32) :
    Filled base remote d (n + g) (m + g) (r.withCached remote (chainKeyAt P base d) g) where
  recv := h.recv
  remote_eq := h.remote_eq
  count := by
    show r.nRecv + UInt32.ofNat g = UInt32.ofNat (n + g)
    rw [h.count, UInt32.ofNat_add]
  size_eq := by
    show (cacheKeys P remote g _ r.nRecv r.skipped).size = m + g
    rw [size_cacheKeys P remote g _ _ _ (by omega), h.size_eq]
    intro i hi
    rw [h.count, ← UInt32.ofNat_add]
    exact h.room (n + i) (by omega) (by omega)
  room := by
    intro i hi hlt
    show (cacheKeys P remote g _ r.nRecv r.skipped)[(remote, UInt32.ofNat i)]? = none
    rw [getElem?_cacheKeys P remote g _ _ _ (by omega), if_neg, h.room i (by omega) hlt]
    rintro ⟨_, hidx⟩
    rw [h.count, ofNat_sub_ofNat (by omega) hlt] at hidx
    omega

/-- A message that does not open, `g` numbers ahead, fills the cache. -/
theorem Filled.junk (h : Filled base remote d n m r) {g : Nat} (hg : g ≤ 1000)
    (hm : m + g ≤ MAX_SKIPPED_CACHE) (hn : n + g + 1 < 2 ^ 32) (fresh : P.Secret) (pn : UInt32)
    (c : C) (ad : Bytes) :
    Filled base remote (d + g + 1) (n + g + 1) (m + g)
      (r.decrypt fresh ⟨remote, pn, UInt32.ofNat (n + g)⟩ c ad).2 := by
  have hgap := h.gap (g := g) (by omega)
  have hdec : r.decrypt fresh ⟨remote, pn, UInt32.ofNat (n + g)⟩ c ad = _ :=
    decrypt_on_chain (h.room (n + g) (by omega) (by omega)) h.remote_eq h.recv (h.le (by omega))
      (UInt32.le_iff_toNat_le.mpr (by
        show r.gap (UInt32.ofNat (n + g)) ≤ 1000
        omega)) (by rw [hgap, h.size_eq]; exact hm) fresh c ad
  rw [hgap] at hdec
  have hcached := h.withCached (g := g) (by omega)
  rw [hdec]
  refine ⟨?_, hcached.remote_eq, ?_, hcached.size_eq, ?_⟩
  · show some (chainKeyAt P (chainKeyAt P base d) (g + 1)) = _
    rw [chainKeyAt_add, Nat.add_assoc]
  · show (r.withCached remote (chainKeyAt P base d) g).nRecv + 1 = UInt32.ofNat (n + g + 1)
    rw [hcached.count, UInt32.ofNat_add (n + g) 1]
    rfl
  · intro i hi hlt
    exact hcached.room i (by omega) hlt

/-- With one free slot and two keys to pass, the skip is cut off: the first key
    is in the cache, and the chain has not moved. -/
theorem Filled.cut (h : Filled base remote d n 3999 r) (hn : n + 2 < 2 ^ 32) (fresh : P.Secret)
    (pn : UInt32) (c : C) (ad : Bytes) :
    r.decrypt fresh ⟨remote, pn, UInt32.ofNat (n + 2)⟩ c ad =
      (.error .decrypt, r.withCached remote (chainKeyAt P base d) 1) := by
  have hnone := h.room (n + 2) (by omega) hn
  have hfollow : r.followRemote fresh ⟨remote, pn, UInt32.ofNat (n + 2)⟩ = (.ok (), r) := by
    simp [followRemote, h.remote_eq]
  have hgap := h.gap (g := 2) hn
  unfold DoubleRatchet.gap at hgap
  have hsmall : ¬ UInt32.ofNat (n + 2) - r.nRecv > MAX_SKIP := by
    rw [gt_iff_lt, UInt32.lt_iff_toNat_lt, hgap]
    decide
  have hfull : (r.withCached remote (chainKeyAt P base d) 1).skipped.size = 4000 :=
    (h.withCached (g := 1) (by omega)).size_eq
  have hloop : skipLoop remote 2 (chainKeyAt P base d) r =
      (.error .decrypt, r.withCached remote (chainKeyAt P base d) 1) := by
    rw [skipLoop_succ, if_neg (by rw [h.size_eq]; decide), skipLoop_succ]
    rw [← withCached_succ, withCached_zero] at hfull ⊢
    rw [if_pos (by rw [hfull]; decide)]
  have hskip : r.skipMessageKeys (UInt32.ofNat (n + 2)) =
      (.error .decrypt, r.withCached remote (chainKeyAt P base d) 1) := by
    simp only [skipMessageKeys, h.recv, if_neg (UInt32.not_lt.mpr (h.le (g := 2) hn)),
      if_neg hsmall, h.remote_eq, hgap, hloop, Outcome.andThen_error]
  rw [decrypt_uncached hnone, hfollow, Outcome.andThen_ok, hskip, Outcome.andThen_error]

/-- The key the cut-off skip stored. -/
theorem Filled.cut_slot (h : Filled base remote d n m r) (hn : n + 1 < 2 ^ 32) :
    (r.withCached remote (chainKeyAt P base d) 1).skipped[(remote, UInt32.ofNat n)]? =
      some (messageKeyAt P base d) := by
  show (cacheKeys P remote 1 _ r.nRecv r.skipped)[(remote, UInt32.ofNat n)]? = _
  rw [getElem?_cacheKeys P remote 1 _ _ _ (by omega), h.count, ofNat_sub_ofNat (Nat.le_refl n)
    (by omega), Nat.sub_self, if_pos ⟨rfl, Nat.one_pos⟩]
  rfl

/-- Message `n` after the cut: accepted from the cache, and then from the chain. -/
theorem Filled.opens_twice (hP : P.Lawful) (h : Filled base remote d n m r) (hn : n + 1 < 2 ^ 32)
    (fresh : P.Secret) (pn : UInt32) (p ad : Bytes) :
    let header : RatchetHeader := ⟨remote, pn, UInt32.ofNat n⟩
    let c := P.aeadSeal (messageKeyAt P base d) p (associatedData ad header)
    let cut := r.withCached remote (chainKeyAt P base d) 1
    (cut.decrypt fresh header c ad).1 = .ok p ∧
      ((cut.decrypt fresh header c ad).2.decrypt fresh header c ad).1 = .ok p := by
  intro header c cut
  have hslot : cut.skipped[(header.dhPub, header.n)]? = some (messageKeyAt P base d) :=
    h.cut_slot hn
  rw [decrypt_cached hslot]
  refine ⟨hP.aeadOpen_aeadSeal _ _ _, ?_⟩
  -- now the slot is empty, the number lies behind the counter, and the chain has not moved
  have hempty : ({ cut with skipped := cut.skipped.erase (header.dhPub, header.n) } :
      DoubleRatchet P).skipped[(header.dhPub, header.n)]? = none := by
    simp
  have hbehind : UInt32.ofNat n < cut.nRecv := by
    show UInt32.ofNat n < r.nRecv + UInt32.ofNat 1
    rw [h.count, ← UInt32.ofNat_add, UInt32.lt_iff_toNat_lt, UInt32.toNat_ofNat',
      UInt32.toNat_ofNat']
    omega
  have hchain : cut.chainRecv = some (chainKeyAt P base d) := h.recv
  have hremote : cut.dhRemote = some remote := h.remote_eq
  rw [decrypt_uncached hempty]
  simp only [followRemote, hremote, header, ne_eq, not_true_eq_false, if_false, Outcome.andThen_ok,
    skipMessageKeys, hchain, if_pos hbehind, openNext]
  exact hP.aeadOpen_aeadSeal _ _ _

end DoubleRatchet

namespace Session

variable {P : Suite C}

theorem run_append (s : Session P) (ops ops' : List (Op P)) :
    s.run (ops ++ ops') = ((s.run ops).1 ++ ((s.run ops).2.run ops').1,
      ((s.run ops).2.run ops').2) := by
  induction ops generalizing s with
  | nil => rfl
  | cons op ops ih =>
    simp only [List.cons_append, run, ih]

theorem accepted_append (s : Session P) (ops ops' : List (Op P)) :
    s.accepted (ops ++ ops') = s.accepted ops ++ (s.run ops).2.accepted ops' := by
  induction ops generalizing s with
  | nil => rfl
  | cons op ops ih =>
    rw [List.cons_append, accepted, accepted, ih, List.append_assoc]
    rfl

/-- A run of `encrypt` calls walks along the sending chain. -/
theorem run_replicate_encrypt (s : Session P) (p : Bytes) {a : P.Key}
    (ha : s.ratchet.chainSend = some a) (k : Nat) :
    (s.run (List.replicate k (.encrypt p))).2 =
      { s with ratchet := { s.ratchet with
          chainSend := some (chainKeyAt P a k), nSend := s.ratchet.nSend + UInt32.ofNat k } } := by
  induction k generalizing s a with
  | zero =>
    obtain ⟨r, ad, hs⟩ := s
    obtain ⟨rootKey, dhSelf, dhSelfPub, dhRemote, chainSend, chainRecv, nSend, nRecv, pn, skipped⟩ := r
    cases ha
    simp [run]
  | succ k ih =>
    have hstep : (s.encrypt p).2 = { s with ratchet := { s.ratchet with
        chainSend := some (P.kdfCk a).1, nSend := s.ratchet.nSend + 1 } } := by
      simp [encrypt, DoubleRatchet.encrypt, ha]
    have hcount : s.ratchet.nSend + 1 + UInt32.ofNat k = s.ratchet.nSend + UInt32.ofNat (k + 1) := by
      rw [UInt32.add_assoc, UInt32.ofNat_add, UInt32.add_comm 1]
      rfl
    simp only [List.replicate_succ, run, apply]
    rw [ih _ (a := (P.kdfCk a).1) (by rw [hstep]), hstep]
    simp only [hcount, chainKeyAt_succ]

theorem talk_established {alice bob : Account P} {rnd : InitiateRandom P} {fresh : P.Secret}
    {t : Talk P} (h : talk alice bob rnd fresh = some t) : Established [t.first] t.bob := by
  simp only [talk, Option.bind_eq_bind, Option.bind_eq_some_iff] at h
  obtain ⟨_, _, ⟨_, _⟩, _, ⟨_, _⟩, _, ⟨⟨_, _⟩, _⟩, hrespond, ht⟩ := h
  cases ht
  exact .responded (Outcome.toOption_eq_some_iff.mp hrespond)

/-- A message with number `n` on the chain of `remote` that opens under no key. -/
def junk (remote : Bytes32) (n : Nat) : Op Suite.sample.free :=
  .decrypt (freeSecret 71) (.normal ⟨remote, 0, UInt32.ofNat n⟩ (.raw []))

theorem apply_junk (s : Session Suite.sample.free) (remote : Bytes32) (n : Nat) :
    (s.apply (junk remote n)).2.ratchet = (s.ratchet.decrypt (freeSecret 71)
        ⟨remote, 0, UInt32.ofNat n⟩ (.raw []) s.adPrefix).2 ∧
      (s.apply (junk remote n)).2.adPrefix = s.adPrefix :=
  ⟨ratchet_decrypt _ _ _, adPrefix_decrypt _ _ _⟩

def forgedHeaders (remote : Bytes32) : List (Op Suite.sample.free) :=
  [junk remote 1001, junk remote 2002, junk remote 3003, junk remote 4003, junk remote 4006]

/-- Five forged headers bring Bob's session into the state after a cut-off skip. -/
theorem run_junk {s : Session Suite.sample.free} {base : Suite.sample.free.Key} {remote : Bytes32}
    (h : s.ratchet.Filled base remote 0 1 0) :
    ∃ r : DoubleRatchet Suite.sample.free, r.Filled base remote 4003 4004 3999 ∧
      (s.run (forgedHeaders remote)).2.ratchet =
        r.withCached remote (chainKeyAt _ base 4003) 1 ∧
      (s.run (forgedHeaders remote)).2.adPrefix = s.adPrefix := by
  have h1 := h.junk (g := 1000) (by decide) (by decide) (by decide) (freeSecret 71) 0 (.raw [])
    s.adPrefix
  have h2 := h1.junk (g := 1000) (by decide) (by decide) (by decide) (freeSecret 71) 0 (.raw [])
    s.adPrefix
  have h3 := h2.junk (g := 1000) (by decide) (by decide) (by decide) (freeSecret 71) 0 (.raw [])
    s.adPrefix
  have h4 := h3.junk (g := 999) (by decide) (by decide) (by decide) (freeSecret 71) 0 (.raw [])
    s.adPrefix
  refine ⟨_, h4, ?_, ?_⟩
  · simp only [forgedHeaders, run, apply_junk]
    rw [show UInt32.ofNat 4006 = UInt32.ofNat (4004 + 2) from rfl]
    exact congrArg Prod.snd (h4.cut (by decide) (freeSecret 71) 0 (.raw []) s.adPrefix)
  · simp only [forgedHeaders, run, apply_junk]

/-- The next message of `a` is the one whose key a cut-off skip of `b` stored. -/
structure CutOffBetween (a b : Session P) (base : P.Key) (remote : Bytes32) (d n m : Nat)
    (r : DoubleRatchet P) : Prop where
  filled : r.Filled base remote d n m
  send : a.ratchet.chainSend = some (chainKeyAt P base d)
  nSend : a.ratchet.nSend = UInt32.ofNat n
  pub : a.ratchet.dhSelfPub = remote
  cut : b.ratchet = r.withCached remote (chainKeyAt P base d) 1
  adPrefix_eq : b.adPrefix = a.adPrefix

/-- That message is accepted from the cache, and then from the chain. -/
theorem CutOffBetween.accepts (hP : P.Lawful) {a b : Session P} {base : P.Key} {remote : Bytes32}
    {d n m : Nat} {r : DoubleRatchet P} (h : CutOffBetween a b base remote d n m r)
    (hn : n + 1 < 2 ^ 32) (p : Bytes) (fresh : P.Secret) :
    ∃ msg s', a.encrypt p = (.ok msg, s') ∧
      msg.header = ⟨remote, a.ratchet.pn, UInt32.ofNat n⟩ ∧
      msg.ciphertext = P.aeadSeal (messageKeyAt P base d) p
        (associatedData a.adPrefix ⟨remote, a.ratchet.pn, UInt32.ofNat n⟩) ∧
      (b.decrypt fresh msg).1 = .ok p ∧
      ((b.decrypt fresh msg).2.decrypt fresh msg).1 = .ok p := by
  obtain ⟨msg, s', henc, hheader, hcipher⟩ := encrypt_of_chain h.send p
  rw [h.nSend, h.pub] at hheader
  rw [hheader] at hcipher
  obtain ⟨hfirst, hsecond⟩ := h.filled.opens_twice hP hn fresh a.ratchet.pn p a.adPrefix
  refine ⟨msg, s', henc, hheader, hcipher, ?_, ?_⟩
  · rw [result_decrypt, h.cut, h.adPrefix_eq, hheader, hcipher]
    exact hfirst
  · rw [result_decrypt, ratchet_decrypt, adPrefix_decrypt, h.cut, h.adPrefix_eq, hheader, hcipher]
    exact hsecond

/-- Alice sends 4002 messages more, and five forged headers reach Bob. -/
theorem cut_off_talk : ∃ (t : Talk Suite.sample.free) (base : Suite.sample.free.Key)
    (r : DoubleRatchet Suite.sample.free), Established [t.first] t.bob ∧
      CutOffBetween (t.alice.run (List.replicate 4002 (.encrypt [3]))).2
        (t.bob.run (forgedHeaders t.alice.ratchet.dhSelfPub)).2 base t.alice.ratchet.dhSelfPub
        4003 4004 3999 r := by
  have hany : (freeTalk.any fun t => decide (t.bob.ratchet.chainRecv.isSome = true ∧
      t.alice.ratchet.chainSend =
        t.bob.ratchet.chainRecv.map (fun ck => (Suite.sample.free.kdfCk ck).1) ∧
      t.bob.ratchet.dhRemote = some t.alice.ratchet.dhSelfPub ∧ t.bob.ratchet.nRecv = 1 ∧
      t.bob.ratchet.skipped.isEmpty = true ∧ t.alice.ratchet.nSend = 2 ∧
      t.alice.adPrefix = t.bob.adPrefix)) = true := by
    decide +kernel
  obtain ⟨t, ht, hfacts⟩ := (Option.any_eq_true _ _).mp hany
  obtain ⟨hsome, hsend, hremote, hcount, hempty, hnSend, had⟩ := of_decide_eq_true hfacts
  obtain ⟨base, hbase⟩ := Option.isSome_iff_exists.mp hsome
  rw [hbase, Option.map_some] at hsend
  have hcache : t.bob.ratchet.skipped = ∅ := Std.ExtTreeMap.isEmpty_iff.mp hempty
  have hstart : t.bob.ratchet.Filled base t.alice.ratchet.dhSelfPub 0 1 0 :=
    ⟨hbase, hremote, hcount, by rw [hcache]; rfl, fun i _ _ => by rw [hcache]; simp⟩
  obtain ⟨r, hr, hcut, hcutAd⟩ := run_junk hstart
  -- Alice has sent numbers 0 and 1; 4002 messages later she is at number 4004
  have hsends := run_replicate_encrypt t.alice [3] hsend 4002
  refine ⟨t, base, r, talk_established ht, hr, ?_, ?_, ?_, hcut, ?_⟩
  · rw [hsends, chainKeyAt_succ _ base 4002]
  · rw [hsends, hnSend]
    rfl
  · rw [hsends]
  · rw [hcutAd, hsends, had]

/-- **A replay that works.**  After five forged headers Bob's session accepts the
    same genuine message of Alice twice. -/
theorem accepted_twice_after_cut_off :
    ∃ (t : Talk Suite.sample.free) (sends ops : List (Op Suite.sample.free))
      (m : Message (CipherTerm Suite.sample.Shared)),
      Established [t.first] t.bob ∧ .sent (.ok m) ∈ (t.alice.run sends).1 ∧
        ¬ ((t.bob.accepted ops).map fun m => (m.header, m.ciphertext)).Nodup := by
  obtain ⟨t, base, r, hest, hcut⟩ := cut_off_talk
  obtain ⟨m, s', henc, _, _, hok, hok'⟩ :=
    hcut.accepts sample_lawful.free (by decide) [3] (freeSecret 71)
  have htwice : (t.bob.run (forgedHeaders t.alice.ratchet.dhSelfPub)).2.accepted
      [.decrypt (freeSecret 71) m, .decrypt (freeSecret 71) m] = [m, m] := by
    simp only [accepted, acceptedBy, apply, hok, hok']
    rfl
  refine ⟨t, List.replicate 4002 (.encrypt [3]) ++ [.encrypt [3]],
    forgedHeaders t.alice.ratchet.dhSelfPub ++
      [.decrypt (freeSecret 71) m, .decrypt (freeSecret 71) m], m, hest, ?_, ?_⟩
  · rw [run_append]
    refine List.mem_append_right _ (List.mem_singleton.mpr ?_)
    rw [apply, henc]
  · rw [accepted_append, htwice]
    simp [List.nodup_append]

/-- With an empty cache one more message of the current chain cuts nothing off. -/
theorem intact_single {s : Session P} {m : Message C} (fresh : P.Secret)
    (hempty : s.ratchet.skipped.isEmpty = true)
    (hremote : s.ratchet.dhRemote = some m.header.dhPub) : s.Intact [.decrypt fresh m] := by
  have hroom : s.ratchet.skipped.size + 1000 ≤ MAX_SKIPPED_CACHE := by
    rw [Std.ExtTreeMap.isEmpty_iff.mp hempty, Std.ExtTreeMap.size_empty]
    decide
  refine ⟨?_, trivial⟩
  intro fresh' m' hop _
  cases hop
  refine ⟨fun hne => absurd hremote hne, ?_⟩
  intro r1 hr1
  simp only [DoubleRatchet.followRemote, hremote, ne_eq, not_true_eq_false, if_false,
    Prod.mk.injEq, true_and] at hr1
  rw [← hr1]
  exact DoubleRatchet.not_cutOff_of_room hroom _

/-- Alice's second message, delivered after the first opened the session. -/
theorem accepted_once_sample :
    ∃ (t : Talk Suite.sample.free), freeTalk = some t ∧
      t.bob.accepted [.decrypt (freeSecret 71) t.second] = [t.second] ∧
      ([t.first, t.second].map fun m => (m.header, m.ciphertext)).Nodup := by
  have hany : (freeTalk.any fun t => decide (t.bob.ratchet.skipped.isEmpty = true ∧
      t.bob.ratchet.dhRemote = some t.second.header.dhPub ∧
      t.bob.accepted [.decrypt (freeSecret 71) t.second] = [t.second])) = true := by
    decide +kernel
  obtain ⟨t, ht, hfacts⟩ := (Option.any_eq_true _ _).mp hany
  obtain ⟨hempty, hremote, haccepted⟩ := of_decide_eq_true hfacts
  have hintact := intact_single (freeSecret 71) hempty hremote
  have hnodup := accepted_once (talk_established ht) _ hintact
  rw [haccepted] at hnodup
  exact ⟨t, ht, haccepted, hnodup⟩

end Session

end Clarity
