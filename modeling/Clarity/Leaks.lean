/-
  Clarity/Leaks.lean
  ==================
  **What a stolen ratchet state gives away about the future.**

  A thief has read the state of one end and only listens from then on.  He knows
  every key of that state, its ratchet secret, secrets of his own and all public
  keys; `DoubleRatchet.Learns` closes this under the KDFs.  A shared value of two
  secrets he holds neither of is out of his reach, and with it every key that a
  root step below has mixed it into (`KeyTerm.mixed`).

    * `Learns.not_mixed` — a value he cannot compute protects every key above it;
    * `ratcheting`, `decrypt_keeps` — where `decrypt` takes its DH ratchet step,
      and the rule for what the rest of the call does;
    * `Honest` — all values below the stored keys belong to known public keys.
-/
import Clarity.Secrecy

namespace Clarity

/-! ## 1. The shared values below a key -/

/-- The shared values that the root steps below a key have mixed in. -/
def KeyTerm.mixed {S : Type} : KeyTerm S → List S
  | hkdf64Fst k s _ => s :: k.mixed
  | hkdf64Snd k s _ => s :: k.mixed
  | hmac k _ => k.mixed
  | _ => []

section Mixed

variable {C : Type} {P : Suite C}

/-- Only values of two known public keys were mixed in. -/
def Over (P : Suite C) (known : List Bytes32) (k : KeyTerm P.Shared) : Prop :=
  ∀ s ∈ k.mixed, ∃ a p, P.publicKey a ∈ known ∧ p ∈ known ∧ s = P.diffieHellman a p

theorem Over.mono {known known' : List Bytes32} (hsub : known ⊆ known') {k : KeyTerm P.Shared}
    (h : Over P known k) : Over P known' k := by
  intro s hs
  obtain ⟨a, p, ha, hp, heq⟩ := h s hs
  exact ⟨a, p, hsub ha, hsub hp, heq⟩

variable [DecidableEq P.Shared]

@[simp] theorem mixed_kdfRk_root (k : P.free.Key) (s : P.free.Shared) :
    KeyTerm.mixed (P.free.kdfRk k s).1 = s :: KeyTerm.mixed k := rfl

@[simp] theorem mixed_kdfRk_chain (k : P.free.Key) (s : P.free.Shared) :
    KeyTerm.mixed (P.free.kdfRk k s).2 = s :: KeyTerm.mixed k := rfl

@[simp] theorem mixed_chainKeyAt (ck : P.free.Key) (n : Nat) :
    KeyTerm.mixed (chainKeyAt P.free ck n) = KeyTerm.mixed ck := by
  induction n with
  | zero => rfl
  | succ n ih =>
    rw [← kdfCk_chainKeyAt]
    exact ih

@[simp] theorem mixed_messageKeyAt (ck : P.free.Key) (n : Nat) :
    KeyTerm.mixed (messageKeyAt P.free ck n) = KeyTerm.mixed ck := mixed_chainKeyAt ck n

end Mixed

/-! ## 2. What the thief learns -/

namespace DoubleRatchet

variable {C : Type} {P : Suite C} [DecidableEq P.Shared]

/-- A shared value he can compute: he holds one of its two secrets. -/
def Concedes (leaked : DoubleRatchet P.free) (own : P.free.Secret → Prop) (s : P.free.Shared) :
    Prop :=
  ∃ a pub, (a = leaked.dhSelf ∨ own a) ∧ s = P.free.diffieHellman a pub

/-- The keys he can compute from the leaked state, secrets of his own and any
    public keys. -/
inductive Learns (leaked : DoubleRatchet P.free) (own : P.free.Secret → Prop) :
    P.free.Key → Prop where
  | stored {k : P.free.Key} : leaked.Stores k → Learns leaked own k
  | handshake {ikm : List P.free.Shared} (salt info : Bytes) :
      (∀ s ∈ ikm, leaked.Concedes own s) → Learns leaked own (P.free.hkdf32 salt ikm info)
  | nextRoot {k : P.free.Key} {s : P.free.Shared} (info : Bytes) :
      Learns leaked own k → leaked.Concedes own s → Learns leaked own (P.free.hkdf64 k s info).1
  | chainKey {k : P.free.Key} {s : P.free.Shared} (info : Bytes) :
      Learns leaked own k → leaked.Concedes own s → Learns leaked own (P.free.hkdf64 k s info).2
  | hmac {k : P.free.Key} (data : Bytes) :
      Learns leaked own k → Learns leaked own (P.free.hmac k data)

variable {leaked : DoubleRatchet P.free} {own : P.free.Secret → Prop}

/-- **A value he cannot compute protects every key above it.** -/
theorem Learns.not_mixed {σ : P.free.Shared}
    (hstored : ∀ k, leaked.Stores k → σ ∉ KeyTerm.mixed k) (hσ : ¬ leaked.Concedes own σ)
    {k : P.free.Key} (h : leaked.Learns own k) : σ ∉ KeyTerm.mixed k := by
  induction h with
  | stored hk => exact hstored _ hk
  | handshake salt info _ => exact List.not_mem_nil
  | nextRoot info _ hs ih =>
    intro hmem
    rcases List.mem_cons.mp hmem with rfl | hbelow
    · exact hσ hs
    · exact ih hbelow
  | chainKey info _ hs ih =>
    intro hmem
    rcases List.mem_cons.mp hmem with rfl | hbelow
    · exact hσ hs
    · exact ih hbelow
  | hmac data _ ih => exact ih

/-- What is learned is learned all along a chain. -/
theorem Learns.messageKeyAt {ck : P.free.Key} (h : leaked.Learns own ck) (n : Nat) :
    leaked.Learns own (messageKeyAt P.free ck n) := by
  have hchain : leaked.Learns own (chainKeyAt P.free ck n) := by
    induction n with
    | zero => exact h
    | succ n ih =>
      rw [← kdfCk_chainKeyAt]
      exact ih.hmac [0x02]
  exact hchain.hmac [0x01]

end DoubleRatchet

/-! ## 3. The DH ratchet step of `decrypt` -/

namespace DoubleRatchet

section Step

variable {C : Type} {P : Suite C}

/-- The state `dh_ratchet` leaves inside `decrypt`, if the call gets there. -/
def ratcheting (r : DoubleRatchet P) (fresh : P.Secret) (header : RatchetHeader) :
    Option (DoubleRatchet P) :=
  if r.skipped[(header.dhPub, header.n)]?.isSome ∨ r.dhRemote = some header.dhPub then none
  else match r.skipMessageKeys header.pn with
    | (.ok _, r) => some (r.dhRatchet fresh header.dhPub)
    | (.error _, _) => none

/-- Nothing but chains, counters and the cache differs. -/
structure SameTurn (r r' : DoubleRatchet P) : Prop where
  rootKey : r'.rootKey = r.rootKey
  dhSelf : r'.dhSelf = r.dhSelf
  dhSelfPub : r'.dhSelfPub = r.dhSelfPub
  dhRemote : r'.dhRemote = r.dhRemote

variable {r made : DoubleRatchet P} {fresh : P.Secret} {header : RatchetHeader}

theorem SameTurn.refl (r : DoubleRatchet P) : SameTurn r r := ⟨rfl, rfl, rfl, rfl⟩

theorem sameTurn_encrypt (r : DoubleRatchet P) (plaintext adPrefix : Bytes) :
    SameTurn r (r.encrypt plaintext adPrefix).2 := by
  unfold encrypt
  cases r.chainSend with
  | none => exact .refl r
  | some ck => exact ⟨rfl, rfl, rfl, rfl⟩

theorem SameTurn.skipMessageKeys {r r' : DoubleRatchet P} (h : SameTurn r r') (upTo : UInt32) :
    SameTurn r (r'.skipMessageKeys upTo).2 := by
  rcases skipMessageKeys_cases r' upTo with ⟨_, hs⟩ | ⟨_, hs⟩ |
      ⟨ck, remote, _, _, _, _, hs | ⟨k, _, _, _, hs⟩⟩
  all_goals
    rw [hs]
    exact ⟨h.rootKey, h.dhSelf, h.dhSelfPub, h.dhRemote⟩

theorem SameTurn.openNext {r r' : DoubleRatchet P} (h : SameTurn r r') (ciphertext : C)
    (ad : Bytes) : SameTurn r (r'.openNext ciphertext ad).2 := by
  unfold DoubleRatchet.openNext
  cases r'.chainRecv with
  | none => exact h
  | some ck => exact ⟨h.rootKey, h.dhSelf, h.dhSelfPub, h.dhRemote⟩

/-- A step goes to a new remote key, from the state the first skip leaves. -/
theorem ratcheting_cases (h : r.ratcheting fresh header = some made) :
    r.dhRemote ≠ some header.dhPub ∧
      made = (r.skipMessageKeys header.pn).2.dhRatchet fresh header.dhPub := by
  unfold ratcheting at h
  split at h
  · cases h
  · rename_i hcond
    rcases hskip : r.skipMessageKeys header.pn with ⟨e | _, r1⟩
    · rw [hskip] at h
      cases h
    · rw [hskip] at h
      exact ⟨fun heq => hcond (Or.inr heq), (Option.some.inj h).symm⟩

/-- There is no step where a key is cached. -/
theorem slot_of_ratcheting (h : r.ratcheting fresh header = some made) :
    r.skipped[(header.dhPub, header.n)]? = none := by
  cases hslot : r.skipped[(header.dhPub, header.n)]? with
  | none => rfl
  | some k => simp [ratcheting, hslot] at h

/-- **The rule for `decrypt` after its ratchet step.**  From the state of that step,
    or from the state before the call if there is none, `decrypt` only drops a
    cached key, skips and moves along the receiving chain. -/
theorem decrypt_keeps (I : DoubleRatchet P → Prop)
    (hdrop : ∀ r slot, I r → I { r with skipped := r.skipped.erase slot })
    (hskip : ∀ r upTo, I r → I (r.skipMessageKeys upTo).2)
    (hopen : ∀ r ciphertext ad, I r → I (r.openNext ciphertext ad).2)
    (h : I ((r.ratcheting fresh header).getD r)) (ciphertext : C) (adPrefix : Bytes) :
    I (r.decrypt fresh header ciphertext adPrefix).2 := by
  have hfinish (r1 : DoubleRatchet P) (h1 : I r1) :
      I ((r1.skipMessageKeys header.n).andThen fun _ r =>
        r.openNext ciphertext (associatedData adPrefix header)).2 := by
    have hs := hskip r1 header.n h1
    rcases hsk : r1.skipMessageKeys header.n with ⟨e | _, r2⟩
    · rw [hsk] at hs
      exact hs
    · rw [hsk] at hs
      exact hopen r2 _ _ hs
  cases hcached : r.skipped[(header.dhPub, header.n)]? with
  | some messageKey =>
    have hnone : r.ratcheting fresh header = none := by
      simp [ratcheting, hcached]
    rw [hnone] at h
    rw [decrypt_cached hcached]
    exact hdrop r _ h
  | none =>
    rw [decrypt_uncached hcached, followRemote]
    by_cases hrem : r.dhRemote = some header.dhPub
    · have hnone : r.ratcheting fresh header = none := by
        simp [ratcheting, hrem]
      rw [hnone] at h
      rw [if_neg (not_not_intro hrem)]
      exact hfinish r h
    · rw [if_pos hrem]
      rcases hsk : r.skipMessageKeys header.pn with ⟨e | _, r1⟩
      · -- the old chain cannot be closed: no step
        have hnone : r.ratcheting fresh header = none := by
          simp [ratcheting, hcached, hrem, hsk]
        rw [hnone] at h
        have hs := hskip r header.pn h
        rw [hsk] at hs
        exact hs
      · have hsome : r.ratcheting fresh header = some (r1.dhRatchet fresh header.dhPub) := by
          simp [ratcheting, hcached, hrem, hsk]
        rw [hsome] at h
        exact hfinish _ h

theorem sameTurn_decrypt (r : DoubleRatchet P) (fresh : P.Secret) (header : RatchetHeader)
    (ciphertext : C) (adPrefix : Bytes) :
    SameTurn ((r.ratcheting fresh header).getD r)
      (r.decrypt fresh header ciphertext adPrefix).2 :=
  decrypt_keeps (SameTurn ((r.ratcheting fresh header).getD r))
    (fun _ _ h => ⟨h.rootKey, h.dhSelf, h.dhSelfPub, h.dhRemote⟩)
    (fun _ upTo h => h.skipMessageKeys upTo) (fun _ ct ad h => h.openNext ct ad) (.refl _)
    ciphertext adPrefix

end Step

/-! ### An honest end -/

variable {C : Type} {P : Suite C} [DecidableEq P.Shared]

/-- The stored keys come from values of known public keys. -/
structure Honest (known : List Bytes32) (r : DoubleRatchet P.free) : Prop where
  self_pub : r.dhSelfPub = P.publicKey r.dhSelf
  self_known : r.dhSelfPub ∈ known
  stores : ∀ k, r.Stores k → Over P known k

namespace Honest

variable {known known' : List Bytes32} {r made : DoubleRatchet P.free} {fresh : P.free.Secret}
  {header : RatchetHeader}

theorem mono (hsub : known ⊆ known') (h : Honest known r) : Honest known' r where
  self_pub := h.self_pub
  self_known := hsub h.self_known
  stores := fun k hk => (h.stores k hk).mono hsub

theorem drop (h : Honest known r) (slot : Bytes32 × UInt32) :
    Honest known { r with skipped := r.skipped.erase slot } where
  self_pub := h.self_pub
  self_known := h.self_known
  stores := by
    intro k hk
    cases hk with
    | root => exact h.stores _ .root
    | send hck => exact h.stores _ (.send hck)
    | recv hck => exact h.stores _ (.recv hck)
    | cached hslot =>
      simp only [Std.ExtTreeMap.getElem?_erase] at hslot
      split at hslot
      · cases hslot
      · exact h.stores _ (.cached hslot)

theorem withCached (h : Honest known r) {remote : Bytes32} {ck : P.free.Key}
    (hck : r.chainRecv = some ck) {n : Nat} (hn : n ≤ 2 ^ 32) :
    Honest known (r.withCached remote ck n) where
  self_pub := h.self_pub
  self_known := h.self_known
  stores := by
    intro k hk
    cases hk with
    | root => exact h.stores _ .root
    | send hsend => exact h.stores _ (.send hsend)
    | recv hrecv => exact h.stores _ (.recv hrecv)
    | @cached slot _ hslot =>
      simp only [DoubleRatchet.withCached,
        getElem?_cacheKeys P.free remote n ck _ _ hn slot.1 slot.2] at hslot
      split at hslot
      · cases hslot
        intro s hs
        rw [mixed_messageKeyAt] at hs
        exact h.stores _ (.recv hck) s hs
      · exact h.stores _ (.cached hslot)

theorem moved (h : Honest known r) {ck : P.free.Key} (hck : Over P known ck) (n : UInt32) :
    Honest known { r with chainRecv := some ck, nRecv := n } where
  self_pub := h.self_pub
  self_known := h.self_known
  stores := by
    intro k hk
    cases hk with
    | root => exact h.stores _ .root
    | send hsend => exact h.stores _ (.send hsend)
    | recv hrecv =>
      cases hrecv
      exact hck
    | cached hslot => exact h.stores _ (.cached hslot)

theorem skipMessageKeys (h : Honest known r) (upTo : UInt32) :
    Honest known (r.skipMessageKeys upTo).2 := by
  rcases skipMessageKeys_cases r upTo with ⟨_, hs⟩ | ⟨_, hs⟩ |
      ⟨ck, remote, hck, _, _, _, hs | ⟨n, _, hn, _, hs⟩⟩
  · rw [hs]; exact h
  · rw [hs]; exact h
  · rw [hs]
    have hcached : Honest known (r.withCached remote ck (r.gap upTo)) :=
      h.withCached hck (Nat.le_of_lt (UInt32.toNat_lt _))
    apply hcached.moved
    intro s hs
    rw [mixed_chainKeyAt] at hs
    exact h.stores _ (.recv hck) s hs
  · rw [hs]
    exact h.withCached hck (Nat.le_of_lt (Nat.lt_trans hn (UInt32.toNat_lt _)))

theorem openNext (h : Honest known r) (ciphertext : CipherTerm P.Shared) (ad : Bytes) :
    Honest known (r.openNext ciphertext ad).2 := by
  unfold DoubleRatchet.openNext
  cases hck : r.chainRecv with
  | none => exact h
  | some ck =>
    have hnext : Over P known (P.free.kdfCk ck).1 := h.stores ck (.recv hck)
    exact h.moved hnext _

theorem encrypt (h : Honest known r) (plaintext adPrefix : Bytes) :
    Honest known (r.encrypt plaintext adPrefix).2 := by
  unfold DoubleRatchet.encrypt
  cases hck : r.chainSend with
  | none => exact h
  | some ck =>
    refine ⟨h.self_pub, h.self_known, ?_⟩
    intro k hk
    cases hk with
    | root => exact h.stores _ .root
    | send hsend =>
      cases hsend
      exact h.stores ck (.send hck)
    | recv hrecv => exact h.stores _ (.recv hrecv)
    | cached hslot => exact h.stores _ (.cached hslot)

/-- The step mixes in a value of the old and one of the new ratchet secret. -/
theorem dhRatchet (h : Honest known r) {remote : Bytes32} (hremote : remote ∈ known)
    (fresh : P.free.Secret) :
    Honest (P.publicKey fresh :: known) (r.dhRatchet fresh remote) := by
  have hself : P.publicKey r.dhSelf ∈ P.publicKey fresh :: known := by
    rw [← h.self_pub]
    exact List.mem_cons_of_mem _ h.self_known
  have hroot : Over P (P.publicKey fresh :: known) r.rootKey :=
    (h.stores _ .root).mono (List.subset_cons_self ..)
  have hrecv : ∀ s ∈ P.diffieHellman r.dhSelf remote :: KeyTerm.mixed r.rootKey,
      ∃ a p, P.publicKey a ∈ P.publicKey fresh :: known ∧ p ∈ P.publicKey fresh :: known ∧
        s = P.diffieHellman a p := by
    intro s hs
    rcases List.mem_cons.mp hs with rfl | hbelow
    · exact ⟨_, _, hself, List.mem_cons_of_mem _ hremote, rfl⟩
    · exact hroot s hbelow
  have hsend : ∀ s ∈ P.diffieHellman fresh remote ::
      P.diffieHellman r.dhSelf remote :: KeyTerm.mixed r.rootKey,
      ∃ a p, P.publicKey a ∈ P.publicKey fresh :: known ∧ p ∈ P.publicKey fresh :: known ∧
        s = P.diffieHellman a p := by
    intro s hs
    rcases List.mem_cons.mp hs with rfl | hbelow
    · exact ⟨_, _, List.mem_cons_self .., List.mem_cons_of_mem _ hremote, rfl⟩
    · exact hrecv s hbelow
  refine ⟨rfl, List.mem_cons_self .., ?_⟩
  intro k hk
  cases hk with
  | root => exact hsend
  | send hck =>
    cases hck
    exact hsend
  | recv hck =>
    cases hck
    exact hrecv
  | cached hslot => exact (h.stores _ (.cached hslot)).mono (List.subset_cons_self ..)

/-- `decrypt` keeps an end honest, with its own old ratchet key or a drawn one. -/
theorem decrypt (h : Honest known r) (fresh : P.free.Secret) (hheader : header.dhPub ∈ known)
    (ciphertext : CipherTerm P.Shared) (adPrefix : Bytes) :
    Honest ((r.decrypt fresh header ciphertext adPrefix).2.dhSelfPub :: known)
        (r.decrypt fresh header ciphertext adPrefix).2 ∧
      ((r.decrypt fresh header ciphertext adPrefix).2.dhSelfPub = r.dhSelfPub ∨
        (r.decrypt fresh header ciphertext adPrefix).2.dhSelfPub = P.publicKey fresh) := by
  have hsame := sameTurn_decrypt r fresh header ciphertext adPrefix
  have hkeeps (known' : List Bytes32) (hbase : Honest known' ((r.ratcheting fresh header).getD r)) :=
    decrypt_keeps (Honest known') (fun _ slot h => h.drop slot)
      (fun _ upTo h => h.skipMessageKeys upTo) (fun _ ct ad h => h.openNext ct ad) hbase
      ciphertext adPrefix
  cases hmade : r.ratcheting fresh header with
  | none =>
    rw [hmade] at hsame hkeeps
    refine ⟨?_, Or.inl hsame.dhSelfPub⟩
    exact (hkeeps known h).mono (List.subset_cons_self ..)
  | some made =>
    rw [hmade] at hsame hkeeps
    obtain ⟨_, rfl⟩ := ratcheting_cases hmade
    have hpub : (r.decrypt fresh header ciphertext adPrefix).2.dhSelfPub = P.publicKey fresh :=
      hsame.dhSelfPub
    refine ⟨?_, Or.inr hpub⟩
    rw [hpub]
    exact hkeeps _ ((h.skipMessageKeys header.pn).dhRatchet hheader fresh)

end Honest

end DoubleRatchet

end Clarity
