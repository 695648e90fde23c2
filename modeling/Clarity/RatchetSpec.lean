/-
  Clarity/RatchetSpec.lean
  ========================
  **What each ratchet method can do**, stated once.

  The proofs about the ratchet never unfold `skipLoop` or `decrypt` again: they
  use the case lemmas of this file.

    * `skipLoop_cases` — the skip loop either runs to its end or stops at a full
      cache with part of the keys stored;
    * `skipMessageKeys_cases` — nothing to skip, refused before the first key,
      all keys skipped, or cut off in the middle;
    * `encrypt_ok_cases` — what a successful `encrypt` seals;
    * `decrypt_ok_cases` and `decrypt_preserves` — what an accepted message went
      through, and the invariant rule;
    * `decrypt_cached`, `decrypt_on_chain`, `decrypt_new_chain` — the three ways a
      message within the limits finds its key.
-/
import Clarity.Ratchet
import Mathlib.Logic.Function.Iterate

namespace Clarity

variable {C : Type}

/-! ## 1. Walking along a chain -/

section Chain

variable (P : Suite C)

/-- The chain key `n` steps along. -/
def chainKeyAt (ck : P.Key) (n : Nat) : P.Key := (fun k => (P.kdfCk k).1)^[n] ck

/-- The message key of step `n`. -/
def messageKeyAt (ck : P.Key) (n : Nat) : P.Key := (P.kdfCk (chainKeyAt P ck n)).2

@[simp] theorem chainKeyAt_zero (ck : P.Key) : chainKeyAt P ck 0 = ck := rfl

theorem chainKeyAt_succ (ck : P.Key) (n : Nat) :
    chainKeyAt P ck (n + 1) = chainKeyAt P (P.kdfCk ck).1 n := rfl

theorem kdfCk_chainKeyAt (ck : P.Key) (n : Nat) :
    (P.kdfCk (chainKeyAt P ck n)).1 = chainKeyAt P ck (n + 1) :=
  (Function.iterate_succ_apply' (fun k => (P.kdfCk k).1) n ck).symm

theorem chainKeyAt_add (ck : P.Key) (m n : Nat) :
    chainKeyAt P (chainKeyAt P ck m) n = chainKeyAt P ck (m + n) := by
  unfold chainKeyAt
  rw [Nat.add_comm, Function.iterate_add_apply]

theorem messageKeyAt_add (ck : P.Key) (m n : Nat) :
    messageKeyAt P (chainKeyAt P ck m) n = messageKeyAt P ck (m + n) := by
  unfold messageKeyAt
  rw [chainKeyAt_add]

/-- The cache after storing `k` consecutive message keys of a chain, the first
    of them under number `n`. -/
def cacheKeys (remote : Bytes32) : (k : Nat) → P.Key → UInt32 →
    Std.ExtTreeMap (Bytes32 × UInt32) P.Key → Std.ExtTreeMap (Bytes32 × UInt32) P.Key
  | 0, _, _, cache => cache
  | k + 1, ck, n, cache =>
    cacheKeys remote k (P.kdfCk ck).1 (n + 1) (cache.insert (remote, n) (P.kdfCk ck).2)

theorem sub_toNat_of_ne {i n : UInt32} (h : i ≠ n) :
    (i - n).toNat = (i - (n + 1)).toNat + 1 := by
  have hne : i.toNat ≠ n.toNat := fun heq => h (UInt32.toNat.inj heq)
  have hi : i.toNat < 2 ^ 32 := i.toNat_lt
  have hn : n.toNat < 2 ^ 32 := n.toNat_lt
  simp only [UInt32.toNat_sub, UInt32.toNat_add, UInt32.toNat_one]
  omega

/-- A lookup in the extended cache: one of the stored numbers, or as before. -/
theorem getElem?_cacheKeys (remote : Bytes32) (k : Nat) (ck : P.Key) (n : UInt32)
    (cache : Std.ExtTreeMap (Bytes32 × UInt32) P.Key) (hk : k ≤ 2 ^ 32) (p : Bytes32)
    (i : UInt32) :
    (cacheKeys P remote k ck n cache)[(p, i)]? =
      if p = remote ∧ (i - n).toNat < k then some (messageKeyAt P ck (i - n).toNat)
      else cache[(p, i)]? := by
  induction k generalizing ck n cache with
  | zero => simp [cacheKeys]
  | succ k ih =>
    rw [cacheKeys, ih _ _ _ (by omega)]
    by_cases hp : p = remote
    · subst hp
      by_cases hi : i = n
      · -- the first stored number: the later ones do not reach it again
        subst hi
        have hlast : ¬ (i - (i + 1)).toNat < k := by
          simp only [UInt32.toNat_sub, UInt32.toNat_add, UInt32.toNat_one]
          have := i.toNat_lt
          omega
        rw [if_neg (fun h => hlast h.2), if_pos ⟨rfl, by simp⟩]
        simp [messageKeyAt]
      · have hsub := sub_toNat_of_ne hi
        have hins : (cache.insert (p, n) (P.kdfCk ck).2)[(p, i)]? = cache[(p, i)]? := by
          rw [Std.ExtTreeMap.getElem?_insert, if_neg]
          simpa [Std.LawfulEqCmp.compare_eq_iff_eq] using fun h => hi h.symm
        rw [hins, hsub]
        by_cases hlt : (i - (n + 1)).toNat < k
        · rw [if_pos ⟨rfl, hlt⟩, if_pos ⟨rfl, by omega⟩]
          rfl
        · rw [if_neg (fun h => hlt h.2), if_neg (fun h => hlt (by omega))]
    · have hins : (cache.insert (remote, n) (P.kdfCk ck).2)[(p, i)]? = cache[(p, i)]? := by
        rw [Std.ExtTreeMap.getElem?_insert, if_neg]
        simp only [Std.LawfulEqCmp.compare_eq_iff_eq, Prod.mk.injEq]
        exact fun h => hp h.1.symm
      rw [if_neg (fun h => hp h.1), if_neg (fun h => hp h.1), hins]

theorem size_cacheKeys_le (remote : Bytes32) (k : Nat) (ck : P.Key) (n : UInt32)
    (cache : Std.ExtTreeMap (Bytes32 × UInt32) P.Key) :
    (cacheKeys P remote k ck n cache).size ≤ cache.size + k := by
  induction k generalizing ck n cache with
  | zero => simp [cacheKeys]
  | succ k ih =>
    have hstep := ih (P.kdfCk ck).1 (n + 1) (cache.insert (remote, n) (P.kdfCk ck).2)
    have hins := Std.ExtTreeMap.size_insert_le (t := cache) (k := (remote, n))
      (v := (P.kdfCk ck).2)
    rw [cacheKeys]
    omega

/-- New numbers make the cache grow by one entry each. -/
theorem size_cacheKeys (remote : Bytes32) (k : Nat) (ck : P.Key) (n : UInt32)
    (cache : Std.ExtTreeMap (Bytes32 × UInt32) P.Key) (hk : k ≤ 2 ^ 32)
    (hnew : ∀ i < k, cache[(remote, n + UInt32.ofNat i)]? = none) :
    (cacheKeys P remote k ck n cache).size = cache.size + k := by
  induction k generalizing ck n cache with
  | zero => rfl
  | succ k ih =>
    have hfirst : (remote, n) ∉ cache := by
      have h0 := hnew 0 (Nat.succ_pos k)
      rw [show UInt32.ofNat 0 = 0 from rfl, UInt32.add_zero] at h0
      rw [← Std.ExtTreeMap.isSome_getElem?_iff_mem, h0]
      simp
    rw [cacheKeys, ih _ _ _ (by omega)]
    · rw [Std.ExtTreeMap.size_insert, if_neg (by simpa using hfirst)]
      omega
    · intro i hi
      have hshift : n + 1 + UInt32.ofNat i = n + UInt32.ofNat (i + 1) := by
        rw [UInt32.add_assoc, UInt32.ofNat_add, UInt32.add_comm 1]
        rfl
      rw [hshift, Std.ExtTreeMap.getElem?_insert, if_neg, hnew (i + 1) (by omega)]
      simp only [Std.LawfulEqCmp.compare_eq_iff_eq, Prod.mk.injEq, true_and]
      intro heq
      have := congrArg UInt32.toNat heq
      rw [UInt32.toNat_add, UInt32.toNat_ofNat'] at this
      have := n.toNat_lt
      omega

end Chain

namespace DoubleRatchet

variable {P : Suite C}

/-! ## 2. The skip loop -/

/-- The state after the skip loop stored `k` keys. -/
def withCached (r : DoubleRatchet P) (remote : Bytes32) (ck : P.Key) (k : Nat) :
    DoubleRatchet P :=
  { r with
    skipped := cacheKeys P remote k ck r.nRecv r.skipped
    nRecv := r.nRecv + UInt32.ofNat k }

theorem withCached_zero (r : DoubleRatchet P) (remote : Bytes32) (ck : P.Key) :
    r.withCached remote ck 0 = r := by
  simp [withCached, cacheKeys]

theorem withCached_succ (r : DoubleRatchet P) (remote : Bytes32) (ck : P.Key) (k : Nat) :
    withCached { r with
        skipped := r.skipped.insert (remote, r.nRecv) (P.kdfCk ck).2
        nRecv := r.nRecv + 1 } remote (P.kdfCk ck).1 k = r.withCached remote ck (k + 1) := by
  have hn : r.nRecv + 1 + UInt32.ofNat k = r.nRecv + UInt32.ofNat (k + 1) := by
    rw [UInt32.add_assoc, UInt32.ofNat_add, UInt32.add_comm 1]
    rfl
  simp [withCached, cacheKeys, hn]

theorem skipLoop_succ (remote : Bytes32) (left : Nat) (ck : P.Key) (r : DoubleRatchet P) :
    skipLoop remote (left + 1) ck r =
      if MAX_SKIPPED_CACHE ≤ r.skipped.size then (.error .decrypt, r)
      else skipLoop remote left (P.kdfCk ck).1 { r with
        skipped := r.skipped.insert (remote, r.nRecv) (P.kdfCk ck).2
        nRecv := r.nRecv + 1 } := rfl

/-- The loop runs to its end, or stops at the first key that finds the cache
    full — with the keys before it stored. -/
theorem skipLoop_cases (remote : Bytes32) (left : Nat) (ck : P.Key) (r : DoubleRatchet P) :
    skipLoop remote left ck r = (.ok (chainKeyAt P ck left), r.withCached remote ck left) ∨
    ∃ k, k < left ∧ MAX_SKIPPED_CACHE ≤ (r.withCached remote ck k).skipped.size ∧
      (∀ j < k, (r.withCached remote ck j).skipped.size < MAX_SKIPPED_CACHE) ∧
      skipLoop remote left ck r = (.error .decrypt, r.withCached remote ck k) := by
  induction left generalizing ck r with
  | zero => exact Or.inl (by rw [skipLoop, withCached_zero, chainKeyAt_zero])
  | succ left ih =>
    by_cases hfull : MAX_SKIPPED_CACHE ≤ r.skipped.size
    · refine Or.inr ⟨0, Nat.succ_pos _, ?_, ?_, ?_⟩
      · rw [withCached_zero]; exact hfull
      · intro j hj
        exact absurd hj (Nat.not_lt_zero j)
      · rw [skipLoop_succ, if_pos hfull, withCached_zero]
    · rw [skipLoop_succ, if_neg hfull]
      rcases ih (P.kdfCk ck).1 { r with
          skipped := r.skipped.insert (remote, r.nRecv) (P.kdfCk ck).2
          nRecv := r.nRecv + 1 } with hok | ⟨k, hk, hsize, hbefore, herr⟩
      · left
        rw [hok, withCached_succ, ← chainKeyAt_succ]
      · rw [withCached_succ] at hsize herr
        refine Or.inr ⟨k + 1, Nat.succ_lt_succ hk, hsize, ?_, herr⟩
        intro j hj
        cases j with
        | zero => rw [withCached_zero]; exact Nat.lt_of_not_le hfull
        | succ j =>
          have := hbefore j (Nat.lt_of_succ_lt_succ hj)
          rwa [withCached_succ] at this

theorem size_withCached_le (r : DoubleRatchet P) (remote : Bytes32) (ck : P.Key) (k : Nat) :
    (r.withCached remote ck k).skipped.size ≤ r.skipped.size + k :=
  size_cacheKeys_le P remote k ck r.nRecv r.skipped

/-- With room in the cache the loop runs to its end. -/
theorem skipLoop_of_room {remote : Bytes32} {left : Nat} {ck : P.Key} {r : DoubleRatchet P}
    (h : r.skipped.size + left ≤ MAX_SKIPPED_CACHE) :
    skipLoop remote left ck r = (.ok (chainKeyAt P ck left), r.withCached remote ck left) := by
  rcases skipLoop_cases remote left ck r with hok | ⟨k, hk, hsize, _, _⟩
  · exact hok
  · have := size_withCached_le r remote ck k
    omega

/-! ## 3. `skip_message_keys` -/

/-- How many keys `skip_message_keys(upTo)` has to pass over. -/
def gap (r : DoubleRatchet P) (upTo : UInt32) : Nat := (upTo - r.nRecv).toNat

/-- `skip_message_keys(upTo)` returns an error before it stores anything. -/
def SkipRefused (r : DoubleRatchet P) (upTo : UInt32) : Prop :=
  r.chainRecv.isSome ∧ r.nRecv ≤ upTo ∧
    (MAX_SKIP < upTo - r.nRecv ∨ r.dhRemote = none ∨
      r.nRecv < upTo ∧ MAX_SKIPPED_CACHE ≤ r.skipped.size)

/-- The state after `skip_message_keys` passed over `k` keys of the chain `ck`. -/
def advanced (r : DoubleRatchet P) (remote : Bytes32) (ck : P.Key) (k : Nat) :
    DoubleRatchet P :=
  { r.withCached remote ck k with chainRecv := some (chainKeyAt P ck k) }

theorem gap_pos_iff {r : DoubleRatchet P} {upTo : UInt32} (h : r.nRecv ≤ upTo) :
    0 < r.gap upTo ↔ r.nRecv < upTo := by
  unfold gap
  rw [UInt32.lt_iff_toNat_lt, UInt32.toNat_sub_of_le _ _ h]
  have := UInt32.le_iff_toNat_le.mp h
  omega

/-- The cache had room for the first of the `k` keys, and is full after the last. -/
def FullAfter (r : DoubleRatchet P) (remote : Bytes32) (ck : P.Key) (k : Nat) : Prop :=
  r.skipped.size < MAX_SKIPPED_CACHE ∧
    MAX_SKIPPED_CACHE ≤ (r.withCached remote ck k).skipped.size

/-- `skip_message_keys(upTo)` stores some of its keys and then finds the cache full. -/
def CutOff (r : DoubleRatchet P) (upTo : UInt32) : Prop :=
  ∃ ck remote k, r.chainRecv = some ck ∧ r.dhRemote = some remote ∧ r.nRecv ≤ upTo ∧
    upTo - r.nRecv ≤ MAX_SKIP ∧ 0 < k ∧ k < r.gap upTo ∧ r.FullAfter remote ck k

/-- With room for `MAX_SKIP` more keys no skip is cut off. -/
theorem not_cutOff_of_room {r : DoubleRatchet P} (h : r.skipped.size + 1000 ≤ MAX_SKIPPED_CACHE)
    (upTo : UInt32) : ¬ r.CutOff upTo := by
  rintro ⟨ck, remote, k, _, _, _, hgap, _, hk, _, hfull⟩
  have hle : r.gap upTo ≤ 1000 := UInt32.le_iff_toNat_le.mp hgap
  have := size_withCached_le r remote ck k
  omega

/-- The four things `skip_message_keys` can do. -/
theorem skipMessageKeys_cases (r : DoubleRatchet P) (upTo : UInt32) :
    ((r.chainRecv = none ∨ upTo < r.nRecv) ∧ r.skipMessageKeys upTo = (.ok (), r)) ∨
    (r.SkipRefused upTo ∧ r.skipMessageKeys upTo = (.error .decrypt, r)) ∨
    ∃ ck remote, r.chainRecv = some ck ∧ r.dhRemote = some remote ∧ r.nRecv ≤ upTo ∧
      upTo - r.nRecv ≤ MAX_SKIP ∧
      (r.skipMessageKeys upTo = (.ok (), r.advanced remote ck (r.gap upTo)) ∨
        ∃ k, 0 < k ∧ k < r.gap upTo ∧ r.FullAfter remote ck k ∧
          r.skipMessageKeys upTo = (.error .decrypt, r.withCached remote ck k)) := by
  cases hck : r.chainRecv with
  | none => exact Or.inl ⟨Or.inl rfl, by simp [skipMessageKeys, hck]⟩
  | some ck =>
    by_cases hlt : upTo < r.nRecv
    · exact Or.inl ⟨Or.inr hlt, by simp [skipMessageKeys, hck, hlt]⟩
    · right
      have hle : r.nRecv ≤ upTo := UInt32.not_lt.mp hlt
      by_cases hgap : upTo - r.nRecv > MAX_SKIP
      · -- the gap is declared hostile
        exact Or.inl ⟨⟨by simp [hck], hle, Or.inl hgap⟩, by simp [skipMessageKeys, hck, hlt, hgap]⟩
      · cases hrem : r.dhRemote with
        | none =>
          exact Or.inl ⟨⟨by simp [hck], hle, Or.inr (Or.inl hrem)⟩,
            by simp [skipMessageKeys, hck, hlt, hgap, hrem]⟩
        | some remote =>
          have heq : r.skipMessageKeys upTo =
              (skipLoop remote (r.gap upTo) ck r).andThen
                fun ck r => (.ok (), { r with chainRecv := some ck }) := by
            simp [skipMessageKeys, hck, hlt, hgap, hrem, gap]
          rcases skipLoop_cases remote (r.gap upTo) ck r with hok | ⟨k, hk, hsize, hbefore, herr⟩
          · refine Or.inr ⟨ck, remote, rfl, rfl, hle, UInt32.not_lt.mp hgap, Or.inl ?_⟩
            rw [heq, hok]
            rfl
          · rw [herr] at heq
            cases k with
            | zero =>
              -- the cache was full before the first key
              rw [withCached_zero] at hsize heq
              exact Or.inl ⟨⟨by simp [hck], hle,
                Or.inr (Or.inr ⟨(gap_pos_iff hle).mp hk, hsize⟩)⟩, heq⟩
            | succ k =>
              have hroom := hbefore 0 (Nat.succ_pos k)
              rw [withCached_zero] at hroom
              exact Or.inr ⟨ck, remote, rfl, rfl, hle, UInt32.not_lt.mp hgap,
                Or.inr ⟨k + 1, Nat.succ_pos k, hk, ⟨hroom, hsize⟩, heq⟩⟩

/-- With a gap within the limits and room in the cache, all keys are passed. -/
theorem skipMessageKeys_of_room {r : DoubleRatchet P} {upTo : UInt32} {ck : P.Key}
    {remote : Bytes32} (hck : r.chainRecv = some ck) (hrem : r.dhRemote = some remote)
    (hle : r.nRecv ≤ upTo) (hgap : upTo - r.nRecv ≤ MAX_SKIP)
    (hroom : r.skipped.size + r.gap upTo ≤ MAX_SKIPPED_CACHE) :
    r.skipMessageKeys upTo = (.ok (), r.advanced remote ck (r.gap upTo)) := by
  unfold gap at hroom
  simp only [skipMessageKeys, hck, hrem, if_neg (UInt32.not_lt.mpr hle),
    if_neg (UInt32.not_lt.mpr hgap), skipLoop_of_room hroom]
  rfl

/-- The counter ends at `upTo`. -/
theorem nRecv_advanced (r : DoubleRatchet P) (remote : Bytes32) (ck : P.Key) (upTo : UInt32) :
    (r.advanced remote ck (r.gap upTo)).nRecv = upTo := by
  show r.nRecv + UInt32.ofNat (upTo - r.nRecv).toNat = upTo
  rw [UInt32.ofNat_toNat, UInt32.add_comm, UInt32.sub_add_cancel]

/-! ## 4. `encrypt` -/

/-- What a successful `encrypt` seals, and the state it leaves. -/
theorem encrypt_ok_cases {r r' : DoubleRatchet P} {plaintext adPrefix : Bytes}
    {header : RatchetHeader} {ciphertext : C}
    (h : r.encrypt plaintext adPrefix = (.ok (header, ciphertext), r')) :
    ∃ ck, r.chainSend = some ck ∧ header = ⟨r.dhSelfPub, r.pn, r.nSend⟩ ∧
      ciphertext = P.aeadSeal (P.kdfCk ck).2 plaintext (associatedData adPrefix header) ∧
      r' = { r with chainSend := some (P.kdfCk ck).1, nSend := r.nSend + 1 } := by
  unfold encrypt at h
  cases hck : r.chainSend with
  | none =>
    rw [hck] at h
    cases (Prod.mk.inj h).1
  | some ck =>
    rw [hck] at h
    obtain ⟨hres, hr'⟩ := Prod.mk.inj h
    obtain ⟨hheader, hc⟩ := Prod.mk.inj (Except.ok.inj hres)
    subst hheader
    exact ⟨ck, rfl, rfl, hc.symm, hr'.symm⟩

theorem encrypt_error {r : DoubleRatchet P} {plaintext adPrefix : Bytes} {e : Error}
    (h : (r.encrypt plaintext adPrefix).1 = .error e) : (r.encrypt plaintext adPrefix).2 = r := by
  unfold encrypt at h ⊢
  cases hck : r.chainSend with
  | none => rfl
  | some ck =>
    rw [hck] at h
    cases h

/-! ## 5. `decrypt` -/

/-- A cached key is used up, whether or not the ciphertext opens. -/
theorem decrypt_cached {r : DoubleRatchet P} {header : RatchetHeader} {messageKey : P.Key}
    (h : r.skipped[(header.dhPub, header.n)]? = some messageKey) (fresh : P.Secret)
    (ciphertext : C) (adPrefix : Bytes) :
    r.decrypt fresh header ciphertext adPrefix =
      (P.aeadOpen messageKey ciphertext (associatedData adPrefix header),
        { r with skipped := r.skipped.erase (header.dhPub, header.n) }) := by
  simp only [decrypt, h]

theorem decrypt_uncached {r : DoubleRatchet P} {header : RatchetHeader}
    (h : r.skipped[(header.dhPub, header.n)]? = none) (fresh : P.Secret)
    (ciphertext : C) (adPrefix : Bytes) :
    r.decrypt fresh header ciphertext adPrefix =
      (r.followRemote fresh header).andThen fun _ r =>
      (r.skipMessageKeys header.n).andThen fun _ r =>
      r.openNext ciphertext (associatedData adPrefix header) := by
  simp only [decrypt, h]

/-- Each `skip_message_keys` call that `decrypt` makes satisfies `allowed`. -/
def SkipsMeet (allowed : DoubleRatchet P → UInt32 → Prop) (r : DoubleRatchet P)
    (fresh : P.Secret) (header : RatchetHeader) : Prop :=
  r.skipped[(header.dhPub, header.n)]? = none →
    (r.dhRemote ≠ some header.dhPub → allowed r header.pn) ∧
      ∀ r1, r.followRemote fresh header = (.ok (), r1) → allowed r1 header.n

/-- Step 2 of `decrypt` keeps what skipping and a DH ratchet step keep. -/
theorem followRemote_preserves (I : DoubleRatchet P → Prop)
    (allowed : DoubleRatchet P → UInt32 → Prop)
    (hskip : ∀ r upTo, allowed r upTo → I r → I (r.skipMessageKeys upTo).2)
    (hratchet : ∀ r fresh pub, I r → I (r.dhRatchet fresh pub))
    {r : DoubleRatchet P} (hr : I r) (fresh : P.Secret) {header : RatchetHeader}
    (hallowed : r.dhRemote ≠ some header.dhPub → allowed r header.pn) :
    I (r.followRemote fresh header).2 := by
  unfold followRemote
  by_cases hrem : r.dhRemote ≠ some header.dhPub
  · rw [if_pos hrem]
    have hs := hskip r header.pn (hallowed hrem) hr
    rcases hsk : r.skipMessageKeys header.pn with ⟨e | _, r1⟩
    · rw [hsk] at hs
      exact hs
    · rw [hsk] at hs
      exact hratchet r1 fresh header.dhPub hs
  · rw [if_neg hrem]
    exact hr

/-- **The invariant rule for `decrypt`.**  What holds before and is kept by
    dropping a cached key, by an allowed skip, by a DH ratchet step and by a
    step along the receiving chain holds afterwards, whether or not the call
    failed. -/
theorem decrypt_preserves_of (I : DoubleRatchet P → Prop)
    (allowed : DoubleRatchet P → UInt32 → Prop)
    (hdrop : ∀ r slot, I r → I { r with skipped := r.skipped.erase slot })
    (hskip : ∀ r upTo, allowed r upTo → I r → I (r.skipMessageKeys upTo).2)
    (hratchet : ∀ r fresh pub, I r → I (r.dhRatchet fresh pub))
    (hopen : ∀ r ciphertext ad, I r → I (r.openNext ciphertext ad).2)
    {r : DoubleRatchet P} (hr : I r) {fresh : P.Secret} {header : RatchetHeader}
    (hallowed : r.SkipsMeet allowed fresh header) (ciphertext : C) (adPrefix : Bytes) :
    I (r.decrypt fresh header ciphertext adPrefix).2 := by
  cases hcached : r.skipped[(header.dhPub, header.n)]? with
  | some messageKey =>
    rw [decrypt_cached hcached]
    exact hdrop r _ hr
  | none =>
    rw [decrypt_uncached hcached]
    obtain ⟨hfirst, hsecond⟩ := hallowed hcached
    have hfollow := followRemote_preserves I allowed hskip hratchet hr fresh hfirst
    rcases hf : r.followRemote fresh header with ⟨e | _, r1⟩
    · rw [hf] at hfollow
      exact hfollow
    · rw [hf] at hfollow
      have hs := hskip r1 header.n (hsecond r1 hf) hfollow
      rw [Outcome.andThen_ok]
      rcases hsk : r1.skipMessageKeys header.n with ⟨e | _, r2⟩
      · rw [hsk] at hs
        exact hs
      · rw [hsk] at hs
        exact hopen r2 _ _ hs

/-- The rule for invariants that every skip keeps. -/
theorem decrypt_preserves (I : DoubleRatchet P → Prop)
    (hdrop : ∀ r slot, I r → I { r with skipped := r.skipped.erase slot })
    (hskip : ∀ r upTo, I r → I (r.skipMessageKeys upTo).2)
    (hratchet : ∀ r fresh pub, I r → I (r.dhRatchet fresh pub))
    (hopen : ∀ r ciphertext ad, I r → I (r.openNext ciphertext ad).2)
    {r : DoubleRatchet P} (hr : I r) (fresh : P.Secret) (header : RatchetHeader)
    (ciphertext : C) (adPrefix : Bytes) :
    I (r.decrypt fresh header ciphertext adPrefix).2 :=
  decrypt_preserves_of I (fun _ _ => True) hdrop (fun r upTo _ h => hskip r upTo h) hratchet hopen
    hr (fun _ => ⟨fun _ => trivial, fun _ _ => trivial⟩) ciphertext adPrefix

/-- What an accepted message went through. -/
theorem decrypt_ok_cases {r r' : DoubleRatchet P} {fresh : P.Secret} {header : RatchetHeader}
    {ciphertext : C} {adPrefix plaintext : Bytes}
    (h : r.decrypt fresh header ciphertext adPrefix = (.ok plaintext, r')) :
    (∃ messageKey, r.skipped[(header.dhPub, header.n)]? = some messageKey ∧
      P.aeadOpen messageKey ciphertext (associatedData adPrefix header) = .ok plaintext ∧
      r' = { r with skipped := r.skipped.erase (header.dhPub, header.n) }) ∨
    (r.skipped[(header.dhPub, header.n)]? = none ∧
      ∃ r1 r2 ck, r.followRemote fresh header = (.ok (), r1) ∧
        r1.skipMessageKeys header.n = (.ok (), r2) ∧ r2.chainRecv = some ck ∧
        P.aeadOpen (P.kdfCk ck).2 ciphertext (associatedData adPrefix header) = .ok plaintext ∧
        r' = { r2 with chainRecv := some (P.kdfCk ck).1, nRecv := r2.nRecv + 1 }) := by
  cases hcached : r.skipped[(header.dhPub, header.n)]? with
  | some messageKey =>
    rw [decrypt_cached hcached] at h
    obtain ⟨hopen, hr'⟩ := Prod.mk.inj h
    exact Or.inl ⟨messageKey, rfl, hopen, hr'.symm⟩
  | none =>
    rw [decrypt_uncached hcached] at h
    refine Or.inr ⟨rfl, ?_⟩
    rcases hf : r.followRemote fresh header with ⟨res, r1⟩
    rw [hf] at h
    cases res with
    | error e => cases (Prod.mk.inj h).1
    | ok _ =>
      rw [Outcome.andThen_ok] at h
      rcases hsk : r1.skipMessageKeys header.n with ⟨res, r2⟩
      rw [hsk] at h
      cases res with
      | error e => cases (Prod.mk.inj h).1
      | ok _ =>
        rw [Outcome.andThen_ok] at h
        unfold openNext at h
        cases hck : r2.chainRecv with
        | none =>
          rw [hck] at h
          cases (Prod.mk.inj h).1
        | some ck =>
          rw [hck] at h
          obtain ⟨hopen, hr'⟩ := Prod.mk.inj h
          exact ⟨r1, r2, ck, rfl, hsk, hck, hopen, hr'.symm⟩

/-- The state after passing over `k` keys of the chain `ck` and using the next. -/
def used (r : DoubleRatchet P) (remote : Bytes32) (ck : P.Key) (k : Nat) : DoubleRatchet P :=
  { r.withCached remote ck k with
    chainRecv := some (chainKeyAt P ck (k + 1))
    nRecv := (r.withCached remote ck k).nRecv + 1 }

theorem openNext_advanced (r : DoubleRatchet P) (remote : Bytes32) (ck : P.Key) (k : Nat)
    (ciphertext : C) (ad : Bytes) :
    (r.advanced remote ck k).openNext ciphertext ad =
      (P.aeadOpen (messageKeyAt P ck k) ciphertext ad, r.used remote ck k) := by
  unfold used
  rw [← kdfCk_chainKeyAt]
  rfl

/-- A message further along the current receiving chain. -/
theorem decrypt_on_chain {r : DoubleRatchet P} {header : RatchetHeader} {ck : P.Key}
    (hnone : r.skipped[(header.dhPub, header.n)]? = none)
    (hrem : r.dhRemote = some header.dhPub) (hck : r.chainRecv = some ck)
    (hle : r.nRecv ≤ header.n) (hgap : header.n - r.nRecv ≤ MAX_SKIP)
    (hroom : r.skipped.size + r.gap header.n ≤ MAX_SKIPPED_CACHE) (fresh : P.Secret)
    (ciphertext : C) (adPrefix : Bytes) :
    r.decrypt fresh header ciphertext adPrefix =
      (P.aeadOpen (messageKeyAt P ck (r.gap header.n)) ciphertext (associatedData adPrefix header),
        r.used header.dhPub ck (r.gap header.n)) := by
  have hfollow : r.followRemote fresh header = (.ok (), r) := by simp [followRemote, hrem]
  rw [decrypt_uncached hnone, hfollow, Outcome.andThen_ok,
    skipMessageKeys_of_room hck hrem hle hgap hroom, Outcome.andThen_ok, openNext_advanced]

/-- The receiving chain a DH ratchet step against `pub` opens. -/
def newChain (r : DoubleRatchet P) (pub : Bytes32) : P.Key :=
  (P.kdfRk r.rootKey (P.diffieHellman r.dhSelf pub)).2

/-- A message under a new ratchet key: the old chain is closed, a DH ratchet step
    opens the new one, and the key is taken from it. -/
theorem decrypt_new_chain {r r1 : DoubleRatchet P} {header : RatchetHeader}
    (hnone : r.skipped[(header.dhPub, header.n)]? = none)
    (hrem : r.dhRemote ≠ some header.dhPub)
    (hclose : r.skipMessageKeys header.pn = (.ok (), r1)) (hgap : header.n ≤ MAX_SKIP)
    (hroom : r1.skipped.size + header.n.toNat ≤ MAX_SKIPPED_CACHE) (fresh : P.Secret)
    (ciphertext : C) (adPrefix : Bytes) :
    r.decrypt fresh header ciphertext adPrefix =
      (P.aeadOpen (messageKeyAt P (r1.newChain header.dhPub) header.n.toNat) ciphertext
          (associatedData adPrefix header),
        (r1.dhRatchet fresh header.dhPub).used header.dhPub (r1.newChain header.dhPub)
          header.n.toNat) := by
  have hfollow : r.followRemote fresh header = (.ok (), r1.dhRatchet fresh header.dhPub) := by
    simp [followRemote, hrem, hclose]
  have hg : (r1.dhRatchet fresh header.dhPub).gap header.n = header.n.toNat :=
    congrArg UInt32.toNat (UInt32.sub_zero header.n)
  have hskip : (r1.dhRatchet fresh header.dhPub).skipMessageKeys header.n = (.ok (),
      (r1.dhRatchet fresh header.dhPub).advanced header.dhPub (r1.newChain header.dhPub)
        header.n.toNat) := by
    rw [← hg]
    refine skipMessageKeys_of_room rfl rfl UInt32.zero_le ?_ (by rw [hg]; exact hroom)
    show header.n - 0 ≤ MAX_SKIP
    rw [UInt32.sub_zero]
    exact hgap
  rw [decrypt_uncached hnone, hfollow, Outcome.andThen_ok, hskip, Outcome.andThen_ok,
    openNext_advanced]

/-- The first message a responder decrypts. -/
theorem decrypt_initResponder (root : P.Key) (spk : P.Secret) {header : RatchetHeader}
    (hgap : header.n ≤ MAX_SKIP) (fresh : P.Secret) (ciphertext : C) (adPrefix : Bytes) :
    (initResponder root spk).decrypt fresh header ciphertext adPrefix =
      (P.aeadOpen (messageKeyAt P ((initResponder root spk).newChain header.dhPub) header.n.toNat)
          ciphertext (associatedData adPrefix header),
        ((initResponder root spk).dhRatchet fresh header.dhPub).used header.dhPub
          ((initResponder root spk).newChain header.dhPub) header.n.toNat) := by
  have hle : header.n.toNat ≤ 1000 := UInt32.le_iff_toNat_le.mp hgap
  have hclose : (initResponder root spk).skipMessageKeys header.pn =
      (.ok (), initResponder root spk) := rfl
  refine decrypt_new_chain ?_ ?_ hclose hgap ?_ fresh ciphertext adPrefix
  · simp [initResponder]
  · simp [initResponder]
  · simp only [initResponder, Std.ExtTreeMap.size_empty, MAX_SKIPPED_CACHE]
    omega

end DoubleRatchet

end Clarity
