/-
  Clarity/Buckets.lean
  ====================
  **Size buckets** (`bucket` in `core/src/envelope.rs`).  The bucket of a payload is the least
  bucket size with room for it and its length field; that settles every relation between
  buckets without going through the three ranges of the code again.

    * `bucket_isLeast` — the three ranges join to one definition;
    * `envelope_lengths` — an envelope's length is its bucket's, at bounded cost.
-/
import Clarity.Sending
import Mathlib.Order.Bounds.Basic

namespace Clarity

/-! ## 1. The next power of two -/

theorem nextPowerOfTwo_le {n k : Nat} (h : n ≤ 2 ^ k) : nextPowerOfTwo n ≤ 2 ^ k := by
  unfold nextPowerOfTwo
  split
  · exact Nat.one_le_two_pow
  · rename_i hn
    have hlog : (n - 1).log2 < k := by
      apply (Nat.log2_lt (by omega)).mpr
      omega
    exact Nat.pow_le_pow_right (by decide) hlog

theorem nextPowerOfTwo_lt {n : Nat} (h : 0 < n) : nextPowerOfTwo n < 2 * n := by
  unfold nextPowerOfTwo
  split
  · omega
  · have hlog : 2 ^ (n - 1).log2 ≤ n - 1 := Nat.log2_self_le (by omega)
    rw [Nat.pow_succ]
    omega

theorem nextPowerOfTwo_eq_two_pow (n : Nat) : ∃ k, nextPowerOfTwo n = 2 ^ k := by
  unfold nextPowerOfTwo
  split
  · exact ⟨0, rfl⟩
  · exact ⟨_, rfl⟩

/-! ## 2. Bucket sizes -/

/-- 512, a power of two up to 8 KiB, or a multiple of 8 KiB. -/
inductive IsBucket : Nat → Prop where
  | pow2 (k : Nat) : MIN_BUCKET ≤ 2 ^ k → 2 ^ k ≤ MAX_POW2_BUCKET → IsBucket (2 ^ k)
  | linear (k : Nat) : 0 < k → IsBucket (k * MAX_POW2_BUCKET)

theorem IsBucket.cases {b : Nat} (h : IsBucket b) :
    (∃ k, b = 2 ^ k ∧ 2 ^ k ≤ MAX_POW2_BUCKET) ∨ MAX_POW2_BUCKET ∣ b := by
  cases h with
  | pow2 k _ hmax => exact Or.inl ⟨k, rfl, hmax⟩
  | linear k _ => exact Or.inr (Nat.dvd_mul_left ..)

theorem IsBucket.min_le {b : Nat} (h : IsBucket b) : MIN_BUCKET ≤ b := by
  cases h with
  | pow2 k hmin _ => exact hmin
  | linear k hk =>
    unfold MIN_BUCKET MAX_POW2_BUCKET
    omega

theorem isBucket_bucket (n : Nat) : IsBucket (bucket n) := by
  unfold bucket
  simp only
  split
  · exact IsBucket.pow2 9 (by decide) (by decide)
  · rename_i hmin
    split
    · rename_i hmax
      obtain ⟨k, hk⟩ := nextPowerOfTwo_eq_two_pow (n + LEN_PREFIX)
      have hroom := le_nextPowerOfTwo (n + LEN_PREFIX)
      have hle : nextPowerOfTwo (n + LEN_PREFIX) ≤ 2 ^ 13 := nextPowerOfTwo_le hmax
      rw [hk] at hroom hle ⊢
      exact IsBucket.pow2 k (by omega) hle
    · rename_i hmax
      apply IsBucket.linear
      unfold MAX_POW2_BUCKET at hmax ⊢
      omega

/-- **The ranges join.** -/
theorem bucket_isLeast (n : Nat) : IsLeast {b | IsBucket b ∧ n + LEN_PREFIX ≤ b} (bucket n) := by
  refine ⟨⟨isBucket_bucket n, le_bucket n⟩, ?_⟩
  rintro b ⟨hb, hroom⟩
  unfold bucket
  simp only
  split
  · exact hb.min_le
  · split
    · rename_i hmax
      cases hb with
      | pow2 k _ _ => exact nextPowerOfTwo_le hroom
      | linear k hk =>
        have hle : nextPowerOfTwo (n + LEN_PREFIX) ≤ 2 ^ 13 := nextPowerOfTwo_le hmax
        have hone : MAX_POW2_BUCKET ≤ k * MAX_POW2_BUCKET := Nat.le_mul_of_pos_left _ hk
        exact Nat.le_trans hle hone
    · rename_i hmax
      cases hb with
      | pow2 k _ hle => exact absurd (Nat.le_trans hroom hle) hmax
      | linear k hk =>
        apply Nat.mul_le_mul_right
        unfold MAX_POW2_BUCKET at hroom ⊢
        omega

theorem bucket_mono : Monotone bucket := by
  intro m n hmn
  apply (bucket_isLeast m).2
  refine ⟨isBucket_bucket n, ?_⟩
  have hroom := le_bucket n
  omega

/-- A payload that fills its bucket stays in it. -/
theorem bucket_bucket (n : Nat) : bucket (bucket n - LEN_PREFIX) = bucket n := by
  have hroom := le_bucket n
  apply Nat.le_antisymm
  · apply (bucket_isLeast _).2
    refine ⟨isBucket_bucket n, ?_⟩
    omega
  · have hback := le_bucket (bucket n - LEN_PREFIX)
    omega

theorem bucket_lt {n : Nat} (h : MIN_BUCKET < n + LEN_PREFIX) :
    bucket n < 2 * (n + LEN_PREFIX) := by
  unfold bucket
  simp only
  rw [if_neg (Nat.not_le.mpr h)]
  split
  · exact nextPowerOfTwo_lt (by omega)
  · unfold MAX_POW2_BUCKET at *
    omega

/-! ## 3. Lengths -/

variable {P : Suite Bytes}

/-- **An envelope's length is its bucket's.** -/
theorem envelope_lengths (hP : P.Stretches) :
    (∀ (sender : Account P) recipientDh payload eph,
      (sealEnvelope sender recipientDh payload eph).length = 113 + bucket payload.length) ∧
    (∀ (sender sender' : Account P) recipientDh recipientDh' payload payload' eph eph',
      bucket payload.length = bucket payload'.length →
      (sealEnvelope sender recipientDh payload eph).length =
        (sealEnvelope sender' recipientDh' payload' eph').length) ∧
    ∀ n, n + 4 ≤ bucket n ∧ (∀ m, n ≤ m → bucket n ≤ bucket m) ∧
      bucket (bucket n - 4) = bucket n ∧ (n + 4 ≤ 512 → bucket n = 512) ∧
      (512 < n + 4 → bucket n < 2 * (n + 4)) ∧
      (bucket n = 512 ∨ (∃ k, bucket n = 2 ^ k ∧ 2 ^ k ≤ 8192) ∨ 8192 ∣ bucket n) := by
  have hlength : ∀ (sender : Account P) recipientDh payload eph,
      (sealEnvelope sender recipientDh payload eph).length = 113 + bucket payload.length := by
    intro sender recipientDh payload eph
    rw [length_sealEnvelope hP]
    unfold sealedLength HEADER_LEN INNER_PREFIX_LEN AEAD_TAG_LEN
    omega
  refine ⟨hlength, ?_, ?_⟩
  · intro sender sender' recipientDh recipientDh' payload payload' eph eph' hbucket
    rw [hlength, hlength, hbucket]
  · intro n
    refine ⟨le_bucket n, fun m hm => bucket_mono hm, bucket_bucket n, ?_, bucket_lt, ?_⟩
    · intro hmin
      exact if_pos hmin
    · exact Or.inr (isBucket_bucket n).cases

/-- Payloads of 1 and of 508 bytes give envelopes of one length. -/
theorem envelope_lengths_tagging :
    (sealEnvelope AppState.taggingAlice.account (.ofByte 1) [7] (AppState.taggingSecret 60)).length =
      (sealEnvelope AppState.taggingAlice.account (.ofByte 2) (List.replicate 508 9)
        (AppState.taggingSecret 61)).length :=
  (envelope_lengths AppState.taggingSuite_stretches).2.1 _ _ _ _ _ _ _ _ (by decide +kernel)

end Clarity
