/-
  Clarity/SkipBounds.lean
  =======================
  **What one `decrypt` costs.**  The counters of a header come from the network, and
  `skip_message_keys` runs twice with one of them, around a DH step that sets `n_recv`
  back to zero.

  `decryptMetered` is `decrypt` with a meter: how often `kdf_ck` runs, how many keys are
  written to the cache, and how often `until - n_recv` is evaluated with
  `until < n_recv`.  Without the meter it is `decrypt` (`fst_decryptMetered`).

  A bound is a budget for each part (`Within`); a sequence of parts costs the sum of
  their budgets (`Within.andThen`), so the two skips are bounded by one lemma.
-/
import Clarity.Persistence
import Clarity.Sample

namespace Clarity

variable {C : Type} {P : Suite C}

/-! ## 1. Metered calls -/

/-- The work that is counted. -/
structure Meter where
  kdfCkCalls : Nat
  cached : Nat
  underflows : Nat

namespace Meter

def zero : Meter := ⟨0, 0, 0⟩

def add (v w : Meter) : Meter :=
  ⟨v.kdfCkCalls + w.kdfCkCalls, v.cached + w.cached, v.underflows + w.underflows⟩

end Meter

/-- An outcome and the work it took. -/
abbrev Metered (σ α : Type) := Outcome σ α × Meter

namespace Metered

variable {σ α β : Type}

/-- The `?` operator: the work before an error stays on the meter. -/
def andThen (m : Metered σ α) (f : α → σ → Metered σ β) : Metered σ β :=
  match m with
  | ((.ok a, s), w) => ((f a s).1, w.add (f a s).2)
  | ((.error e, s), w) => ((.error e, s), w)

/-- Put work on the meter before a call. -/
def after (w : Meter) (m : Metered σ α) : Metered σ α := (m.1, w.add m.2)

theorem fst_andThen (m : Metered σ α) (f : α → σ → Metered σ β) :
    (m.andThen f).1 = m.1.andThen fun a s => (f a s).1 := by
  rcases m with ⟨⟨e | a, s⟩, w⟩ <;> rfl

@[simp] theorem after_zero (m : Metered σ α) : m.after .zero = m := by
  simp [after, Meter.zero, Meter.add]

end Metered

/-- `a - b` on `u32`, which panics or wraps when `a < b`. -/
def subMetered (a b : UInt32) : UInt32 × Meter := (a - b, ⟨0, 0, if a < b then 1 else 0⟩)

namespace DoubleRatchet

def skipLoopMetered (remote : Bytes32) : (left : Nat) → P.Key → DoubleRatchet P →
    Metered (DoubleRatchet P) P.Key
  | 0, ck, r => ((.ok ck, r), .zero)
  | left + 1, ck, r =>
    let (nextCk, messageKey) := P.kdfCk ck
    if MAX_SKIPPED_CACHE ≤ r.skipped.size then ((.error .decrypt, r), ⟨1, 0, 0⟩)
    else .after ⟨1, 1, 0⟩ (skipLoopMetered remote left nextCk
      { r with skipped := r.skipped.insert (remote, r.nRecv) messageKey, nRecv := r.nRecv + 1 })

def skipMessageKeysMetered (r : DoubleRatchet P) (upTo : UInt32) :
    Metered (DoubleRatchet P) Unit :=
  match r.chainRecv with
  | none => ((.ok (), r), .zero)
  | some ck =>
    if upTo < r.nRecv then ((.ok (), r), .zero)
    else
      let (gap, w) := subMetered upTo r.nRecv
      if gap > MAX_SKIP then ((.error .decrypt, r), w)
      else match r.dhRemote with
        | none => ((.error .decrypt, r), w)
        | some remote =>
          .after w ((skipLoopMetered remote gap.toNat ck r).andThen fun ck r =>
            ((.ok (), { r with chainRecv := some ck }), .zero))

def followRemoteMetered (r : DoubleRatchet P) (fresh : P.Secret) (header : RatchetHeader) :
    Metered (DoubleRatchet P) Unit :=
  if r.dhRemote ≠ some header.dhPub then
    (r.skipMessageKeysMetered header.pn).andThen fun _ r =>
      ((.ok (), r.dhRatchet fresh header.dhPub), .zero)
  else ((.ok (), r), .zero)

def openNextMetered (r : DoubleRatchet P) (ciphertext : C) (ad : Bytes) :
    Metered (DoubleRatchet P) Bytes :=
  match r.chainRecv with
  | none => ((.error .decrypt, r), .zero)
  | some ck =>
    let (nextCk, messageKey) := P.kdfCk ck
    ((P.aeadOpen messageKey ciphertext ad,
      { r with chainRecv := some nextCk, nRecv := r.nRecv + 1 }), ⟨1, 0, 0⟩)

/-- `decrypt`, with a meter on its `kdf_ck` calls, its cached keys and its subtractions. -/
def decryptMetered (r : DoubleRatchet P) (fresh : P.Secret) (header : RatchetHeader)
    (ciphertext : C) (adPrefix : Bytes) : Metered (DoubleRatchet P) Bytes :=
  let ad := associatedData adPrefix header
  match r.skipped[(header.dhPub, header.n)]? with
  | some messageKey =>
    ((P.aeadOpen messageKey ciphertext ad,
      { r with skipped := r.skipped.erase (header.dhPub, header.n) }), .zero)
  | none =>
    (r.followRemoteMetered fresh header).andThen fun _ r =>
    (r.skipMessageKeysMetered header.n).andThen fun _ r =>
    r.openNextMetered ciphertext ad

/-! ## 2. The meter changes nothing -/

theorem fst_skipLoopMetered (remote : Bytes32) (left : Nat) (ck : P.Key) (r : DoubleRatchet P) :
    (skipLoopMetered remote left ck r).1 = skipLoop remote left ck r := by
  induction left generalizing ck r with
  | zero => rfl
  | succ left ih =>
    rw [skipLoop_succ]
    simp only [skipLoopMetered, apply_ite Prod.fst]
    split
    · rfl
    · exact ih _ _

theorem fst_skipMessageKeysMetered (r : DoubleRatchet P) (upTo : UInt32) :
    (r.skipMessageKeysMetered upTo).1 = r.skipMessageKeys upTo := by
  unfold skipMessageKeysMetered skipMessageKeys
  cases r.chainRecv with
  | none => rfl
  | some ck =>
    simp only [subMetered, apply_ite Prod.fst]
    split
    · rfl
    · split
      · rfl
      · cases r.dhRemote with
        | none => rfl
        | some remote =>
          simp only [Metered.after, Metered.fst_andThen, fst_skipLoopMetered]

theorem fst_followRemoteMetered (r : DoubleRatchet P) (fresh : P.Secret) (header : RatchetHeader) :
    (r.followRemoteMetered fresh header).1 = r.followRemote fresh header := by
  unfold followRemoteMetered followRemote
  split
  · rw [Metered.fst_andThen, fst_skipMessageKeysMetered]
  · rfl

theorem fst_openNextMetered (r : DoubleRatchet P) (ciphertext : C) (ad : Bytes) :
    (r.openNextMetered ciphertext ad).1 = r.openNext ciphertext ad := by
  unfold openNextMetered openNext
  cases r.chainRecv <;> rfl

/-- Without its meter, `decryptMetered` is `decrypt`. -/
theorem fst_decryptMetered (r : DoubleRatchet P) (fresh : P.Secret) (header : RatchetHeader)
    (ciphertext : C) (adPrefix : Bytes) :
    (r.decryptMetered fresh header ciphertext adPrefix).1 =
      r.decrypt fresh header ciphertext adPrefix := by
  unfold decryptMetered decrypt
  cases r.skipped[(header.dhPub, header.n)]? with
  | some messageKey => rfl
  | none =>
    simp only [Metered.fst_andThen, fst_followRemoteMetered, fst_skipMessageKeysMetered,
      fst_openNextMetered]

/-! ## 3. Budgets -/

/-- A call on `r` that takes at most `steps` chain-key steps and writes at most `keys`
    keys; the cache grows by no more than what was written. -/
structure Within {α : Type} (r : DoubleRatchet P) (m : Metered (DoubleRatchet P) α)
    (steps keys : Nat) : Prop where
  kdfCkCalls : m.2.kdfCkCalls ≤ steps
  cached : m.2.cached ≤ keys
  size : m.1.2.skipped.size ≤ r.skipped.size + m.2.cached
  underflows : m.2.underflows = 0

namespace Within

variable {α β : Type} {r : DoubleRatchet P}

/-- A step that runs no `kdf_ck` and writes no key. -/
theorem free {a : Result α} {r' : DoubleRatchet P} (h : r'.skipped.size ≤ r.skipped.size)
    (steps keys : Nat) : r.Within ((a, r'), .zero) steps keys :=
  ⟨Nat.zero_le _, Nat.zero_le _, h, rfl⟩

/-- A larger budget covers the same call. -/
theorem mono {m : Metered (DoubleRatchet P) α} {steps steps' keys keys' : Nat}
    (h : r.Within m steps keys) (hsteps : steps ≤ steps') (hkeys : keys ≤ keys') :
    r.Within m steps' keys' :=
  ⟨Nat.le_trans h.kdfCkCalls hsteps, Nat.le_trans h.cached hkeys, h.size, h.underflows⟩

theorem andThen {m : Metered (DoubleRatchet P) α} {f : α → DoubleRatchet P →
    Metered (DoubleRatchet P) β} {steps steps' keys keys' : Nat} (hm : r.Within m steps keys)
    (hf : ∀ (a : α) (r' : DoubleRatchet P), r'.Within (f a r') steps' keys') :
    r.Within (m.andThen f) (steps + steps') (keys + keys') := by
  rcases m with ⟨⟨e | a, r'⟩, w⟩
  · exact ⟨Nat.le_add_right_of_le hm.kdfCkCalls, Nat.le_add_right_of_le hm.cached, hm.size,
      hm.underflows⟩
  · have hrest := hf a r'
    refine ⟨Nat.add_le_add hm.kdfCkCalls hrest.kdfCkCalls, Nat.add_le_add hm.cached hrest.cached,
      ?_, ?_⟩
    · have hsize := hm.size
      have hsize' := hrest.size
      simp only [Metered.andThen, Meter.add] at hsize hsize' ⊢
      omega
    · exact Nat.add_eq_zero_iff.mpr ⟨hm.underflows, hrest.underflows⟩

end Within

/-- Each iteration is one step and at most one key, also the one that gives up. -/
theorem within_skipLoop (remote : Bytes32) (left : Nat) (ck : P.Key) (r : DoubleRatchet P) :
    r.Within (skipLoopMetered remote left ck r) left left := by
  induction left generalizing ck r with
  | zero => exact .free (Nat.le_refl _) 0 0
  | succ left ih =>
    simp only [skipLoopMetered]
    split
    · exact ⟨Nat.succ_le_succ (Nat.zero_le _), Nat.zero_le _, Nat.le_refl _, rfl⟩
    · have hrest := ih (P.kdfCk ck).1 { r with
        skipped := r.skipped.insert (remote, r.nRecv) (P.kdfCk ck).2
        nRecv := r.nRecv + 1 }
      have hinsert := Std.ExtTreeMap.size_insert_le (t := r.skipped) (k := (remote, r.nRecv))
        (v := (P.kdfCk ck).2)
      have hcalls := hrest.kdfCkCalls
      have hcached := hrest.cached
      have hsize := hrest.size
      refine ⟨?_, ?_, ?_, ?_⟩
      · simp only [Metered.after, Meter.add]
        omega
      · simp only [Metered.after, Meter.add]
        omega
      · simp only [Metered.after, Meter.add] at hsize ⊢
        omega
      · simpa only [Metered.after, Meter.add, Nat.zero_add] using hrest.underflows

/-- A skip costs no more than `MAX_SKIP`, and subtracts only where it can. -/
theorem within_skipMessageKeys (r : DoubleRatchet P) (upTo : UInt32) :
    r.Within (r.skipMessageKeysMetered upTo) MAX_SKIP.toNat MAX_SKIP.toNat := by
  unfold skipMessageKeysMetered
  split
  · exact .free (Nat.le_refl _) _ _
  · rename_i ck _
    by_cases hbelow : upTo < r.nRecv
    · rw [if_pos hbelow]
      exact .free (Nat.le_refl _) _ _
    · have hsub : (subMetered upTo r.nRecv) = (upTo - r.nRecv, .zero) := by
        simp only [subMetered, if_neg hbelow, Meter.zero]
      rw [if_neg hbelow, hsub]
      simp only
      by_cases hgap : upTo - r.nRecv > MAX_SKIP
      · rw [if_pos hgap]
        exact .free (Nat.le_refl _) _ _
      · rw [if_neg hgap]
        have hle : (upTo - r.nRecv).toNat ≤ MAX_SKIP.toNat :=
          UInt32.le_iff_toNat_le.mp (UInt32.not_lt.mp hgap)
        split
        · exact .free (Nat.le_refl _) _ _
        · rename_i remote _
          have hstore : ∀ (ck : P.Key) (r' : DoubleRatchet P),
              r'.Within ((.ok (), { r' with chainRecv := some ck }), .zero) 0 0 := by
            intro ck r'
            refine Within.free ?_ 0 0
            exact Nat.le_refl r'.skipped.size
          have hloop := (within_skipLoop remote (upTo - r.nRecv).toNat ck r).andThen hstore
          rw [Metered.after_zero]
          exact hloop.mono hle hle

theorem within_followRemote (r : DoubleRatchet P) (fresh : P.Secret) (header : RatchetHeader) :
    r.Within (r.followRemoteMetered fresh header) MAX_SKIP.toNat MAX_SKIP.toNat := by
  unfold followRemoteMetered
  split
  · -- the DH step leaves the cache as it is
    have hratchet : ∀ (_ : Unit) (r' : DoubleRatchet P),
        r'.Within ((.ok (), r'.dhRatchet fresh header.dhPub), .zero) 0 0 := by
      intro _ r'
      refine Within.free ?_ 0 0
      exact Nat.le_refl r'.skipped.size
    exact (within_skipMessageKeys r header.pn).andThen hratchet
  · exact .free (Nat.le_refl _) _ _

theorem within_openNext (r : DoubleRatchet P) (ciphertext : C) (ad : Bytes) :
    r.Within (r.openNextMetered ciphertext ad) 1 0 := by
  unfold openNextMetered
  split
  · exact .free (Nat.le_refl _) 1 0
  · exact ⟨Nat.le_refl 1, Nat.le_refl 0, Nat.le_refl _, rfl⟩

/-- Two skips and one step. -/
theorem within_decrypt (r : DoubleRatchet P) (fresh : P.Secret) (header : RatchetHeader)
    (ciphertext : C) (adPrefix : Bytes) :
    r.Within (r.decryptMetered fresh header ciphertext adPrefix)
      (2 * MAX_SKIP.toNat + 1) (2 * MAX_SKIP.toNat) := by
  unfold decryptMetered
  cases r.skipped[(header.dhPub, header.n)]? with
  | some messageKey => exact .free Std.ExtTreeMap.size_erase_le _ _
  | none =>
    have hsteps : 2 * MAX_SKIP.toNat + 1 = MAX_SKIP.toNat + (MAX_SKIP.toNat + 1) := by omega
    have hkeys : 2 * MAX_SKIP.toNat = MAX_SKIP.toNat + (MAX_SKIP.toNat + 0) := by omega
    rw [hsteps, hkeys]
    exact (within_followRemote r fresh header).andThen fun _ r1 =>
      (within_skipMessageKeys r1 header.n).andThen fun _ r2 =>
        within_openNext r2 ciphertext (associatedData adPrefix header)

end DoubleRatchet

namespace Session

/-- **Skipped keys are bounded.**  In every session a peer can steer the other end into,
    the cache is within its cap; and one more message, whatever its header, makes
    `decrypt` write at most `2 * MAX_SKIP` keys and take at most `2 * MAX_SKIP + 1`
    chain-key steps, without an underflow. -/
theorem skipping_is_bounded {s : Session P} (h : s.Reachable) :
    s.ratchet.skipped.size ≤ MAX_SKIPPED_CACHE ∧
    ∀ (fresh : P.Secret) (header : RatchetHeader) (ciphertext : C) (adPrefix : Bytes),
      ∃ work : Meter,
        s.ratchet.decryptMetered fresh header ciphertext adPrefix =
          (s.ratchet.decrypt fresh header ciphertext adPrefix, work) ∧
        (s.ratchet.decrypt fresh header ciphertext adPrefix).2.skipped.size ≤
          s.ratchet.skipped.size + work.cached ∧
        work.cached ≤ 2 * MAX_SKIP.toNat ∧
        work.kdfCkCalls ≤ 2 * MAX_SKIP.toNat + 1 ∧
        work.underflows = 0 := by
  refine ⟨size_skipped_of_reachable h, ?_⟩
  intro fresh header ciphertext adPrefix
  have hfst := s.ratchet.fst_decryptMetered fresh header ciphertext adPrefix
  have hwithin := s.ratchet.within_decrypt fresh header ciphertext adPrefix
  refine ⟨_, Prod.ext hfst rfl, ?_, hwithin.cached, hwithin.kdfCkCalls, hwithin.underflows⟩
  have hsize := hwithin.size
  rw [hfst] at hsize
  exact hsize

/-- A responder that is sent the largest counters there are. -/
theorem skipping_is_bounded_sample :
    ∃ t, sampleTalk = some t ∧ t.bob.ratchet.skipped.size ≤ MAX_SKIPPED_CACHE ∧
      ∃ work : Meter, (t.bob.ratchet.decryptMetered (sampleSecret 71)
          ⟨Bytes32.ofByte 9, 4294967295, 4294967295⟩ t.second.ciphertext t.bob.adPrefix).2 = work ∧
        work.kdfCkCalls ≤ 2001 := by
  have hsome : sampleTalk.isSome := by decide +kernel
  have hbob := talk_reachable (Option.some_get hsome).symm
  have hbound := skipping_is_bounded hbob
  obtain ⟨work, hwork, -, -, hcalls, -⟩ := hbound.2 (sampleSecret 71)
    ⟨Bytes32.ofByte 9, 4294967295, 4294967295⟩ (sampleTalk.get hsome).second.ciphertext
    (sampleTalk.get hsome).bob.adPrefix
  exact ⟨_, (Option.some_get hsome).symm, hbound.1, work, congrArg Prod.snd hwork, hcalls⟩

end Session

end Clarity
