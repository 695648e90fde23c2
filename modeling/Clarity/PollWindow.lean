/-
  Clarity/PollWindow.lean
  =======================
  **The poll window and the retention of the relay.**  The relay keeps mail for 30 days of
  seconds, and `_pollOnce` looks back over days: 29 of them at most, and one of them on
  first run.

    * `PollState.asks_iff` — which inboxes one tick asks for;
    * `covers_retention` — in a run, which of the mail that the relay still has;
    * `window_leaves_mail` — a first poll that comes late, and a poll after 30 days.
-/
import Clarity.CatchUp
import Clarity.Mailbox

namespace Clarity

namespace CatchUp

/-! ## 1. One tick -/

theorem currentEpoch_eq (u : UInt64) : currentEpoch u = (u.toNat / 86400 : ℕ) := by
  have hdiv : (epochForUnix u).toNat = u.toNat / 86400 := UInt64.toNat_div ..
  rw [currentEpoch, hdiv]

theorem currentEpoch_mono {u w : UInt64} (h : u ≤ w) : currentEpoch u ≤ currentEpoch w := by
  rw [currentEpoch_eq, currentEpoch_eq]
  exact Int.ofNat_le.mpr (Nat.div_le_div_right (UInt64.le_iff_toNat_le.mp h))

/-- The window starts a day before the marker, but 29 days back at most. -/
theorem pollFrom_eq (last : Option Int) (current : Int) :
    pollFrom last current = max (current - 29) (max 0 (last.getD current - 1)) := by
  simp only [pollFrom, maxPollEpochs]
  split <;> split <;> omega

/-- Of an inbox of the past: when its epoch is in the window. -/
theorem mem_pollEpochs_iff {last : Option Int} {current e : Int} (hpos : 0 ≤ e)
    (hpast : e ≤ current) :
    e ∈ pollEpochs last current ↔ current ≤ e + 29 ∧ last.getD current ≤ e + 1 := by
  rw [mem_pollEpochs, pollFrom_eq, Int.max_le, Int.max_le]
  constructor
  · rintro ⟨⟨hold, -, hmarker⟩, -⟩
    constructor <;> omega
  · rintro ⟨hold, hmarker⟩
    refine ⟨⟨?_, hpos, ?_⟩, ?_⟩ <;> omega

theorem PollState.asks {s : PollState} {sha256 : Bytes → Bytes32} {me : Bytes32} {now e : UInt64}
    (h : (e.toNat : Int) ∈ pollEpochs s.lastPollEpoch (currentEpoch now)) :
    inboxId sha256 me e ∈ s.inboxes sha256 me now := by
  refine List.mem_map.mpr ⟨e.toNat, h, ?_⟩
  rw [Int.toNat_natCast, UInt64.ofNat_toNat]

/-! ## 2. Mail that the relay keeps -/

/-- What has not expired under the default limits was queued 30 epochs ago at most. -/
theorem epoch_of_keeps {m : QueuedMessage} {now : UInt64}
    (h : StoreLimits.default.keeps now m = true) :
    currentEpoch now ≤ currentEpoch m.enqueuedAt + 30 := by
  have hcutoff : now.toNat - 2592000 ≤ m.enqueuedAt.toNat := of_decide_eq_true h
  rw [currentEpoch_eq, currentEpoch_eq]
  omega

/-- The clock at the ticks of a run. -/
def PollAct.readings : PollAct → List UInt64
  | poll unixSeconds _ => [unixSeconds]
  | _ => []

def readings (acts : List PollAct) : List UInt64 := acts.flatMap PollAct.readings

theorem exists_reading {acts : List PollAct} {c : Int} (h : c ∈ successes acts) :
    ∃ u ∈ readings acts, c = currentEpoch u := by
  obtain ⟨act, hact, hc⟩ := List.mem_flatMap.mp h
  cases act with
  | poll unixSeconds returned =>
    cases returned with
    | true =>
      refine ⟨unixSeconds, List.mem_flatMap.mpr ⟨_, hact, List.mem_singleton_self _⟩, ?_⟩
      exact List.mem_singleton.mp hc
    | false => exact absurd hc List.not_mem_nil
  | written epoch => exact absurd hc List.not_mem_nil
  | restart => exact absurd hc List.not_mem_nil

/-- The relay holds a message in the inbox of the epoch in which it was queued, between the
    acts `before` and `between` of its recipient; it has not expired `now`, and no tick has
    asked for that inbox since. -/
structure Parked (sha256 : Bytes → Bytes32) (me : Bytes32) (s : RelayStore)
    (before between : List PollAct) (m : QueuedMessage) (now : UInt64) : Prop where
  queued : m ∈ s.queue (inboxId sha256 me (epochForUnix m.enqueuedAt))
  kept : s.limits.keeps now m = true
  past : ∀ u ∈ readings before, u ≤ m.enqueuedAt
  since : ∀ u ∈ readings between, m.enqueuedAt ≤ u ∧ u ≤ now
  present : m.enqueuedAt ≤ now
  unpolled : ∀ xs u ys, between = xs ++ .poll u true :: ys →
    inboxId sha256 me (epochForUnix m.enqueuedAt) ∉ (run (before ++ xs)).inboxes sha256 me u

/-- One of the inboxes that a tick asks for holds the message, and the relay answers with it. -/
def Found (sha256 : Bytes → Bytes32) (me : Bytes32) (s : RelayStore) (acts : List PollAct)
    (m : QueuedMessage) (now : UInt64) : Prop :=
  ∃ inbox ∈ (run acts).inboxes sha256 me now, m ∈ s.queue inbox ∧ m.bytes ∈ (s.pollAt inbox now).1

variable {sha256 : Bytes → Bytes32} {me : Bytes32} {s : RelayStore}
  {before between : List PollAct} {m : QueuedMessage} {now u : UInt64} {p : PollState}

/-- Nothing moves the marker but a poll that succeeds. -/
theorem polled_between (h : ∀ xs u ys, between = xs ++ .poll u true :: ys →
      ¬ Polled (successes before) (run (before ++ xs))) :
    Polled (successes before) (run (before ++ between)) := by
  induction between using List.reverseRecOn with
  | nil =>
    rw [List.append_nil]
    exact polled_run before
  | append_singleton xs act ih =>
    have hxs := ih fun ys u zs hsplit =>
      h ys u (zs ++ [act]) (by rw [hsplit, List.append_assoc, List.cons_append])
    have hstep := hxs.step act
    rw [← List.append_assoc, run_snoc]
    cases act with
    | poll u returned =>
      cases returned with
      | true => exact absurd hxs (h xs u [] rfl)
      | false => simpa only [PollAct.success, List.append_nil] using hstep
    | written epoch => simpa only [PollAct.success, List.append_nil] using hstep
    | restart => simpa only [PollAct.success, List.append_nil] using hstep

/-- With a marker from before the message was queued, the inbox is in the window. -/
theorem asks_of_polled (hpolled : Polled (successes before) p)
    (past : ∀ u ∈ readings before, u ≤ m.enqueuedAt) (hu : m.enqueuedAt ≤ u)
    (hage : currentEpoch u ≤ currentEpoch m.enqueuedAt + 29)
    (hfirst : p.lastPollEpoch = none → currentEpoch u ≤ currentEpoch m.enqueuedAt + 1) :
    inboxId sha256 me (epochForUnix m.enqueuedAt) ∈ p.inboxes sha256 me u := by
  apply PollState.asks
  apply (mem_pollEpochs_iff (Int.natCast_nonneg _) (currentEpoch_mono hu)).mpr
  refine ⟨hage, ?_⟩
  cases hlast : p.lastPollEpoch with
  | none => exact hfirst hlast
  | some c =>
    obtain ⟨w, hw, rfl⟩ := exists_reading (hpolled.last c hlast)
    exact Int.le_add_one (currentEpoch_mono (past w hw))

/-- **What the window covers of the retention.**  Mail that the relay still has, and that
    was not polled before, is found, but for mail of the 30th epoch back; where a poll had
    no marker to start from, it must have come by the day after the mail. -/
theorem covers_retention (hlimits : s.limits = StoreLimits.default)
    (h : Parked sha256 me s before between m now)
    (hage : currentEpoch now ≠ currentEpoch m.enqueuedAt + 30)
    (hfirst : ∀ xs u ys, between ++ [.poll now true] = xs ++ .poll u true :: ys →
      (run (before ++ xs)).lastPollEpoch = none →
      currentEpoch u ≤ currentEpoch m.enqueuedAt + 1) :
    Found sha256 me s (before ++ between) m now := by
  have hkept := h.kept
  rw [hlimits] at hkept
  have hyoung : currentEpoch now ≤ currentEpoch m.enqueuedAt + 29 := by
    have hretained := epoch_of_keeps hkept
    omega
  have hpolled : Polled (successes before) (run (before ++ between)) := by
    apply polled_between
    intro xs u ys hsplit hxs
    have hread : u ∈ readings between := by
      rw [hsplit]
      exact List.mem_flatMap.mpr ⟨.poll u true, by simp, List.mem_singleton_self _⟩
    obtain ⟨hu, hnow⟩ := h.since u hread
    apply h.unpolled xs u ys hsplit
    apply asks_of_polled hxs h.past hu
    · exact Int.le_trans (currentEpoch_mono hnow) hyoung
    · exact hfirst xs u (ys ++ [.poll now true]) (by rw [hsplit, List.append_assoc]; rfl)
  refine ⟨inboxId sha256 me (epochForUnix m.enqueuedAt), ?_, h.queued, ?_⟩
  · exact asks_of_polled hpolled h.past h.present hyoung (hfirst between now [] rfl)
  · rw [RelayStore.pollAt_fst]
    exact List.mem_map_of_mem (List.mem_filter.mpr ⟨h.queued, h.kept⟩)

/-! ## 3. Mail that is left behind -/

section Sample

/-- A hash that keeps the inboxes of some epochs apart. -/
def epochByte (b : Bytes) : Bytes32 := .ofByte (b.getD 48 0)

/-- A message in the mailbox of the epoch in which it was queued. -/
def message (enqueuedAt : UInt64) : QueuedMessage := ⟨enqueuedAt, [42]⟩

def parked (m : QueuedMessage) : RelayStore :=
  (RelayStore.enqueueAt ⟨∅, .default⟩ (inboxId epochByte (.ofByte 2) (epochForUnix m.enqueuedAt))
    m.bytes m.enqueuedAt).2

instance (sha256 : Bytes → Bytes32) (me : Bytes32) (s : RelayStore) (acts : List PollAct)
    (m : QueuedMessage) (now : UInt64) : Decidable (Found sha256 me s acts m now) :=
  inferInstanceAs (Decidable (∃ inbox ∈ _, _))

/-- A message of day 100.  The first poll fails, and the next is on day 103. -/
theorem parked_first : Parked epochByte (.ofByte 2) (parked (message 8640000)) []
    [.poll 8640000 false] (message 8640000) 8899200 where
  queued := by decide +kernel
  kept := by decide
  past := by simp [readings, message]
  since := by simp [readings, PollAct.readings, message]
  present := by decide
  unpolled := by
    rintro (_ | ⟨_, _ | _⟩) u ys hsplit <;> cases hsplit

/-- A message of one o'clock on day 100, after a poll, and 30 days before the next. -/
theorem parked_month : Parked epochByte (.ofByte 2) (parked (message 8643600))
    [.poll 8640000 true, .written 100] [] (message 8643600) 11235600 where
  queued := by decide +kernel
  kept := by decide
  past := by simp [readings, PollAct.readings, message]
  since := by simp [readings, message]
  present := by decide
  unpolled := by
    rintro (_ | _) u ys hsplit <;> cases hsplit

theorem limits_parked (m : QueuedMessage) : (parked m).limits = StoreLimits.default :=
  RelayStore.limits_enqueueAt ..

/-- Both are left behind: on first run the window starts a day back, and at most 29. -/
theorem window_leaves_mail :
    (∀ m, (parked m).limits = StoreLimits.default) ∧
    (Parked epochByte (.ofByte 2) (parked (message 8640000)) [] [.poll 8640000 false]
        (message 8640000) 8899200 ∧
      ¬ Found epochByte (.ofByte 2) (parked (message 8640000)) [.poll 8640000 false]
        (message 8640000) 8899200) ∧
    Parked epochByte (.ofByte 2) (parked (message 8643600)) [.poll 8640000 true, .written 100] []
        (message 8643600) 11235600 ∧
      ¬ Found epochByte (.ofByte 2) (parked (message 8643600)) [.poll 8640000 true, .written 100]
        (message 8643600) 11235600 := by
  refine ⟨limits_parked, ⟨parked_first, ?_⟩, parked_month, ?_⟩
  · decide +kernel
  · decide +kernel

/-- A first poll on the day after the message was queued finds it. -/
theorem covers_retention_first :
    Found epochByte (.ofByte 2) (parked (message 8640000)) ([] ++ [.poll 8640000 false])
      (message 8640000) 8726400 := by
  apply covers_retention (limits_parked _)
  · exact
      { queued := by decide +kernel
        kept := by decide
        past := by simp [readings, message]
        since := by simp [readings, PollAct.readings, message]
        present := by decide
        unpolled := by rintro (_ | ⟨_, _ | _⟩) u ys hsplit <;> cases hsplit }
  · decide
  · rintro (_ | ⟨_, _ | ⟨_, _ | _⟩⟩) u ys hsplit <;> cases hsplit
    intro _
    decide

end Sample

end CatchUp

end Clarity
