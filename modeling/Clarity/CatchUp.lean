/-
  Clarity/CatchUp.lean
  ====================
  **The catch-up window** of rotating inboxes that one tick of `_pollOnce` drains.

  The window runs from just before the last successful poll to tomorrow.  What it
  starts from is a marker that is kept in memory, written to storage without waiting
  for the write, and read back when the app starts again: so the marker may be older
  than the last successful poll, but it always is the epoch of *some* successful poll.
  That, and the distance between polls, is all that covering the mail needs.
-/
import Clarity.Bincode
import Mathlib.Data.List.Chain

namespace Clarity

/-! ## 1. Epochs and inboxes -/

/-- 24 hours. -/
def INBOX_EPOCH_SECONDS : UInt64 := 86400

def epochForUnix (unixSeconds : UInt64) : UInt64 := unixSeconds / INBOX_EPOCH_SECONDS

/-- `inbox_id`, over the hash. -/
def inboxId (sha256 : Bytes → Bytes32) (identityEd : Bytes32) (epoch : UInt64) : Bytes32 :=
  sha256 (ascii "Clarity-inbox-v1" ++ identityEd.bytes ++ Codec.leBytes 8 epoch.toNat)

namespace CatchUp

/-- `_maxPollEpochs`. -/
def maxPollEpochs : Int := 30

/-- The first epoch of the window. -/
def pollFrom (lastPollEpoch : Option Int) (current : Int) : Int :=
  let start := lastPollEpoch.getD current - 1
  let start := if start < 0 then 0 else start
  if current + 1 - start ≥ maxPollEpochs then current + 1 - maxPollEpochs else start

/-- The epochs from `pollFrom` to `current + 1`. -/
def pollEpochs (lastPollEpoch : Option Int) (current : Int) : List Int :=
  (List.range (current + 2 - pollFrom lastPollEpoch current).toNat).map
    fun i : Nat => pollFrom lastPollEpoch current + i

theorem mem_pollEpochs {last : Option Int} {current e : Int} :
    e ∈ pollEpochs last current ↔ pollFrom last current ≤ e ∧ e ≤ current + 1 := by
  simp only [pollEpochs, List.mem_map, List.mem_range]
  constructor
  · rintro ⟨i, hi, rfl⟩
    omega
  · rintro ⟨hfrom, hto⟩
    refine ⟨(e - pollFrom last current).toNat, ?_, ?_⟩ <;> omega

/-- With a marker the window starts no later than the day before it, or 29 epochs back. -/
theorem pollFrom_le {m current e : Int} (hpos : 0 ≤ e) (hmarker : m - 1 ≤ e)
    (hreach : current - 29 ≤ e) : pollFrom (some m) current ≤ e := by
  simp only [pollFrom, maxPollEpochs, Option.getD_some]
  split <;> split <;> omega

/-! ## 2. Runs of one client -/

/-- `_lastPollEpoch`, what storage holds of it, and the writes under way. -/
structure PollState where
  lastPollEpoch : Option Int
  stored : Option Int
  writes : List Int

inductive PollAct where
  /-- A tick at a reading of the clock, and whether `pollMany` returned. -/
  | poll (unixSeconds : UInt64) (returned : Bool)
  /-- One of the writes that nothing waits for completes, in any order. -/
  | written (epoch : Int)
  /-- The app starts again: `_restoreContactsAndSessions` reads the marker. -/
  | restart

def PollState.fresh : PollState := ⟨none, none, []⟩

/-- `_currentEpoch()`. -/
def currentEpoch (unixSeconds : UInt64) : Int := (epochForUnix unixSeconds).toNat

/-- The inboxes a tick asks for. -/
def PollState.inboxes (s : PollState) (sha256 : Bytes → Bytes32) (me : Bytes32)
    (unixSeconds : UInt64) : List Bytes32 :=
  (pollEpochs s.lastPollEpoch (currentEpoch unixSeconds)).map
    fun epoch => inboxId sha256 me (UInt64.ofNat epoch.toNat)

def PollState.step (s : PollState) : PollAct → PollState
  | .poll unixSeconds returned =>
    let current := currentEpoch unixSeconds
    if returned = true ∧ s.lastPollEpoch ≠ some current then
      { s with lastPollEpoch := some current, writes := s.writes ++ [current] }
    else s
  | .written epoch =>
    if epoch ∈ s.writes then { s with stored := some epoch, writes := s.writes.erase epoch } else s
  | .restart => { s with lastPollEpoch := s.stored }

def run (acts : List PollAct) : PollState := acts.foldl PollState.step .fresh

/-- The epoch of a poll that succeeds. -/
def PollAct.success : PollAct → List Int
  | poll unixSeconds true => [currentEpoch unixSeconds]
  | _ => []

def successes (acts : List PollAct) : List Int := acts.flatMap PollAct.success

/-- Whenever the app starts again after its first successful poll, there is a marker to read. -/
def Reloads (acts : List PollAct) : Prop :=
  ∀ before after, acts = before ++ .restart :: after → successes before ≠ [] →
    (run before).stored.isSome = true

theorem run_snoc (acts : List PollAct) (act : PollAct) :
    run (acts ++ [act]) = (run acts).step act := by
  rw [run, List.foldl_append]
  rfl

theorem successes_append (acts acts' : List PollAct) :
    successes (acts ++ acts') = successes acts ++ successes acts' := List.flatMap_append

theorem successes_snoc (acts : List PollAct) (act : PollAct) :
    successes (acts ++ [act]) = successes acts ++ act.success := by
  rw [successes_append]
  exact congrArg _ (List.append_nil _)

/-! ## 3. The marker -/

/-- Every copy of the marker is an epoch that was polled. -/
structure Polled (epochs : List Int) (s : PollState) : Prop where
  last : ∀ m, s.lastPollEpoch = some m → m ∈ epochs
  stored : ∀ m, s.stored = some m → m ∈ epochs
  writes : ∀ m ∈ s.writes, m ∈ epochs

theorem Polled.mono {epochs epochs' : List Int} {s : PollState} (h : Polled epochs s)
    (hsub : ∀ m ∈ epochs, m ∈ epochs') : Polled epochs' s :=
  ⟨fun m hm => hsub m (h.last m hm), fun m hm => hsub m (h.stored m hm),
    fun m hm => hsub m (h.writes m hm)⟩

theorem Polled.step {epochs : List Int} {s : PollState} (h : Polled epochs s) (act : PollAct) :
    Polled (epochs ++ act.success) (s.step act) := by
  have hkept := h.mono fun m hm => List.mem_append_left act.success hm
  cases act with
  | poll unixSeconds returned =>
    rw [PollState.step]
    split
    · rename_i hnew
      obtain ⟨rfl, -⟩ := hnew
      have hcurrent : currentEpoch unixSeconds ∈
          epochs ++ (PollAct.poll unixSeconds true).success :=
        List.mem_append_right _ (List.mem_singleton.mpr rfl)
      constructor
      · intro m hm
        cases hm
        exact hcurrent
      · exact hkept.stored
      · intro m hm
        rcases List.mem_append.mp hm with hm | hm
        · exact hkept.writes m hm
        · cases List.mem_singleton.mp hm
          exact hcurrent
    · exact hkept
  | written epoch =>
    rw [PollState.step]
    split
    · rename_i hpending
      constructor
      · exact hkept.last
      · intro m hm
        cases hm
        exact hkept.writes epoch hpending
      · intro m hm
        exact hkept.writes m (List.mem_of_mem_erase hm)
    · exact hkept
  | restart =>
    exact ⟨hkept.stored, hkept.stored, hkept.writes⟩

theorem polled_run (acts : List PollAct) : Polled (successes acts) (run acts) := by
  induction acts using List.reverseRecOn with
  | nil => exact ⟨nofun, nofun, nofun⟩
  | append_singleton acts act ih =>
    rw [run_snoc, successes_snoc]
    exact ih.step act

theorem Reloads.of_snoc {acts : List PollAct} {act : PollAct} (h : Reloads (acts ++ [act])) :
    Reloads acts := by
  rintro before after rfl hsome
  exact h before (after ++ [act]) (by simp) hsome

/-- Once a poll has succeeded there is a marker. -/
theorem marked_run (acts : List PollAct) (hreloads : Reloads acts) (hsome : successes acts ≠ []) :
    (run acts).lastPollEpoch.isSome = true := by
  induction acts using List.reverseRecOn with
  | nil => exact absurd rfl hsome
  | append_singleton acts act ih =>
    rw [successes_snoc] at hsome
    have ih := ih hreloads.of_snoc
    rw [run_snoc]
    cases act with
    | poll unixSeconds returned =>
      rw [PollState.step]
      split
      · rfl
      · rename_i hsame
        cases returned with
        | false => exact ih (by simpa [PollAct.success] using hsome)
        | true =>
          have hlast := not_and_not_right.mp hsame rfl
          rw [hlast]
          rfl
    | written epoch =>
      have hkept := ih (by simpa [PollAct.success] using hsome)
      rw [PollState.step]
      split
      · exact hkept
      · exact hkept
    | restart =>
      exact hreloads acts [] rfl (by simpa [PollAct.success] using hsome)

/-! ## 4. Coverage -/

/-- A successful poll follows the one before it at an epoch no earlier, and at most 28 later. -/
def Follows (c c' : Int) : Prop := c ≤ c' ∧ c' ≤ c + 28

/-- **The catch-up window strands no mail.**  Mail is queued at the epoch `t`, after the
    acts `before` and into the inbox of an epoch `e` next to `t`; the polls of `between`
    that succeed are at epochs before `t`.  Then the tick at `unixSeconds`, the first at an
    epoch from `t` on, asks for that inbox. -/
theorem window_covers (sha256 : Bytes → Bytes32) (me : Bytes32) (before between : List PollAct)
    (unixSeconds t e : UInt64)
    (hpolls : (successes (before ++ between ++ [.poll unixSeconds true])).IsChain Follows)
    (hreloads : Reloads (before ++ between))
    (hpolled : successes before ≠ []) (hbefore : ∀ c ∈ successes before, c ≤ (t.toNat : Int))
    (hbetween : ∀ c ∈ successes between, c < (t.toNat : Int))
    (hreached : (t.toNat : Int) ≤ currentEpoch unixSeconds)
    (hskew : e.toNat ≤ t.toNat + 1 ∧ t.toNat ≤ e.toNat + 1) :
    inboxId sha256 me e ∈ (run (before ++ between)).inboxes sha256 me unixSeconds := by
  have hsome : successes (before ++ between) ≠ [] := by
    rw [successes_append]
    exact List.append_ne_nil_of_left_ne_nil hpolled _
  have hearly : ∀ c ∈ successes (before ++ between), c ≤ (t.toNat : Int) := by
    rw [successes_append]
    intro c hc
    rcases List.mem_append.mp hc with hc | hc
    · exact hbefore c hc
    · exact Int.le_of_lt (hbetween c hc)
  -- the successful poll before this one is not far back
  have hnear : currentEpoch unixSeconds ≤ (t.toNat : Int) + 28 := by
    rw [successes_snoc] at hpolls
    obtain ⟨-, -, hlink⟩ := List.isChain_append.mp hpolls
    have hfollows := hlink _ (List.getLast_mem_getLast? hsome) (currentEpoch unixSeconds) rfl
    have hle := hearly _ (List.getLast_mem hsome)
    exact Int.le_trans hfollows.2 (Int.add_le_add_right hle 28)
  obtain ⟨m, hm⟩ := Option.isSome_iff_exists.mp (marked_run _ hreloads hsome)
  have hmarker := hearly m ((polled_run _).last m hm)
  refine List.mem_map.mpr ⟨e.toNat, ?_, ?_⟩
  · rw [hm, mem_pollEpochs]
    constructor
    · apply pollFrom_le <;> omega
    · omega
  · rw [Int.toNat_natCast, UInt64.ofNat_toNat]

/-- A poll on day 100; mail of a sender who is a day behind; then a failed poll, a restart
    whose marker was written, and the poll on day 128. -/
theorem window_covers_after_28_days :
    inboxId (fun _ => Bytes32.ofByte 1) (Bytes32.ofByte 2) 99 ∈
      (run ([.poll 8640000 true, .written 100] ++ [.poll 9504000 false, .restart])).inboxes
        (fun _ => Bytes32.ofByte 1) (Bytes32.ofByte 2) 11059200 :=
  window_covers (fun _ => Bytes32.ofByte 1) (Bytes32.ofByte 2) [.poll 8640000 true, .written 100]
    [.poll 9504000 false, .restart] 11059200 100 99
    (by
      have h : successes ([.poll 8640000 true, .written 100] ++
          [.poll 9504000 false, .restart] ++ [.poll 11059200 true]) = [100, 128] := by decide
      rw [h]
      exact List.isChain_cons_cons.mpr ⟨⟨by decide, by decide⟩, List.isChain_singleton _⟩)
    (by
      intro before after heq hsome
      match before with
      | [] | [_] => cases heq
      | [_, _] => cases heq
      | [_, _, _] => cases heq; decide
      | _ :: _ :: _ :: _ :: before =>
        cases before <;> cases heq)
    (by decide) (by decide) (by decide) (by decide) (by decide)

end CatchUp

end Clarity
