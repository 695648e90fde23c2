/-
  Clarity/MailHistory.lean
  ========================
  **What a mailbox means**, in terms of the calls that were made.

  `enqueue_at` enforces the caps message by message, `poll_at` drops what has expired,
  and `sweep_expired_at` may have dropped some of it before.  Seen from outside none of
  this shows: a poll answers with the unexpired part of the longest suffix, within the
  caps, of what was accepted since the poll before.

    * `queue_lags` — the queue is that suffix, less messages that have expired;
    * `poll_from_history` — what polls answer, over every run.
-/
import Clarity.Backlog
import Clarity.Mailbox

namespace Clarity

open Backlog

namespace StoreLimits

variable {limits : StoreLimits}

/-! ## 1. The caps -/

/-- At most so many messages, and so many bytes in total. -/
def Within (limits : StoreLimits) (queue : List QueuedMessage) : Prop :=
  queue.length ≤ limits.maxMailboxMessages ∧
    (queue.map fun m => m.bytes.length).sum ≤ limits.maxMailboxBytes

theorem within_bound (limits : StoreLimits) : Bound limits.Within where
  nil := ⟨Nat.zero_le _, Nat.zero_le _⟩
  back := by
    intro l l' h
    simp only [Within, List.length_append, List.map_append, List.sum_append] at h ⊢
    omega
  front := by
    intro l l' h
    simp only [Within, List.length_append, List.map_append, List.sum_append] at h ⊢
    omega

/-- What has expired stays expired. -/
theorem keeps_mono {now later : UInt64} (h : now ≤ later) {m : QueuedMessage}
    (hexpired : limits.keeps now m = false) : limits.keeps later m = false := by
  have hle := UInt64.le_iff_toNat_le.mp h
  simp only [keeps, decide_eq_false_iff_not] at hexpired ⊢
  omega

/-- Of two messages the later one is kept longer. -/
theorem keeps_of_le {now : UInt64} {m m' : QueuedMessage} (h : m.enqueuedAt ≤ m'.enqueuedAt)
    (hkeeps : limits.keeps now m = true) : limits.keeps now m' = true := by
  have hle := UInt64.le_iff_toNat_le.mp h
  simp only [keeps, decide_eq_true_eq] at hkeeps ⊢
  omega

end StoreLimits

namespace RelayStore

/-- The byte loop leaves the longest suffix within the byte cap. -/
theorem longest_popOver (maxBytes : Nat) (queue : List QueuedMessage) :
    Longest (fun l => (l.map fun m => m.bytes.length).sum ≤ maxBytes)
      (popOver maxBytes (queue.map fun m => m.bytes.length).sum queue) queue := by
  induction queue with
  | nil => exact ⟨List.suffix_rfl, Nat.zero_le _, fun _ ht _ => ht.length_le⟩
  | cons m rest ih =>
    rw [popOver]
    split
    · rename_i hover
      have hrest : (m.bytes.length + (rest.map fun m => m.bytes.length).sum) - m.bytes.length =
          (rest.map fun m => m.bytes.length).sum := Nat.add_sub_cancel_left ..
      rw [List.map_cons, List.sum_cons, hrest]
      refine ⟨ih.suffix.trans (List.suffix_cons m rest), ih.within, ?_⟩
      intro t ht hfits
      rcases List.suffix_cons_iff.mp ht with rfl | ht
      · exact absurd hfits (Nat.not_le.mpr hover)
      · exact ih.longest t ht hfits
    · rename_i hfits
      exact ⟨List.suffix_rfl, Nat.not_lt.mp hfits, fun _ ht _ => ht.length_le⟩

/-- Trimming leaves the longest suffix within both caps. -/
theorem longest_trim (limits : StoreLimits) (queue : List QueuedMessage) :
    Longest limits.Within (trim limits queue) queue := by
  have hbytes := longest_popOver limits.maxMailboxBytes
    (queue.drop (queue.length - limits.maxMailboxMessages))
  constructor
  · exact hbytes.suffix.trans (List.drop_suffix ..)
  · exact ⟨length_trim limits queue, hbytes.within⟩
  · intro t ht hfits
    apply hbytes.longest t _ hfits.2
    apply List.suffix_of_suffix_length_le ht (List.drop_suffix ..)
    have hlen := ht.length_le
    have hcount := hfits.1
    rw [List.length_drop]
    omega

theorem trim_nil (limits : StoreLimits) : trim limits [] = [] :=
  List.sublist_nil.mp (sublist_trim limits [])

/-! ## 2. Runs -/

/-- A call of the store, with the time it is made. -/
inductive MailOp where
  | enqueueAt (recipient : Bytes32) (message : Bytes) (now : UInt64)
  | pollAt (recipient : Bytes32) (now : UInt64)
  | sweepExpiredAt (now : UInt64)

def MailOp.now : MailOp → UInt64
  | enqueueAt _ _ now => now
  | pollAt _ now => now
  | sweepExpiredAt now => now

def MailOp.isSweep : MailOp → Bool
  | sweepExpiredAt _ => true
  | _ => false

def apply (s : RelayStore) : MailOp → RelayStore
  | .enqueueAt recipient message now => (s.enqueueAt recipient message now).2
  | .pollAt recipient now => (s.pollAt recipient now).2
  | .sweepExpiredAt now => (s.sweepExpiredAt now).2

/-- `RelayStore::with_limits`. -/
def withLimits (limits : StoreLimits) : RelayStore := ⟨∅, limits⟩

/-- The store after a run. -/
def after (limits : StoreLimits) (ops : List MailOp) : RelayStore :=
  ops.foldl apply (withLimits limits)

/-- The message a call queues for `r`, if it is accepted. -/
def MailOp.offers (limits : StoreLimits) (r : Bytes32) : MailOp → List QueuedMessage
  | enqueueAt recipient message now =>
    if r = recipient ∧ message.length ≤ limits.maxMessageBytes then [⟨now, message⟩] else []
  | _ => []

def MailOp.polls (r : Bytes32) : MailOp → Bool
  | pollAt recipient _ => r = recipient
  | _ => false

/-- How a call changes what was accepted for `r` since its last poll. -/
def MailOp.extend (limits : StoreLimits) (r : Bytes32) (history : List QueuedMessage)
    (op : MailOp) : List QueuedMessage :=
  if op.polls r then [] else history ++ op.offers limits r

def accepted (limits : StoreLimits) (r : Bytes32) (ops : List MailOp) : List QueuedMessage :=
  ops.foldl (MailOp.extend limits r) []

/-- What the polls of `r` answer over a run, in order. -/
def replies (r : Bytes32) : RelayStore → List MailOp → List (List Bytes)
  | _, [] => []
  | s, op :: ops =>
    if op.polls r then (s.pollAt r op.now).1 :: (s.apply op).replies r ops
    else (s.apply op).replies r ops

/-- The same from the history alone: caps first, expiry second, and no sweeps. -/
def replay (limits : StoreLimits) (r : Bytes32) :
    List QueuedMessage → List MailOp → List (List Bytes)
  | _, [] => []
  | history, op :: ops =>
    if op.polls r then
      (((trim limits history).filter (limits.keeps op.now)).map QueuedMessage.bytes) ::
        replay limits r [] ops
    else replay limits r (history ++ op.offers limits r) ops

/-! ## 3. The queue and the history -/

/-- What is known of the queue of `r` at a time, after `history` was accepted. -/
structure Tracks (limits : StoreLimits) (r : Bytes32) (now : UInt64)
    (history : List QueuedMessage) (s : RelayStore) : Prop where
  limits_eq : s.limits = limits
  ordered : history.Pairwise fun m m' => m.enqueuedAt ≤ m'.enqueuedAt
  past : ∀ m ∈ history, m.enqueuedAt ≤ now
  lags : Lags (fun m => limits.keeps now m = false) (s.queue r) (trim limits history)

variable {limits : StoreLimits} {r : Bytes32} {now : UInt64} {history : List QueuedMessage}
  {s : RelayStore}

theorem tracks_withLimits (limits : StoreLimits) (r : Bytes32) :
    Tracks limits r 0 [] (withLimits limits) where
  limits_eq := rfl
  ordered := List.Pairwise.nil
  past := fun _ h => absurd h List.not_mem_nil
  lags := by
    have hqueue : (withLimits limits).queue r = [] := by simp [withLimits, queue]
    rw [hqueue, trim_nil]
    exact Lags.refl []

theorem Tracks.later (h : Tracks limits r now history s) {later : UInt64} (hle : now ≤ later) :
    Tracks limits r later history s where
  limits_eq := h.limits_eq
  ordered := h.ordered
  past := fun m hm => UInt64.le_trans (h.past m hm) hle
  lags := h.lags.mono fun _ => StoreLimits.keeps_mono hle

/-- A poll answers with the unexpired part of the longest suffix. -/
theorem Tracks.poll (h : Tracks limits r now history s) : (s.pollAt r now).1 =
    ((trim limits history).filter (limits.keeps now)).map QueuedMessage.bytes := by
  rw [pollAt_fst, h.limits_eq, h.lags.filter]

/-- An accepted message goes to the end of both. -/
theorem Tracks.enqueue (h : Tracks limits r now history s) {message : Bytes}
    (hsize : message.length ≤ limits.maxMessageBytes) :
    Tracks limits r now (history ++ [⟨now, message⟩]) (s.enqueueAt r message now).2 where
  limits_eq := by rw [limits_enqueueAt, h.limits_eq]
  ordered := by
    refine List.pairwise_append.mpr ⟨h.ordered, List.pairwise_singleton .., ?_⟩
    intro m hm m' hm'
    cases List.mem_singleton.mp hm'
    exact h.past m hm
  past := by
    intro m hm
    rcases List.mem_append.mp hm with hm | hm
    · exact h.past m hm
    · cases List.mem_singleton.mp hm
      exact UInt64.le_refl _
  lags := by
    have hbound := StoreLimits.within_bound limits
    have hhistory := longest_trim limits history
    have hnew : Longest limits.Within (trim limits (trim limits history ++ [⟨now, message⟩]))
        (history ++ [⟨now, message⟩]) := hhistory.snoc hbound (longest_trim ..)
    have heq := hnew.unique (longest_trim limits (history ++ [⟨now, message⟩]))
    rw [queue_enqueueAt, h.limits_eq, if_pos ⟨rfl, hsize⟩, ← heq]
    exact h.lags.snoc hbound hhistory.within (longest_trim ..) (longest_trim ..)

/-- A sweep takes expired messages, which are at the front. -/
theorem Tracks.sweep (h : Tracks limits r now history s) :
    Tracks limits r now history (s.sweepExpiredAt now).2 where
  limits_eq := h.limits_eq
  ordered := h.ordered
  past := h.past
  lags := by
    rw [queue_sweepExpiredAt, h.limits_eq]
    refine Lags.trans (lags_filter ?_) h.lags
    have hsub : (s.queue r).Sublist history := by
      obtain ⟨front, hfront, -⟩ := h.lags
      have hqueue : (s.queue r).Sublist (trim limits history) := by
        rw [hfront]
        exact List.sublist_append_right ..
      exact hqueue.trans (sublist_trim ..)
    apply (h.ordered.sublist hsub).imp
    intro m m' hle hkeeps
    exact StoreLimits.keeps_of_le hle hkeeps

/-- **One call.** -/
theorem Tracks.step (h : Tracks limits r now history s) (op : MailOp) (hle : now ≤ op.now) :
    Tracks limits r op.now (op.extend limits r history) (s.apply op) := by
  have hlater := h.later hle
  cases op with
  | enqueueAt recipient message time =>
    simp only [MailOp.extend, MailOp.polls, MailOp.offers, Bool.false_eq_true, if_false, apply]
    split
    · rename_i haccepted
      obtain ⟨rfl, hsize⟩ := haccepted
      exact hlater.enqueue hsize
    · rename_i hother
      rw [List.append_nil]
      refine ⟨by rw [limits_enqueueAt, h.limits_eq], h.ordered, hlater.past, ?_⟩
      rw [queue_enqueueAt, h.limits_eq, if_neg hother]
      exact hlater.lags
  | pollAt recipient time =>
    simp only [MailOp.extend, MailOp.polls, MailOp.offers, decide_eq_true_eq, apply]
    split
    · rename_i hr
      refine ⟨by rw [limits_pollAt, h.limits_eq], List.Pairwise.nil,
        fun _ hm => absurd hm List.not_mem_nil, ?_⟩
      rw [queue_pollAt, if_pos hr, trim_nil]
      exact Lags.refl []
    · rename_i hr
      rw [List.append_nil]
      refine ⟨by rw [limits_pollAt, h.limits_eq], h.ordered, hlater.past, ?_⟩
      rw [queue_pollAt, if_neg hr]
      exact hlater.lags
  | sweepExpiredAt time =>
    simp only [MailOp.extend, MailOp.polls, MailOp.offers, Bool.false_eq_true, if_false,
      List.append_nil]
    exact hlater.sweep

/-- **A whole run**, at nondecreasing times. -/
theorem Tracks.run (h : Tracks limits r now history s) (ops : List MailOp)
    (hsorted : (now :: ops.map MailOp.now).Pairwise (· ≤ ·)) {later : UInt64}
    (hlater : ∀ op ∈ ops, op.now ≤ later) (hnow : now ≤ later) :
    Tracks limits r later (ops.foldl (MailOp.extend limits r) history) (ops.foldl apply s) := by
  induction ops generalizing now history s with
  | nil => exact h.later hnow
  | cons op ops ih =>
    rw [List.map_cons, List.pairwise_cons] at hsorted
    obtain ⟨hfirst, hsorted⟩ := hsorted
    exact ih (h.step op (hfirst _ (List.mem_cons_self ..))) hsorted
      (fun op' hop' => hlater op' (List.mem_cons_of_mem _ hop')) (hlater op (List.mem_cons_self ..))

/-- The polls of a run answer as the replay of its history does. -/
theorem Tracks.replies_eq (h : Tracks limits r now history s) (ops : List MailOp)
    (hsorted : (now :: ops.map MailOp.now).Pairwise (· ≤ ·)) :
    s.replies r ops = replay limits r history ops := by
  induction ops generalizing now history s with
  | nil => rfl
  | cons op ops ih =>
    rw [List.map_cons, List.pairwise_cons] at hsorted
    obtain ⟨hfirst, hsorted⟩ := hsorted
    have hle := hfirst _ (List.mem_cons_self ..)
    have hrest := ih (h.step op hle) hsorted
    unfold replies replay
    rw [hrest, MailOp.extend]
    split
    · rw [(h.later hle).poll]
    · rfl

theorem replay_sweeps (limits : StoreLimits) (r : Bytes32) (history : List QueuedMessage)
    (ops : List MailOp) :
    replay limits r history (ops.filter fun op => !op.isSweep) = replay limits r history ops := by
  induction ops generalizing history with
  | nil => rfl
  | cons op ops ih =>
    cases op with
    | enqueueAt recipient message time =>
      rw [List.filter_cons_of_pos rfl, replay, replay, ih, ih]
    | pollAt recipient time =>
      rw [List.filter_cons_of_pos rfl, replay, replay, ih, ih]
    | sweepExpiredAt time =>
      rw [List.filter_cons_of_neg (by simp [MailOp.isSweep]), ih]
      simp [replay, MailOp.polls, MailOp.offers]

/-- What is answered was accepted, in the same order and once. -/
theorem replies_sublist (limits : StoreLimits) (r : Bytes32) (s : RelayStore) (ops : List MailOp)
    (hlimits : s.limits = limits) :
    (s.replies r ops).flatten.Sublist
      ((s.queue r ++ ops.flatMap (MailOp.offers limits r)).map QueuedMessage.bytes) := by
  induction ops generalizing s with
  | nil => exact List.nil_sublist _
  | cons op ops ih =>
    rw [List.flatMap_cons, ← List.append_assoc, List.map_append]
    cases op with
    | enqueueAt recipient message time =>
      have hrest := ih (s.apply (.enqueueAt recipient message time))
        (by simp only [apply, limits_enqueueAt, hlimits])
      refine hrest.trans ?_
      rw [List.map_append]
      apply List.Sublist.append_right
      apply List.Sublist.map
      simp only [apply, queue_enqueueAt, MailOp.offers, hlimits]
      split
      · rename_i haccepted
        obtain ⟨rfl, -⟩ := haccepted
        exact sublist_trim ..
      · rw [List.append_nil]
    | pollAt recipient time =>
      have hrest := ih (s.apply (.pollAt recipient time))
        (by simp only [apply, limits_pollAt, hlimits])
      simp only [apply, queue_pollAt, replies, MailOp.polls, MailOp.offers, List.append_nil,
        decide_eq_true_eq] at hrest ⊢
      split
      · rename_i hr
        rw [if_pos hr, List.nil_append] at hrest
        subst hr
        rw [List.flatten_cons]
        refine List.Sublist.append ?_ hrest
        rw [pollAt_fst]
        exact List.filter_sublist.map _
      · rename_i hr
        rw [if_neg hr, List.map_append] at hrest
        exact hrest
    | sweepExpiredAt time =>
      have hrest := ih (s.apply (.sweepExpiredAt time)) hlimits
      refine hrest.trans ?_
      rw [List.map_append]
      apply List.Sublist.append_right
      apply List.Sublist.map
      simp only [apply, queue_sweepExpiredAt, MailOp.offers, List.append_nil]
      exact List.filter_sublist

/-! ## 4. What polls answer -/

/-- **Mailbox semantics.**  In every run of calls at nondecreasing times, a poll of `r`
    answers with the unexpired messages of the longest suffix, within both caps, of
    those accepted for `r` since its previous poll; so all the answers together are
    messages that were accepted for `r`, in order and each at most once; and they are
    the same in every run that differs only in its sweeps. -/
theorem poll_from_history (limits : StoreLimits) (r : Bytes32) (ops : List MailOp)
    (hsorted : (ops.map MailOp.now).Pairwise (· ≤ ·)) :
    (∀ front now back, ops = front ++ .pollAt r now :: back → ∃ suffix,
      Longest limits.Within suffix (accepted limits r front) ∧
      ((after limits front).pollAt r now).1 =
        (suffix.filter (limits.keeps now)).map QueuedMessage.bytes) ∧
    ((withLimits limits).replies r ops).flatten.Sublist
      ((ops.flatMap (MailOp.offers limits r)).map QueuedMessage.bytes) ∧
    ∀ ops' : List MailOp, (ops'.map MailOp.now).Pairwise (· ≤ ·) →
      (ops'.filter fun op => !op.isSweep) = (ops.filter fun op => !op.isSweep) →
      (withLimits limits).replies r ops' = (withLimits limits).replies r ops := by
  have hstart := tracks_withLimits limits r
  have hzero : ∀ {ops : List MailOp}, (ops.map MailOp.now).Pairwise (· ≤ ·) →
      (0 :: ops.map MailOp.now).Pairwise (· ≤ ·) := fun h =>
    List.pairwise_cons.mpr ⟨fun t _ => UInt64.le_iff_toNat_le.mpr (Nat.zero_le _), h⟩
  refine ⟨?_, ?_, ?_⟩
  · rintro front now back rfl
    rw [List.map_append, List.map_cons] at hsorted
    obtain ⟨hfront, -, hlast⟩ := List.pairwise_append.mp hsorted
    have htracks := hstart.run front (hzero hfront)
      (fun op hop => hlast _ (List.mem_map_of_mem hop) now (List.mem_cons_self ..))
      (UInt64.le_iff_toNat_le.mpr (Nat.zero_le _))
    exact ⟨_, longest_trim .., htracks.poll⟩
  · have hsub := replies_sublist limits r (withLimits limits) ops rfl
    have hqueue : (withLimits limits).queue r = [] := by simp [withLimits, queue]
    rwa [hqueue, List.nil_append] at hsub
  · intro ops' hsorted' hsame
    rw [hstart.replies_eq ops' (hzero hsorted'), hstart.replies_eq ops (hzero hsorted),
      ← replay_sweeps limits r [] ops', ← replay_sweeps limits r [] ops, hsame]

/-- Two messages with room for one, a sweep, and two polls. -/
theorem poll_from_history_sample :
    (withLimits ⟨60, 10, 1, 10⟩).replies (Bytes32.ofByte 1)
      [.enqueueAt (Bytes32.ofByte 1) [5] 100, .sweepExpiredAt 110,
        .enqueueAt (Bytes32.ofByte 1) [6] 120, .pollAt (Bytes32.ofByte 1) 130,
        .pollAt (Bytes32.ofByte 1) 140] =
      (withLimits ⟨60, 10, 1, 10⟩).replies (Bytes32.ofByte 1)
        [.enqueueAt (Bytes32.ofByte 1) [5] 100, .enqueueAt (Bytes32.ofByte 1) [6] 120,
          .pollAt (Bytes32.ofByte 1) 130, .pollAt (Bytes32.ofByte 1) 140] :=
  (poll_from_history ⟨60, 10, 1, 10⟩ (Bytes32.ofByte 1)
    [.enqueueAt (Bytes32.ofByte 1) [5] 100, .enqueueAt (Bytes32.ofByte 1) [6] 120,
      .pollAt (Bytes32.ofByte 1) 130, .pollAt (Bytes32.ofByte 1) 140]
    (by decide)).2.2 _ (by decide) rfl

end RelayStore

end Clarity
