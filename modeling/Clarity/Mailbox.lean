/-
  Clarity/Mailbox.lean
  ====================
  **The relay's mailboxes** (the queues of `relay/src/store.rs`), and the list format
  in which a poll crosses the FFI (`encode_byte_list`, `decodeByteList`).

  A poll is destructive: it takes the whole queue out of the store and answers with
  what has not expired.  Both length fields of the list format are 32 bits wide.

    * `decodeByteList_encodeByteList` — a list that fits comes back;
    * `length_of_decodeByteList` — whatever comes back is no longer than what was sent,
      and has no item that does not fit.
-/
import Clarity.Directory

namespace Clarity

/-! ## 1. The store -/

/-- Tunable bounds for the store. -/
structure StoreLimits where
  mailTtlSecs : UInt64
  maxMessageBytes : Nat
  maxMailboxMessages : Nat
  maxMailboxBytes : Nat

/-- `StoreLimits::default`; the server changes the first of them only. -/
def StoreLimits.default : StoreLimits where
  mailTtlSecs := 30 * 24 * 60 * 60
  maxMessageBytes := 256 * 1024
  maxMailboxMessages := 10000
  maxMailboxBytes := 32 * 1024 * 1024

inductive StoreError where
  | messageTooLarge
deriving DecidableEq

/-- A queued message and the unix time it arrived. -/
structure QueuedMessage where
  enqueuedAt : UInt64
  bytes : Bytes
deriving DecidableEq

structure RelayStore where
  queues : Std.ExtTreeMap Bytes32 (List QueuedMessage)
  limits : StoreLimits

/-- `enqueued_at >= cutoff`, where the cutoff is a saturating difference. -/
def StoreLimits.keeps (limits : StoreLimits) (now : UInt64) (m : QueuedMessage) : Bool :=
  now.toNat - limits.mailTtlSecs.toNat ≤ m.enqueuedAt.toNat

namespace RelayStore

/-- The queue of a mailbox. -/
def queue (s : RelayStore) (recipient : Bytes32) : List QueuedMessage :=
  s.queues[recipient]?.getD []

/-- The loop that enforces the byte cap, oldest first. -/
def popOver (maxBytes : Nat) : (total : Nat) → List QueuedMessage → List QueuedMessage
  | _, [] => []
  | total, m :: rest =>
    if maxBytes < total then popOver maxBytes (total - m.bytes.length) rest else m :: rest

/-- Enforce count and byte caps, oldest first. -/
def trim (limits : StoreLimits) (queue : List QueuedMessage) : List QueuedMessage :=
  let queue := queue.drop (queue.length - limits.maxMailboxMessages)
  popOver limits.maxMailboxBytes (queue.map fun m => m.bytes.length).sum queue

/-- Queue an opaque ciphertext message for `recipient`. -/
def enqueueAt (s : RelayStore) (recipient : Bytes32) (message : Bytes) (now : UInt64) :
    Except StoreError Unit × RelayStore :=
  if s.limits.maxMessageBytes < message.length then (.error .messageTooLarge, s)
  else
    (.ok (), { s with
      queues := s.queues.insert recipient
        (trim s.limits (s.queue recipient ++ [⟨now, message⟩])) })

/-- Drain and return all unexpired queued messages for `recipient`, in delivery
    order. -/
def pollAt (s : RelayStore) (recipient : Bytes32) (now : UInt64) : List Bytes × RelayStore :=
  match s.queues[recipient]? with
  | none => ([], s)
  | some drained =>
    ((drained.filter (s.limits.keeps now)).map QueuedMessage.bytes,
      { s with queues := s.queues.erase recipient })

/-- Drop expired mail and empty mailboxes across the whole store; how many messages
    were removed. -/
def sweepExpiredAt (s : RelayStore) (now : UInt64) : Nat × RelayStore :=
  ((s.queues.toList.map fun e => e.2.length - (e.2.filter (s.limits.keeps now)).length).sum,
    { s with queues := s.queues.filterMap fun _ queue =>
        let queue := queue.filter (s.limits.keeps now)
        if queue.isEmpty then none else some queue })

theorem pollAt_fst (s : RelayStore) (recipient : Bytes32) (now : UInt64) :
    (s.pollAt recipient now).1 =
      ((s.queue recipient).filter (s.limits.keeps now)).map QueuedMessage.bytes := by
  unfold pollAt queue
  cases s.queues[recipient]? <;> rfl

@[simp] theorem limits_pollAt (s : RelayStore) (recipient : Bytes32) (now : UInt64) :
    (s.pollAt recipient now).2.limits = s.limits := by
  unfold pollAt
  cases s.queues[recipient]? <;> rfl

/-- The store after a poll, whether or not the mailbox existed. -/
theorem queue_pollAt (s : RelayStore) (recipient other : Bytes32) (now : UInt64) :
    (s.pollAt recipient now).2.queue other = if other = recipient then [] else s.queue other := by
  unfold pollAt queue
  cases hq : s.queues[recipient]? with
  | none =>
    by_cases h : other = recipient
    · rw [if_pos h, h, hq]
      rfl
    · rw [if_neg h]
  | some drained =>
    rw [Std.ExtTreeMap.getElem?_erase]
    by_cases h : other = recipient
    · rw [if_pos h, h, if_pos Std.ReflCmp.compare_self]
      rfl
    · rw [if_neg h, if_neg fun heq => h (Std.LawfulEqOrd.eq_of_compare heq).symm]

@[simp] theorem limits_enqueueAt (s : RelayStore) (recipient : Bytes32) (message : Bytes)
    (now : UInt64) : (s.enqueueAt recipient message now).2.limits = s.limits := by
  unfold enqueueAt
  split <;> rfl

theorem queue_enqueueAt (s : RelayStore) (recipient other : Bytes32) (message : Bytes)
    (now : UInt64) : (s.enqueueAt recipient message now).2.queue other =
      if other = recipient ∧ message.length ≤ s.limits.maxMessageBytes then
        trim s.limits (s.queue recipient ++ [⟨now, message⟩])
      else s.queue other := by
  unfold enqueueAt
  split
  · rename_i hsize
    rw [if_neg fun h => absurd h.2 (Nat.not_le.mpr hsize)]
  · rename_i hsize
    have hfits := Nat.not_lt.mp hsize
    by_cases h : other = recipient
    · subst h
      rw [if_pos ⟨rfl, hfits⟩]
      unfold queue
      rw [Std.ExtTreeMap.getElem?_insert_self]
      rfl
    · rw [if_neg fun heq => h heq.1]
      unfold queue
      rw [Std.ExtTreeMap.getElem?_insert,
        if_neg fun heq => h (Std.LawfulEqOrd.eq_of_compare heq).symm]

@[simp] theorem limits_sweepExpiredAt (s : RelayStore) (now : UInt64) :
    (s.sweepExpiredAt now).2.limits = s.limits := rfl

theorem queue_sweepExpiredAt (s : RelayStore) (recipient : Bytes32) (now : UInt64) :
    (s.sweepExpiredAt now).2.queue recipient =
      (s.queue recipient).filter (s.limits.keeps now) := by
  unfold sweepExpiredAt queue
  rw [Std.ExtTreeMap.getElem?_filterMap']
  cases s.queues[recipient]? with
  | none => rfl
  | some queue =>
    simp only [Option.bind_some, Option.getD_some]
    split
    · rename_i hempty
      rw [List.isEmpty_iff.mp hempty]
      rfl
    · rfl

/-- Every mailbox is within the caps on messages. -/
def Capped (s : RelayStore) : Prop :=
  ∀ recipient, (s.queue recipient).length ≤ s.limits.maxMailboxMessages ∧
    ∀ m ∈ s.queue recipient, m.bytes.length ≤ s.limits.maxMessageBytes

theorem sublist_popOver (maxBytes total : Nat) (queue : List QueuedMessage) :
    (popOver maxBytes total queue).Sublist queue := by
  induction queue generalizing total with
  | nil => exact List.Sublist.refl _
  | cons m rest ih =>
    rw [popOver]
    split
    · exact (ih _).cons _
    · exact List.Sublist.refl _

theorem sublist_trim (limits : StoreLimits) (queue : List QueuedMessage) :
    (trim limits queue).Sublist queue :=
  (sublist_popOver ..).trans (List.drop_sublist ..)

theorem length_trim (limits : StoreLimits) (queue : List QueuedMessage) :
    (trim limits queue).length ≤ limits.maxMailboxMessages := by
  apply Nat.le_trans (sublist_popOver ..).length_le
  rw [List.length_drop]
  omega

theorem Capped.enqueueAt {s : RelayStore} (h : s.Capped) (recipient : Bytes32) (message : Bytes)
    (now : UInt64) : (s.enqueueAt recipient message now).2.Capped := by
  unfold RelayStore.enqueueAt
  split
  · exact h
  · rename_i hsize
    intro other
    show (List.length (Option.getD _ _)) ≤ _ ∧ ∀ m ∈ Option.getD _ _, _
    rw [Std.ExtTreeMap.getElem?_insert]
    by_cases heq : compare recipient other = .eq
    · rw [if_pos heq, Option.getD_some]
      refine ⟨length_trim .., ?_⟩
      intro m hm
      rcases List.mem_append.mp ((sublist_trim ..).subset hm) with hm | hm
      · exact (h recipient).2 m hm
      · cases List.mem_singleton.mp hm
        exact Nat.not_lt.mp hsize
    · rw [if_neg heq]
      exact h other

theorem Capped.pollAt {s : RelayStore} (h : s.Capped) (recipient : Bytes32) (now : UInt64) :
    (s.pollAt recipient now).2.Capped := by
  intro other
  rw [queue_pollAt, limits_pollAt]
  split
  · exact ⟨Nat.zero_le _, fun _ hm => absurd hm List.not_mem_nil⟩
  · exact h other

end RelayStore

/-! ## 2. The list format -/

/-- Every length is written in 32 bits, whatever it is. -/
def encodeByteList (items : List Bytes) : Bytes :=
  Codec.leBytes 4 items.length ++ items.flatMap fun item => Codec.leBytes 4 item.length ++ item

/-- The loop of `decodeByteList`; `none` for a `RangeError`. -/
def decodeItems : Nat → Bytes → Option (List Bytes)
  | 0, _ => some []
  | count + 1, data =>
    if data.length < 4 then none
    else
      let len := Codec.ofLeBytes (data.take 4)
      let data := data.drop 4
      if data.length < len then none
      else (decodeItems count (data.drop len)).map (data.take len :: ·)

def decodeByteList (data : Bytes) : Option (List Bytes) :=
  if data.length < 4 then some []
  else decodeItems (Codec.ofLeBytes (data.take 4)) (data.drop 4)

/-- The list and its items fit their length fields. -/
def FitsList (items : List Bytes) : Prop :=
  items.length < 2 ^ 32 ∧ ∀ item ∈ items, item.length < 2 ^ 32

/-- What a poll answers from a capped store fits, under the default caps. -/
theorem RelayStore.Capped.fitsList {s : RelayStore} (h : s.Capped)
    (hcount : s.limits.maxMailboxMessages < 2 ^ 32) (hsize : s.limits.maxMessageBytes < 2 ^ 32)
    (recipient : Bytes32) (now : UInt64) : FitsList (s.pollAt recipient now).1 := by
  obtain ⟨hlen, hbytes⟩ := h recipient
  rw [RelayStore.pollAt_fst]
  constructor
  · rw [List.length_map]
    exact Nat.lt_of_le_of_lt (Nat.le_trans (List.length_filter_le ..) hlen) hcount
  · intro item hitem
    obtain ⟨m, hm, rfl⟩ := List.mem_map.mp hitem
    exact Nat.lt_of_le_of_lt (hbytes m (List.mem_of_mem_filter hm)) hsize

theorem decodeItems_flatMap {items : List Bytes} (h : ∀ item ∈ items, item.length < 2 ^ 32)
    (rest : Bytes) :
    decodeItems items.length
      ((items.flatMap fun item => Codec.leBytes 4 item.length ++ item) ++ rest) = some items := by
  induction items with
  | nil => rfl
  | cons item items ih =>
    obtain ⟨hitem, hitems⟩ := List.forall_mem_cons.mp h
    have hhead : ((Codec.leBytes 4 item.length ++ item) ++
        ((items.flatMap fun item => Codec.leBytes 4 item.length ++ item) ++ rest)).take 4 =
          Codec.leBytes 4 item.length := by
      rw [List.append_assoc]
      exact List.take_left' (Codec.length_leBytes ..)
    have htail : ((Codec.leBytes 4 item.length ++ item) ++
        ((items.flatMap fun item => Codec.leBytes 4 item.length ++ item) ++ rest)).drop 4 =
          item ++ ((items.flatMap fun item => Codec.leBytes 4 item.length ++ item) ++ rest) := by
      rw [List.append_assoc]
      exact List.drop_left' (Codec.length_leBytes ..)
    have hlen : Codec.ofLeBytes (Codec.leBytes 4 item.length) = item.length := by
      rw [Codec.ofLeBytes_leBytes]
      exact Nat.mod_eq_of_lt hitem
    rw [List.flatMap_cons, List.append_assoc, List.length_cons, decodeItems]
    simp only [hhead, htail, hlen, List.drop_left, List.take_left, ih hitems, Option.map_some]
    rw [if_neg (by simp), if_neg (by simp)]

/-- **A list that fits comes back.** -/
theorem decodeByteList_encodeByteList {items : List Bytes} (h : FitsList items) :
    decodeByteList (encodeByteList items) = some items := by
  have hlen : Codec.ofLeBytes (Codec.leBytes 4 items.length) = items.length := by
    rw [Codec.ofLeBytes_leBytes]
    exact Nat.mod_eq_of_lt h.1
  have hback := decodeItems_flatMap h.2 []
  rw [List.append_nil] at hback
  unfold decodeByteList encodeByteList
  rw [if_neg (by simp), List.take_left' (Codec.length_leBytes ..),
    List.drop_left' (Codec.length_leBytes ..), hlen, hback]

theorem decodeItems_eq_some {count : Nat} {data : Bytes} {items : List Bytes}
    (h : decodeItems count data = some items) :
    items.length = count ∧ ∀ item ∈ items, item.length < 2 ^ 32 := by
  induction count generalizing data items with
  | zero =>
    cases h
    exact ⟨rfl, fun _ hmem => absurd hmem List.not_mem_nil⟩
  | succ count ih =>
    simp only [decodeItems] at h
    split at h
    · cases h
    · rename_i hfour
      split at h
      · cases h
      · obtain ⟨rest, hrest, rfl⟩ := Option.map_eq_some_iff.mp h
        obtain ⟨hlen, hsmall⟩ := ih hrest
        refine ⟨by rw [List.length_cons, hlen], List.forall_mem_cons.mpr ⟨?_, hsmall⟩⟩
        have hfield : Codec.ofLeBytes (data.take 4) < 256 ^ 4 := by
          have hlt := Codec.ofLeBytes_lt (data.take 4)
          rwa [List.length_take_of_le (Nat.not_lt.mp hfour)] at hlt
        exact Nat.lt_of_le_of_lt (List.length_take_le ..) hfield

/-- What comes back has as many items as the length field could hold, and each item
    fits its own. -/
theorem length_of_decodeByteList {items back : List Bytes}
    (h : decodeByteList (encodeByteList items) = some back) :
    back.length = items.length % 2 ^ 32 ∧ ∀ item ∈ back, item.length < 2 ^ 32 := by
  unfold decodeByteList encodeByteList at h
  rw [if_neg (by simp), List.take_left' (Codec.length_leBytes ..), Codec.ofLeBytes_leBytes] at h
  exact decodeItems_eq_some h

end Clarity
