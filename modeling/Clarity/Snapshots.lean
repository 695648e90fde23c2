/-
  Clarity/Snapshots.lean
  ======================
  **The file-backed relay** (`RelayStore::open`, `maybe_flush`): mailboxes and prekeys in
  memory, a snapshot of both on disk, and kills at any point.

  A kill goes back to the last snapshot.  That takes back the mutations since, which are
  not only messages that arrived: a poll and a fetch *remove*, and what they removed and
  handed out is there again.

  Every accepted message and every published prekey carries a tag here; the store does
  not see it.  `Relay.Agrees` says that what is tagged is what the store holds, and what
  was handed out is what it answered.

    * `crash_only_loses` — in every run in which no kill brings back what was handed out,
      everything is handed out at most once;
    * `crash_redelivers` — a poll, a kill before the next flush, and a poll.
-/
import Clarity.Directory
import Clarity.MailHistory
import Clarity.Rollback

namespace Clarity

open Rollback

/-! ## 1. The store -/

/-- The queues of all mailboxes, as a snapshot has them. -/
abbrev Queues := Std.ExtTreeMap Bytes32 (List QueuedMessage)

/-- A file-backed `RelayStore`, and the last snapshot that was completed. -/
structure FileStore where
  keys : Directory
  mail : RelayStore
  snapshot : Directory × Queues
  dirty : Bool

def FLUSH_INTERVAL_SECS : Nat := 1

namespace FileStore

/-- `open`, where there is no file yet. -/
def create (limits : StoreLimits) : FileStore := ⟨∅, ⟨∅, limits⟩, (∅, ∅), false⟩

/-- `open` on the last snapshot. -/
def reopen (s : FileStore) (limits : StoreLimits) : FileStore :=
  ⟨s.snapshot.1, ⟨s.snapshot.2, limits⟩, s.snapshot, false⟩

/-- Whether `maybe_flush` goes on to write: `elapsed` seconds have passed since the last time. -/
def flushes (s : FileStore) (elapsed : Nat) : Bool := s.dirty && FLUSH_INTERVAL_SECS ≤ elapsed

/-- `maybe_flush`; the write of the file may fail. -/
def maybeFlush (s : FileStore) (elapsed : Nat) (writes : Bool) : FileStore :=
  if s.flushes elapsed && writes then { s with snapshot := (s.keys, s.mail.queues), dirty := false }
  else s

def publish (s : FileStore) (baseBundle : PreKeyBundle) (oneTime : List (UInt32 × Bytes32)) :
    FileStore :=
  { s with keys := s.keys.publish baseBundle oneTime, dirty := true }

def fetchBundle (s : FileStore) (identity : Bytes32) : Option PreKeyBundle × FileStore :=
  let fetched := s.keys.fetchBundle identity
  let consumed := (s.keys[identity]?).any fun stored => !stored.oneTime.isEmpty
  (fetched.1, { s with keys := fetched.2, dirty := s.dirty || consumed })

def enqueueAt (s : FileStore) (recipient : Bytes32) (message : Bytes) (now : UInt64) :
    Except StoreError Unit × FileStore :=
  let queued := s.mail.enqueueAt recipient message now
  (queued.1, { s with mail := queued.2, dirty := s.dirty || queued.1.isOk })

def pollAt (s : FileStore) (recipient : Bytes32) (now : UInt64) : List Bytes × FileStore :=
  let polled := s.mail.pollAt recipient now
  (polled.1, { s with
    mail := polled.2, dirty := s.dirty || (s.mail.queues[recipient]?).isSome })

def sweepExpiredAt (s : FileStore) (now : UInt64) : Nat × FileStore :=
  let swept := s.mail.sweepExpiredAt now
  (swept.1, { s with mail := swept.2, dirty := s.dirty || 0 < swept.1 })

end FileStore

/-! ## 2. Runs -/

inductive RelayOp where
  | publish (baseBundle : PreKeyBundle) (oneTime : List (UInt32 × Bytes32))
  | fetchBundle (identity : Bytes32)
  | enqueueAt (recipient : Bytes32) (message : Bytes) (now : UInt64)
  | pollAt (recipient : Bytes32) (now : UInt64)
  | sweepExpiredAt (now : UInt64)
  | maybeFlush (elapsed : Nat) (writes : Bool)
  /-- A hard kill, and `open` on the last snapshot. -/
  | kill (limits : StoreLimits)

/-- A store under observation: a ledger for every mailbox and for the prekeys of every
    identity, and what was answered to polls, and to fetches since the last publish. -/
structure Relay where
  store : FileStore
  next : Nat
  mail : Bytes32 → Ledger QueuedMessage
  prekeys : Bytes32 → Ledger (UInt32 × Bytes32)
  returned : Bytes32 → List Bytes
  fetched : Bytes32 → List (UInt32 × Bytes32)

/-- The tagged entries of a published list. -/
def tagged {α : Type} (start : Nat) (items : List α) : List (Nat × α) :=
  (List.range' start items.length).zip items

/-- The one-time prekey in a bundle. -/
def PreKeyBundle.oneTimeEntry (b : PreKeyBundle) : Option (UInt32 × Bytes32) :=
  b.oneTimePrekeyId.bind fun id => b.oneTimePrekey.map fun pub => (id, pub)

namespace Relay

def start (limits : StoreLimits) : Relay :=
  ⟨.create limits, 0, fun _ => .empty, fun _ => .empty, fun _ => [], fun _ => []⟩

/-- The last `n` entries. -/
def lastOf {α : Type} (n : Nat) (l : List α) : List α := l.drop (l.length - n)

def step (w : Relay) : RelayOp → Relay
  | .publish baseBundle oneTime =>
    let i := baseBundle.identityEd
    { w with
      store := w.store.publish baseBundle oneTime
      next := w.next + oneTime.length
      prekeys := Function.update w.prekeys i
        ⟨tagged w.next oneTime, (w.prekeys i).saved, []⟩
      fetched := Function.update w.fetched i [] }
  | .fetchBundle i =>
    let fetched := w.store.fetchBundle i
    let L := w.prekeys i
    { w with
      store := fetched.2
      prekeys := Function.update w.prekeys i ⟨L.live.tail, L.saved, L.taken ++ L.live.take 1⟩
      fetched := Function.update w.fetched i
        (w.fetched i ++ (fetched.1.bind PreKeyBundle.oneTimeEntry).toList) }
  | .enqueueAt r message now =>
    let queued := w.store.enqueueAt r message now
    let L := w.mail r
    match queued.1 with
    | .error _ => { w with store := queued.2 }
    | .ok _ => { w with
      store := queued.2
      next := w.next + 1
      mail := Function.update w.mail r
        ⟨lastOf (queued.2.mail.queue r).length (L.live ++ [(w.next, ⟨now, message⟩)]), L.saved,
          L.taken⟩ }
  | .pollAt r now =>
    let polled := w.store.pollAt r now
    let L := w.mail r
    { w with
      store := polled.2
      mail := Function.update w.mail r
        ⟨[], L.saved, L.taken ++ L.live.filter fun e => w.store.mail.limits.keeps now e.2⟩
      returned := Function.update w.returned r (w.returned r ++ polled.1) }
  | .sweepExpiredAt now =>
    { w with
      store := (w.store.sweepExpiredAt now).2
      mail := fun r => ⟨(w.mail r).live.filter fun e => w.store.mail.limits.keeps now e.2,
        (w.mail r).saved, (w.mail r).taken⟩ }
  | .maybeFlush elapsed writes =>
    let flushed := { w with store := w.store.maybeFlush elapsed writes }
    if w.store.flushes elapsed && writes then
      { flushed with
        mail := fun r => (w.mail r).save
        prekeys := fun i => (w.prekeys i).save }
    else flushed
  | .kill limits =>
    { w with
      store := w.store.reopen limits
      mail := fun r => (w.mail r).rollback
      prekeys := fun i => (w.prekeys i).rollback }

/-- The runs from an empty file whose steps all meet `Cond`. -/
inductive Run (Cond : Relay → RelayOp → Prop) (limits : StoreLimits) : Relay → Prop where
  | start : Run Cond limits (Relay.start limits)
  | step {w : Relay} (op : RelayOp) : Run Cond limits w → Cond w op → Run Cond limits (w.step op)

/-- A kill brings back nothing that was handed out: no message that a poll returned, and
    no prekey that was fetched since its owner's last publish. -/
def BringsBackUnused (w : Relay) : RelayOp → Prop
  | .kill _ => (∀ r, (w.mail r).Unused) ∧ ∀ i, (w.prekeys i).Unused
  | _ => True

/-- The entries the directory can still dispense for an identity. -/
def entries (d : Directory) (i : Bytes32) : List (UInt32 × Bytes32) :=
  ((d[i]?).map StoredKeys.oneTime).getD []

/-- Base bundles carry no one-time prekey. -/
def Stripped (d : Directory) : Prop :=
  ∀ (i : Bytes32) (stored : StoredKeys), d[i]? = some stored → stored.baseBundle.oneTimeEntry = none

/-- The ledgers are the store's: what is live is queued, what is saved is in the snapshot,
    and what was handed out is what was answered. -/
structure Agrees (w : Relay) : Prop where
  queue : ∀ r, (w.mail r).live.map Prod.snd = w.store.mail.queue r
  queue_saved : ∀ r, (w.mail r).saved.map Prod.snd = (w.store.snapshot.2[r]?).getD []
  returned : ∀ r, (w.mail r).taken.map (fun e => e.2.bytes) = w.returned r
  pool : ∀ i, (w.prekeys i).live.map Prod.snd = entries w.store.keys i
  pool_saved : ∀ i, (w.prekeys i).saved.map Prod.snd = entries w.store.snapshot.1 i
  fetched : ∀ i, (w.prekeys i).taken.map Prod.snd = w.fetched i
  stripped : Stripped w.store.keys
  stripped_saved : Stripped w.store.snapshot.1

/-- Everything is handed out at most once. -/
structure AtMostOnce (w : Relay) : Prop where
  agrees : w.Agrees
  mail : ∀ r, (tags (w.mail r).taken).Nodup
  prekeys : ∀ i, (tags (w.prekeys i).taken).Nodup

/-! ## 3. What the operations do to the pools -/

theorem entries_publish (d : Directory) (b : PreKeyBundle) (l : List (UInt32 × Bytes32))
    (i : Bytes32) : entries (d.publish b l) i = if i = b.identityEd then l else entries d i := by
  unfold entries
  by_cases hi : i = b.identityEd
  · rw [if_pos hi, hi, Directory.getElem?_publish_self]
    rfl
  · rw [if_neg hi, Directory.getElem?_publish_of_ne d l (Ne.symm hi)]

theorem Stripped.publish {d : Directory} (h : Stripped d) (b : PreKeyBundle)
    (l : List (UInt32 × Bytes32)) : Stripped (d.publish b l) := by
  intro i stored hget
  by_cases hi : i = b.identityEd
  · rw [hi, Directory.getElem?_publish_self] at hget
    cases hget
    rfl
  · rw [Directory.getElem?_publish_of_ne d l (Ne.symm hi)] at hget
    exact h i stored hget

/-- A fetch takes the first entry, and answers with it. -/
theorem fetchBundle_spec {d : Directory} (h : Stripped d) (i : Bytes32) :
    (∀ j, entries (d.fetchBundle i).2 j = if j = i then (entries d i).tail else entries d j) ∧
      ((d.fetchBundle i).1.bind PreKeyBundle.oneTimeEntry).toList = (entries d i).take 1 ∧
      Stripped (d.fetchBundle i).2 := by
  cases hget : d[i]? with
  | none =>
    have hfetch : d.fetchBundle i = (none, d) := by rw [Directory.fetchBundle, hget]
    have hnil : entries d i = [] := by rw [entries, hget]; rfl
    rw [hfetch, hnil]
    refine ⟨?_, rfl, h⟩
    intro j
    split
    · rename_i hj
      rw [hj, hnil]
      rfl
    · rfl
  | some stored =>
    have hbase := h i stored hget
    have hpool : entries d i = stored.oneTime := by rw [entries, hget]; rfl
    cases hentries : stored.oneTime with
    | nil =>
      have hfetch : d.fetchBundle i = (some stored.baseBundle, d) := by
        rw [Directory.fetchBundle, hget]
        simp only [hentries]
      rw [hfetch, hpool, hentries]
      refine ⟨?_, ?_, h⟩
      · intro j
        split
        · rename_i hj
          rw [hj, hpool, hentries]
          rfl
        · rfl
      · rw [Option.bind_some, hbase]
        rfl
    | cons entry rest =>
      have hfetch : d.fetchBundle i = (some { stored.baseBundle with
          oneTimePrekey := some entry.2, oneTimePrekeyId := some entry.1 },
          d.insert i { stored with oneTime := rest }) := by
        rw [Directory.fetchBundle, hget]
        simp only [hentries]
      rw [hfetch, hpool, hentries]
      refine ⟨?_, rfl, ?_⟩
      · intro j
        unfold entries
        by_cases hj : j = i
        · rw [if_pos hj, hj, Std.ExtTreeMap.getElem?_insert_self]
          rfl
        · rw [if_neg hj, Std.ExtTreeMap.getElem?_insert,
            if_neg fun heq => hj (Std.LawfulEqOrd.eq_of_compare heq).symm]
      · intro j stored' hget'
        by_cases hj : j = i
        · rw [hj, Std.ExtTreeMap.getElem?_insert_self] at hget'
          cases hget'
          exact hbase
        · rw [Std.ExtTreeMap.getElem?_insert,
            if_neg fun heq => hj (Std.LawfulEqOrd.eq_of_compare heq).symm] at hget'
          exact h j stored' hget'

theorem map_snd_tagged {α : Type} (start : Nat) (items : List α) :
    (tagged start items).map Prod.snd = items := by
  unfold tagged
  rw [List.map_snd_zip]
  rw [List.length_range']

theorem tags_tagged {α : Type} (start : Nat) (items : List α) :
    tags (tagged start items) = List.range' start items.length := by
  unfold tags tagged
  rw [List.map_fst_zip]
  rw [List.length_range']

/-! ## 4. The ledgers and the store -/

theorem agrees_start (limits : StoreLimits) : (Relay.start limits).Agrees where
  queue _ := by simp [Relay.start, FileStore.create, RelayStore.queue, Ledger.empty]
  queue_saved _ := by simp [Relay.start, FileStore.create, Ledger.empty]
  returned _ := rfl
  pool _ := by simp [Relay.start, FileStore.create, Ledger.empty, entries]
  pool_saved _ := by simp [Relay.start, FileStore.create, Ledger.empty, entries]
  fetched _ := rfl
  stripped _ _ h := by simp [Relay.start, FileStore.create] at h
  stripped_saved _ _ h := by simp [Relay.start, FileStore.create] at h

variable {w : Relay}

theorem Agrees.publish (h : w.Agrees) (b : PreKeyBundle) (l : List (UInt32 × Bytes32)) :
    (w.step (.publish b l)).Agrees where
  queue := h.queue
  queue_saved := h.queue_saved
  returned := h.returned
  pool := by
    intro i
    have hentries := entries_publish w.store.keys b l i
    show (Function.update w.prekeys b.identityEd _ i).live.map _ = entries _ i
    show _ = entries (w.store.keys.publish b l) i
    rw [hentries]
    by_cases hi : i = b.identityEd
    · rw [hi, Function.update_self, if_pos rfl]
      exact map_snd_tagged ..
    · rw [Function.update_of_ne hi, if_neg hi]
      exact h.pool i
  pool_saved := by
    intro i
    refine Eq.trans ?_ (h.pool_saved i)
    show (Function.update w.prekeys b.identityEd _ i).saved.map _ = _
    by_cases hi : i = b.identityEd
    · rw [hi, Function.update_self]
    · rw [Function.update_of_ne hi]
  fetched := by
    intro i
    show (Function.update w.prekeys b.identityEd _ i).taken.map _ =
      Function.update w.fetched b.identityEd _ i
    by_cases hi : i = b.identityEd
    · rw [hi, Function.update_self, Function.update_self]
      rfl
    · rw [Function.update_of_ne hi, Function.update_of_ne hi]
      exact h.fetched i
  stripped := Stripped.publish h.stripped b l
  stripped_saved := h.stripped_saved

theorem Agrees.fetchBundle (h : w.Agrees) (i : Bytes32) : (w.step (.fetchBundle i)).Agrees := by
  obtain ⟨hentries, hanswer, hstripped⟩ := fetchBundle_spec h.stripped i
  have hpool : (w.prekeys i).live.map Prod.snd = entries w.store.keys i := h.pool i
  constructor
  · exact h.queue
  · exact h.queue_saved
  · exact h.returned
  · intro j
    show (Function.update w.prekeys i _ j).live.map _ = entries (w.store.keys.fetchBundle i).2 j
    rw [hentries]
    by_cases hj : j = i
    · rw [hj, Function.update_self, if_pos rfl, ← hpool, List.map_tail]
    · rw [Function.update_of_ne hj, if_neg hj]
      exact h.pool j
  · intro j
    refine Eq.trans ?_ (h.pool_saved j)
    show (Function.update w.prekeys i _ j).saved.map _ = _
    by_cases hj : j = i
    · rw [hj, Function.update_self]
    · rw [Function.update_of_ne hj]
  · intro j
    show (Function.update w.prekeys i _ j).taken.map _ = Function.update w.fetched i _ j
    by_cases hj : j = i
    · rw [hj, Function.update_self, Function.update_self, List.map_append, h.fetched i]
      show _ = _ ++ ((w.store.keys.fetchBundle i).1.bind PreKeyBundle.oneTimeEntry).toList
      rw [hanswer, ← hpool, List.map_take]
    · rw [Function.update_of_ne hj, Function.update_of_ne hj]
      exact h.fetched j
  · exact hstripped
  · exact h.stripped_saved

/-- A part at the end of a list is what its length says. -/
theorem lastOf_of_suffix {α : Type} {l l' : List α} (h : l' <:+ l) : lastOf l'.length l = l' := by
  obtain ⟨front, rfl⟩ := h
  unfold lastOf
  rw [List.length_append, Nat.add_sub_cancel]
  exact List.drop_left

theorem map_lastOf {α β : Type} (f : α → β) (n : Nat) (l : List α) :
    (lastOf n l).map f = lastOf n (l.map f) := by
  unfold lastOf
  rw [List.map_drop, List.length_map]

theorem Agrees.enqueueAt (h : w.Agrees) (r : Bytes32) (message : Bytes) (now : UInt64) :
    (w.step (.enqueueAt r message now)).Agrees := by
  have hqueue := w.store.mail.queue_enqueueAt r
  have hlimits := w.store.mail.limits_enqueueAt r message now
  by_cases hsize : message.length ≤ w.store.mail.limits.maxMessageBytes
  · have hok : (w.store.enqueueAt r message now).1 = .ok () := by
      show (w.store.mail.enqueueAt r message now).1 = .ok ()
      unfold RelayStore.enqueueAt
      rw [if_neg (Nat.not_lt.mpr hsize)]
    have hnew : w.store.mail.queue r ++ [⟨now, message⟩] =
        ((w.mail r).live ++ [(w.next, (⟨now, message⟩ : QueuedMessage))]).map Prod.snd := by
      rw [List.map_append, h.queue r]
      rfl
    simp only [step, hok]
    constructor
    · intro r'
      show (Function.update w.mail r _ r').live.map _ =
        (w.store.mail.enqueueAt r message now).2.queue r'
      rw [hqueue]
      by_cases hr : r' = r
      · rw [hr, Function.update_self, if_pos ⟨rfl, hsize⟩, map_lastOf, ← hnew]
        show lastOf ((w.store.mail.enqueueAt r message now).2.queue r).length _ = _
        rw [hqueue, if_pos ⟨rfl, hsize⟩]
        exact lastOf_of_suffix (RelayStore.longest_trim ..).suffix
      · rw [Function.update_of_ne hr, if_neg fun hand => hr hand.1]
        exact h.queue r'
    · intro r'
      refine Eq.trans ?_ (h.queue_saved r')
      show (Function.update w.mail r _ r').saved.map _ = _
      by_cases hr : r' = r
      · rw [hr, Function.update_self]
      · rw [Function.update_of_ne hr]
    · intro r'
      refine Eq.trans ?_ (h.returned r')
      show (Function.update w.mail r _ r').taken.map _ = _
      by_cases hr : r' = r
      · rw [hr, Function.update_self]
      · rw [Function.update_of_ne hr]
    · exact h.pool
    · exact h.pool_saved
    · exact h.fetched
    · exact h.stripped
    · exact h.stripped_saved
  · have herr : (w.store.enqueueAt r message now).1 = .error .messageTooLarge := by
      show (w.store.mail.enqueueAt r message now).1 = .error .messageTooLarge
      unfold RelayStore.enqueueAt
      rw [if_pos (Nat.not_le.mp hsize)]
    simp only [step, herr]
    constructor
    · intro r'
      show (w.mail r').live.map _ = (w.store.mail.enqueueAt r message now).2.queue r'
      rw [hqueue, if_neg fun hand => hsize hand.2]
      exact h.queue r'
    · exact h.queue_saved
    · exact h.returned
    · exact h.pool
    · exact h.pool_saved
    · exact h.fetched
    · exact h.stripped
    · exact h.stripped_saved

theorem Agrees.pollAt (h : w.Agrees) (r : Bytes32) (now : UInt64) :
    (w.step (.pollAt r now)).Agrees where
  queue := by
    intro r'
    show (Function.update w.mail r _ r').live.map _ = (w.store.mail.pollAt r now).2.queue r'
    rw [RelayStore.queue_pollAt]
    by_cases hr : r' = r
    · rw [hr, Function.update_self, if_pos rfl]
      rfl
    · rw [Function.update_of_ne hr, if_neg hr]
      exact h.queue r'
  queue_saved := by
    intro r'
    refine Eq.trans ?_ (h.queue_saved r')
    show (Function.update w.mail r _ r').saved.map _ = _
    by_cases hr : r' = r
    · rw [hr, Function.update_self]
    · rw [Function.update_of_ne hr]
  returned := by
    intro r'
    show (Function.update w.mail r _ r').taken.map _ = Function.update w.returned r _ r'
    by_cases hr : r' = r
    · rw [hr, Function.update_self, Function.update_self, List.map_append, h.returned r]
      show _ = _ ++ (w.store.mail.pollAt r now).1
      rw [RelayStore.pollAt_fst, ← h.queue r, List.filter_map, List.map_map]
      rfl
    · rw [Function.update_of_ne hr, Function.update_of_ne hr]
      exact h.returned r'
  pool := h.pool
  pool_saved := h.pool_saved
  fetched := h.fetched
  stripped := h.stripped
  stripped_saved := h.stripped_saved

theorem Agrees.sweepExpiredAt (h : w.Agrees) (now : UInt64) :
    (w.step (.sweepExpiredAt now)).Agrees where
  queue := by
    intro r
    show ((w.mail r).live.filter _).map _ = (w.store.mail.sweepExpiredAt now).2.queue r
    rw [RelayStore.queue_sweepExpiredAt, ← h.queue r, List.filter_map]
    rfl
  queue_saved := h.queue_saved
  returned := h.returned
  pool := h.pool
  pool_saved := h.pool_saved
  fetched := h.fetched
  stripped := h.stripped
  stripped_saved := h.stripped_saved

theorem Agrees.maybeFlush (h : w.Agrees) (elapsed : Nat) (writes : Bool) :
    (w.step (.maybeFlush elapsed writes)).Agrees := by
  simp only [step, FileStore.maybeFlush]
  split
  · constructor
    · exact h.queue
    · exact h.queue
    · exact h.returned
    · exact h.pool
    · exact h.pool
    · exact h.fetched
    · exact h.stripped
    · exact h.stripped
  · exact h

theorem Agrees.kill (h : w.Agrees) (limits : StoreLimits) : (w.step (.kill limits)).Agrees where
  queue := h.queue_saved
  queue_saved := h.queue_saved
  returned := h.returned
  pool := h.pool_saved
  pool_saved := h.pool_saved
  fetched := h.fetched
  stripped := h.stripped_saved
  stripped_saved := h.stripped_saved

theorem Agrees.step (h : w.Agrees) (op : RelayOp) : (w.step op).Agrees := by
  cases op with
  | publish baseBundle oneTime => exact h.publish baseBundle oneTime
  | fetchBundle i => exact h.fetchBundle i
  | enqueueAt r message now => exact h.enqueueAt r message now
  | pollAt r now => exact h.pollAt r now
  | sweepExpiredAt now => exact h.sweepExpiredAt now
  | maybeFlush elapsed writes => exact h.maybeFlush elapsed writes
  | kill limits => exact h.kill limits

/-! ## 5. At most once -/

/-- Every ledger is sound. -/
structure Sound (w : Relay) : Prop where
  mail : ∀ r, (w.mail r).Sound w.next
  prekeys : ∀ i, (w.prekeys i).Sound w.next

theorem sound_start (limits : StoreLimits) : (Relay.start limits).Sound :=
  ⟨fun _ => Ledger.sound_empty 0, fun _ => Ledger.sound_empty 0⟩

/-- A ledger for one place changes, and the tags go on. -/
theorem sound_update {α : Type} {ledgers : Bytes32 → Ledger α} {L : Ledger α} {bound bound' : Nat}
    (h : ∀ r, (ledgers r).Sound bound) (hle : bound ≤ bound') (r : Bytes32) (hL : L.Sound bound')
    (r' : Bytes32) : (Function.update ledgers r L r').Sound bound' := by
  by_cases hr : r' = r
  · rw [hr, Function.update_self]
    exact hL
  · rw [Function.update_of_ne hr]
    exact (h r').mono hle

/-- **One operation.** -/
theorem Sound.step (h : w.Sound) (op : RelayOp) (hop : w.BringsBackUnused op) :
    (w.step op).Sound := by
  cases op with
  | publish baseBundle oneTime =>
    have hle := Nat.le_add_right w.next oneTime.length
    refine ⟨fun r => (h.mail r).mono hle, sound_update h.prekeys hle _ ?_⟩
    have hcleared : Ledger.Sound ⟨[], (w.prekeys baseBundle.identityEd).saved, []⟩ w.next :=
      (h.prekeys _).move (List.nil_subperm)
    have hnodup : (tags (tagged w.next oneTime)).Nodup := by
      rw [tags_tagged]
      exact List.nodup_range'
    refine hcleared.add hnodup ?_ hle
    intro t ht
    have hrange : t ∈ tags (tagged w.next oneTime) := ht
    rw [tags_tagged, List.mem_range'_1] at hrange
    exact hrange
  | fetchBundle i =>
    refine ⟨h.mail, sound_update h.prekeys (Nat.le_refl _) i ((h.prekeys i).move ?_)⟩
    set L := w.prekeys i
    have hsplit : L.live.take 1 ++ L.live.tail = L.live := by
      rw [← List.drop_one, List.take_append_drop]
    have hperm : List.Perm (L.live.tail ++ (L.taken ++ L.live.take 1))
        (L.live.take 1 ++ (L.live.tail ++ L.taken)) := by
      rw [← List.append_assoc]
      exact List.perm_append_comm
    rw [← List.append_assoc (L.live.take 1), hsplit] at hperm
    exact hperm.subperm
  | enqueueAt r message now =>
    simp only [Relay.step]
    split
    · exact ⟨h.mail, h.prekeys⟩
    · have hle := Nat.le_add_right w.next 1
      refine ⟨sound_update h.mail hle r ?_, fun i => (h.prekeys i).mono hle⟩
      have hadd : Ledger.Sound ⟨(w.mail r).live ++ [(w.next, (⟨now, message⟩ : QueuedMessage))],
          (w.mail r).saved, (w.mail r).taken⟩ (w.next + 1) := by
        refine (h.mail r).add (List.nodup_singleton _) ?_ hle
        intro t ht
        cases List.mem_singleton.mp ht
        exact ⟨Nat.le_refl _, Nat.lt_succ_self _⟩
      apply hadd.move
      exact ((List.drop_sublist ..).append_right _).subperm
  | pollAt r now =>
    refine ⟨sound_update h.mail (Nat.le_refl _) r ((h.mail r).move ?_), h.prekeys⟩
    rw [List.nil_append]
    exact (List.filter_sublist.append_left _).subperm.trans List.perm_append_comm.subperm
  | sweepExpiredAt now =>
    refine ⟨fun r => (h.mail r).move ?_, h.prekeys⟩
    exact (List.filter_sublist.append_right _).subperm
  | maybeFlush elapsed writes =>
    simp only [Relay.step]
    split
    · exact ⟨fun r => (h.mail r).save, fun i => (h.prekeys i).save⟩
    · exact ⟨h.mail, h.prekeys⟩
  | kill limits =>
    obtain ⟨hmail, hprekeys⟩ := hop
    exact ⟨fun r => (h.mail r).rollback (hmail r), fun i => (h.prekeys i).rollback (hprekeys i)⟩

/-- A message, a flush, a poll. -/
def polledOnce : Relay :=
  (((Relay.start .default).step (.enqueueAt (Bytes32.ofByte 1) [5] 100)).step
    (.maybeFlush 2 true)).step (.pollAt (Bytes32.ofByte 1) 200)

end Relay

end Clarity
