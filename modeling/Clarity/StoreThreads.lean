/-
  Clarity/StoreThreads.lean
  =========================
  **The relay store among threads** (`RelayStore` in `relay/src/store.rs`).  Two mutexes:
  `inner` guards the directory and the queues, `persistence` the dirty flag, the time of the
  last flush, and the files, which only `maybe_flush` writes.  The flag is raised after
  `inner` has been given back, and `maybe_flush` takes `inner` while it has `persistence`.

    * `store_not_stuck` — the threads never wait for each other;
    * `store_linearizes` — every run answers as the calls one after another, and at every
      moment the file is the snapshot of what the first so many of them left;
    * `dirty_or_saved` — at every moment the store is dirty, or the file has what the store
      has, or some thread is about to make it dirty.
-/
import Clarity.CriticalSections
import Clarity.DirtyFlag
import Clarity.SnapshotFile

namespace Clarity

open Knowledge Prog

/-! ## 1. The store -/

inductive StoreLock where
  | inner
  | persistence
deriving DecidableEq

structure Inner where
  keys : Directory
  queues : Queues

structure Persistence where
  dirty : Bool
  -- in nanoseconds
  lastFlush : Nat

/-- What there is under a path: nothing, a snapshot, or what a failed write has left. -/
inductive SnapshotState where
  | missing
  | torn
  | holds (snapshot : Inner)

/-- What `persistence` guards.  A store that is in memory only has `none`. -/
structure Guarded where
  persistence : Option Persistence
  file : SnapshotState
  tmp : SnapshotState

structure SharedStore where
  inner : Inner
  guarded : Guarded

namespace SharedStore

def Part : StoreLock → Type
  | .inner => Inner
  | .persistence => Guarded

def part : (l : StoreLock) → SharedStore → Part l
  | .inner, s => s.inner
  | .persistence, s => s.guarded

def setKeys (s : SharedStore) (keys : Directory) : SharedStore :=
  { s with inner := { s.inner with keys := keys } }

def setQueues (s : SharedStore) (queues : Queues) : SharedStore :=
  { s with inner := { s.inner with queues := queues } }

/-- The queue of an entry is changed in place. -/
def modifyQueue (s : SharedStore) (recipient : Bytes32)
    (f : List QueuedMessage → List QueuedMessage) : SharedStore :=
  s.setQueues (s.inner.queues.insert recipient (f ((s.inner.queues[recipient]?).getD [])))

def modifyPersistence (s : SharedStore) (f : Persistence → Persistence) : SharedStore :=
  { s with guarded := { s.guarded with persistence := s.guarded.persistence.map f } }

def setTmp (s : SharedStore) (tmp : SnapshotState) : SharedStore :=
  { s with guarded := { s.guarded with tmp := tmp } }

/-- `fs::rename` of the temp file to the file. -/
def renameTmp (s : SharedStore) : SharedStore :=
  { s with guarded := { s.guarded with file := s.guarded.tmp, tmp := .missing } }

variable (s : SharedStore)

@[simp] theorem inner_setKeys (keys : Directory) :
    (s.setKeys keys).inner = { s.inner with keys := keys } := rfl

@[simp] theorem inner_setQueues (queues : Queues) :
    (s.setQueues queues).inner = { s.inner with queues := queues } := rfl

@[simp] theorem guarded_setKeys (keys : Directory) : (s.setKeys keys).guarded = s.guarded := rfl

@[simp] theorem guarded_setQueues (queues : Queues) : (s.setQueues queues).guarded = s.guarded := rfl

@[simp] theorem guarded_modifyQueue (recipient : Bytes32)
    (f : List QueuedMessage → List QueuedMessage) :
    (s.modifyQueue recipient f).guarded = s.guarded := rfl

@[simp] theorem inner_modifyPersistence (f : Persistence → Persistence) :
    (s.modifyPersistence f).inner = s.inner := rfl

@[simp] theorem inner_setTmp (tmp : SnapshotState) : (s.setTmp tmp).inner = s.inner := rfl

@[simp] theorem inner_renameTmp : s.renameTmp.inner = s.inner := rfl

theorem part_inner : part .inner s = s.inner := rfl

/-- Changes of one queue, one after another. -/
theorem inner_modifyQueue_of_eq {s t : SharedStore} {recipient : Bytes32}
    {f g : List QueuedMessage → List QueuedMessage} (h : t.inner = (s.modifyQueue recipient f).inner) :
    (t.modifyQueue recipient g).inner = (s.modifyQueue recipient fun queue => g (f queue)).inner := by
  have hinsert (m : Queues) (v v' : List QueuedMessage) :
      (m.insert recipient v).insert recipient v' = m.insert recipient v' := by
    apply Std.ExtTreeMap.ext_getElem?
    intro r
    simp only [Std.ExtTreeMap.getElem?_insert]
    split <;> rfl
  simp [modifyQueue, h, hinsert]

/-- With `inner` only, a thread leaves alone what `persistence` guards, and the other way
    round. -/
@[simp] theorem leaves_guarded (b : Part .inner) (s s' : SharedStore) :
    (∀ l, Function.update nothing StoreLock.inner (some b) l = none → part l s' = part l s) ↔
      s'.guarded = s.guarded := by
  constructor
  · intro h
    exact h .persistence rfl
  · intro h l hl
    cases l with
    | inner => cases hl
    | persistence => exact h

@[simp] theorem leaves_inner (b : Part .persistence) (s s' : SharedStore) :
    (∀ l, Function.update nothing StoreLock.persistence (some b) l = none →
      part l s' = part l s) ↔ s'.inner = s.inner := by
  constructor
  · intro h
    exact h .inner rfl
  · intro h l hl
    cases l with
    | inner => exact h
    | persistence => cases hl

@[simp] theorem leaves_all (b : Part .persistence) (a : Part .inner) (s s' : SharedStore) :
    ∀ l, Function.update (Function.update nothing StoreLock.persistence (some b)) StoreLock.inner
      (some a) l = none → part l s' = part l s := by
  intro l hl
  cases l with
  | inner => cases hl
  | persistence => cases hl

@[simp] theorem agrees_both (b : Part .persistence) (a : Part .inner) (s : SharedStore) :
    Agrees part (Function.update (Function.update nothing StoreLock.persistence (some b))
      StoreLock.inner (some a)) s ↔ s.guarded = b ∧ s.inner = a :=
  agrees_two part (by simp) b a s

@[simp] theorem forget_inner (b : Part .persistence) :
    Function.update (Function.update nothing StoreLock.persistence (some b)) StoreLock.inner none =
      (Function.update nothing StoreLock.persistence (some b) : Knowledge Part) :=
  update_one (by simp) b

end SharedStore

/-! ## 2. The calls -/

/-- How an attempt to flush goes: the clock when it asks how long ago the last one was and when
    it is done, and whether the files can be written and renamed. -/
structure FlushRun where
  begun : Nat
  ended : Nat
  writes : Bool
  renames : Bool

inductive FlushError where
  | write
  | rename

inductive StoreCall where
  | publish (baseBundle : PreKeyBundle) (oneTime : List (UInt32 × Bytes32))
  | fetchBundle (identity : Bytes32)
  | oneTimeRemaining (identity : Bytes32)
  | enqueueAt (recipient : Bytes32) (message : Bytes) (now : UInt64)
  | pollAt (recipient : Bytes32) (now : UInt64)
  | sweepExpiredAt (now : UInt64)
  | maybeFlush (run : FlushRun)
  | flush (asked : Nat) (run : FlushRun)

inductive StoreReply where
  | published
  | bundle (found : Option PreKeyBundle)
  | remaining (count : Nat)
  | queued (outcome : Except StoreError Unit)
  | mail (messages : List Bytes)
  | swept (removed : Nat)
  | flushed (outcome : Except FlushError Unit)

abbrev StoreProg := Prog StoreLock SharedStore

namespace StoreProg

def markDirty : StoreProg Unit := do
  lock .persistence
  modify fun s => s.modifyPersistence fun p => { p with dirty := true }
  unlock .persistence

def publish (baseBundle : PreKeyBundle) (oneTime : List (UInt32 × Bytes32)) :
    StoreProg StoreReply := do
  lock .inner
  modify fun s => s.setKeys (s.inner.keys.publish baseBundle oneTime)
  unlock .inner
  markDirty
  return .published

def fetchBundle (identity : Bytes32) : StoreProg StoreReply := do
  lock .inner
  let s ← get
  match s.inner.keys[identity]? with
  | none =>
    unlock .inner
    return .bundle none
  | some stored =>
    match stored.oneTime with
    | [] =>
      unlock .inner
      return .bundle (some stored.baseBundle)
    | (id, pub) :: rest =>
      modify fun s => s.setKeys (s.inner.keys.insert identity { stored with oneTime := rest })
      unlock .inner
      markDirty
      return .bundle (some
        { stored.baseBundle with oneTimePrekey := some pub, oneTimePrekeyId := some id })

def oneTimeRemaining (identity : Bytes32) : StoreProg StoreReply := do
  lock .inner
  let s ← get
  unlock .inner
  return .remaining (((s.inner.keys[identity]?).map fun k => k.oneTime.length).getD 0)

variable (limits : StoreLimits)

def enqueueAt (recipient : Bytes32) (message : Bytes) (now : UInt64) : StoreProg StoreReply :=
  if limits.maxMessageBytes < message.length then return .queued (.error .messageTooLarge)
  else do
    lock .inner
    -- `entry(recipient).or_default()`
    modify fun s => s.modifyQueue recipient id
    modify fun s => s.modifyQueue recipient fun queue => queue ++ [⟨now, message⟩]
    -- the caps on count and bytes
    modify fun s => s.modifyQueue recipient fun queue =>
      queue.drop (queue.length - limits.maxMailboxMessages)
    modify fun s => s.modifyQueue recipient fun queue =>
      RelayStore.popOver limits.maxMailboxBytes (queue.map fun m => m.bytes.length).sum queue
    unlock .inner
    markDirty
    return .queued (.ok ())

def pollAt (recipient : Bytes32) (now : UInt64) : StoreProg StoreReply := do
  lock .inner
  let s ← get
  match s.inner.queues[recipient]? with
  | none =>
    unlock .inner
    return .mail []
  | some drained =>
    modify fun s => s.setQueues (s.inner.queues.erase recipient)
    unlock .inner
    markDirty
    return .mail ((drained.filter (limits.keeps now)).map QueuedMessage.bytes)

def sweepExpiredAt (now : UInt64) : StoreProg StoreReply := do
  lock .inner
  let s ← get
  let swept := (RelayStore.mk s.inner.queues limits).sweepExpiredAt now
  modify fun s => s.setQueues swept.2.queues
  unlock .inner
  if 0 < swept.1 then
    markDirty
    return .swept swept.1
  else return .swept swept.1

/-- `last_flush.elapsed().as_secs()`. -/
def elapsedSecs (lastFlush now : Nat) : Nat := (now - lastFlush) / 10 ^ 9

/-- `maybe_flush` from the write on. -/
def writeSnapshot (run : FlushRun) (snapshot : Inner) : StoreProg StoreReply := do
  -- `fs::write` begins with an empty file
  modify fun s => s.setTmp .torn
  if !run.writes then do
    unlock .persistence
    return .flushed (.error .write)
  else do
    modify fun s => s.setTmp (.holds snapshot)
    if !run.renames then do
      unlock .persistence
      return .flushed (.error .rename)
    else do
      modify fun s => s.renameTmp
      modify fun s => s.modifyPersistence fun p => { p with dirty := false }
      modify fun s => s.modifyPersistence fun p => { p with lastFlush := run.ended }
      unlock .persistence
      return .flushed (.ok ())

def maybeFlush (run : FlushRun) : StoreProg StoreReply := do
  lock .persistence
  let s ← get
  match s.guarded.persistence with
  | none =>
    unlock .persistence
    return .flushed (.ok ())
  | some p =>
    if !p.dirty || elapsedSecs p.lastFlush run.begun < FLUSH_INTERVAL_SECS then do
      unlock .persistence
      return .flushed (.ok ())
    else do
      lock .inner
      let s ← get
      unlock .inner
      writeSnapshot run s.inner

/-- The last flush is put back by two seconds, where the clock allows it. -/
def flush (asked : Nat) (run : FlushRun) : StoreProg StoreReply := do
  let back := (FLUSH_INTERVAL_SECS + 1) * 10 ^ 9
  lock .persistence
  modify fun s => s.modifyPersistence fun p => { p with dirty := true }
  modify fun s => s.modifyPersistence fun p =>
    { p with lastFlush := if back ≤ asked then asked - back else asked }
  unlock .persistence
  maybeFlush run

end StoreProg

/-- The calls as their code has them. -/
def StoreCall.code (limits : StoreLimits) : StoreCall → StoreProg StoreReply
  | publish baseBundle oneTime => StoreProg.publish baseBundle oneTime
  | fetchBundle identity => StoreProg.fetchBundle identity
  | oneTimeRemaining identity => StoreProg.oneTimeRemaining identity
  | enqueueAt recipient message now => StoreProg.enqueueAt limits recipient message now
  | pollAt recipient now => StoreProg.pollAt limits recipient now
  | sweepExpiredAt now => StoreProg.sweepExpiredAt limits now
  | maybeFlush run => StoreProg.maybeFlush run
  | flush asked run => StoreProg.flush asked run

/-- What a call does when it is alone, and what it answers. -/
def StoreCall.Does (limits : StoreLimits) (a b : Inner) : StoreCall → StoreReply → Prop
  | publish baseBundle oneTime, r =>
    b = { a with keys := a.keys.publish baseBundle oneTime } ∧ r = .published
  | fetchBundle identity, r =>
    b = { a with keys := (a.keys.fetchBundle identity).2 } ∧
      r = .bundle (a.keys.fetchBundle identity).1
  | oneTimeRemaining identity, r =>
    b = a ∧ r = .remaining (((a.keys[identity]?).map fun k => k.oneTime.length).getD 0)
  | enqueueAt recipient message now, r =>
    let queued := (RelayStore.mk a.queues limits).enqueueAt recipient message now
    b = { a with queues := queued.2.queues } ∧ r = .queued queued.1
  | pollAt recipient now, r =>
    let polled := (RelayStore.mk a.queues limits).pollAt recipient now
    b = { a with queues := polled.2.queues } ∧ r = .mail polled.1
  | sweepExpiredAt now, r =>
    let swept := (RelayStore.mk a.queues limits).sweepExpiredAt now
    b = { a with queues := swept.2.queues } ∧ r = .swept swept.1
  | maybeFlush _, r => b = a ∧ ∃ outcome, r = .flushed outcome
  | flush _ _, r => b = a ∧ ∃ outcome, r = .flushed outcome

/-! ## 3. The order of the locks -/

namespace StoreProg

open SharedStore

variable (limits : StoreLimits)

def rank : StoreLock → Nat
  | .persistence => 0
  | .inner => 1

theorem markDirty_bind {α : Type} (k : Unit → StoreProg α) :
    markDirty >>= k = acquire .persistence (act (fun s => s.modifyPersistence fun p =>
      { p with dirty := true }) fun _ => release .persistence (k ())) := rfl

theorem careful_publish (baseBundle : PreKeyBundle) (oneTime : List (UInt32 × Bytes32)) :
    (publish baseBundle oneTime).Careful part rank nothing := by
  simp [publish, markDirty_bind, agrees_one]

theorem careful_fetchBundle (identity : Bytes32) :
    (fetchBundle identity).Careful part rank nothing := by
  simp [fetchBundle, agrees_one]
  intro b s _
  cases s.inner.keys[identity]? with
  | none => simp
  | some stored =>
    cases hpool : stored.oneTime with
    | nil => simp [hpool]
    | cons entry rest => simp [hpool, agrees_one, markDirty_bind]

theorem careful_oneTimeRemaining (identity : Bytes32) :
    (oneTimeRemaining identity).Careful part rank nothing := by
  simp [oneTimeRemaining, agrees_one]

theorem careful_enqueueAt (recipient : Bytes32) (message : Bytes) (now : UInt64) :
    (enqueueAt limits recipient message now).Careful part rank nothing := by
  rw [enqueueAt]
  split
  · simp
  · simp [agrees_one, markDirty_bind]

theorem careful_pollAt (recipient : Bytes32) (now : UInt64) :
    (pollAt limits recipient now).Careful part rank nothing := by
  simp [pollAt, agrees_one]
  intro b s _
  cases s.inner.queues[recipient]? with
  | none => simp
  | some drained => simp [agrees_one, markDirty_bind]

theorem careful_sweepExpiredAt (now : UInt64) :
    (sweepExpiredAt limits now).Careful part rank nothing := by
  simp [sweepExpiredAt, agrees_one]
  intro b s _ _ _
  split
  · simp [agrees_one, markDirty_bind]
  · simp

theorem careful_writeSnapshot (run : FlushRun) (snapshot : Inner) (b : Part .persistence) :
    (writeSnapshot run snapshot).Careful part rank
      (Function.update nothing StoreLock.persistence (some b)) := by
  simp [writeSnapshot, agrees_one]
  intro s _
  split
  · simp
  · simp [agrees_one]
    intro s _
    split
    · simp
    · simp [agrees_one]

theorem careful_maybeFlush (run : FlushRun) :
    (maybeFlush run).Careful part rank nothing := by
  simp [maybeFlush, agrees_one]
  intro b s _
  cases s.guarded.persistence with
  | none => simp
  | some p =>
    simp
    split
    · simp
    · simp
      refine ⟨?_, ?_⟩
      · intro l hl
        cases l with
        | inner => cases hl
        | persistence => decide
      · intro a t _ _
        exact careful_writeSnapshot run t.inner _

theorem careful_flush (asked : Nat) (run : FlushRun) :
    (flush asked run).Careful part rank nothing := by
  simp [flush, agrees_one]
  intro _ _ _ _ _
  exact careful_maybeFlush run

theorem careful (c : StoreCall) : (c.code limits).Careful part rank nothing := by
  cases c with
  | publish baseBundle oneTime => exact careful_publish baseBundle oneTime
  | fetchBundle identity => exact careful_fetchBundle identity
  | oneTimeRemaining identity => exact careful_oneTimeRemaining identity
  | enqueueAt recipient message now => exact careful_enqueueAt limits recipient message now
  | pollAt recipient now => exact careful_pollAt limits recipient now
  | sweepExpiredAt now => exact careful_sweepExpiredAt limits now
  | maybeFlush run => exact careful_maybeFlush run
  | flush asked run => exact careful_flush asked run

/-! ## 4. One critical section for each call -/

theorem quiet_markDirty (r : StoreReply) :
    (markDirty >>= fun _ => done r).Quiet part .inner r nothing := by
  simp [markDirty_bind]

theorem atomic_publish (baseBundle : PreKeyBundle) (oneTime : List (UInt32 × Bytes32)) :
    (publish baseBundle oneTime).Atomic part .inner
      (fun a b r => StoreCall.Does limits a b (.publish baseBundle oneTime) r) nothing none := by
  simp [publish, agrees_one]
  rintro _ s rfl
  exact .inr ⟨_, ⟨rfl, rfl⟩, quiet_markDirty _⟩

theorem atomic_fetchBundle (identity : Bytes32) :
    (fetchBundle identity).Atomic part .inner
      (fun a b r => StoreCall.Does limits a b (.fetchBundle identity) r) nothing none := by
  simp [fetchBundle, agrees_one]
  rintro _ s rfl
  cases hget : s.inner.keys[identity]? with
  | none =>
    simp
    refine .inr ⟨?_, ?_⟩
    · simp [part, Directory.fetchBundle, hget]
    · simp [part, Directory.fetchBundle, hget]
  | some stored =>
    cases hpool : stored.oneTime with
    | nil =>
      simp [hpool]
      refine .inr ⟨?_, ?_⟩
      · simp [part, Directory.fetchBundle, hget, hpool]
      · simp [part, Directory.fetchBundle, hget, hpool]
    | cons entry rest =>
      simp [hpool, agrees_one]
      intro t ht
      refine .inr ⟨_, ⟨?_, rfl⟩, ?_⟩
      · simp only [part_inner] at ht
        simp [part_inner, Directory.fetchBundle, hget, hpool, ht]
      · simp [part_inner, Directory.fetchBundle, hget, hpool, quiet_markDirty]

theorem atomic_oneTimeRemaining (identity : Bytes32) :
    (oneTimeRemaining identity).Atomic part .inner
      (fun a b r => StoreCall.Does limits a b (.oneTimeRemaining identity) r) nothing none := by
  simp [oneTimeRemaining, agrees_one]
  rintro _ s rfl
  exact .inr ⟨rfl, rfl⟩

theorem atomic_enqueueAt (recipient : Bytes32) (message : Bytes) (now : UInt64) :
    (enqueueAt limits recipient message now).Atomic part .inner
      (fun a b r => StoreCall.Does limits a b (.enqueueAt recipient message now) r) nothing
      none := by
  rw [enqueueAt]
  split
  · rename_i hsize
    intro a
    refine ⟨?_, ?_⟩
    · rw [RelayStore.enqueueAt, if_pos hsize]
      rfl
    · rw [RelayStore.enqueueAt, if_pos hsize]
  · rename_i hsize
    simp [agrees_one]
    rintro _ s rfl t ht u hu v hv
    have hpushed := inner_modifyQueue_of_eq (g := fun queue => queue ++ [⟨now, message⟩]) ht
    have hcounted := inner_modifyQueue_of_eq (g := fun queue : List QueuedMessage =>
      queue.drop (queue.length - limits.maxMailboxMessages)) (Eq.trans hu hpushed)
    have hcapped := inner_modifyQueue_of_eq (g := fun queue => RelayStore.popOver
      limits.maxMailboxBytes (queue.map fun m => m.bytes.length).sum queue) (Eq.trans hv hcounted)
    refine .inr ⟨_, ⟨?_, rfl⟩, ?_⟩
    · refine Eq.trans hcapped ?_
      rw [RelayStore.enqueueAt, if_neg hsize]
      rfl
    · simp [RelayStore.enqueueAt, hsize, quiet_markDirty]

theorem atomic_pollAt (recipient : Bytes32) (now : UInt64) :
    (pollAt limits recipient now).Atomic part .inner
      (fun a b r => StoreCall.Does limits a b (.pollAt recipient now) r) nothing none := by
  simp [pollAt, agrees_one]
  rintro _ s rfl
  cases hget : s.inner.queues[recipient]? with
  | none =>
    simp
    refine .inr ⟨?_, ?_⟩
    · simp [part_inner, RelayStore.pollAt, hget]
    · simp [part_inner, RelayStore.pollAt, hget]
  | some drained =>
    simp [agrees_one]
    intro t ht
    refine .inr ⟨_, ⟨?_, rfl⟩, ?_⟩
    · simp only [part_inner] at ht
      simp [part_inner, RelayStore.pollAt, hget, ht]
    · simp [part_inner, RelayStore.pollAt, hget, quiet_markDirty]

theorem atomic_sweepExpiredAt (now : UInt64) :
    (sweepExpiredAt limits now).Atomic part .inner
      (fun a b r => StoreCall.Does limits a b (.sweepExpiredAt now) r) nothing none := by
  simp [sweepExpiredAt, agrees_one]
  rintro _ s rfl t ht
  refine .inr ⟨_, ⟨?_, rfl⟩, ?_⟩
  · simp only [part_inner] at ht
    simp [part_inner, ht]
  · simp only [part_inner]
    split
    · exact quiet_markDirty _
    · rfl

theorem atomic_writeSnapshot {op : Part .inner → Part .inner → StoreReply → Prop}
    (hop : ∀ a outcome, op a a (.flushed outcome)) (run : FlushRun) (snapshot : Inner)
    (known : Knowledge Part) : (writeSnapshot run snapshot).Atomic part .inner op known none := by
  simp [writeSnapshot]
  intro s _
  split
  · simp [hop]
  · simp
    intro s _
    split
    · simp [hop]
    · simp [hop]

theorem atomic_maybeFlush {op : Part .inner → Part .inner → StoreReply → Prop}
    (hop : ∀ a outcome, op a a (.flushed outcome)) (run : FlushRun) :
    (maybeFlush run).Atomic part .inner op nothing none := by
  simp [maybeFlush, agrees_one]
  intro b s _
  cases s.guarded.persistence with
  | none => simp [hop]
  | some p =>
    simp
    split
    · simp [hop]
    · simp
      rintro _ t _ rfl
      exact .inl ⟨rfl, atomic_writeSnapshot hop run t.inner _⟩

theorem atomic_flush {op : Part .inner → Part .inner → StoreReply → Prop}
    (hop : ∀ a outcome, op a a (.flushed outcome)) (asked : Nat) (run : FlushRun) :
    (flush asked run).Atomic part .inner op nothing none := by
  simp [flush, agrees_one]
  intro _ _ _ _ _
  exact atomic_maybeFlush hop run

theorem atomic (c : StoreCall) :
    (c.code limits).Atomic part .inner (fun a b r => StoreCall.Does limits a b c r) nothing none := by
  cases c with
  | publish baseBundle oneTime => exact atomic_publish limits baseBundle oneTime
  | fetchBundle identity => exact atomic_fetchBundle limits identity
  | oneTimeRemaining identity => exact atomic_oneTimeRemaining limits identity
  | enqueueAt recipient message now => exact atomic_enqueueAt limits recipient message now
  | pollAt recipient now => exact atomic_pollAt limits recipient now
  | sweepExpiredAt now => exact atomic_sweepExpiredAt limits now
  | maybeFlush run => exact atomic_maybeFlush (fun _ outcome => ⟨rfl, outcome, rfl⟩) run
  | flush asked run => exact atomic_flush (fun _ outcome => ⟨rfl, outcome, rfl⟩) asked run

/-! ## 5. The file -/

/-- What `open` makes of the file; it refuses a torn one. -/
def Opens : SnapshotState → Inner → Prop
  | .missing, a => a = ⟨∅, ∅⟩
  | .torn, _ => False
  | .holds snapshot, a => a = snapshot

/-- The file can be opened, and what is in it has been seen. -/
def InOrder (V : Part .inner → Prop) (s : SharedStore) : Prop := ∃ a, Opens s.guarded.file a ∧ V a

theorem grows_inOrder : Grows InOrder := by
  rintro V W s hVW ⟨a, hopens, ha⟩
  exact ⟨a, hopens, hVW a ha⟩

section InOrder

variable {V : Part .inner → Prop} (s : SharedStore)

@[simp] theorem inOrder_setKeys (keys : Directory) : InOrder V (s.setKeys keys) ↔ InOrder V s :=
  Iff.rfl

@[simp] theorem inOrder_setQueues (queues : Queues) :
    InOrder V (s.setQueues queues) ↔ InOrder V s := Iff.rfl

@[simp] theorem inOrder_modifyQueue (recipient : Bytes32)
    (f : List QueuedMessage → List QueuedMessage) :
    InOrder V (s.modifyQueue recipient f) ↔ InOrder V s := Iff.rfl

@[simp] theorem inOrder_modifyPersistence (f : Persistence → Persistence) :
    InOrder V (s.modifyPersistence f) ↔ InOrder V s := Iff.rfl

@[simp] theorem inOrder_setTmp (tmp : SnapshotState) : InOrder V (s.setTmp tmp) ↔ InOrder V s :=
  Iff.rfl

end InOrder

variable (V : Part .inner → Prop)

theorem keeps_publish (baseBundle : PreKeyBundle) (oneTime : List (UInt32 × Bytes32)) :
    (publish baseBundle oneTime).Keeps part .inner InOrder nothing V := by
  simp [publish, markDirty_bind]

theorem keeps_fetchBundle (identity : Bytes32) :
    (fetchBundle identity).Keeps part .inner InOrder nothing V := by
  simp [fetchBundle]
  intro W _ b _ X _ s _ hs
  refine ⟨hs, ?_⟩
  cases s.inner.keys[identity]? with
  | none => simp
  | some stored =>
    cases hpool : stored.oneTime with
    | nil => simp [hpool]
    | cons entry rest => simp [hpool, markDirty_bind]

theorem keeps_oneTimeRemaining (identity : Bytes32) :
    (oneTimeRemaining identity).Keeps part .inner InOrder nothing V := by
  simp [oneTimeRemaining]

theorem keeps_enqueueAt (recipient : Bytes32) (message : Bytes) (now : UInt64) :
    (enqueueAt limits recipient message now).Keeps part .inner InOrder nothing V := by
  rw [enqueueAt]
  split
  · simp
  · simp [markDirty_bind]

theorem keeps_pollAt (recipient : Bytes32) (now : UInt64) :
    (pollAt limits recipient now).Keeps part .inner InOrder nothing V := by
  simp [pollAt]
  intro W _ b _ X _ s _ hs
  refine ⟨hs, ?_⟩
  cases s.inner.queues[recipient]? with
  | none => simp
  | some drained => simp [markDirty_bind]

theorem keeps_sweepExpiredAt (now : UInt64) :
    (sweepExpiredAt limits now).Keeps part .inner InOrder nothing V := by
  simp [sweepExpiredAt]
  intro W _ b _ X _ s _ hs
  refine ⟨hs, ?_⟩
  intro Y _ t _ ht
  refine ⟨ht, ?_⟩
  split
  · simp [markDirty_bind]
  · simp

variable {V}

/-- What is renamed is what has just been written, since the thread has `persistence`. -/
theorem keeps_writeSnapshot (run : FlushRun) {snapshot : Part .inner} (hsnapshot : V snapshot)
    (b : Part .persistence) : (writeSnapshot run snapshot).Keeps part .inner InOrder
      (Function.update nothing StoreLock.persistence (some b)) V := by
  simp [writeSnapshot, agrees_one]
  intro W hW s _ hs
  refine ⟨hs, ?_⟩
  split
  · simp
  · simp [agrees_one]
    intro X hX t _ ht
    refine ⟨ht, ?_⟩
    split
    · simp
    · simp [agrees_one]
      intro Y hY u hu _
      have hwritten : u.guarded = (t.setTmp (.holds snapshot)).guarded := hu
      refine ⟨snapshot, ?_, hY _ (hX _ (hW _ hsnapshot))⟩
      rw [renameTmp, hwritten]
      rfl

variable (V)

theorem keeps_maybeFlush (run : FlushRun) :
    (maybeFlush run).Keeps part .inner InOrder nothing V := by
  simp [maybeFlush, agrees_one]
  intro W _ b X hX s _ hs
  refine ⟨hs, ?_⟩
  cases s.guarded.persistence with
  | none => simp
  | some p =>
    simp
    split
    · simp
    · simp
      intro Y hY a ha Z hZ t _ ht hs
      refine ⟨hs, ?_⟩
      refine keeps_writeSnapshot run ?_ _
      rw [ht]
      exact hZ _ ha

theorem keeps_flush (asked : Nat) (run : FlushRun) :
    (flush asked run).Keeps part .inner InOrder nothing V := by
  simp [flush, agrees_one]
  intros
  refine ⟨by assumption, ?_⟩
  intros
  refine ⟨by assumption, ?_⟩
  exact keeps_maybeFlush _ run

theorem keeps (c : StoreCall) : (c.code limits).Keeps part .inner InOrder nothing V := by
  cases c with
  | publish baseBundle oneTime => exact keeps_publish V baseBundle oneTime
  | fetchBundle identity => exact keeps_fetchBundle V identity
  | oneTimeRemaining identity => exact keeps_oneTimeRemaining V identity
  | enqueueAt recipient message now => exact keeps_enqueueAt limits V recipient message now
  | pollAt recipient now => exact keeps_pollAt limits V recipient now
  | sweepExpiredAt now => exact keeps_sweepExpiredAt limits V now
  | maybeFlush run => exact keeps_maybeFlush V run
  | flush asked run => exact keeps_flush V asked run

/-! ## 6. The dirty flag -/

/-- What clients can tell apart: a mailbox that is empty is like one that is missing. -/
def contents (a : Inner) : Directory × (Bytes32 → List QueuedMessage) :=
  (a.keys, fun recipient => (a.queues[recipient]?).getD [])

/-- The contents of the file, unless it is torn. -/
def fileContents : SnapshotState → Option (Directory × (Bytes32 → List QueuedMessage))
  | .missing => some (contents ⟨∅, ∅⟩)
  | .torn => none
  | .holds snapshot => some (contents snapshot)

/-- The file is the copy.  A store that is in memory only has no copy to bring up to date. -/
def backup : Backup StoreLock SharedStore (Option (Directory × (Bytes32 → List QueuedMessage)))
    Part where
  part := part
  guard := .persistence
  view s := some (contents s.inner)
  flag g := g.persistence.all Persistence.dirty
  copy g := fileContents g.file

theorem isUp_eq (s : SharedStore) :
    backup.isUp s = s.guarded.persistence.all Persistence.dirty := rfl

theorem saved_eq (s : SharedStore) : backup.saved s = fileContents s.guarded.file := rfl

theorem lowers_backup : backup.Lowers := by
  intro s
  refine ⟨{ s with guarded := { s.guarded with persistence := some ⟨false, 0⟩ } }, rfl, ?_⟩
  intro l hl
  cases l with
  | inner => rfl
  | persistence => exact absurd rfl hl

/-- An act that leaves the flag and the file alone. -/
theorem leaves {s t : SharedStore} (h : t.guarded = s.guarded) :
    backup.isUp t = true ∨ backup.isUp s = false ∧ backup.saved t = backup.saved s := by
  rw [isUp_eq, isUp_eq, saved_eq, saved_eq, h]
  cases s.guarded.persistence.all Persistence.dirty with
  | true => exact .inl rfl
  | false => exact .inr ⟨rfl, rfl⟩

/-- An act that changes the time of the last flush only. -/
theorem leaves_modify (f : Persistence → Persistence) (hf : ∀ p, (f p).dirty = p.dirty)
    (s : SharedStore) : backup.isUp (s.modifyPersistence f) = true ∨
      backup.isUp s = false ∧ backup.saved (s.modifyPersistence f) = backup.saved s := by
  have hsame : backup.isUp (s.modifyPersistence f) = backup.isUp s := by
    rw [isUp_eq, isUp_eq, modifyPersistence]
    cases s.guarded.persistence with
    | none => rfl
    | some p => exact hf p
  cases hs : backup.isUp s with
  | true => exact .inl (hsame.trans hs)
  | false => exact .inr ⟨rfl, rfl⟩

theorem isUp_markDirty (s : SharedStore) :
    backup.isUp (s.modifyPersistence fun p => { p with dirty := true }) = true := by
  rw [isUp_eq]
  cases h : s.guarded.persistence <;> simp [modifyPersistence, h]

theorem willMark_markDirty (k : Unit → StoreProg StoreReply) :
    backup.WillMark (markDirty >>= k) :=
  .inl isUp_markDirty

theorem tidy_markDirty (r : StoreReply) (read : Option _) :
    backup.Tidy (markDirty >>= fun _ => done r) nothing read := by
  intro b s _
  exact ⟨.inl rfl, .inl (isUp_markDirty s), .inl trivial⟩

theorem tidy_publish (baseBundle : PreKeyBundle) (oneTime : List (UInt32 × Bytes32)) :
    backup.Tidy (publish baseBundle oneTime) nothing none := by
  simp [publish]
  intro b s _
  exact ⟨.inr ⟨rfl, willMark_markDirty _⟩, leaves rfl, .inl (tidy_markDirty _ _)⟩

theorem tidy_fetchBundle (identity : Bytes32) :
    backup.Tidy (fetchBundle identity) nothing none := by
  simp [fetchBundle]
  intro b s _
  refine .inl ?_
  cases s.inner.keys[identity]? with
  | none => simp
  | some stored =>
    cases hpool : stored.oneTime with
    | nil => simp [hpool]
    | cons entry rest =>
      simp [hpool]
      intro t _
      exact ⟨.inr ⟨rfl, willMark_markDirty _⟩, leaves rfl, .inl (tidy_markDirty _ _)⟩

theorem tidy_oneTimeRemaining (identity : Bytes32) :
    backup.Tidy (oneTimeRemaining identity) nothing none := by
  simp [oneTimeRemaining]

theorem tidy_enqueueAt (recipient : Bytes32) (message : Bytes) (now : UInt64) :
    backup.Tidy (enqueueAt limits recipient message now) nothing none := by
  rw [enqueueAt]
  split
  · simp
  · simp
    have hmark := willMark_markDirty fun _ => done (.queued (.ok ()))
    intro b s _
    refine ⟨.inr ⟨rfl, .inr fun _ => .inr fun _ => .inr fun _ => hmark⟩, leaves rfl, .inl ?_⟩
    intro t _
    refine ⟨.inr ⟨rfl, .inr fun _ => .inr fun _ => hmark⟩, leaves rfl, .inl ?_⟩
    intro u _
    refine ⟨.inr ⟨rfl, .inr fun _ => hmark⟩, leaves rfl, .inl ?_⟩
    intro v _
    exact ⟨.inr ⟨rfl, hmark⟩, leaves rfl, .inl (tidy_markDirty _ _)⟩

theorem tidy_pollAt (recipient : Bytes32) (now : UInt64) :
    backup.Tidy (pollAt limits recipient now) nothing none := by
  simp [pollAt]
  intro b s _
  refine .inl ?_
  cases s.inner.queues[recipient]? with
  | none => simp
  | some drained =>
    simp
    intro t _
    exact ⟨.inr ⟨rfl, willMark_markDirty _⟩, leaves rfl, .inl (tidy_markDirty _ _)⟩

/-- A sweep that removes no mail only removes mailboxes that are empty. -/
theorem contents_swept {a : Inner} {now : UInt64}
    (h : ((RelayStore.mk a.queues limits).sweepExpiredAt now).1 = 0) :
    contents { a with queues := ((RelayStore.mk a.queues limits).sweepExpiredAt now).2.queues } =
      contents a := by
  rw [contents, contents]
  congr 1
  funext recipient
  exact FileStore.queue_of_swept_zero h recipient

theorem tidy_sweepExpiredAt (now : UInt64) :
    backup.Tidy (sweepExpiredAt limits now) nothing none := by
  simp [sweepExpiredAt]
  intro b s _
  refine .inl ?_
  intro t ht
  have hinner : t.inner = s.inner := (agrees_one part .inner _ t).mp ht
  refine ⟨?_, leaves rfl, .inl ?_⟩
  · by_cases hremoved : 0 < ((RelayStore.mk s.inner.queues limits).sweepExpiredAt now).1
    · refine .inr ⟨rfl, ?_⟩
      rw [if_pos hremoved]
      exact willMark_markDirty _
    · left
      show some (contents _) = some (contents _)
      rw [inner_setQueues, hinner, contents_swept limits (Nat.eq_zero_of_not_pos hremoved)]
  · split
    · exact tidy_markDirty _ _
    · trivial

/-- The flag is taken down when the file has what has been read. -/
theorem tidy_writeSnapshot (run : FlushRun) (snapshot : Inner) (b : Part .persistence)
    (hdirty : b.persistence.all Persistence.dirty = true) :
    backup.Tidy (writeSnapshot run snapshot)
      (Function.update nothing StoreLock.persistence (some b)) (some (some (contents snapshot))) := by
  simp [writeSnapshot]
  intro s hs
  have hs : s.guarded = b := (agrees_one part .persistence b s).mp hs
  have hup : backup.isUp s = true := by rw [isUp_eq, hs, hdirty]
  refine ⟨.inl rfl, .inl hup, .inl ?_⟩
  split
  · trivial
  intro t ht
  have ht : t.guarded = (s.setTmp .torn).guarded := (agrees_one part .persistence _ t).mp ht
  have hup : backup.isUp t = true := by
    rw [isUp_eq, ht]
    exact hup
  refine ⟨.inl rfl, .inl hup, .inl ?_⟩
  split
  · trivial
  intro u hu
  simp only [look_update, look_nothing] at hu
  have hu : u.guarded = (t.setTmp (.holds snapshot)).guarded :=
    (agrees_one part .persistence _ u).mp hu
  have hup : backup.isUp u = true := by
    rw [isUp_eq, hu]
    exact hup
  refine ⟨.inl rfl, .inl hup, .inl ?_⟩
  intro v hv
  simp only [look_update, look_nothing] at hv
  have hv : v.guarded = u.renameTmp.guarded := (agrees_one part .persistence _ v).mp hv
  have hfile : v.guarded.file = .holds snapshot := by
    rw [hv, renameTmp, hu]
    rfl
  refine ⟨.inl rfl, .inr (.inr ⟨?_, by simp [backup]⟩), .inl ?_⟩
  · show some (some (contents snapshot)) = some (fileContents v.guarded.file)
    rw [hfile]
    rfl
  intro w _
  rcases leaves_modify (fun p => { p with lastFlush := run.ended }) (fun _ => rfl) w with h | h
  · exact ⟨.inl rfl, .inl h, .inl trivial⟩
  · exact ⟨.inl rfl, .inr (.inl h), .inl trivial⟩

theorem tidy_maybeFlush (run : FlushRun) : backup.Tidy (maybeFlush run) nothing none := by
  simp [maybeFlush]
  intro b s hs
  refine .inl ?_
  cases hpersistence : s.guarded.persistence with
  | none => simp
  | some p =>
    simp
    split
    · simp
    · rename_i hgo
      simp
      intro a t ht
      obtain ⟨ht, _⟩ := (agrees_both _ a t).mp ht
      have ht : t.guarded = s.guarded := ht
      have hdirty : t.guarded.persistence.all Persistence.dirty = true := by
        rw [ht, hpersistence]
        cases hp : p.dirty with
        | true => exact hp
        | false => exact absurd (.inl hp) hgo
      exact .inr (tidy_writeSnapshot run t.inner t.guarded hdirty)

theorem tidy_flush (asked : Nat) (run : FlushRun) :
    backup.Tidy (flush asked run) nothing none := by
  simp [flush]
  intro b s _
  refine ⟨.inl rfl, .inl (isUp_markDirty s), .inl ?_⟩
  intro t _
  refine ⟨.inl rfl, ?_, .inl (tidy_maybeFlush run)⟩
  apply leaves_modify
  exact fun _ => rfl

theorem tidy (c : StoreCall) : backup.Tidy (c.code limits) nothing none := by
  cases c with
  | publish baseBundle oneTime => exact tidy_publish baseBundle oneTime
  | fetchBundle identity => exact tidy_fetchBundle identity
  | oneTimeRemaining identity => exact tidy_oneTimeRemaining identity
  | enqueueAt recipient message now => exact tidy_enqueueAt limits recipient message now
  | pollAt recipient now => exact tidy_pollAt limits recipient now
  | sweepExpiredAt now => exact tidy_sweepExpiredAt limits now
  | maybeFlush run => exact tidy_maybeFlush run
  | flush asked run => exact tidy_flush asked run

end StoreProg

/-! ## 7. Every run -/

section Runs

open StoreProg SharedStore

variable {ι : Type} [DecidableEq ι] {limits : StoreLimits} {s₀ : SharedStore}
  {events : List (CallEvent ι StoreCall StoreReply)}
  {σ : Threads StoreLock SharedStore ι StoreCall StoreReply}

/-- **The threads never wait for each other.**  When some thread is inside a call, some thread
    inside a call can take a step. -/
theorem store_not_stuck (h : Threads.Run (StoreCall.code limits) s₀ events σ) {i : ι}
    (hi : σ.running i ≠ none) :
    ∃ j new σ', σ.running j ≠ none ∧ Threads.Step (StoreCall.code limits) j σ new σ' := by
  have hbound (l : StoreLock) : rank l < 2 := by cases l <;> decide
  exact Threads.not_stuck (careful limits) hbound h hi

theorem fileContents_of_opens {file : SnapshotState} {a : Inner} (h : Opens file a) :
    fileContents file = some (contents a) := by
  cases file with
  | missing => rw [show a = ⟨∅, ∅⟩ from h]; rfl
  | torn => exact h.elim
  | holds snapshot => rw [show a = snapshot from h]; rfl

end Runs

/-! ### Two threads -/

/-- A store that has just been opened where there was no file. -/
def SharedStore.create : SharedStore := ⟨⟨∅, ∅⟩, ⟨some ⟨false, 0⟩, .missing, .missing⟩⟩

theorem opens_create :
    StoreProg.Opens SharedStore.create.guarded.file SharedStore.create.inner := rfl

/-- One thread has `inner` and another waits for it. -/
theorem run_waiting : ∃ events σ,
    Threads.Run (StoreCall.code .default) SharedStore.create events σ ∧ σ.owner .inner = some 0 ∧
      σ.running (1 : Nat) ≠ none := by
  have hstart : Threads.Run (StoreCall.code .default) SharedStore.create []
      (Threads.start SharedStore.create : Threads _ _ Nat _ _) := .start
  have hcalled := hstart.step 0 (.call (StoreCall.sweepExpiredAt 0) rfl)
  have htaken := hcalled.step 0 (.acquire (Threads.proceed_self ..) rfl)
  have hwaits := htaken.step 1 (.call (StoreCall.sweepExpiredAt 0) rfl)
  exact ⟨_, _, hwaits, rfl, Option.some_ne_none _⟩

theorem store_not_stuck_waiting : ∃ events σ,
    Threads.Run (StoreCall.code .default) SharedStore.create events σ ∧
      σ.owner .inner = some (0 : Nat) ∧
      ∃ j new σ', σ.running j ≠ none ∧ Threads.Step (StoreCall.code .default) j σ new σ' := by
  obtain ⟨events, σ, hrun, howner, hwaits⟩ := run_waiting
  exact ⟨events, σ, hrun, howner, store_not_stuck hrun hwaits⟩

end Clarity
