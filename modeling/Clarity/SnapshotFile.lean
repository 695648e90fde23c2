/-
  Clarity/SnapshotFile.lean
  =========================
  **The snapshot file of the relay**: what `open` reads and `maybe_flush` writes, byte for
  byte, through a temp file that is renamed, where either step may fail.

  `Clarity.Snapshots` has the last completed snapshot as a value; here is the file that
  holds it.  A store that is not dirty need not be equal to its snapshot: a sweep that
  removes no mail may still remove empty mailboxes, and does not make the store dirty.  But
  nothing it answers tells the two apart.

    * `Clean` — a store that is not dirty has what its snapshot has, mailbox by mailbox;
    * `Backed` — the file reads back as the snapshot;
    * `clean_store_on_disk` — so opening the file of a clean store gives the same answers.
-/
import Clarity.Snapshots
import Clarity.Storage

namespace Clarity

/-! ## 1. Clean stores -/

namespace FileStore

variable {s t : FileStore}

/-- Two stores with the same directory, and the same mail in every mailbox. -/
structure Same (s t : FileStore) : Prop where
  keys : s.keys = t.keys
  limits : s.mail.limits = t.mail.limits
  queue : ∀ r, s.mail.queue r = t.mail.queue r

theorem Same.refl (s : FileStore) : Same s s := ⟨rfl, rfl, fun _ => rfl⟩

theorem Same.trans {u : FileStore} (h : Same s t) (h' : Same t u) : Same s u :=
  ⟨h.keys.trans h'.keys, h.limits.trans h'.limits, fun r => (h.queue r).trans (h'.queue r)⟩

/-- A store that is not dirty has what its snapshot has. -/
def Clean (s : FileStore) : Prop := s.dirty = false → Same s (s.reopen s.mail.limits)

theorem clean_of_dirty (h : s.dirty = true) : s.Clean := by
  intro hclean
  rw [h] at hclean
  cases hclean

/-- An operation that leaves the snapshot alone, and that makes the store dirty if it
    changes what the store has. -/
theorem Clean.of_same (h : s.Clean) (hsnapshot : t.snapshot = s.snapshot)
    (hdirty : t.dirty = false → s.dirty = false ∧ Same t s) : t.Clean := by
  intro hclean
  obtain ⟨hs, hsame⟩ := hdirty hclean
  have hback := hsame.trans (h hs)
  exact ⟨hback.keys.trans (congrArg Prod.fst hsnapshot.symm), rfl, fun r => by
    rw [hback.queue r, reopen, reopen, hsnapshot]
    rfl⟩

theorem clean_create (limits : StoreLimits) : (create limits).Clean :=
  fun _ => ⟨rfl, rfl, fun _ => rfl⟩

theorem clean_reopen (s : FileStore) (limits : StoreLimits) : (s.reopen limits).Clean :=
  fun _ => ⟨rfl, rfl, fun _ => rfl⟩

theorem Clean.fetchBundle (h : s.Clean) (identity : Bytes32) : (s.fetchBundle identity).2.Clean := by
  refine h.of_same (t := (s.fetchBundle identity).2) rfl ?_
  intro hdirty
  obtain ⟨hs, hconsumed⟩ := Bool.or_eq_false_iff.mp hdirty
  refine ⟨hs, ?_, rfl, fun _ => rfl⟩
  show (s.keys.fetchBundle identity).2 = s.keys
  cases hget : s.keys[identity]? with
  | none => simp only [Directory.fetchBundle, hget]
  | some stored =>
    rw [hget, Option.any_some] at hconsumed
    have hempty : stored.oneTime = [] := by simpa using hconsumed
    simp only [Directory.fetchBundle, hget, hempty]

theorem Clean.enqueueAt (h : s.Clean) (recipient : Bytes32) (message : Bytes) (now : UInt64) :
    (s.enqueueAt recipient message now).2.Clean := by
  refine h.of_same (t := (s.enqueueAt recipient message now).2) rfl ?_
  intro hdirty
  obtain ⟨hs, hrefused⟩ := Bool.or_eq_false_iff.mp hdirty
  refine ⟨hs, rfl, RelayStore.limits_enqueueAt .., ?_⟩
  intro r
  have hlarge : s.mail.limits.maxMessageBytes < message.length := by
    by_contra hfits
    rw [RelayStore.enqueueAt, if_neg hfits] at hrefused
    cases hrefused
  show (s.mail.enqueueAt recipient message now).2.queue r = _
  rw [RelayStore.queue_enqueueAt, if_neg fun h' => Nat.not_le.mpr hlarge h'.2]

theorem Clean.pollAt (h : s.Clean) (recipient : Bytes32) (now : UInt64) :
    (s.pollAt recipient now).2.Clean := by
  refine h.of_same (t := (s.pollAt recipient now).2) rfl ?_
  intro hdirty
  obtain ⟨hs, hmissing⟩ := Bool.or_eq_false_iff.mp hdirty
  refine ⟨hs, rfl, RelayStore.limits_pollAt .., ?_⟩
  intro r
  have hnone : s.mail.queues[recipient]? = none := Option.isNone_iff_eq_none.mp
    (Option.isSome_eq_false_iff.mp hmissing)
  show (s.mail.pollAt recipient now).2.queue r = _
  rw [RelayStore.pollAt, hnone]

/-- A sweep that removes no message leaves every mailbox as it was. -/
theorem queue_of_swept_zero {mail : RelayStore} {now : UInt64}
    (h : (mail.sweepExpiredAt now).1 = 0) (r : Bytes32) :
    (mail.sweepExpiredAt now).2.queue r = mail.queue r := by
  rw [RelayStore.queue_sweepExpiredAt]
  apply List.filter_eq_self.mpr
  cases hget : mail.queues[r]? with
  | none =>
    rw [RelayStore.queue, hget]
    exact fun _ hm => absurd hm List.not_mem_nil
  | some queue =>
    have hmem : (r, queue) ∈ mail.queues.toList :=
      Std.ExtTreeMap.mem_toList_iff_getElem?_eq_some.mpr hget
    have hzero := List.sum_eq_zero_iff_forall_eq_nat.mp h _ (List.mem_map_of_mem hmem)
    rw [RelayStore.queue, hget, Option.getD_some]
    apply List.filter_eq_self.mp
    exact List.filter_sublist.eq_of_length_le (Nat.sub_eq_zero_iff_le.mp hzero)

theorem Clean.sweepExpiredAt (h : s.Clean) (now : UInt64) : (s.sweepExpiredAt now).2.Clean := by
  refine h.of_same (t := (s.sweepExpiredAt now).2) rfl ?_
  intro hdirty
  obtain ⟨hs, hnone⟩ := Bool.or_eq_false_iff.mp hdirty
  have hzero : (s.mail.sweepExpiredAt now).1 = 0 :=
    Nat.eq_zero_of_not_pos (of_decide_eq_false hnone)
  exact ⟨hs, rfl, rfl, queue_of_swept_zero hzero⟩

theorem Clean.maybeFlush (h : s.Clean) (elapsed : Nat) (writes : Bool) :
    (s.maybeFlush elapsed writes).Clean := by
  rw [FileStore.maybeFlush]
  split
  · exact fun _ => ⟨rfl, rfl, fun _ => rfl⟩
  · exact h

/-! ## 2. What a store answers -/

/-- How many one-time prekeys remain for an identity. -/
def oneTimeRemaining (s : FileStore) (identity : Bytes32) : Nat :=
  ((s.keys[identity]?).map fun stored => stored.oneTime.length).getD 0

inductive Request where
  | fetchBundle (identity : Bytes32)
  | oneTimeRemaining (identity : Bytes32)
  | enqueueAt (recipient : Bytes32) (message : Bytes) (now : UInt64)
  | pollAt (recipient : Bytes32) (now : UInt64)

inductive Answer where
  | bundle (found : Option PreKeyBundle)
  | remaining (count : Nat)
  | queued (outcome : Except StoreError Unit)
  | mail (messages : List Bytes)

def serve (s : FileStore) : Request → Answer × FileStore
  | .fetchBundle identity =>
    let fetched := s.fetchBundle identity
    (.bundle fetched.1, fetched.2)
  | .oneTimeRemaining identity => (.remaining (s.oneTimeRemaining identity), s)
  | .enqueueAt recipient message now =>
    let queued := s.enqueueAt recipient message now
    (.queued queued.1, queued.2)
  | .pollAt recipient now =>
    let polled := s.pollAt recipient now
    (.mail polled.1, polled.2)

def answers (s : FileStore) : List Request → List Answer
  | [] => []
  | request :: rest => (s.serve request).1 :: (s.serve request).2.answers rest

/-- The same answer, and the same store behind it. -/
theorem Same.serve (h : Same s t) (request : Request) :
    (s.serve request).1 = (t.serve request).1 ∧ Same (s.serve request).2 (t.serve request).2 := by
  cases request with
  | fetchBundle identity =>
    have hfetch : s.keys.fetchBundle identity = t.keys.fetchBundle identity := by rw [h.keys]
    have hfound : (s.fetchBundle identity).1 = (t.fetchBundle identity).1 := by
      show (s.keys.fetchBundle identity).1 = (t.keys.fetchBundle identity).1
      rw [hfetch]
    exact ⟨congrArg Answer.bundle hfound, congrArg Prod.snd hfetch, h.limits, h.queue⟩
  | oneTimeRemaining identity =>
    refine ⟨congrArg Answer.remaining ?_, h⟩
    rw [FileStore.oneTimeRemaining, FileStore.oneTimeRemaining, h.keys]
  | enqueueAt recipient message now =>
    have houtcome : (s.mail.enqueueAt recipient message now).1 =
        (t.mail.enqueueAt recipient message now).1 := by
      rw [RelayStore.enqueueAt, RelayStore.enqueueAt, h.limits]
      split <;> rfl
    refine ⟨congrArg Answer.queued houtcome, h.keys, ?_, ?_⟩
    · exact (RelayStore.limits_enqueueAt ..).trans
        (h.limits.trans (RelayStore.limits_enqueueAt ..).symm)
    · intro r
      show (s.mail.enqueueAt recipient message now).2.queue r =
        (t.mail.enqueueAt recipient message now).2.queue r
      rw [RelayStore.queue_enqueueAt, RelayStore.queue_enqueueAt, h.limits, h.queue, h.queue]
  | pollAt recipient now =>
    have hmail : (s.mail.pollAt recipient now).1 = (t.mail.pollAt recipient now).1 := by
      rw [RelayStore.pollAt_fst, RelayStore.pollAt_fst, h.limits, h.queue]
    refine ⟨congrArg Answer.mail hmail, h.keys, ?_, ?_⟩
    · exact (RelayStore.limits_pollAt ..).trans (h.limits.trans (RelayStore.limits_pollAt ..).symm)
    · intro r
      show (s.mail.pollAt recipient now).2.queue r = (t.mail.pollAt recipient now).2.queue r
      rw [RelayStore.queue_pollAt, RelayStore.queue_pollAt, h.queue]

theorem Same.answers (h : Same s t) (requests : List Request) :
    s.answers requests = t.answers requests := by
  induction requests generalizing s t with
  | nil => rfl
  | cons request rest ih =>
    obtain ⟨hanswer, hsame⟩ := h.serve request
    rw [FileStore.answers, FileStore.answers, hanswer, ih hsame]

end FileStore

/-! ## 3. The format -/

/-- A `u64`. -/
def Codec.u64 : Codec UInt64 :=
  (le 8).imap (fun n => n.toNat) (fun n => if n < 2 ^ 64 then some (UInt64.ofNat n) else none)
    (by
      intro n
      rw [if_pos n.toNat_lt, UInt64.ofNat_toNat])
    (by
      intro n m h
      split at h
      · simp only [Option.some.injEq] at h
        subst h
        exact (UInt64.toNat_ofNat_of_lt' ‹_›).symm
      · cases h)

theorem Codec.u64_valid (n : UInt64) : u64.Valid n := by
  show n.toNat < 256 ^ 8
  exact n.toNat_lt

def StoredKeys.codec : Codec StoredKeys :=
  (PreKeyBundle.codec.pair (Codec.u32.pair Codec.bytes32).list).imap
    (fun k => (k.baseBundle, k.oneTime)) (fun p => some ⟨p.1, p.2⟩) (fun _ => rfl)
    (by
      intro a k h
      simp only [Option.some.injEq] at h
      subst h
      rfl)

def QueuedMessage.codec : Codec QueuedMessage :=
  (Codec.u64.pair Codec.vec).imap
    (fun m => (m.enqueuedAt, m.bytes)) (fun p => some ⟨p.1, p.2⟩) (fun _ => rfl)
    (by
      intro a m h
      simp only [Option.some.injEq] at h
      subst h
      rfl)

def SNAPSHOT_VERSION : UInt8 := 1

/-- `Snapshot`: the version, and the entries of both maps. -/
def snapshotCodec :
    Codec (UInt8 × List (Bytes32 × StoredKeys) × List (Bytes32 × List QueuedMessage)) :=
  Codec.u8.pair ((Codec.bytes32.pair StoredKeys.codec).list.pair
    (Codec.bytes32.pair QueuedMessage.codec.list).list)

/-- A `HashMap` iterates over its entries in an order of its own. -/
structure Iteration (ν : Type) where
  entries : Std.ExtTreeMap Bytes32 ν → List (Bytes32 × ν)
  perm : ∀ m, (entries m).Perm m.toList

/-- A map that is written in any order is read back as it was. -/
theorem Iteration.collect_entries {ν : Type} (order : Iteration ν) (m : Std.ExtTreeMap Bytes32 ν) :
    collect (order.entries m) = m := by
  have hnodup : ((order.entries m).map Prod.fst).Nodup :=
    ((order.perm m).map Prod.fst).nodup_iff.mpr (nodup_keys_toList m)
  ext k v
  obtain ⟨hmem, hother⟩ := getElem?_foldl_insert hnodup ∅ k
  rw [collect]
  cases hk : m[k]? with
  | some w =>
    have hw : (k, w) ∈ m.toList := Std.ExtTreeMap.mem_toList_iff_getElem?_eq_some.mpr hk
    rw [hmem w ((order.perm m).mem_iff.mpr hw)]
  | none =>
    have hnot : k ∉ (order.entries m).map Prod.fst := by
      intro h
      obtain ⟨⟨_, w⟩, hw, rfl⟩ := List.mem_map.mp h
      have hget := Std.ExtTreeMap.mem_toList_iff_getElem?_eq_some.mp ((order.perm m).mem_iff.mp hw)
      rw [hget] at hk
      cases hk
    rw [hother hnot, Std.ExtTreeMap.getElem?_empty]

/-- The lengths of all collections of a store are lengths of collections, `usize`. -/
structure FileStore.Fits (s : FileStore) : Prop where
  keys : s.keys.size < 256 ^ 8
  stored : ∀ (i : Bytes32) (stored : StoredKeys), s.keys[i]? = some stored → StoredKeys.codec.Valid stored
  queues : s.mail.queues.size < 256 ^ 8
  queue : ∀ (r : Bytes32) (queue : List QueuedMessage), s.mail.queues[r]? = some queue → QueuedMessage.codec.list.Valid queue

theorem Iteration.valid {ν : Type} (order : Iteration ν) {m : Std.ExtTreeMap Bytes32 ν}
    {c : Codec ν} (hsize : m.size < 256 ^ 8) 
    (hvalid : ∀ (k : Bytes32) (v : ν), m[k]? = some v → c.Valid v) :
    (Codec.bytes32.pair c).list.Valid (order.entries m) := by
  constructor
  · rw [(order.perm m).length_eq, Std.ExtTreeMap.length_toList]
    exact hsize
  · intro e he
    have hget := Std.ExtTreeMap.mem_toList_iff_getElem?_eq_some.mp ((order.perm m).mem_iff.mp he)
    exact ⟨trivial, hvalid e.1 e.2 hget⟩

/-! ## 4. The file -/

/-- `open`, from the bytes of the file if there is one. -/
def FileStore.openFile (file : Option Bytes) (limits : StoreLimits) : Except String FileStore :=
  match file with
  | none => .ok (.create limits)
  | some bytes =>
    match snapshotCodec.dec bytes with
    | none => .error ("corrupt relay state: " ++ bincodeError)
    | some ((version, keys, queues), _) =>
      if version ≠ SNAPSHOT_VERSION then
        .error ("relay state version " ++ toString version.toNat ++ " unsupported (expected "
          ++ toString SNAPSHOT_VERSION.toNat ++ ")")
      else .ok ⟨collect keys, ⟨collect queues, limits⟩, (collect keys, collect queues), false⟩

/-- A store that was opened is the one that its file still reads back as. -/
theorem FileStore.openFile_ok {file : Option Bytes} {limits : StoreLimits} {s : FileStore}
    (h : openFile file limits = .ok s) :
    (∀ l, openFile file l = .ok (s.reopen l)) ∧ s = s.reopen limits := by
  cases file with
  | none =>
    obtain rfl : create limits = s := Except.ok.inj h
    exact ⟨fun _ => rfl, rfl⟩
  | some bytes =>
    cases hdec : snapshotCodec.dec bytes with
    | none =>
      simp only [openFile, hdec] at h
      cases h
    | some decoded =>
      obtain ⟨⟨version, keys, queues⟩, rest⟩ := decoded
      simp only [openFile, hdec] at h ⊢
      by_cases hversion : version = SNAPSHOT_VERSION
      · simp only [hversion, ne_eq, not_true_eq_false, if_false] at h ⊢
        obtain rfl := Except.ok.inj h
        exact ⟨fun _ => rfl, rfl⟩
      · rw [if_pos hversion] at h
        cases h

/-- What a flush writes. -/
def FileStore.snapshotBytes (s : FileStore) (keys : Iteration StoredKeys)
    (queues : Iteration (List QueuedMessage)) : Bytes :=
  snapshotCodec.enc (SNAPSHOT_VERSION, keys.entries s.keys, queues.entries s.mail.queues)

/-- **A snapshot is read back as what was written.** -/
theorem FileStore.openFile_snapshotBytes {s : FileStore} (hfits : s.Fits)
    (keys : Iteration StoredKeys) (queues : Iteration (List QueuedMessage)) (limits : StoreLimits) :
    openFile (some (s.snapshotBytes keys queues)) limits =
      .ok ⟨s.keys, ⟨s.mail.queues, limits⟩, (s.keys, s.mail.queues), false⟩ := by
  have hvalid : snapshotCodec.Valid
      (SNAPSHOT_VERSION, keys.entries s.keys, queues.entries s.mail.queues) :=
    ⟨Codec.u8_valid _, keys.valid hfits.keys hfits.stored, queues.valid hfits.queues hfits.queue⟩
  rw [openFile, snapshotBytes]
  simp only [snapshotCodec.dec_enc_nil hvalid, ne_eq, not_true_eq_false, if_false,
    keys.collect_entries, queues.collect_entries]

/-- A store, the path of its file, and the files there are. -/
structure StoreOnDisk (Path : Type) where
  memory : FileStore
  path : Path
  files : Path → Option Bytes

/-- What happens during a flush: the orders in which the maps are iterated over, what a failed
    write of the temp file leaves behind, and whether the rename succeeds. -/
structure FlushIo where
  keys : Iteration StoredKeys
  queues : Iteration (List QueuedMessage)
  writeFails : Option (Option Bytes)
  renames : Bool

inductive DiskOp where
  | publish (baseBundle : PreKeyBundle) (oneTime : List (UInt32 × Bytes32))
  | fetchBundle (identity : Bytes32)
  | enqueueAt (recipient : Bytes32) (message : Bytes) (now : UInt64)
  | pollAt (recipient : Bytes32) (now : UInt64)
  | sweepExpiredAt (now : UInt64)
  | maybeFlush (elapsed : Nat) (io : FlushIo)
  | flush (elapsed : Nat) (io : FlushIo)

namespace StoreOnDisk

variable {Path : Type} [DecidableEq Path]

/-- `fs::rename`. -/
def rename (files : Path → Option Bytes) (source target : Path) : Path → Option Bytes :=
  if source = target then files
  else Function.update (Function.update files target (files source)) source none

/-- `maybe_flush`, where `withTmp` is `with_extension("tmp")`, and whether it was `Ok`. -/
def maybeFlush (withTmp : Path → Path) (d : StoreOnDisk Path) (elapsed : Nat) (io : FlushIo) :
    Bool × StoreOnDisk Path :=
  if d.memory.flushes elapsed then
    match io.writeFails with
    | some left => (false, { d with files := Function.update d.files (withTmp d.path) left })
    | none =>
      let written := Function.update d.files (withTmp d.path)
        (some (d.memory.snapshotBytes io.keys io.queues))
      if io.renames then
        (true, { d with
          memory := d.memory.maybeFlush elapsed true
          files := rename written (withTmp d.path) d.path })
      else (false, { d with files := written })
  else (true, d)

/-- `flush`: it sets the flag and puts the last flush back by two seconds, where the clock
    allows it. -/
def flush (withTmp : Path → Path) (d : StoreOnDisk Path) (elapsed : Nat) (io : FlushIo) :
    Bool × StoreOnDisk Path :=
  maybeFlush withTmp { d with memory := { d.memory with dirty := true } } elapsed io

def step (withTmp : Path → Path) (d : StoreOnDisk Path) : DiskOp → StoreOnDisk Path
  | .publish baseBundle oneTime => { d with memory := d.memory.publish baseBundle oneTime }
  | .fetchBundle identity => { d with memory := (d.memory.fetchBundle identity).2 }
  | .enqueueAt recipient message now =>
    { d with memory := (d.memory.enqueueAt recipient message now).2 }
  | .pollAt recipient now => { d with memory := (d.memory.pollAt recipient now).2 }
  | .sweepExpiredAt now => { d with memory := (d.memory.sweepExpiredAt now).2 }
  | .maybeFlush elapsed io => (d.maybeFlush withTmp elapsed io).2
  | .flush elapsed io => (d.flush withTmp elapsed io).2

/-- The runs of a store made by `open` on whatever file there is. -/
inductive Run (withTmp : Path → Path) (limits : StoreLimits) : StoreOnDisk Path → Prop where
  | opened {s : FileStore} {path : Path} {files : Path → Option Bytes} :
      FileStore.openFile (files path) limits = .ok s → Run withTmp limits ⟨s, path, files⟩
  | step {d : StoreOnDisk Path} (op : DiskOp) : Run withTmp limits d → d.memory.Fits →
      Run withTmp limits (d.step withTmp op)

/-! ## 5. The file and the snapshot -/

variable {withTmp : Path → Path} {limits : StoreLimits} {d : StoreOnDisk Path}

/-- The file reads back as the last snapshot, unless the temp file is the file itself and a
    write to it may have failed. -/
def Backed (withTmp : Path → Path) (d : StoreOnDisk Path) : Prop :=
  d.memory.dirty = false ∨ withTmp d.path ≠ d.path →
    ∀ limits, FileStore.openFile (d.files d.path) limits = .ok (d.memory.reopen limits)

omit [DecidableEq Path] in
/-- An operation in memory. -/
theorem Backed.inMemory (h : d.Backed withTmp) {s : FileStore}
    (hsnapshot : s.snapshot = d.memory.snapshot)
    (hdirty : s.dirty = false → d.memory.dirty = false) :
    Backed withTmp { d with memory := s } := by
  intro hcase l
  have hfile := h (hcase.imp_left hdirty) l
  rw [FileStore.reopen] at hfile ⊢
  rw [hsnapshot]
  exact hfile

/-- The path after a rename to it. -/
theorem rename_target (files : Path → Option Bytes) (source target : Path) :
    rename files source target target = files source := by
  rw [rename]
  split
  · rename_i heq
    rw [heq]
  · rename_i hne
    rw [Function.update_of_ne (Ne.symm hne), Function.update_self]

theorem Backed.maybeFlush (h : d.Backed withTmp) (hfits : d.memory.Fits) (elapsed : Nat)
    (io : FlushIo) : (d.maybeFlush withTmp elapsed io).2.Backed withTmp := by
  rw [StoreOnDisk.maybeFlush]
  split
  · rename_i hflushes
    have hdirty : d.memory.dirty = true := (Bool.and_eq_true_iff.mp hflushes).1
    -- a write that fails, or is not renamed, has changed no file but the temp file
    have hkept : ∀ left, Backed withTmp
        { d with files := Function.update d.files (withTmp d.path) left } := by
      intro left hcase l
      have hne : withTmp d.path ≠ d.path := by
        refine hcase.resolve_left ?_
        intro hclean
        rw [hdirty] at hclean
        cases hclean
      show FileStore.openFile (Function.update d.files (withTmp d.path) left d.path) l = _
      rw [Function.update_of_ne hne.symm]
      exact h (Or.inr hne) l
    split
    · exact hkept _
    · split
      · intro _ l
        show FileStore.openFile (rename _ (withTmp d.path) d.path d.path) l = _
        rw [rename_target, Function.update_self, FileStore.openFile_snapshotBytes hfits,
          FileStore.maybeFlush, hflushes]
        rfl
      · exact hkept _
  · exact h

/-- What every run keeps. -/
structure Inv (withTmp : Path → Path) (limits : StoreLimits) (d : StoreOnDisk Path) : Prop where
  backed : d.Backed withTmp
  clean : d.memory.Clean
  limits : d.memory.mail.limits = limits

omit [DecidableEq Path] in
theorem inv_opened {s : FileStore} {path : Path} {files : Path → Option Bytes}
    (hopened : FileStore.openFile (files path) limits = .ok s) :
    Inv withTmp limits ⟨s, path, files⟩ := by
  obtain ⟨hread, hs⟩ := FileStore.openFile_ok hopened
  refine ⟨fun _ => hread, ?_, ?_⟩
  · rw [hs]
    exact FileStore.clean_reopen s limits
  · rw [hs]
    rfl

/-- In memory a flush is one of `Clarity.Snapshots`, and a failed one is none. -/
theorem memory_maybeFlush (withTmp : Path → Path) (d : StoreOnDisk Path) (elapsed : Nat) (io : FlushIo) :
    ∃ writes, (d.maybeFlush withTmp elapsed io).2.memory = d.memory.maybeFlush elapsed writes := by
  have hfailed : d.memory.maybeFlush elapsed false = d.memory := by
    rw [FileStore.maybeFlush, Bool.and_false]
    rfl
  rw [StoreOnDisk.maybeFlush]
  split
  · split
    · exact ⟨false, hfailed.symm⟩
    · split
      · exact ⟨true, rfl⟩
      · exact ⟨false, hfailed.symm⟩
  · exact ⟨false, hfailed.symm⟩

theorem Inv.maybeFlush (inv : Inv withTmp limits d) (hfits : d.memory.Fits) (elapsed : Nat)
    (io : FlushIo) : Inv withTmp limits (d.maybeFlush withTmp elapsed io).2 := by
  obtain ⟨writes, hmemory⟩ := memory_maybeFlush withTmp d elapsed io
  refine ⟨inv.backed.maybeFlush hfits elapsed io, ?_, ?_⟩
  · rw [hmemory]
    exact inv.clean.maybeFlush elapsed writes
  · rw [hmemory, FileStore.maybeFlush]
    split <;> exact inv.limits

/-- No operation breaks the invariant. -/
theorem inv_step (inv : Inv withTmp limits d) (hfits : d.memory.Fits) (op : DiskOp) :
    Inv withTmp limits (d.step withTmp op) := by
  have hor : ∀ {a b : Bool}, (a || b) = false → a = false := fun h => (Bool.or_eq_false_iff.mp h).1
  cases op with
  | publish baseBundle oneTime =>
    refine ⟨inv.backed.inMemory rfl fun h => ?_, FileStore.clean_of_dirty rfl, inv.limits⟩
    cases h
  | fetchBundle identity =>
    exact ⟨inv.backed.inMemory rfl hor, inv.clean.fetchBundle identity, inv.limits⟩
  | enqueueAt recipient message now =>
    exact ⟨inv.backed.inMemory rfl hor, inv.clean.enqueueAt recipient message now,
      (RelayStore.limits_enqueueAt ..).trans inv.limits⟩
  | pollAt recipient now =>
    exact ⟨inv.backed.inMemory rfl hor, inv.clean.pollAt recipient now,
      (RelayStore.limits_pollAt ..).trans inv.limits⟩
  | sweepExpiredAt now =>
    exact ⟨inv.backed.inMemory rfl hor, inv.clean.sweepExpiredAt now, inv.limits⟩
  | maybeFlush elapsed io => exact inv.maybeFlush hfits elapsed io
  | flush elapsed io =>
    have hforced : Inv withTmp limits
        { d with memory := { d.memory with dirty := true } } := by
      refine ⟨inv.backed.inMemory rfl fun h => ?_, FileStore.clean_of_dirty rfl, inv.limits⟩
      cases h
    exact hforced.maybeFlush ⟨hfits.keys, hfits.stored, hfits.queues, hfits.queue⟩ elapsed io

theorem inv_run (run : Run withTmp limits d) : Inv withTmp limits d := by
  induction run with
  | opened hopened => exact inv_opened hopened
  | step op _ hfits ih => exact inv_step ih hfits op

/-- A kill and `open`, at any time: what `RelayOp.kill` does to the store. -/
theorem openFile_run (run : Run withTmp limits d) (htmp : withTmp d.path ≠ d.path)
    (limits' : StoreLimits) :
    FileStore.openFile (d.files d.path) limits' = .ok (d.memory.reopen limits') :=
  (inv_run run).backed (Or.inr htmp) limits'

/-- **A clean store is on disk.**  Whatever was done to the store, and whichever writes
    failed: while it is not dirty, opening its file yields a store that gives the same
    answers. -/
theorem clean_store_on_disk (run : Run withTmp limits d) (hclean : d.memory.dirty = false) :
    ∃ s, FileStore.openFile (d.files d.path) limits = .ok s ∧
      ∀ requests, s.answers requests = d.memory.answers requests := by
  have inv := inv_run run
  refine ⟨d.memory.reopen limits, inv.backed (Or.inl hclean) limits, ?_⟩
  intro requests
  have hsame := inv.clean hclean
  rw [inv.limits] at hsame
  exact (hsame.answers requests).symm

section Sample

/-- A path as its stem and its extension, with another extension. -/
def tmpFile (path : String × String) : String × String := (path.1, "tmp")

def listed (ν : Type) : Iteration ν := ⟨fun m => m.toList, fun _ => List.Perm.refl _⟩

/-- A store with a message. -/
def enqueued : StoreOnDisk (String × String) :=
  step tmpFile ⟨.create .default, ("relay", "state"), fun _ => none⟩
    (.enqueueAt (.ofByte 2) [42] 100)

/-- Its first flush fails and its second does not. -/
def flushedTwice : StoreOnDisk (String × String) :=
  step tmpFile (step tmpFile enqueued (.maybeFlush 3 ⟨listed _, listed _, some (some [1]), true⟩))
    (.flush 3 ⟨listed _, listed _, none, true⟩)

theorem fits_create : (FileStore.create .default).Fits where
  keys := by decide +kernel
  stored _ _ h := by cases h
  queues := by decide +kernel
  queue _ _ h := by cases h

theorem fits_enqueued :
    ((FileStore.create .default).enqueueAt (.ofByte 2) [42] 100).2.Fits where
  keys := by decide +kernel
  stored _ _ h := by cases h
  queues := by decide +kernel
  queue r queue h := by
    have hone : r = .ofByte 2 ∧ queue = [⟨100, [42]⟩] := by
      have hqueues : ((FileStore.create .default).enqueueAt (.ofByte 2) [42] 100).2.mail.queues =
          (∅ : Queues).insert (.ofByte 2) [⟨100, [42]⟩] := rfl
      rw [hqueues, Std.ExtTreeMap.getElem?_insert] at h
      split at h
      · rename_i heq
        exact ⟨(Std.LawfulEqOrd.eq_of_compare heq).symm, (Option.some.inj h).symm⟩
      · cases h
    obtain ⟨-, rfl⟩ := hone
    refine ⟨by decide, ?_⟩
    intro m hm
    obtain rfl := List.mem_singleton.mp hm
    exact ⟨Codec.u64_valid 100, show [(42 : UInt8)].length < 256 ^ 8 by decide⟩

theorem run_flushedTwice : Run tmpFile .default flushedTwice := by
  have hopened : Run tmpFile .default
      ⟨.create .default, ("relay", "state"), fun _ => (none : Option Bytes)⟩ := .opened rfl
  have henqueued : Run tmpFile .default enqueued := .step _ hopened fits_create
  exact .step _ (.step _ henqueued fits_enqueued) fits_enqueued

theorem clean_store_on_disk_flushed :
    ∃ s, FileStore.openFile (flushedTwice.files ("relay", "state")) .default = .ok s ∧
      ∀ requests, s.answers requests = flushedTwice.memory.answers requests :=
  clean_store_on_disk run_flushedTwice (by decide +kernel)

end Sample

end StoreOnDisk

end Clarity
