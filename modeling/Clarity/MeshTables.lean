/-
  Clarity/MeshTables.lean
  =======================
  **The tables of a mesh node** (`MeshNode` in `mesh/src/lib.rs`).  The code keeps the ids it
  has seen in a set, and the frames it carries in a map, each next to a queue of the keys in
  the order they came in.  `Clarity.Mesh` has one list for each pair; here they are apart.

    * `MeshTables.Inv`, `inv_run` — set and queue, map and queue stay in step;
    * `refines_step` — so a node does what the node of `Clarity.Mesh` does;
    * `tables_consistent` — what follows for `outbound`, and for the order of eviction.
-/
import Clarity.Mesh
import Clarity.Fifo
import Mathlib.Data.Finmap

namespace Clarity

/-! ## 1. The code -/

structure MeshTables where
  me : Bytes32
  ttl : UInt8
  seen : Finset MsgId
  seenOrder : List MsgId
  store : Finmap fun _ : MsgId => MeshFrame
  storeOrder : List MsgId
  inbox : List Bytes

namespace MeshTables

/-- `with_ttl`. -/
def withTtl (me : Bytes32) (ttl : UInt8) : MeshTables := ⟨me, ttl, ∅, [], ∅, [], []⟩

def markSeen (n : MeshTables) (id : MsgId) : MeshTables :=
  if id ∈ n.seen then n
  else
    let n := { n with seen := insert id n.seen, seenOrder := n.seenOrder ++ [id] }
    if n.seenOrder.length > SEEN_CAP then
      match n.seenOrder with
      | [] => n
      | old :: rest => { n with seenOrder := rest, seen := n.seen.erase old }
    else n

def storeFrame (n : MeshTables) (frame : MeshFrame) : MeshTables :=
  let id := frame.msgId
  let before := n.store.lookup id
  let n := { n with store := n.store.insert id frame }
  match before with
  | some _ => n
  | none =>
    let n := { n with storeOrder := n.storeOrder ++ [id] }
    if n.storeOrder.length > STORE_CAP then
      match n.storeOrder with
      | [] => n
      | old :: rest => { n with storeOrder := rest, store := n.store.erase old }
    else n

/-- Inject a new message; `msgId` is the random value drawn for it. -/
def originate (n : MeshTables) (msgId : MsgId) (recipient : Bytes32) (payload : Bytes) :
    MeshFrame × MeshTables :=
  let frame : MeshFrame := ⟨msgId, recipient, n.ttl, payload⟩
  (frame, (n.markSeen msgId).storeFrame frame)

/-- Process a frame received from a peer. -/
def handleIncoming (n : MeshTables) (frame : MeshFrame) : Reception × MeshTables :=
  if frame.msgId ∈ n.seen then (.duplicate, n)
  else
    let n := n.markSeen frame.msgId
    let forMe : Bool := frame.recipient = n.me
    let n := if forMe then { n with inbox := n.inbox ++ [frame.payload] } else n
    let forwardTtl := saturatingSub frame.ttl 1
    let willForward : Bool := 0 < forwardTtl
    let n := if willForward then n.storeFrame { frame with ttl := forwardTtl } else n
    (.accepted forMe willForward, n)

/-- Frames this node currently offers to peers. -/
def outbound (n : MeshTables) : List MeshFrame := n.storeOrder.filterMap fun id => n.store.lookup id

/-- Drain the payloads that have arrived. -/
def takeInbox (n : MeshTables) : List Bytes × MeshTables := (n.inbox, { n with inbox := [] })

/-- Number of frames currently held for carry-forward. -/
def stored (n : MeshTables) : Nat := n.store.keys.card

inductive Act where
  | originate (msgId : MsgId) (recipient : Bytes32) (payload : Bytes)
  | receive (frame : MeshFrame)
  | takeInbox

def step (n : MeshTables) : Act → MeshTables
  | .originate msgId recipient payload => (n.originate msgId recipient payload).2
  | .receive frame => (n.handleIncoming frame).2
  | .takeInbox => n.takeInbox.2

def run (n : MeshTables) (acts : List Act) : MeshTables := acts.foldl step n

/-! ## 2. The invariant -/

/-- Each queue lists its table, within its bound, and frames are stored under their ids. -/
structure Inv (n : MeshTables) : Prop where
  seenNodup : n.seenOrder.Nodup
  mem_seen : ∀ id, id ∈ n.seen ↔ id ∈ n.seenOrder
  seenLength : n.seenOrder.length ≤ SEEN_CAP
  storeNodup : n.storeOrder.Nodup
  mem_store : ∀ id, id ∈ n.store ↔ id ∈ n.storeOrder
  storeLength : n.storeOrder.length ≤ STORE_CAP
  keyed : ∀ id f, n.store.lookup id = some f → f.msgId = id

theorem seenCap_pos : 0 < SEEN_CAP := by decide

theorem storeCap_pos : 0 < STORE_CAP := by decide

variable {n : MeshTables} {id : MsgId} {frame : MeshFrame}

theorem inv_withTtl (me : Bytes32) (ttl : UInt8) : Inv (withTtl me ttl) where
  seenNodup := List.nodup_nil
  mem_seen := fun _ => iff_of_false (Finset.notMem_empty _) List.not_mem_nil
  seenLength := Nat.zero_le _
  storeNodup := List.nodup_nil
  mem_store := fun _ => iff_of_false Finmap.notMem_empty List.not_mem_nil
  storeLength := Nat.zero_le _
  keyed := fun _ _ h => nomatch h

/-- What `mark_seen` does to its two tables. -/
theorem markSeen_cases (inv : Inv n) (id : MsgId) :
    (id ∈ n.seenOrder ∧ n.markSeen id = n) ∨
    (id ∉ n.seenOrder ∧ ∃ seen, n.markSeen id =
        { n with seen := seen, seenOrder := Fifo.enqueue SEEN_CAP n.seenOrder id } ∧
      ∀ i, i ∈ seen ↔ i ∈ Fifo.enqueue SEEN_CAP n.seenOrder id) := by
  by_cases hmem : id ∈ n.seenOrder
  · exact Or.inl ⟨hmem, if_pos ((inv.mem_seen id).mpr hmem)⟩
  · refine Or.inr ⟨hmem, ?_⟩
    have hnew : id ∉ n.seen := fun h => hmem ((inv.mem_seen id).mp h)
    have hins : ∀ i, i ∈ insert id n.seen ↔ i ∈ n.seenOrder ++ [id] := by
      intro i
      rw [Finset.mem_insert, inv.mem_seen, List.mem_append, List.mem_singleton]
      exact or_comm
    rcases Fifo.enqueue_cases seenCap_pos n.seenOrder id with ⟨hlt, heq⟩ | ⟨old, rest, hq, hfull, heq⟩
    · refine ⟨insert id n.seen, ?_, ?_⟩
      · have hroom : ¬ (n.seenOrder ++ [id]).length > SEEN_CAP := by
          rw [List.length_append, List.length_singleton]
          exact Nat.not_lt.mpr hlt
        simp only [markSeen, if_neg hnew, if_neg hroom, heq]
      · rw [heq]
        exact hins
    · refine ⟨(insert id n.seen).erase old, ?_, ?_⟩
      · have hover : (n.seenOrder ++ [id]).length > SEEN_CAP := by
          rw [List.length_append, List.length_singleton]
          exact Nat.lt_succ_of_le hfull
        simp only [markSeen, if_neg hnew, if_pos hover, heq]
        simp only [hq, List.cons_append]
      · intro i
        have hnodup := Fifo.nodup_enqueue seenCap_pos inv.seenNodup hmem
        have hold : old ∉ rest ++ [id] := by
          have hall := inv.seenNodup
          rw [hq] at hall hmem
          intro h
          rcases List.mem_append.mp h with h | h
          · exact (List.nodup_cons.mp hall).1 h
          · exact hmem (List.mem_singleton.mp h ▸ List.mem_cons_self ..)
        rw [heq, Finset.mem_erase, hins, hq, List.cons_append, List.mem_cons]
        constructor
        · rintro ⟨hne, h | h⟩
          · exact absurd h hne
          · exact h
        · intro h
          exact ⟨fun heq' => hold (heq' ▸ h), Or.inr h⟩

theorem markSeen_seenOrder (inv : Inv n) :
    (n.markSeen id).seenOrder = Fifo.push SEEN_CAP n.seenOrder id := by
  rw [Fifo.push]
  rcases markSeen_cases inv id with ⟨hmem, heq⟩ | ⟨hmem, seen, heq, -⟩
  · rw [heq, if_pos hmem]
  · rw [heq, if_neg hmem]

/-- Nothing else changes. -/
theorem markSeen_frame (n : MeshTables) (id : MsgId) :
    (n.markSeen id).me = n.me ∧ (n.markSeen id).ttl = n.ttl ∧ (n.markSeen id).store = n.store ∧
      (n.markSeen id).storeOrder = n.storeOrder ∧ (n.markSeen id).inbox = n.inbox := by
  simp only [markSeen]
  split
  · exact ⟨rfl, rfl, rfl, rfl, rfl⟩
  · split
    · split <;> exact ⟨rfl, rfl, rfl, rfl, rfl⟩
    · exact ⟨rfl, rfl, rfl, rfl, rfl⟩

theorem inv_markSeen (inv : Inv n) (id : MsgId) : Inv (n.markSeen id) := by
  rcases markSeen_cases inv id with ⟨-, heq⟩ | ⟨hmem, seen, heq, hseen⟩
  · rw [heq]
    exact inv
  · rw [heq]
    exact
      { seenNodup := Fifo.nodup_enqueue seenCap_pos inv.seenNodup hmem
        mem_seen := hseen
        seenLength := Fifo.length_enqueue_le seenCap_pos inv.seenLength
        storeNodup := inv.storeNodup
        mem_store := inv.mem_store
        storeLength := inv.storeLength
        keyed := inv.keyed }

/-- What `store_frame` does to its two tables. -/
theorem storeFrame_cases (inv : Inv n) (frame : MeshFrame) :
    ∃ store, n.storeFrame frame =
        { n with store := store, storeOrder := Fifo.push STORE_CAP n.storeOrder frame.msgId } ∧
      ∀ i, store.lookup i = if i ∈ Fifo.push STORE_CAP n.storeOrder frame.msgId then
        if i = frame.msgId then some frame else n.store.lookup i else none := by
  have hlookup : ∀ i, i ∉ n.storeOrder → n.store.lookup i = none := by
    intro i hi
    exact Finmap.lookup_eq_none.mpr fun h => hi ((inv.mem_store i).mp h)
  have hinsert : ∀ i, (n.store.insert frame.msgId frame).lookup i =
      if i = frame.msgId then some frame else n.store.lookup i := by
    intro i
    split
    · rename_i hi
      rw [hi, Finmap.lookup_insert]
    · rename_i hi
      rw [Finmap.lookup_insert_of_ne _ hi]
  by_cases hmem : frame.msgId ∈ n.storeOrder
  · obtain ⟨f, hf⟩ := Finmap.mem_iff.mp ((inv.mem_store _).mpr hmem)
    refine ⟨n.store.insert frame.msgId frame, ?_, ?_⟩
    · simp only [storeFrame, hf, Fifo.push, if_pos hmem]
    · intro i
      rw [hinsert, Fifo.push, if_pos hmem]
      by_cases hi : i ∈ n.storeOrder
      · rw [if_pos hi]
      · rw [if_neg hi, if_neg fun h' : i = frame.msgId => hi (h' ▸ hmem), hlookup i hi]
  · have hnone := hlookup _ hmem
    have hpush : Fifo.push STORE_CAP n.storeOrder frame.msgId =
        Fifo.enqueue STORE_CAP n.storeOrder frame.msgId := if_neg hmem
    rw [hpush]
    rcases Fifo.enqueue_cases storeCap_pos n.storeOrder frame.msgId with
      ⟨hlt, heq⟩ | ⟨old, rest, hq, hfull, heq⟩
    · refine ⟨n.store.insert frame.msgId frame, ?_, ?_⟩
      · have hroom : ¬ (n.storeOrder ++ [frame.msgId]).length > STORE_CAP := by
          rw [List.length_append, List.length_singleton]
          exact Nat.not_lt.mpr hlt
        simp only [storeFrame, hnone, if_neg hroom, heq]
      · intro i
        rw [hinsert, heq]
        by_cases hi : i ∈ n.storeOrder ++ [frame.msgId]
        · rw [if_pos hi]
        · obtain ⟨hold, hne⟩ := not_or.mp (mt List.mem_append.mpr hi)
          rw [if_neg hi, if_neg (mt List.mem_singleton.mpr hne), hlookup i hold]
    · refine ⟨(n.store.insert frame.msgId frame).erase old, ?_, ?_⟩
      · have hover : (n.storeOrder ++ [frame.msgId]).length > STORE_CAP := by
          rw [List.length_append, List.length_singleton]
          exact Nat.lt_succ_of_le hfull
        simp only [storeFrame, hnone, if_pos hover, heq]
        simp only [hq, List.cons_append]
      · intro i
        rw [heq]
        rw [hq] at hmem hlookup
        have hnodup := inv.storeNodup
        rw [hq] at hnodup
        by_cases hi : i = old
        · have hout : old ∉ rest ++ [frame.msgId] := by
            intro h
            rcases List.mem_append.mp h with h | h
            · exact (List.nodup_cons.mp hnodup).1 h
            · exact hmem (List.mem_singleton.mp h ▸ List.mem_cons_self ..)
          rw [hi, Finmap.lookup_erase, if_neg hout]
        · rw [Finmap.lookup_erase_ne hi, hinsert]
          by_cases hin : i ∈ rest ++ [frame.msgId]
          · rw [if_pos hin]
          · obtain ⟨hrest, hne⟩ := not_or.mp (mt List.mem_append.mpr hin)
            have hnot : i ∉ old :: rest := by
              intro h
              rcases List.mem_cons.mp h with h | h
              · exact hi h
              · exact hrest h
            rw [if_neg hin, if_neg (mt List.mem_singleton.mpr hne), hlookup i hnot]

theorem storeFrame_storeOrder (inv : Inv n) :
    (n.storeFrame frame).storeOrder = Fifo.push STORE_CAP n.storeOrder frame.msgId := by
  obtain ⟨store, heq, -⟩ := storeFrame_cases inv frame
  rw [heq]

theorem inv_storeFrame (inv : Inv n) (frame : MeshFrame) : Inv (n.storeFrame frame) := by
  obtain ⟨store, heq, hlookup⟩ := storeFrame_cases inv frame
  rw [heq]
  refine
    { seenNodup := inv.seenNodup
      mem_seen := inv.mem_seen
      seenLength := inv.seenLength
      storeNodup := Fifo.nodup_push storeCap_pos inv.storeNodup
      storeLength := Fifo.length_push_le storeCap_pos inv.storeLength
      mem_store := ?_
      keyed := ?_ }
  · intro id
    rw [← Finmap.lookup_isSome, hlookup]
    constructor
    · intro h
      by_contra hnot
      rw [if_neg hnot] at h
      exact Bool.false_ne_true h
    · intro h
      rw [if_pos h]
      split
      · rfl
      · rename_i hne
        rcases Fifo.mem_of_mem_push storeCap_pos h with h' | h'
        · exact absurd h' hne
        · exact Finmap.lookup_isSome.mpr ((inv.mem_store id).mpr h')
  · intro id f hf
    have hf' := (hlookup id).symm.trans hf
    split at hf'
    · split at hf'
      · rename_i hid
        rw [← Option.some.inj hf', hid]
      · exact inv.keyed id f hf'
    · exact nomatch hf'

theorem Inv.withInbox (inv : Inv n) (inbox : List Bytes) : Inv { n with inbox := inbox } :=
  { seenNodup := inv.seenNodup
    mem_seen := inv.mem_seen
    seenLength := inv.seenLength
    storeNodup := inv.storeNodup
    mem_store := inv.mem_store
    storeLength := inv.storeLength
    keyed := inv.keyed }

/-- The code in one equation, for a frame that is new to the node. -/
theorem handleIncoming_of_not_mem (h : frame.msgId ∉ n.seen) :
    n.handleIncoming frame
      = (.accepted (frame.recipient = n.me) (0 < frame.onward.ttl : Bool),
        let delivered : MeshTables := { n.markSeen frame.msgId with
          inbox := if frame.recipient = n.me then n.inbox ++ [frame.payload] else n.inbox }
        if 0 < frame.onward.ttl then delivered.storeFrame frame.onward else delivered) := by
  obtain ⟨hmeq, -, -, -, hinbox⟩ := markSeen_frame n frame.msgId
  have hmark : { n.markSeen frame.msgId with inbox := n.inbox } = n.markSeen frame.msgId := by
    rw [← hinbox]
  simp only [handleIncoming, if_neg h, MeshFrame.onward, decide_eq_true_eq]
  by_cases hme : frame.recipient = n.me
  · have hme' : frame.recipient = (n.markSeen frame.msgId).me := by rwa [hmeq]
    simp only [if_pos hme, if_pos hme', decide_eq_true hme, decide_eq_true hme', hinbox]
    rfl
  · have hme' : frame.recipient ≠ (n.markSeen frame.msgId).me := by rwa [hmeq]
    simp only [if_neg hme, if_neg hme', decide_eq_false hme, decide_eq_false hme', hmark]
    rfl

theorem handleIncoming_of_mem (h : frame.msgId ∈ n.seen) :
    n.handleIncoming frame = (.duplicate, n) := if_pos h

theorem inv_step (inv : Inv n) (act : Act) : Inv (n.step act) := by
  cases act with
  | originate msgId recipient payload => exact inv_storeFrame (inv_markSeen inv msgId) _
  | takeInbox => exact inv.withInbox []
  | receive frame =>
    by_cases hseen : frame.msgId ∈ n.seen
    · rw [step, handleIncoming_of_mem hseen]
      exact inv
    · rw [step, handleIncoming_of_not_mem hseen]
      have hdelivered := (inv_markSeen inv frame.msgId).withInbox
        (if frame.recipient = n.me then n.inbox ++ [frame.payload] else n.inbox)
      dsimp only
      split
      · exact inv_storeFrame hdelivered _
      · exact hdelivered

theorem inv_run (inv : Inv n) (acts : List Act) : Inv (n.run acts) := by
  induction acts generalizing n with
  | nil => exact inv
  | cons act acts ih => exact ih (inv_step inv act)

/-! ## 3. What comes in and what goes out -/

/-- The id that a step marks as seen. -/
def touched : Act → Option MsgId
  | .originate msgId _ _ => some msgId
  | .receive frame => some frame.msgId
  | .takeInbox => none

/-- The frame that a step stores. -/
def carries (n : MeshTables) : Act → Option MeshFrame
  | .originate msgId recipient payload => some ⟨msgId, recipient, n.ttl, payload⟩
  | .receive frame =>
    if frame.msgId ∉ n.seen ∧ 0 < frame.onward.ttl then some frame.onward else none
  | .takeInbox => none

theorem storeFrame_frame (n : MeshTables) (frame : MeshFrame) :
    (n.storeFrame frame).me = n.me ∧ (n.storeFrame frame).ttl = n.ttl ∧
      (n.storeFrame frame).seenOrder = n.seenOrder ∧ (n.storeFrame frame).inbox = n.inbox := by
  simp only [storeFrame]
  split
  · exact ⟨rfl, rfl, rfl, rfl⟩
  · split
    · split <;> exact ⟨rfl, rfl, rfl, rfl⟩
    · exact ⟨rfl, rfl, rfl, rfl⟩

theorem step_seenOrder (inv : Inv n) (act : Act) :
    (n.step act).seenOrder = (touched act).elim n.seenOrder (Fifo.push SEEN_CAP n.seenOrder) := by
  cases act with
  | originate msgId recipient payload =>
    exact (storeFrame_frame _ _).2.2.1.trans (markSeen_seenOrder inv)
  | takeInbox => rfl
  | receive frame =>
    by_cases hseen : frame.msgId ∈ n.seen
    · rw [step, handleIncoming_of_mem hseen]
      exact (if_pos ((inv.mem_seen _).mp hseen)).symm
    · rw [step, handleIncoming_of_not_mem hseen]
      dsimp only
      split
      · exact (storeFrame_frame _ _).2.2.1.trans (markSeen_seenOrder inv)
      · exact markSeen_seenOrder inv

theorem step_storeOrder (inv : Inv n) (act : Act) :
    (n.step act).storeOrder = (carries n act).elim n.storeOrder
      fun frame => Fifo.push STORE_CAP n.storeOrder frame.msgId := by
  cases act with
  | originate msgId recipient payload =>
    rw [step, originate, storeFrame_storeOrder (inv_markSeen inv msgId),
      (markSeen_frame n msgId).2.2.2.1]
    rfl
  | takeInbox => rfl
  | receive frame =>
    by_cases hseen : frame.msgId ∈ n.seen
    · rw [step, handleIncoming_of_mem hseen, carries, if_neg fun h => h.1 hseen]
      rfl
    · have horder := (markSeen_frame n frame.msgId).2.2.2.1
      rw [step, handleIncoming_of_not_mem hseen]
      by_cases hpos : 0 < frame.onward.ttl
      · have hcarries : n.carries (.receive frame) = some frame.onward := if_pos ⟨hseen, hpos⟩
        simp only [if_pos hpos]
        rw [storeFrame_storeOrder ((inv_markSeen inv frame.msgId).withInbox _), hcarries]
        exact congrArg (Fifo.push STORE_CAP · frame.msgId) horder
      · have hcarries : n.carries (.receive frame) = none := if_neg fun h => hpos h.2
        simp only [if_neg hpos]
        rw [hcarries]
        exact horder

/-- The ids that are in the store after a step and were not before. -/
def addedBy (n : MeshTables) (act : Act) : List MsgId :=
  (n.step act).storeOrder.filter fun id => (n.store.lookup id).isNone

/-- The ids that were in the store before a step and are not after it. -/
def evictedBy (n : MeshTables) (act : Act) : List MsgId :=
  n.storeOrder.filter fun id => ((n.step act).store.lookup id).isNone

def addedAll : MeshTables → List Act → List MsgId
  | _, [] => []
  | n, act :: acts => n.addedBy act ++ addedAll (n.step act) acts

def evictedAll : MeshTables → List Act → List MsgId
  | _, [] => []
  | n, act :: acts => n.evictedBy act ++ evictedAll (n.step act) acts

theorem isNone_lookup (inv : Inv n) (id : MsgId) :
    (n.store.lookup id).isNone = true ↔ id ∉ n.storeOrder := by
  rw [Option.isNone_iff_eq_none, Finmap.lookup_eq_none, inv.mem_store]

theorem history_step (inv : Inv n) (act : Act) :
    n.evictedBy act ++ (n.step act).storeOrder = n.storeOrder ++ n.addedBy act := by
  have hgone := isNone_lookup (inv_step inv act)
  have hnew := isNone_lookup inv
  have horder := step_storeOrder inv act
  cases hcarries : n.carries act with
  | some frame =>
    rw [hcarries, Option.elim_some] at horder
    rw [evictedBy, addedBy]
    rw [horder] at hgone ⊢
    exact Fifo.history storeCap_pos inv.storeNodup frame.msgId hgone hnew
  | none =>
    rw [hcarries, Option.elim_none] at horder
    have hnone : ∀ p : MsgId → Bool, (∀ id, p id = true ↔ id ∉ n.storeOrder) →
        n.storeOrder.filter p = [] := by
      intro p hp
      apply List.filter_eq_nil_iff.mpr
      intro id hid hid'
      exact (hp id).mp hid' hid
    rw [evictedBy, addedBy]
    rw [horder] at hgone ⊢
    rw [hnone _ hgone, hnone _ hnew, List.nil_append, List.append_nil]

theorem history_run (inv : Inv n) (acts : List Act) :
    evictedAll n acts ++ (n.run acts).storeOrder = n.storeOrder ++ addedAll n acts := by
  induction acts generalizing n with
  | nil => exact (List.append_nil _).symm
  | cons act acts ih =>
    have hstep := history_step inv act
    have hrest := ih (inv_step inv act)
    rw [evictedAll, addedAll, List.append_assoc, run, List.foldl_cons]
    rw [run] at hrest
    rw [hrest, ← List.append_assoc, hstep, List.append_assoc]

/-! ## 4. What a node offers -/

theorem Inv.outbound_msgId (inv : Inv n) : n.outbound.map MeshFrame.msgId = n.storeOrder := by
  have hall : ∀ l : List MsgId, (∀ id ∈ l, id ∈ n.storeOrder) →
      (l.filterMap fun id => n.store.lookup id).map MeshFrame.msgId = l := by
    intro l
    induction l with
    | nil => exact fun _ => rfl
    | cons id l ih =>
      intro hl
      obtain ⟨hid, hl⟩ := List.forall_mem_cons.mp hl
      obtain ⟨f, hf⟩ := Finmap.mem_iff.mp ((inv.mem_store id).mpr hid)
      simp only [List.filterMap_cons, hf, List.map_cons, ih hl, inv.keyed id f hf]
  exact hall n.storeOrder fun _ h => h

theorem Inv.mem_outbound (inv : Inv n) (f : MeshFrame) :
    f ∈ n.outbound ↔ n.store.lookup f.msgId = some f := by
  rw [outbound, List.mem_filterMap]
  constructor
  · rintro ⟨id, -, hf⟩
    rw [inv.keyed id f hf]
    exact hf
  · intro hf
    exact ⟨f.msgId, (inv.mem_store _).mp (Finmap.mem_iff.mpr ⟨f, hf⟩), hf⟩

theorem Inv.seen_card (inv : Inv n) : n.seen.card = n.seenOrder.length := by
  have hset : n.seen = n.seenOrder.toFinset := by
    ext id
    rw [List.mem_toFinset, inv.mem_seen]
  rw [hset, List.toFinset_card_of_nodup inv.seenNodup]

theorem Inv.stored_eq (inv : Inv n) : n.stored = n.storeOrder.length := by
  have hset : n.store.keys = n.storeOrder.toFinset := by
    ext id
    rw [List.mem_toFinset, Finmap.mem_keys, inv.mem_store]
  rw [stored, hset, List.toFinset_card_of_nodup inv.storeNodup]

/-- The same step of the node with one list for each pair of tables. -/
def actOn (m : MeshNode) : Act → MeshNode
  | .originate msgId recipient payload => (m.originate msgId recipient payload).2
  | .receive frame => (m.handleIncoming frame).2
  | .takeInbox => m.takeInbox.2

structure Refines (n : MeshTables) (m : MeshNode) : Prop where
  me : m.me = n.me
  ttl : m.ttl = n.ttl
  seenOrder : m.seenOrder = n.seenOrder
  keys : m.store.entries.map Prod.fst = n.storeOrder
  lookup : ∀ id, m.store.get? id = n.store.lookup id
  inbox : m.inbox = n.inbox

variable {m : MeshNode}

theorem refines_withTtl (me : Bytes32) (ttl : UInt8) :
    Refines (withTtl me ttl) (MeshNode.withTtl me ttl) :=
  ⟨rfl, rfl, rfl, rfl, fun _ => rfl, rfl⟩

theorem refines_markSeen (inv : Inv n) (h : Refines n m) (id : MsgId) :
    Refines (n.markSeen id) (m.markSeen id) := by
  obtain ⟨hme, httl, hstore, hstoreOrder, hinbox⟩ := markSeen_frame n id
  refine ⟨?_, ?_, ?_, ?_, ?_, ?_⟩
  · rw [MeshNode.markSeen_me, h.me, hme]
  · rw [MeshNode.markSeen_ttl, h.ttl, httl]
  · rw [markSeen_seenOrder inv, MeshNode.markSeen, h.seenOrder, Fifo.push, Fifo.enqueue]
    split
    · exact h.seenOrder
    · rfl
  · rw [MeshNode.markSeen_store, h.keys, hstoreOrder]
  · intro i
    rw [MeshNode.markSeen_store, h.lookup, hstore]
  · rw [MeshNode.markSeen_inbox, h.inbox, hinbox]

theorem refines_storeFrame (inv : Inv n) (h : Refines n m) (frame : MeshFrame) :
    Refines (n.storeFrame frame) (m.storeFrame frame) := by
  obtain ⟨store, heq, hlookup⟩ := storeFrame_cases inv frame
  obtain ⟨hme, httl, hseenOrder, hinbox⟩ := storeFrame_frame n frame
  -- the two stores, key by key and entry by entry
  have hpair : (m.storeFrame frame).store.entries.map Prod.fst =
        Fifo.push STORE_CAP n.storeOrder frame.msgId ∧
      ∀ id, (m.storeFrame frame).store.get? id = store.lookup id := by
    have hset : ∀ id, (m.store.set frame.msgId frame).get? id =
        if id = frame.msgId then some frame else n.store.lookup id := by
      intro id
      rw [LinkedMap.get?_set, h.lookup]
    have hkeys : (m.store.set frame.msgId frame).entries.map Prod.fst =
        if frame.msgId ∈ n.storeOrder then n.storeOrder else n.storeOrder ++ [frame.msgId] := by
      rw [LinkedMap.set, LinkedMap.keys_write, h.keys]
      by_cases hmem : frame.msgId ∈ n.storeOrder
      · rw [if_pos hmem, if_pos hmem]
      · rw [if_neg hmem, if_neg hmem]
    have hnone : ∀ id, id ∉ n.storeOrder → n.store.lookup id = none := by
      intro id hid
      exact Finmap.lookup_eq_none.mpr fun h => hid ((inv.mem_store id).mp h)
    by_cases hmem : frame.msgId ∈ n.storeOrder
    · obtain ⟨f, hf⟩ := Finmap.mem_iff.mp ((inv.mem_store _).mpr hmem)
      have hget : m.store.get? frame.msgId = some f := (h.lookup _).trans hf
      have hstored : (m.storeFrame frame).store = m.store.set frame.msgId frame := by
        simp only [MeshNode.storeFrame, hget]
      have hpush : Fifo.push STORE_CAP n.storeOrder frame.msgId = n.storeOrder := if_pos hmem
      rw [hpush] at hlookup ⊢
      rw [hstored]
      refine ⟨hkeys.trans (if_pos hmem), ?_⟩
      intro id
      rw [hset, hlookup]
      by_cases hid : id ∈ n.storeOrder
      · rw [if_pos hid]
      · rw [if_neg hid, if_neg fun h' : id = frame.msgId => hid (h' ▸ hmem), hnone id hid]
    · have hget : m.store.get? frame.msgId = none := (h.lookup _).trans (hnone _ hmem)
      have hpush : Fifo.push STORE_CAP n.storeOrder frame.msgId =
          Fifo.enqueue STORE_CAP n.storeOrder frame.msgId := if_neg hmem
      rw [if_neg hmem] at hkeys
      have hlen := congrArg List.length hkeys
      rw [List.length_map] at hlen
      rw [hpush] at hlookup ⊢
      simp only [MeshNode.storeFrame, hget, hlen]
      rcases Fifo.enqueue_cases storeCap_pos n.storeOrder frame.msgId with
        ⟨hlt, hqueue⟩ | ⟨old, rest, hq, hfull, hqueue⟩
      · have hroom : ¬ (n.storeOrder ++ [frame.msgId]).length > STORE_CAP := by
          rw [List.length_append, List.length_singleton]
          exact Nat.not_lt.mpr hlt
        rw [hqueue] at hlookup ⊢
        rw [if_neg hroom]
        refine ⟨hkeys, ?_⟩
        intro id
        rw [hset, hlookup]
        by_cases hid : id ∈ n.storeOrder ++ [frame.msgId]
        · rw [if_pos hid]
        · obtain ⟨hold, hne⟩ := not_or.mp (mt List.mem_append.mpr hid)
          rw [if_neg hid, if_neg (mt List.mem_singleton.mpr hne), hnone id hold]
      · have hover : (n.storeOrder ++ [frame.msgId]).length > STORE_CAP := by
          rw [List.length_append, List.length_singleton]
          exact Nat.lt_succ_of_le hfull
        have hfirst : (m.store.set frame.msgId frame).entries.map Prod.fst =
            old :: (rest ++ [frame.msgId]) := by
          rw [hkeys, hq, List.cons_append]
        rw [hqueue] at hlookup ⊢
        rw [if_pos hover]
        refine ⟨?_, ?_⟩
        · have htail := congrArg List.tail hfirst
          rw [← List.map_tail] at htail
          exact htail
        · intro id
          rw [LinkedMap.get?_dropOldest hfirst, hset, hlookup]
          by_cases hid : id = old
          · have hnodup : (old :: (rest ++ [frame.msgId])).Nodup := by
              rw [← hfirst]
              exact (m.store.set frame.msgId frame).nodup
            rw [if_pos hid, hid, if_neg (List.nodup_cons.mp hnodup).1]
          · rw [if_neg hid]
            by_cases hin : id ∈ rest ++ [frame.msgId]
            · rw [if_pos hin]
            · obtain ⟨hrest, hne⟩ := not_or.mp (mt List.mem_append.mpr hin)
              have hnot : id ∉ n.storeOrder := by
                rw [hq]
                intro h'
                rcases List.mem_cons.mp h' with h' | h'
                · exact hid h'
                · exact hrest h'
              rw [if_neg hin, if_neg (mt List.mem_singleton.mpr hne), hnone id hnot]
  refine ⟨?_, ?_, ?_, ?_, ?_, ?_⟩
  · rw [MeshNode.storeFrame_me, h.me, hme]
  · rw [MeshNode.storeFrame_ttl, h.ttl, httl]
  · rw [MeshNode.storeFrame_seenOrder, h.seenOrder, hseenOrder]
  · rw [hpair.1, heq]
  · intro id
    rw [hpair.2, heq]
  · rw [MeshNode.storeFrame_inbox, h.inbox, hinbox]

theorem Refines.withInbox (h : Refines n m) (inbox : List Bytes) :
    Refines { n with inbox := inbox } { m with inbox := inbox } :=
  ⟨h.me, h.ttl, h.seenOrder, h.keys, h.lookup, rfl⟩

theorem refines_handleIncoming (inv : Inv n) (h : Refines n m) (frame : MeshFrame) :
    (n.handleIncoming frame).1 = (m.handleIncoming frame).1 ∧
      Refines (n.handleIncoming frame).2 (m.handleIncoming frame).2 := by
  by_cases hseen : frame.msgId ∈ n.seen
  · have hmem : frame.msgId ∈ m.seenOrder := h.seenOrder ▸ (inv.mem_seen _).mp hseen
    rw [handleIncoming_of_mem hseen, MeshNode.handleIncoming_of_mem hmem]
    exact ⟨rfl, h⟩
  · have hnew : frame.msgId ∉ m.seenOrder := fun hmem =>
      hseen ((inv.mem_seen _).mpr (h.seenOrder ▸ hmem))
    rw [handleIncoming_of_not_mem hseen, MeshNode.handleIncoming_of_not_mem hnew, h.me, h.inbox]
    refine ⟨rfl, ?_⟩
    have hmarked := (refines_markSeen inv h frame.msgId).withInbox
      (if frame.recipient = n.me then n.inbox ++ [frame.payload] else n.inbox)
    have hinv := (inv_markSeen inv frame.msgId).withInbox
      (if frame.recipient = n.me then n.inbox ++ [frame.payload] else n.inbox)
    by_cases hpos : 0 < frame.onward.ttl
    · simp only [if_pos hpos]
      exact refines_storeFrame hinv hmarked _
    · simp only [if_neg hpos]
      exact hmarked

/-- **A node does what the node of `Clarity.Mesh` does.** -/
theorem refines_step (inv : Inv n) (h : Refines n m) (act : Act) :
    Refines (n.step act) (actOn m act) := by
  cases act with
  | originate msgId recipient payload =>
    have hmarked := refines_storeFrame (inv_markSeen inv msgId) (refines_markSeen inv h msgId)
      ⟨msgId, recipient, n.ttl, payload⟩
    rw [← h.ttl] at hmarked
    simp only [step, actOn, originate, ← h.ttl]
    exact hmarked
  | receive frame => exact (refines_handleIncoming inv h frame).2
  | takeInbox => exact h.withInbox []

theorem refines_run (inv : Inv n) (h : Refines n m) (acts : List Act) :
    Refines (n.run acts) (acts.foldl actOn m) := by
  induction acts generalizing n m with
  | nil => exact h
  | cons act acts ih => exact ih (inv_step inv act) (refines_step inv h act)

/-- It offers the same frames, in the same order. -/
theorem Refines.outbound_eq (h : Refines n m) : n.outbound = m.outbound := by
  rw [outbound, MeshNode.outbound, ← h.keys, List.filterMap_map, ← List.filterMap_eq_map]
  apply List.filterMap_congr
  intro e he
  have hget : m.store.get? e.1 = some e.2 := LinkedMap.get?_eq_some_iff.mpr he
  exact (h.lookup e.1).symm.trans hget

end MeshTables

end Clarity
