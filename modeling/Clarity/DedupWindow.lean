/-
  Clarity/DedupWindow.lean
  ========================
  **How long a mesh node remembers an id** (`mark_seen`, `handle_incoming` in
  `mesh/src/lib.rs`).  The node forgets the id it has known longest when it learns one too
  many, so a frame it has accepted can be accepted again; but not before the node has
  learned `SEEN_CAP` others.

    * `seenOrder_run` — the queue of a node is the bounded queue of the ids it has met;
    * `dedup_window` — the window, and what it means for the inbox.
-/
import Clarity.MeshTables

namespace Clarity

namespace MeshTables

variable {n : MeshTables} {id : MsgId}

/-- The id that a step originates or accepts. -/
def newId (n : MeshTables) : Act → Option MsgId
  | .originate msgId _ _ => some msgId
  | .receive frame =>
    match (n.handleIncoming frame).1 with
    | .duplicate => none
    | .accepted _ _ => some frame.msgId
  | .takeInbox => none

def newIds : MeshTables → List Act → List MsgId
  | _, [] => []
  | n, act :: acts => (n.newId act).toList ++ newIds (n.step act) acts

/-- No random id is one that the node has originated or accepted before. -/
def DrawsFresh (n : MeshTables) (acts : List Act) : Prop :=
  ∀ pre msgId recipient payload post,
    acts = pre ++ .originate msgId recipient payload :: post → msgId ∉ newIds n pre

/-- At least `SEEN_CAP` ids other than `id` are originated or accepted along the way. -/
def ManyOthers (n : MeshTables) (acts : List Act) (id : MsgId) : Prop :=
  ∃ ids : Finset MsgId, SEEN_CAP ≤ ids.card ∧ id ∉ ids ∧ ∀ i ∈ ids, i ∈ newIds n acts

/-! ## 1. The queue -/

theorem newId_receive (frame : MeshFrame) :
    n.newId (.receive frame) = if frame.msgId ∈ n.seen then none else some frame.msgId := by
  by_cases h : frame.msgId ∈ n.seen
  · rw [if_pos h, newId, handleIncoming_of_mem h]
  · rw [if_neg h, newId, handleIncoming_of_not_mem h]

/-- An id that a step meets for the first time is new. -/
theorem newId_of_not_mem (inv : Inv n) {act : Act} (htouched : touched act = some id)
    (h : id ∉ n.seenOrder) : n.newId act = some id := by
  cases act with
  | originate msgId recipient payload => exact htouched
  | receive frame =>
    obtain rfl := Option.some.inj htouched
    rw [newId_receive, if_neg fun hseen => h ((inv.mem_seen _).mp hseen)]
  | takeInbox => exact nomatch htouched

theorem seenOrder_run (inv : Inv n) (acts : List Act) :
    (n.run acts).seenOrder = Fifo.pushAll SEEN_CAP n.seenOrder (acts.filterMap touched) := by
  induction acts generalizing n with
  | nil => rfl
  | cons act acts ih =>
    have hstep := step_seenOrder inv act
    have hrest := ih (inv_step inv act)
    cases htouched : touched act with
    | none =>
      rw [htouched, Option.elim_none] at hstep
      rw [List.filterMap_cons_none htouched, ← hstep]
      exact hrest
    | some id =>
      rw [htouched, Option.elim_some] at hstep
      rw [List.filterMap_cons_some htouched, Fifo.pushAll, List.foldl_cons, ← hstep]
      exact hrest

theorem mem_newIds_of_news (inv : Inv n) (acts : List Act)
    (h : id ∈ Fifo.news SEEN_CAP n.seenOrder (acts.filterMap touched)) : id ∈ newIds n acts := by
  induction acts generalizing n with
  | nil => exact absurd h List.not_mem_nil
  | cons act acts ih =>
    have hstep := step_seenOrder inv act
    have hrest := ih (inv_step inv act)
    rw [newIds]
    apply List.mem_append.mpr
    cases htouched : touched act with
    | none =>
      rw [htouched, Option.elim_none] at hstep
      rw [List.filterMap_cons_none htouched, ← hstep] at h
      exact Or.inr (hrest h)
    | some i =>
      rw [htouched, Option.elim_some, Fifo.push] at hstep
      rw [List.filterMap_cons_some htouched, Fifo.news] at h
      by_cases hi : i ∈ n.seenOrder
      · rw [if_pos hi] at h hstep
        rw [← hstep] at h
        exact Or.inr (hrest h)
      · rw [if_neg hi] at h hstep
        rw [← hstep] at h
        rcases List.mem_cons.mp h with h | h
        · refine Or.inl ?_
          rw [newId_of_not_mem inv htouched hi, h]
          exact List.mem_singleton_self _
        · exact Or.inr (hrest h)

/-- A node has seen only what it originated or accepted. -/
theorem mem_newIds_of_seen (me : Bytes32) (ttl : UInt8) (acts : List Act)
    (h : id ∈ ((withTtl me ttl).run acts).seenOrder) : id ∈ newIds (withTtl me ttl) acts := by
  have inv := inv_withTtl me ttl
  rw [seenOrder_run inv] at h
  rcases Fifo.mem_of_mem_pushAll seenCap_pos h with h' | h'
  · exact absurd h' List.not_mem_nil
  · exact mem_newIds_of_news inv acts h'

/-! ## 2. The window -/

/-- From the step that meets a new id to the next time the id is not known. -/
theorem manyOthers_of_forgotten (inv : Inv n) {act : Act} {mid : List Act}
    (htouched : touched act = some id) (hnew : id ∉ n.seenOrder)
    (hforgotten : id ∉ ((n.step act).run mid).seenOrder) : ManyOthers (n.step act) mid id := by
  have hstep := step_seenOrder inv act
  rw [htouched, Option.elim_some] at hstep
  have inv' := inv_step inv act
  rw [seenOrder_run inv', hstep] at hforgotten
  obtain ⟨ids, hnodup, hlen, hself, hmem⟩ :=
    Fifo.pushAll_window seenCap_pos inv.seenNodup hnew hforgotten
  refine ⟨ids.toFinset, ?_, ?_, ?_⟩
  · rw [List.toFinset_card_of_nodup hnodup]
    exact hlen
  · rw [List.mem_toFinset]
    exact hself
  · intro i hi
    apply mem_newIds_of_news inv'
    rw [hstep]
    exact hmem i (List.mem_toFinset.mp hi)

theorem not_mem_of_newId (inv : Inv n) {frame : MeshFrame}
    (h : n.newId (.receive frame) = some id) : frame.msgId = id ∧ id ∉ n.seenOrder := by
  rw [newId_receive] at h
  split at h
  · exact nomatch h
  · rename_i hseen
    obtain rfl := Option.some.inj h
    exact ⟨rfl, fun hmem => hseen ((inv.mem_seen _).mpr hmem)⟩

/-- What the node puts in the inbox it has accepted. -/
theorem newId_of_inbox {frame : MeshFrame} (h : (n.handleIncoming frame).2.inbox ≠ n.inbox) :
    n.newId (.receive frame) = some frame.msgId := by
  rw [newId_receive]
  apply if_neg
  intro hseen
  rw [handleIncoming_of_mem hseen] at h
  exact h rfl

/-- **The window.**  Between originating or accepting an id and accepting it again, a node
    originates or accepts at least `SEEN_CAP` others; and so it does between two times it
    puts the payload of one id in its inbox. -/
theorem dedup_window (me : Bytes32) (ttl : UInt8) {acts : List Act}
    (hfresh : DrawsFresh (withTtl me ttl) acts) {pre mid post : List Act} {act : Act}
    {frame : MeshFrame} (hacts : acts = pre ++ act :: (mid ++ .receive frame :: post)) :
    let n₁ := (withTtl me ttl).run pre
    let n₂ := (n₁.step act).run mid
    (n₁.newId act = some frame.msgId → n₂.newId (.receive frame) = some frame.msgId →
      ManyOthers (n₁.step act) mid frame.msgId) ∧
    (∀ first, act = .receive first → first.msgId = frame.msgId →
      (n₁.handleIncoming first).2.inbox ≠ n₁.inbox →
      (n₂.handleIncoming frame).2.inbox ≠ n₂.inbox →
      ManyOthers (n₁.step act) mid frame.msgId) := by
  intro n₁ n₂
  have inv₁ : Inv n₁ := inv_run (inv_withTtl me ttl) pre
  have inv₂ : Inv n₂ := inv_run (inv_step inv₁ act) mid
  have hwindow : n₁.newId act = some frame.msgId →
      n₂.newId (.receive frame) = some frame.msgId →
      ManyOthers (n₁.step act) mid frame.msgId := by
    intro hfirst hagain
    have hforgotten := (not_mem_of_newId inv₂ hagain).2
    cases act with
    | originate msgId recipient payload =>
      have hdrawn := hfresh pre msgId recipient payload _ hacts
      rw [Option.some.inj hfirst] at hdrawn
      have hnew : frame.msgId ∉ n₁.seenOrder := fun h =>
        hdrawn (mem_newIds_of_seen me ttl pre h)
      exact manyOthers_of_forgotten inv₁ hfirst hnew hforgotten
    | receive first =>
      obtain ⟨hid, hnew⟩ := not_mem_of_newId inv₁ hfirst
      exact manyOthers_of_forgotten inv₁ (congrArg some hid) hnew hforgotten
    | takeInbox => exact nomatch hfirst
  refine ⟨hwindow, ?_⟩
  rintro first rfl hid hfirst hagain
  exact hwindow ((newId_of_inbox hfirst).trans (congrArg some hid)) (newId_of_inbox hagain)

section Sample

/-- Ids with a number. -/
def idOf (k : Nat) : MsgId := ⟨(Codec.leBytes 16 k).toArray, by simp⟩

theorem idOf_inj {j k : Nat} (hj : j < 256 ^ 16) (hk : k < 256 ^ 16) (h : idOf j = idOf k) :
    j = k := by
  have hbytes : Codec.leBytes 16 j = Codec.leBytes 16 k :=
    congrArg (fun v : MsgId => v.toArray.toList) h
  have hback := congrArg Codec.ofLeBytes hbytes
  rw [Codec.ofLeBytes_leBytes, Codec.ofLeBytes_leBytes, Nat.mod_eq_of_lt hj,
    Nat.mod_eq_of_lt hk] at hback
  exact hback

def frameOf (k : Nat) : MeshFrame := ⟨idOf k, .ofByte 1, 2, [42]⟩

/-- `SEEN_CAP` further frames. -/
def others : List Act := (List.range' 1 SEEN_CAP).map fun k => .receive (frameOf k)

def listener : MeshTables := withTtl (.ofByte 1) 2

theorem touched_others : others.filterMap touched = (List.range' 1 SEEN_CAP).map idOf := by
  rw [others, List.filterMap_map, ← List.filterMap_eq_map]
  rfl

/-- After them the first frame is new again. -/
theorem forgotten_after_others :
    idOf 0 ∉ ((listener.step (.receive (frameOf 0))).run others).seenOrder := by
  have inv : Inv listener := inv_withTtl (.ofByte 1) 2
  have hids : ∀ k ∈ List.range' 1 SEEN_CAP, 0 < k ∧ k < 256 ^ 16 := by
    intro k hk
    rw [List.mem_range'_1] at hk
    refine ⟨hk.1, Nat.lt_trans hk.2 ?_⟩
    decide
  have hnot : idOf 0 ∉ (List.range' 1 SEEN_CAP).map idOf := by
    intro h
    obtain ⟨k, hk, heq⟩ := List.mem_map.mp h
    obtain ⟨hpos, hlt⟩ := hids k hk
    exact absurd (idOf_inj hlt (by decide) heq) (Nat.ne_of_gt hpos)
  have hnodup : ((List.range' 1 SEEN_CAP).map idOf).Nodup := by
    apply List.Nodup.map_on _ (List.nodup_range' ..)
    intro j hj k hk heq
    exact idOf_inj (hids j hj).2 (hids k hk).2 heq
  have hstep : (listener.step (.receive (frameOf 0))).seenOrder = [idOf 0] :=
    step_seenOrder inv (.receive (frameOf 0))
  have hall : ([idOf 0] ++ (List.range' 1 SEEN_CAP).map idOf).Nodup :=
    List.nodup_cons.mpr ⟨hnot, hnodup⟩
  rw [seenOrder_run (inv_step inv _), hstep, touched_others,
    Fifo.pushAll_of_nodup seenCap_pos (by decide) hall]
  have hlen : ([idOf 0] ++ (List.range' 1 SEEN_CAP).map idOf).length - SEEN_CAP = 1 := by
    rw [List.length_append, List.length_map, List.length_range', List.length_singleton]
    omega
  rw [hlen]
  exact hnot

/-- The node accepts the first frame twice, and `SEEN_CAP` others in between. -/
theorem dedup_window_listener :
    ManyOthers (listener.step (.receive (frameOf 0))) others (idOf 0) := by
  have hfresh : DrawsFresh listener
      ([] ++ .receive (frameOf 0) :: (others ++ .receive (frameOf 0) :: [])) := by
    intro pre msgId recipient payload post hacts
    have hmem : Act.originate msgId recipient payload ∈
        [] ++ .receive (frameOf 0) :: (others ++ .receive (frameOf 0) :: []) := by
      rw [hacts]
      exact List.mem_append_right _ (List.mem_cons_self ..)
    simp [others] at hmem
  refine (dedup_window (.ofByte 1) 2 hfresh rfl).1 ?_ ?_
  · rw [newId_receive]
    exact if_neg (Finset.notMem_empty _)
  · have inv := inv_run (inv_step (inv_withTtl (.ofByte 1) 2) (.receive (frameOf 0))) others
    exact newId_of_not_mem inv rfl forgotten_after_others

end Sample

end MeshTables

end Clarity
