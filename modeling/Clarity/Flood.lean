/-
  Clarity/Flood.lean
  ==================
  **Flooding a static mesh.**  Nodes that stay where they are and offer what they store
  along the edges of a contact graph, until nobody would accept anything any more.

  A node takes the first copy of a frame that reaches it, and with it the budget that the
  copy's way has left: a copy that came the long way round first leaves a node nothing to
  forward, and what it cuts off is never reached.

    * `FloodInv`, `floodInv_run` — every node that has seen a frame got it over a simple
      path of nodes that still carry it;
    * `quiet_delivers` — who is reached when the mesh has become quiet, and how often.
-/
import Clarity.Mesh
import Mathlib.Combinatorics.SimpleGraph.Paths
import Mathlib.Combinatorics.SimpleGraph.Metric

namespace Clarity

/-! ## 1. A node that evicts nothing -/

namespace MeshNode

variable {n n' : MeshNode} {id : MsgId} {frame : MeshFrame} {ids ids' : List MsgId}

theorem seenOrder_markSeen_of_room (h : id ∉ n.seenOrder) (room : n.seenOrder.length < SEEN_CAP) :
    (n.markSeen id).seenOrder = n.seenOrder ++ [id] := by
  have hlen : ¬(n.seenOrder ++ [id]).length > SEEN_CAP := by
    rw [List.length_append, List.length_singleton]
    omega
  simp only [markSeen, if_neg h, if_neg hlen]

theorem entries_storeFrame_of_room (h : frame.msgId ∉ n.store.entries.map Prod.fst)
    (room : n.store.entries.length < STORE_CAP) :
    (n.storeFrame frame).store.entries = n.store.entries ++ [(frame.msgId, frame)] := by
  have hset : (n.store.set frame.msgId frame).entries
      = n.store.entries ++ [(frame.msgId, frame)] := LinkedMap.write_of_not_mem h
  have hnone : n.store.get? frame.msgId = none := by
    apply Option.eq_none_iff_forall_ne_some.mpr
    intro f hf
    exact h (List.mem_map_of_mem (LinkedMap.get?_eq_some_iff.mp hf))
  have hlen : ¬(n.store.set frame.msgId frame).entries.length > STORE_CAP := by
    rw [hset, List.length_append, List.length_singleton]
    omega
  simp only [storeFrame, hnone, if_neg hlen]
  exact hset

/-- What a node knows of the frames with these ids, none of it lost. -/
structure Kept (ids : List MsgId) (n : MeshNode) : Prop where
  nodup : n.seenOrder.Nodup
  seen_mem : ∀ id ∈ n.seenOrder, id ∈ ids
  keys_seen : ∀ e ∈ n.store.entries, e.1 ∈ n.seenOrder ∧ e.2.msgId = e.1

theorem Kept.outbound_seen (h : Kept ids n) {f : MeshFrame} (hf : f ∈ n.outbound) :
    f.msgId ∈ n.seenOrder := by
  obtain ⟨e, he, rfl⟩ := List.mem_map.mp hf
  obtain ⟨hseen, hkey⟩ := h.keys_seen e he
  rwa [hkey]

theorem Kept.length_seen (h : Kept ids n) : n.seenOrder.length ≤ ids.length :=
  (List.subperm_of_subset h.nodup h.seen_mem).length_le

theorem Kept.length_store (h : Kept ids n) : n.store.entries.length ≤ ids.length := by
  rw [← List.length_map (f := Prod.fst)]
  refine (List.subperm_of_subset n.store.nodup ?_).length_le
  intro id hid
  obtain ⟨e, he, rfl⟩ := List.mem_map.mp hid
  exact h.seen_mem _ (h.keys_seen e he).1

theorem Kept.mono (h : Kept ids n) (hsub : ∀ id ∈ ids, id ∈ ids') : Kept ids' n :=
  { h with seen_mem := fun id hid => hsub id (h.seen_mem id hid) }

/-- `n'` is `n` once it has taken a frame: it has seen one id more, and offers `kept` of
    it. -/
structure Takes (n n' : MeshNode) (id : MsgId) (kept : List MeshFrame) : Prop where
  unseen : id ∉ n.seenOrder
  seen : n'.seenOrder = n.seenOrder ++ [id]
  entries : n'.store.entries = n.store.entries ++ kept.map fun f => (id, f)
  same_id : ∀ f ∈ kept, f.msgId = id

theorem Takes.outbound {kept : List MeshFrame} (h : Takes n n' id kept) :
    n'.outbound = n.outbound ++ kept := by
  rw [MeshNode.outbound, MeshNode.outbound, h.entries, List.map_append, List.map_map]
  congr 1
  exact List.map_id kept

theorem Kept.takes {kept : List MeshFrame} (h : Kept ids n) (takes : Takes n n' id kept)
    (hid : id ∈ ids) : Kept ids n' where
  nodup := by
    rw [takes.seen]
    exact List.nodup_append_comm.mp (List.nodup_cons.mpr ⟨takes.unseen, h.nodup⟩)
  seen_mem x hx := by
    rw [takes.seen] at hx
    rcases List.mem_append.mp hx with hx | hx
    · exact h.seen_mem x hx
    · rwa [List.mem_singleton.mp hx]
  keys_seen e he := by
    rw [takes.entries] at he
    rw [takes.seen]
    rcases List.mem_append.mp he with he | he
    · obtain ⟨hseen, hkey⟩ := h.keys_seen e he
      exact ⟨List.mem_append_left _ hseen, hkey⟩
    · obtain ⟨f, hf, rfl⟩ := List.mem_map.mp he
      exact ⟨List.mem_append_right _ (List.mem_singleton_self _), takes.same_id f hf⟩

theorem Kept.takes_store (h : Kept ids n) (room : ids.length < STORE_CAP)
    (frame : MeshFrame) (hunseen : frame.msgId ∉ n.seenOrder)
    (hseen : n'.seenOrder = n.seenOrder ++ [frame.msgId])
    (hstore : n'.store = n.store) : Takes n (n'.storeFrame frame) frame.msgId [frame] where
  unseen := hunseen
  seen := by rw [storeFrame_seenOrder, hseen]
  entries := by
    have hnew : frame.msgId ∉ n'.store.entries.map Prod.fst := by
      rw [hstore]
      intro hmem
      obtain ⟨e, he, hkey⟩ := List.mem_map.mp hmem
      exact hunseen (hkey ▸ (h.keys_seen e he).1)
    have hlen : n'.store.entries.length < STORE_CAP := by
      rw [hstore]
      exact Nat.lt_of_le_of_lt h.length_store room
    rw [entries_storeFrame_of_room hnew hlen, hstore]
    rfl
  same_id f hf := by rw [List.mem_singleton.mp hf]

theorem Kept.room_seen (h : Kept ids n) (room : ids.length < STORE_CAP) :
    n.seenOrder.length < SEEN_CAP :=
  Nat.lt_of_le_of_lt h.length_seen (Nat.lt_trans room (by decide))

theorem Kept.originate (h : Kept ids n) (room : ids.length < STORE_CAP)
    (hunseen : id ∉ n.seenOrder) (recipient : Bytes32) (payload : Bytes) :
    Takes n (n.originate id recipient payload).2 id [(n.originate id recipient payload).1] :=
  h.takes_store room (n.originate id recipient payload).1 hunseen
    (seenOrder_markSeen_of_room hunseen (h.room_seen room)) (markSeen_store ..)

theorem Kept.handleIncoming (h : Kept ids n) (room : ids.length < STORE_CAP)
    (hunseen : frame.msgId ∉ n.seenOrder) :
    Takes n (n.handleIncoming frame).2 frame.msgId
      (if 0 < frame.onward.ttl then [frame.onward] else []) := by
  have hseen := seenOrder_markSeen_of_room hunseen (h.room_seen room)
  rw [handleIncoming_of_not_mem hunseen]
  dsimp only
  split
  · exact h.takes_store room frame.onward hunseen hseen (markSeen_store ..)
  · refine ⟨hunseen, hseen, ?_, List.forall_mem_nil _⟩
    rw [markSeen_store]
    exact (List.append_nil _).symm

end MeshNode

/-! ## 2. A static mesh -/

namespace Mesh

variable {ι : Type} [DecidableEq ι]

/-- The ids of the frames in the network. -/
def ids (log : List (MeshEvent ι)) : List MsgId :=
  log.filterMap fun
    | .originated _ f => some f.msgId
    | .accepted .. => none

/-- What has entered the inbox of `v`. -/
def deliveries (me : ι → Bytes32) (log : List (MeshEvent ι)) (v : ι) : List MeshFrame :=
  log.filterMap fun
    | .originated .. => none
    | .accepted _ dst f => if dst = v ∧ f.recipient = me v then some f else none

/-- Frames only cross the edges of the contact graph, and no node forgets anything. -/
def Contact (G : SimpleGraph ι) (σ : Mesh ι) (act : MeshAct ι) : Prop :=
  FreshIds σ act ∧ match act with
    | .originate .. | .offer .. => True
    | .receive src dst _ => G.Adj src dst
    | .takeInbox _ | .forget .. | .drop .. => False

/-- Nothing that any node offers would be accepted by a neighbour. -/
def Quiet (G : SimpleGraph ι) (σ : Mesh ι) : Prop :=
  ∀ src dst, G.Adj src dst → ∀ f ∈ (σ.node src).outbound,
    ((σ.node dst).handleIncoming f).1 = .duplicate

def Carries (σ : Mesh ι) (v : ι) (id : MsgId) : Prop := ∃ f ∈ (σ.node v).outbound, f.msgId = id

theorem Run.mono {Cond Cond' : Mesh ι → MeshAct ι → Prop} {me : ι → Bytes32} {ttl : ι → UInt8}
    {σ : Mesh ι} (run : Run Cond me ttl σ) (h : ∀ σ act, Cond σ act → Cond' σ act) :
    Run Cond' me ttl σ := by
  induction run with
  | start => exact .start
  | step act _ hcond ih => exact .step act ih (h _ act hcond)

variable {G : SimpleGraph ι} {me : ι → Bytes32} {T : UInt8} {σ σ' : Mesh ι}
  {log : List (MeshEvent ι)}

omit [DecidableEq ι] in
theorem mem_ids {id : MsgId} :
    id ∈ ids log ↔ ∃ o f, .originated o f ∈ log ∧ f.msgId = id := by
  constructor
  · intro h
    obtain ⟨event, hevent, hid⟩ := List.mem_filterMap.mp h
    cases event with
    | originated o f => exact ⟨o, f, hevent, Option.some.inj hid⟩
    | accepted => exact nomatch hid
  · rintro ⟨o, f, hevent, rfl⟩
    exact List.mem_filterMap.mpr ⟨_, hevent, rfl⟩

omit [DecidableEq ι] in
theorem ids_append (log' : List (MeshEvent ι)) : ids (log ++ log') = ids log ++ ids log' :=
  List.filterMap_append ..

theorem deliveries_append (log' : List (MeshEvent ι)) (v : ι) :
    deliveries me (log ++ log') v = deliveries me log v ++ deliveries me log' v :=
  List.filterMap_append ..

omit [DecidableEq ι] in
theorem Quiet.seen (quiet : Quiet G σ) {src dst : ι} (hadj : G.Adj src dst) {id : MsgId}
    (h : σ.Carries src id) : id ∈ (σ.node dst).seenOrder := by
  obtain ⟨f, hf, rfl⟩ := h
  have hdup := quiet src dst hadj f hf
  by_contra hunseen
  rw [MeshNode.handleIncoming_of_not_mem hunseen] at hdup
  exact nomatch hdup

omit [DecidableEq ι] in
/-- In a quiet mesh a frame gets along every walk whose nodes carry it. -/
theorem Quiet.along (quiet : Quiet G σ) {id : MsgId} {u r : ι} (w : G.Walk u r)
    (hstart : id ∈ (σ.node u).seenOrder)
    (hcarries : ∀ v ∈ w.support, v ≠ r → id ∈ (σ.node v).seenOrder → σ.Carries v id) :
    id ∈ (σ.node r).seenOrder := by
  induction w with
  | nil => exact hstart
  | @cons u v r hadj w ih =>
    by_cases hu : u = r
    · rwa [← hu]
    · have hcarry := hcarries u (SimpleGraph.Walk.start_mem_support _) hu hstart
      refine ih (quiet.seen hadj hcarry) ?_
      intro x hx
      exact hcarries x (List.mem_cons_of_mem _ hx)

/-! ## 3. The ways of a frame -/

/-- `f₀` came from `o` to `v` over the simple path `q`, whose nodes still carry it; `v`
    does when `q` has left it some budget, and then it carries what is left. -/
structure Arrived (T : UInt8) (σ : Mesh ι) {o v : ι} (f₀ : MeshFrame) (q : G.Walk o v) :
    Prop where
  path : q.IsPath
  hops : q.length ≤ T.toNat
  seen : ∀ u ∈ q.support, f₀.msgId ∈ (σ.node u).seenOrder
  carried : ∀ u ∈ q.support, u ≠ v → σ.Carries u f₀.msgId
  budget : ∀ g ∈ (σ.node v).outbound, g.msgId = f₀.msgId → g.ttl.toNat = T.toNat - q.length
  spare : q.length < T.toNat → σ.Carries v f₀.msgId

omit [DecidableEq ι] in
/-- Nothing is lost on the way when nodes only take further frames. -/
theorem Arrived.mono {o v : ι} {f₀ : MeshFrame} {q : G.Walk o v} (h : Arrived T σ f₀ q)
    (hseen : ∀ u, ∀ id ∈ (σ.node u).seenOrder, id ∈ (σ'.node u).seenOrder)
    (hout : ∀ u, ∀ g ∈ (σ.node u).outbound, g ∈ (σ'.node u).outbound)
    (hend : ∀ g ∈ (σ'.node v).outbound, g.msgId = f₀.msgId → g ∈ (σ.node v).outbound) :
    Arrived T σ' f₀ q := by
  have hcarries : ∀ {u}, σ.Carries u f₀.msgId → σ'.Carries u f₀.msgId := by
    rintro u ⟨g, hg, hid⟩
    exact ⟨g, hout u g hg, hid⟩
  refine ⟨h.path, h.hops, ?_, ?_, ?_, ?_⟩
  · intro u hu
    exact hseen u _ (h.seen u hu)
  · intro u hu hne
    exact hcarries (h.carried u hu hne)
  · intro g hg hid
    exact h.budget g (hend g hg hid) hid
  · intro hlt
    exact hcarries (h.spare hlt)

structure FloodInv (G : SimpleGraph ι) (me : ι → Bytes32) (T : UInt8) (σ : Mesh ι) : Prop where
  kept : ∀ v, (σ.node v).Kept (ids σ.log)
  air : ∀ v f, (v, f) ∈ σ.air → f ∈ (σ.node v).outbound
  home : ∀ o f₀, .originated o f₀ ∈ σ.log → f₀.msgId ∈ (σ.node o).seenOrder
  arrived : ∀ o f₀, .originated o f₀ ∈ σ.log → ∀ v, f₀.msgId ∈ (σ.node v).seenOrder →
    ∃ q : G.Walk o v, Arrived T σ f₀ q
  delivered_seen : ∀ v, ∀ g ∈ deliveries me σ.log v, g.msgId ∈ (σ.node v).seenOrder
  once : ∀ v, ((deliveries me σ.log v).map MeshFrame.msgId).Nodup
  delivered : ∀ o f₀, .originated o f₀ ∈ σ.log → ∀ v, v ≠ o → f₀.recipient = me v →
    f₀.msgId ∈ (σ.node v).seenOrder → ∃ g ∈ deliveries me σ.log v, g.msgId = f₀.msgId
  inbox : ∀ v, (σ.node v).inbox = (deliveries me σ.log v).map MeshFrame.payload

/-! ## 4. A node takes a frame -/

section Take

variable {i : ι} {n' : MeshNode} {id : MsgId} {kept : List MeshFrame}

theorem seen_setNode (takes : (σ.node i).Takes n' id kept) {v : ι} {x : MsgId} :
    x ∈ ((σ.setNode i n').node v).seenOrder ↔ x ∈ (σ.node v).seenOrder ∨ (v = i ∧ x = id) := by
  by_cases hv : v = i
  · subst hv
    rw [node_setNode_self, takes.seen, List.mem_append, List.mem_singleton]
    simp only [true_and]
  · rw [node_setNode_of_ne _ hv]
    exact (or_iff_left fun h => hv h.1).symm

theorem outbound_setNode (takes : (σ.node i).Takes n' id kept) {v : ι} {g : MeshFrame} :
    g ∈ ((σ.setNode i n').node v).outbound ↔
      g ∈ (σ.node v).outbound ∨ (v = i ∧ g ∈ kept) := by
  by_cases hv : v = i
  · subst hv
    rw [node_setNode_self, takes.outbound, List.mem_append]
    simp only [true_and]
  · rw [node_setNode_of_ne _ hv]
    exact (or_iff_left fun h => hv h.1).symm

theorem Arrived.take {o v : ι} {f₀ : MeshFrame} {q : G.Walk o v} (h : Arrived T σ f₀ q)
    (takes : (σ.node i).Takes n' id kept) (log' : List (MeshEvent ι)) :
    Arrived T { σ.setNode i n' with log := log' } f₀ q := by
  refine h.mono ?_ ?_ ?_
  · intro u x hx
    exact (seen_setNode takes).mpr (Or.inl hx)
  · intro u g hg
    exact (outbound_setNode takes).mpr (Or.inl hg)
  · intro g hg hid
    rcases (outbound_setNode takes).mp hg with hg | ⟨rfl, hkept⟩
    · exact hg
    · have hseen := h.seen v q.end_mem_support
      rw [← hid, takes.same_id g hkept] at hseen
      exact absurd hseen takes.unseen

theorem kept_setNode {log' : List (MeshEvent ι)} (inv : FloodInv G me T σ)
    (takes : (σ.node i).Takes n' id kept) (hids : ∀ x ∈ ids σ.log, x ∈ ids log')
    (hid : id ∈ ids log') : ∀ v, ((σ.setNode i n').node v).Kept (ids log') :=
  nodes_setNode (fun v => (inv.kept v).mono hids) (((inv.kept i).mono hids).takes takes hid)

end Take

theorem floodInv_originate (inv : FloodInv G me T σ) (base : Inv me (fun _ => T) σ) {i : ι}
    {msgId : MsgId} {recipient : Bytes32} {payload : Bytes}
    (room : (ids σ.log).length < STORE_CAP)
    (hfresh : ∀ j f, .originated j f ∈ σ.log → f.msgId ≠ msgId) :
    FloodInv G me T (σ.step (.originate i msgId recipient payload)) := by
  have hnew : msgId ∉ ids σ.log := by
    intro h
    obtain ⟨o, f, hf, hid⟩ := mem_ids.mp h
    exact hfresh o f hf hid
  have hunseen : ∀ v, msgId ∉ (σ.node v).seenOrder := fun v h =>
    hnew ((inv.kept v).seen_mem _ h)
  have takes := (inv.kept i).originate room (hunseen i) recipient payload
  have hinbox : ((σ.node i).originate msgId recipient payload).2.inbox = (σ.node i).inbox := by
    simp only [MeshNode.originate, MeshNode.storeFrame_inbox, MeshNode.markSeen_inbox]
  have hid : ((σ.node i).originate msgId recipient payload).1.msgId = msgId := rfl
  have httl : ((σ.node i).originate msgId recipient payload).1.ttl = T :=
    (base.nodes i).sameTtl
  rw [step]
  generalize (σ.node i).originate msgId recipient payload = originated at *
  obtain ⟨frame, n'⟩ := originated
  dsimp only at takes hinbox hid httl ⊢
  have hlog : ∀ {o f₀}, .originated o f₀ ∈ σ.log ++ [.originated i frame] →
      .originated o f₀ ∈ σ.log ∨ (o = i ∧ f₀ = frame) := by
    intro o f₀ h
    rcases List.mem_append.mp h with h | h
    · exact Or.inl h
    · obtain ⟨rfl, rfl⟩ := MeshEvent.originated.inj (List.mem_singleton.mp h)
      exact Or.inr ⟨rfl, rfl⟩
  have hdeliveries : ∀ v, deliveries me (σ.log ++ [.originated i frame]) v
      = deliveries me σ.log v := by
    intro v
    rw [deliveries_append]
    exact List.append_nil _
  refine ⟨?_, ?_, ?_, ?_, ?_, ?_, ?_, ?_⟩
  · refine kept_setNode inv takes ?_ ?_
    · intro x hx
      rw [ids_append]
      exact List.mem_append_left _ hx
    · exact mem_ids.mpr ⟨i, frame, List.mem_append_right _ (List.mem_singleton_self _), hid⟩
  · intro v f hf
    exact (outbound_setNode takes).mpr (Or.inl (inv.air v f hf))
  · intro o f₀ h
    rcases hlog h with h | ⟨rfl, rfl⟩
    · exact (seen_setNode takes).mpr (Or.inl (inv.home o f₀ h))
    · exact (seen_setNode takes).mpr (Or.inr ⟨rfl, hid⟩)
  · intro o f₀ h v hseen
    rcases hlog h with h | ⟨rfl, rfl⟩
    · rcases (seen_setNode takes).mp hseen with hseen | ⟨-, hid'⟩
      · obtain ⟨q, arrived⟩ := inv.arrived o f₀ h v hseen
        exact ⟨q, arrived.take takes _⟩
      · exact absurd hid' (hfresh o f₀ h)
    · rcases (seen_setNode takes).mp hseen with hseen | ⟨rfl, -⟩
      · exact absurd (hid ▸ hseen) (hunseen v)
      · refine ⟨.nil, .nil, Nat.zero_le _, ?_, ?_, ?_, ?_⟩
        · intro u hu
          rw [List.mem_singleton.mp hu]
          exact hseen
        · intro u hu hne
          exact absurd (List.mem_singleton.mp hu) hne
        · intro g hg hgid
          rcases (outbound_setNode takes).mp hg with hg | ⟨-, hg⟩
          · have := (inv.kept v).outbound_seen hg
            rw [hgid, hid] at this
            exact absurd this (hunseen v)
          · rw [List.mem_singleton.mp hg, httl]
            rfl
        · intro _
          exact ⟨f₀, (outbound_setNode takes).mpr (Or.inr ⟨rfl, List.mem_singleton_self _⟩), rfl⟩
  · intro v g hg
    rw [hdeliveries] at hg
    exact (seen_setNode takes).mpr (Or.inl (inv.delivered_seen v g hg))
  · intro v
    rw [hdeliveries]
    exact inv.once v
  · intro o f₀ h v hne hrec hseen
    rw [hdeliveries]
    rcases hlog h with h | ⟨rfl, rfl⟩
    · rcases (seen_setNode takes).mp hseen with hseen | ⟨-, hid'⟩
      · exact inv.delivered o f₀ h v hne hrec hseen
      · exact absurd hid' (hfresh o f₀ h)
    · rcases (seen_setNode takes).mp hseen with hseen | ⟨hv, -⟩
      · exact absurd (hid ▸ hseen) (hunseen v)
      · exact absurd hv hne
  · simp only [hdeliveries]
    exact nodes_setNode (P := fun v n => n.inbox = (deliveries me σ.log v).map MeshFrame.payload)
      inv.inbox (hinbox.trans (inv.inbox i))

omit [DecidableEq ι] in
/-- The way of a copy that `dst` takes from its neighbour `src`. -/
theorem Arrived.concat {o src dst : ι} {f₀ f : MeshFrame} {q : G.Walk o src}
    (h : Arrived T σ f₀ q) (hadj : G.Adj src dst) (hf : f ∈ (σ.node src).outbound)
    (hid : f.msgId = f₀.msgId) (halive : 0 < f.ttl.toNat)
    (hunseen : f₀.msgId ∉ (σ.node dst).seenOrder)
    (hseen : ∀ u, ∀ id ∈ (σ.node u).seenOrder, id ∈ (σ'.node u).seenOrder)
    (hout : ∀ u, ∀ g ∈ (σ.node u).outbound, g ∈ (σ'.node u).outbound)
    (hdst : f₀.msgId ∈ (σ'.node dst).seenOrder)
    (hkeeps : ∀ g, g.msgId = f₀.msgId →
      (g ∈ (σ'.node dst).outbound ↔ 0 < f.onward.ttl ∧ g = f.onward)) :
    Arrived T σ' f₀ (q.concat hadj) := by
  have hspare := h.budget f hf hid
  have honward := f.toNat_onward
  have hlen : (q.concat hadj).length = q.length + 1 := q.length_concat hadj
  have hsupport : ∀ {u}, u ∈ (q.concat hadj).support → u ∈ q.support ∨ u = dst := by
    intro u hu
    rw [q.support_concat] at hu
    exact (List.mem_append.mp hu).imp_right List.mem_singleton.mp
  have hcarries : ∀ {u}, σ.Carries u f₀.msgId → σ'.Carries u f₀.msgId := by
    rintro u ⟨g, hg, hgid⟩
    exact ⟨g, hout u g hg, hgid⟩
  refine ⟨?_, ?_, ?_, ?_, ?_, ?_⟩
  · exact h.path.concat (fun hmem => hunseen (h.seen dst hmem)) hadj
  · omega
  · intro u hu
    rcases hsupport hu with hu | rfl
    · exact hseen u _ (h.seen u hu)
    · exact hdst
  · intro u hu hne
    have hu' := (hsupport hu).resolve_right hne
    by_cases hsrc : u = src
    · subst hsrc
      exact hcarries ⟨f, hf, hid⟩
    · exact hcarries (h.carried u hu' hsrc)
  · intro g hg hgid
    rw [((hkeeps g hgid).mp hg).2]
    omega
  · intro hlt
    refine ⟨f.onward, (hkeeps f.onward hid).mpr ⟨UInt8.lt_iff_toNat_lt.mpr ?_, rfl⟩, hid⟩
    show 0 < f.onward.ttl.toNat
    omega

theorem floodInv_receive (inv : FloodInv G me T σ) (base : Inv me (fun _ => T) σ)
    (room : (ids σ.log).length < STORE_CAP) {src dst : ι} (hadj : G.Adj src dst)
    (f : MeshFrame) : FloodInv G me T (σ.step (.receive src dst f)) := by
  rw [step]
  split
  case isFalse => exact inv
  rename_i hair
  by_cases hunseen : f.msgId ∈ (σ.node dst).seenOrder
  · rw [MeshNode.handleIncoming_of_mem hunseen]
    have hsame : σ.setNode dst (σ.node dst) = σ := by
      rw [setNode, Function.update_eq_self]
    show FloodInv G me T (σ.setNode dst (σ.node dst))
    rwa [hsame]
  have hf := inv.air src f hair
  obtain ⟨halive, path, g₀, hwalk⟩ := base.air src f hair
  obtain ⟨o', -, horigin⟩ := hwalk.originated
  obtain ⟨hid', hrec', -⟩ := hwalk.same
  have takes := (inv.kept dst).handleIncoming room hunseen
  have hinbox := MeshNode.handleIncoming_inbox hunseen
  have hres := MeshNode.handleIncoming_of_not_mem hunseen
  generalize (σ.node dst).handleIncoming f = handled at *
  obtain ⟨reception, n'⟩ := handled
  obtain rfl := congrArg Prod.fst hres
  clear hres
  dsimp only at takes hinbox ⊢
  have hlog : ∀ {o f₀}, .originated o f₀ ∈ σ.log ++ [.accepted src dst f] →
      .originated o f₀ ∈ σ.log := by
    intro o f₀ h
    exact (List.mem_append.mp h).resolve_right (by simp)
  have hdeliveries : ∀ v, deliveries me (σ.log ++ [.accepted src dst f]) v
      = deliveries me σ.log v ++ if dst = v ∧ f.recipient = me v then [f] else [] := by
    intro v
    rw [deliveries_append]
    by_cases h : dst = v ∧ f.recipient = me v
    · rw [if_pos h]
      simp only [deliveries, List.filterMap_cons, if_pos h, List.filterMap_nil]
    · rw [if_neg h]
      simp only [deliveries, List.filterMap_cons, if_neg h, List.filterMap_nil]
  refine ⟨?_, ?_, ?_, ?_, ?_, ?_, ?_, ?_⟩
  · refine kept_setNode inv takes ?_ ?_
    · intro x hx
      rw [ids_append]
      exact List.mem_append_left _ hx
    · exact mem_ids.mpr ⟨o', g₀, List.mem_append_left _ horigin, hid'.symm⟩
  · intro v g hg
    exact (outbound_setNode takes).mpr (Or.inl (inv.air v g hg))
  · intro o f₀ h
    exact (seen_setNode takes).mpr (Or.inl (inv.home o f₀ (hlog h)))
  · intro o f₀ h v hseen
    rcases (seen_setNode takes).mp hseen with hseen | ⟨rfl, hid⟩
    · obtain ⟨q, arrived⟩ := inv.arrived o f₀ (hlog h) v hseen
      exact ⟨q, arrived.take takes _⟩
    · obtain ⟨q, arrived⟩ := inv.arrived o f₀ (hlog h) src
        (hid ▸ (inv.kept src).outbound_seen hf)
      refine ⟨_, arrived.concat hadj hf hid.symm halive (hid ▸ hunseen) ?_ ?_ hseen ?_⟩
      · intro u x hx
        exact (seen_setNode takes).mpr (Or.inl hx)
      · intro u g hg
        exact (outbound_setNode takes).mpr (Or.inl hg)
      · intro g hg
        refine (outbound_setNode takes).trans ?_
        constructor
        · rintro (hold | ⟨-, hkept⟩)
          · have hmem := (inv.kept v).outbound_seen hold
            rw [hg, hid] at hmem
            exact absurd hmem hunseen
          · split at hkept
            · rename_i hpos
              exact ⟨hpos, List.mem_singleton.mp hkept⟩
            · cases hkept
        · rintro ⟨hpos, rfl⟩
          rw [if_pos hpos]
          exact Or.inr ⟨rfl, List.mem_singleton_self _⟩
  · intro v g hg
    rw [hdeliveries] at hg
    rcases List.mem_append.mp hg with hg | hg
    · exact (seen_setNode takes).mpr (Or.inl (inv.delivered_seen v g hg))
    · split at hg
      · rename_i hv
        rw [List.mem_singleton.mp hg]
        exact (seen_setNode takes).mpr (Or.inr ⟨hv.1.symm, rfl⟩)
      · cases hg
  · intro v
    rw [hdeliveries]
    split
    · rename_i hv
      rw [List.map_append]
      refine List.nodup_append_comm.mp (List.nodup_cons.mpr ⟨?_, inv.once v⟩)
      intro hmem
      obtain ⟨g, hg, hgid⟩ := List.mem_map.mp hmem
      have hseen := inv.delivered_seen v g hg
      rw [hgid, ← hv.1] at hseen
      exact hunseen hseen
    · rw [List.append_nil]
      exact inv.once v
  · intro o f₀ h v hne hrec hseen
    rw [hdeliveries]
    rcases (seen_setNode takes).mp hseen with hseen | ⟨rfl, hid⟩
    · obtain ⟨g, hg, hgid⟩ := inv.delivered o f₀ (hlog h) v hne hrec hseen
      exact ⟨g, List.mem_append_left _ hg, hgid⟩
    · obtain ⟨-, rfl⟩ := base.ids o o' f₀ g₀ (hlog h) horigin (hid.trans hid')
      rw [if_pos ⟨rfl, hrec'.trans hrec⟩]
      exact ⟨f, List.mem_append_right _ (List.mem_singleton_self _), hid.symm⟩
  · intro v
    rw [hdeliveries, List.map_append, ← inv.inbox v]
    by_cases hv : v = dst
    · subst hv
      show ((σ.setNode v n').node v).inbox = _
      rw [node_setNode_self, hinbox, (base.nodes v).sameMe]
      by_cases hrec : f.recipient = me v
      · rw [if_pos hrec, if_pos ⟨rfl, hrec⟩]
        rfl
      · rw [if_neg hrec, if_neg fun h => hrec h.2]
        exact (List.append_nil _).symm
    · show ((σ.setNode dst n').node v).inbox = _
      rw [node_setNode_of_ne _ hv, if_neg fun h => hv h.1.symm]
      exact (List.append_nil _).symm

theorem floodInv_start : FloodInv G me T (start me fun _ => T) where
  kept _ := ⟨List.nodup_nil, List.forall_mem_nil _, List.forall_mem_nil _⟩
  air _ _ h := nomatch h
  home _ _ h := nomatch h
  arrived _ _ h := nomatch h
  delivered_seen _ _ h := nomatch h
  once _ := List.nodup_nil
  delivered _ _ h := nomatch h
  inbox _ := rfl

theorem length_ids_le_step (act : MeshAct ι) :
    (ids σ.log).length ≤ (ids (σ.step act).log).length := by
  have happend : ∀ event, (ids σ.log).length ≤ (ids (σ.log ++ [event])).length := by
    intro event
    rw [ids_append, List.length_append]
    exact Nat.le_add_right _ _
  cases act with
  | originate => exact happend _
  | receive src dst f =>
    rw [step]
    split
    · dsimp only
      split
      · exact Nat.le_refl _
      · exact happend _
    · exact Nat.le_refl _
  | offer =>
    rw [step]
    split <;> exact Nat.le_refl _
  | takeInbox | forget | drop => exact Nat.le_refl _

theorem floodInv_run (hT : 1 ≤ T) (run : Run (Contact G) me (fun _ => T) σ)
    (room : (ids σ.log).length < STORE_CAP) : FloodInv G me T σ := by
  induction run with
  | start => exact floodInv_start
  | @step σ act run hcontact ih =>
    have room' := Nat.lt_of_le_of_lt (length_ids_le_step act) room
    have inv := ih room'
    have base := inv_run (fun _ => hT) (run.mono fun _ _ h => h.1)
    obtain ⟨hfresh, hact⟩ := hcontact
    cases act with
    | originate => exact floodInv_originate inv base room' hfresh
    | receive src dst f => exact floodInv_receive inv base room' hact f
    | offer src f =>
      rw [step]
      split
      · rename_i hout
        refine ⟨inv.kept, ?_, inv.home, ?_, inv.delivered_seen, inv.once, inv.delivered, inv.inbox⟩
        · intro v g hg
          rcases List.mem_append.mp hg with hg | hg
          · exact inv.air v g hg
          · obtain ⟨rfl, rfl⟩ := Prod.mk.inj (List.mem_singleton.mp hg)
            exact hout
        · intro o f₀ h v hseen
          obtain ⟨q, arrived⟩ := inv.arrived o f₀ h v hseen
          exact ⟨q, arrived.mono (fun _ _ h => h) (fun _ _ h => h) fun _ h _ => h⟩
      · exact inv
    | takeInbox | forget | drop => exact hact.elim

/-! ## 5. Who is reached -/

/-- The payloads that entered the inbox of `r` under an id. -/
def received (me : ι → Bytes32) (log : List (MeshEvent ι)) (r : ι) (id : MsgId) : List Bytes :=
  ((deliveries me log r).filter fun g => g.msgId = id).map MeshFrame.payload

/-- A simple path from `o` to `v` that uses up the whole budget before it meets `r`. -/
def Exhausts (G : SimpleGraph ι) (T : UInt8) (o r v : ι) : Prop :=
  ∃ p : G.Walk o v, p.IsPath ∧ p.length = T.toNat ∧ r ∉ p.support

theorem filter_of_nodup_ids {l : List MeshFrame} (h : (l.map MeshFrame.msgId).Nodup)
    {g : MeshFrame} (hg : g ∈ l) : l.filter (fun f => f.msgId = g.msgId) = [g] := by
  induction l with
  | nil => exact nomatch hg
  | cons e l ih =>
    obtain ⟨hnot, hrest⟩ := List.nodup_cons.mp h
    by_cases heg : e = g
    · subst heg
      have hnone : l.filter (fun f => f.msgId = e.msgId) = [] := by
        apply List.filter_eq_nil_iff.mpr
        intro f hf hid
        exact hnot (of_decide_eq_true hid ▸ List.mem_map_of_mem hf)
      rw [List.filter_cons_of_pos (by simp), hnone]
    · have hmem := (List.mem_cons.mp hg).resolve_left (Ne.symm heg)
      have hid : e.msgId ≠ g.msgId := fun hid => hnot (hid ▸ List.mem_map_of_mem hmem)
      rw [List.filter_cons_of_neg (by simpa using hid)]
      exact ih hrest hmem

section Reached

variable {o r : ι} {f : MeshFrame}

/-- A frame for `r` has entered its inbox exactly when `r` has seen it. -/
theorem received_eq (inv : FloodInv G me T σ) (base : Inv me (fun _ => T) σ)
    (horigin : .originated o f ∈ σ.log) (hr : r ≠ o) (hrec : f.recipient = me r) :
    received me σ.log r f.msgId
      = if f.msgId ∈ (σ.node r).seenOrder then [f.payload] else [] := by
  rw [received]
  split
  · rename_i hseen
    obtain ⟨g, hg, hid⟩ := inv.delivered o f horigin r hr hrec hseen
    rw [← hid, filter_of_nodup_ids (inv.once r) hg]
    obtain ⟨event, hevent, hsome⟩ := List.mem_filterMap.mp hg
    cases event with
    | originated => exact nomatch hsome
    | accepted src dst g' =>
      dsimp only at hsome
      split at hsome
      · obtain rfl := Option.some.inj hsome
        obtain ⟨-, path, g₀, hwalk⟩ := base.accepted src dst g' hevent
        obtain ⟨o', -, horigin'⟩ := hwalk.originated
        obtain ⟨hid', -, hpay⟩ := hwalk.same
        obtain ⟨-, rfl⟩ := base.ids o' o g₀ f horigin' horigin (hid'.symm.trans hid)
        rw [List.map_singleton, hpay]
      · exact nomatch hsome
  · rename_i hunseen
    have hnone : (deliveries me σ.log r).filter (fun g => g.msgId = f.msgId) = [] := by
      apply List.filter_eq_nil_iff.mpr
      intro g hg hid
      exact hunseen (of_decide_eq_true hid ▸ inv.delivered_seen r g hg)
    rw [hnone]
    rfl

/-- Whoever has seen a frame was reached by nodes that still carry it. -/
theorem FloodInv.carriers (inv : FloodInv G me T σ) (horigin : .originated o f ∈ σ.log)
    (hseen : f.msgId ∈ (σ.node r).seenOrder) :
    ∃ w : G.Walk o r, ∀ v ∈ w.support, v ≠ r → σ.Carries v f.msgId := by
  obtain ⟨q, arrived⟩ := inv.arrived o f horigin r hseen
  exact ⟨q, arrived.carried⟩

/-- A node that has seen a frame before `r` has, and that no exhausting path leads to,
    carries it. -/
theorem FloodInv.carries (inv : FloodInv G me T σ) (hT : 1 ≤ T)
    (horigin : .originated o f ∈ σ.log) (hunseen : f.msgId ∉ (σ.node r).seenOrder) {v : ι}
    (hv : v ≠ o → ¬Exhausts G T o r v) (hseen : f.msgId ∈ (σ.node v).seenOrder) :
    σ.Carries v f.msgId := by
  obtain ⟨q, arrived⟩ := inv.arrived o f horigin v hseen
  apply arrived.spare
  refine Nat.lt_of_le_of_ne arrived.hops ?_
  intro hlen
  by_cases ho : v = o
  · subst ho
    rw [(SimpleGraph.Walk.isPath_iff_nil.mp arrived.path).length_eq_zero] at hlen
    have hpos : 1 ≤ T.toNat := UInt8.le_iff_toNat_le.mp hT
    omega
  · exact hv ho ⟨q, arrived.path, hlen, fun hr => hunseen (arrived.seen r hr)⟩

/-- A frame enters its recipient's inbox at most once.  In a quiet mesh it has entered it
    exactly when a walk of nodes that carry it leads there; and whatever the order of the
    offers, one does if on some walk no node in between can be exhausted. -/
theorem quiet_delivers (hT : 1 ≤ T) (run : Run (Contact G) me (fun _ => T) σ)
    (room : (ids σ.log).length < STORE_CAP) (horigin : .originated o f ∈ σ.log) (hr : r ≠ o)
    (hrec : f.recipient = me r) :
    (σ.node r).inbox = (deliveries me σ.log r).map MeshFrame.payload ∧
    (received me σ.log r f.msgId = [] ∨ received me σ.log r f.msgId = [f.payload]) ∧
    (Quiet G σ →
      (received me σ.log r f.msgId = [f.payload] ↔
        ∃ w : G.Walk o r, ∀ v ∈ w.support, v ≠ r → σ.Carries v f.msgId) ∧
      ((∃ w : G.Walk o r, ∀ v ∈ w.support, v ≠ o → v ≠ r → ¬Exhausts G T o r v) →
        received me σ.log r f.msgId = [f.payload])) := by
  have inv := floodInv_run hT run room
  have base := inv_run (fun _ => hT) (run.mono fun _ _ h => h.1)
  have hreceived := received_eq inv base horigin hr hrec
  have hstart := inv.home o f horigin
  refine ⟨inv.inbox r, ?_, ?_⟩
  · rw [hreceived]
    split
    · exact Or.inr rfl
    · exact Or.inl rfl
  · intro quiet
    rw [hreceived]
    refine ⟨⟨?_, ?_⟩, ?_⟩
    · intro h
      split at h
      · rename_i hseen
        exact inv.carriers horigin hseen
      · exact nomatch h
    · rintro ⟨w, hw⟩
      exact if_pos (quiet.along w hstart fun v hv hne _ => hw v hv hne)
    · rintro ⟨w, hw⟩
      apply if_pos
      by_contra hunseen
      refine hunseen (quiet.along w hstart ?_)
      intro v hv hne hseen
      exact inv.carries hT horigin hunseen (fun ho => hw v hv ho hne) hseen

omit [DecidableEq ι] in
/-- A budget of all the other nodes is never used up on the way. -/
theorem not_exhausts_of_card [Fintype ι] (hcard : Fintype.card ι ≤ T.toNat + 1) {v : ι} :
    ¬Exhausts G T o r v := by
  rintro ⟨p, hpath, hlen, hr⟩
  have hnodup : (r :: p.support).Nodup := List.nodup_cons.mpr ⟨hr, hpath.support_nodup⟩
  have hle := hnodup.length_le_card
  rw [List.length_cons, p.length_support] at hle
  omega

end Reached

section Sample

def ofEdges {n : Nat} (edges : List (Fin n × Fin n)) : SimpleGraph (Fin n) where
  Adj a b := a ≠ b ∧ ((a, b) ∈ edges ∨ (b, a) ∈ edges)
  symm := ⟨fun _ _ h => ⟨h.1.symm, h.2.symm⟩⟩

instance {n : Nat} (edges : List (Fin n × Fin n)) : DecidableRel (ofEdges edges).Adj :=
  fun a b => inferInstanceAs (Decidable (a ≠ b ∧ ((a, b) ∈ edges ∨ (b, a) ∈ edges)))

instance {n : Nat} (edges : List (Fin n × Fin n)) (σ : Mesh (Fin n)) :
    Decidable (Quiet (ofEdges edges) σ) :=
  inferInstanceAs (Decidable (∀ src dst, (ofEdges edges).Adj src dst →
    ∀ f ∈ (σ.node src).outbound, ((σ.node dst).handleIncoming f).1 = .duplicate))

/-- The payload carried down a line arrives. -/
theorem quiet_delivers_line : Quiet (ofEdges [(0, 1), (1, 2)]) carriedMesh ∧
    received (fun i : Fin 3 => .ofByte (.ofNat i.val)) carriedMesh.log 2 (Vector.replicate 16 7)
      = [[42]] := by
  have hquiet : Quiet (ofEdges [(0, 1), (1, 2)]) carriedMesh := by decide +kernel
  have hrun : Run (Contact (ofEdges [(0, 1), (1, 2)])) (fun i : Fin 3 => .ofByte (.ofNat i.val))
      (fun _ => 2) carriedMesh := by
    apply Run.along .start
    refine ⟨⟨?_, trivial⟩, ⟨trivial, trivial⟩, ⟨trivial, ?_⟩, ⟨trivial, trivial⟩,
      ⟨trivial, ?_⟩, trivial⟩
    · intro _ _ h
      exact nomatch h
    all_goals decide
  have hmem : .originated 0 ⟨Vector.replicate 16 7, .ofByte 2, 2, [42]⟩ ∈ carriedMesh.log :=
    List.mem_cons_self ..
  refine ⟨hquiet, ((quiet_delivers (by decide) hrun (by decide) hmem (by decide) rfl).2.2
    hquiet).2 ?_⟩
  refine ⟨.cons (v := 1) (by decide) (.cons (by decide) .nil), ?_⟩
  intro v _ _ _
  exact not_exhausts_of_card (by decide)

/-- The frame of the first node reaches the third over the second, with nothing left. -/
def detour : List (MeshAct (Fin 4)) :=
  let frame : MeshFrame := ⟨Vector.replicate 16 7, .ofByte 3, 2, [42]⟩
  [.originate 0 frame.msgId frame.recipient frame.payload, .offer 0 frame, .receive 0 1 frame,
    .offer 1 frame.onward, .receive 1 2 frame.onward]

def detourMesh : Mesh (Fin 4) :=
  detour.foldl step (start (fun i => .ofByte (.ofNat i.val)) fun _ => 2)

/-- The recipient is two hops away over the third node, which took its copy the long way
    round: nobody offers anything any more, and the recipient has got nothing. -/
theorem detour_starves_recipient :
    let G := ofEdges [(0, 1), (1, 2), (0, 2), (2, 3)]
    let me := fun i : Fin 4 => Bytes32.ofByte (.ofNat i.val)
    let frame : MeshFrame := ⟨Vector.replicate 16 7, .ofByte 3, 2, [42]⟩
    Function.Injective me ∧ Run (Contact G) me (fun _ => 2) detourMesh ∧
      (ids detourMesh.log).length < STORE_CAP ∧ .originated 0 frame ∈ detourMesh.log ∧
      frame.recipient = me 3 ∧ G.Reachable 0 3 ∧ G.dist 0 3 ≤ 2 ∧ Quiet G detourMesh ∧
      received me detourMesh.log 3 frame.msgId = [] ∧ (detourMesh.node 3).inbox = [] := by
  intro G me frame
  have hwalk : ∃ w : G.Walk 0 3, w.length = 2 :=
    ⟨.cons (v := 2) (by decide) (.cons (by decide) .nil), rfl⟩
  obtain ⟨w, hw⟩ := hwalk
  refine ⟨by decide +kernel, ?_, by decide, List.mem_cons_self .., rfl, ⟨w⟩, ?_,
    by decide +kernel, by decide +kernel, by decide +kernel⟩
  · apply Run.along .start
    refine ⟨⟨?_, trivial⟩, ⟨trivial, trivial⟩, ⟨trivial, ?_⟩, ⟨trivial, trivial⟩,
      ⟨trivial, ?_⟩, trivial⟩
    · intro _ _ h
      exact nomatch h
    all_goals decide
  · exact hw ▸ G.dist_le w

end Sample

end Mesh

end Clarity
