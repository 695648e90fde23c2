/-
  Clarity/Rounds.lean
  ===================
  **Gossip in rounds.**  All nodes offer what they store at the start of a round, along
  every edge of a graph, in some order; this is how the tests of `mesh/src/lib.rs` drive
  the nodes (`gossip_round`).

  In step with the rounds a frame spreads like a breadth-first search: a node first hears
  of it from nodes that are one hop closer to its origin, and all of them offer the same
  copy.  How far it gets is then a matter of distance alone.

    * `Status`, `knows_round` — what a node at some distance knows after some rounds;
    * `gossip_reaches_ball` — who has accepted the frame, how often, and what is stored.
-/
import Clarity.MeshTables
import Mathlib.Combinatorics.SimpleGraph.Hasse
import Mathlib.Combinatorics.SimpleGraph.Metric

namespace Clarity

/-! ## 1. Distances -/

namespace Hops

variable {ι : Type} {G : SimpleGraph ι} {o u v : ι}

theorem edist_adj_le (h : G.Adj u v) : G.edist o v ≤ G.edist o u + 1 := by
  have hone : G.edist u v ≤ 1 := SimpleGraph.edist_le_one_iff_adj_or_eq.mpr (Or.inl h)
  exact le_trans SimpleGraph.edist_triangle (add_le_add_right hone _)

/-- On the way to a node at distance `d + 1` the last hop leaves one at distance `d`. -/
theorem exists_adj_edist {d : ℕ} (h : G.edist o v = (d + 1 : ℕ)) :
    ∃ u, G.Adj u v ∧ G.edist o u = d := by
  rw [SimpleGraph.edist_comm] at h
  obtain ⟨w, hw⟩ := SimpleGraph.exists_walk_of_edist_eq_coe h
  cases w with
  | nil => exact nomatch hw
  | cons hadj p =>
    rename_i u
    refine ⟨u, hadj.symm, ?_⟩
    have hlen : p.length = d := Nat.succ.inj hw
    rw [SimpleGraph.edist_comm]
    apply le_antisymm
    · rw [← hlen]
      exact SimpleGraph.edist_le p
    · have hfar : G.edist o v ≤ G.edist o u + 1 := edist_adj_le hadj.symm
      rw [SimpleGraph.edist_comm, h, SimpleGraph.edist_comm, Nat.cast_add, Nat.cast_one] at hfar
      exact (ENat.add_le_add_iff_right ENat.one_ne_top).mp hfar

end Hops

/-! ## 2. Rounds -/

/-- The nodes, and who has accepted which ids. -/
structure Gossip (ι : Type) where
  node : ι → MeshTables
  accepted : List (ι × MsgId)

namespace Gossip

variable {ι : Type} [DecidableEq ι]

/-- A frame is offered to a node. -/
def offer (σ : Gossip ι) (offered : ι × MeshFrame) : Gossip ι :=
  let handled := (σ.node offered.1).handleIncoming offered.2
  { node := Function.update σ.node offered.1 handled.2
    accepted := match handled.1 with
      | .duplicate => σ.accepted
      | .accepted _ _ => σ.accepted ++ [(offered.1, offered.2.msgId)] }

/-- What is offered along the edges, both ways. -/
def offers (outbound : ι → List MeshFrame) (edges : List (ι × ι)) : List (ι × MeshFrame) :=
  edges.flatMap fun e =>
    (outbound e.1).map (fun frame => (e.2, frame)) ++
      (outbound e.2).map fun frame => (e.1, frame)

/-- `gossip_round`. -/
def round (σ : Gossip ι) (edges : List (ι × ι)) : Gossip ι :=
  (offers (fun i => (σ.node i).outbound) edges).foldl offer σ

/-- A new frame at one node. -/
def originate (σ : Gossip ι) (o : ι) (msgId : MsgId) (recipient : Bytes32) (payload : Bytes) :
    Gossip ι :=
  let originated := (σ.node o).originate msgId recipient payload
  { σ with node := Function.update σ.node o originated.2 }

/-- The edges of a graph, in some order and each in some direction. -/
def Lists (G : SimpleGraph ι) (edges : List (ι × ι)) : Prop :=
  ∀ a b, G.Adj a b ↔ (a, b) ∈ edges ∨ (b, a) ∈ edges

/-- The caps of the node are not reached by the frame. -/
def HasRoom (n : MeshTables) (id : MsgId) : Prop :=
  id ∉ n.seen → n.seenOrder.length < SEEN_CAP ∧ n.storeOrder.length < STORE_CAP

/-- Nor by any of these offers. -/
def RoomFor : Gossip ι → List (ι × MeshFrame) → Prop
  | _, [] => True
  | σ, offered :: rest => HasRoom (σ.node offered.1) offered.2.msgId ∧ RoomFor (σ.offer offered) rest

def RoomForRounds : Gossip ι → List (List (ι × ι)) → Prop
  | _, [] => True
  | σ, edges :: rest =>
    σ.RoomFor (offers (fun i => (σ.node i).outbound) edges) ∧ RoomForRounds (σ.round edges) rest

instance (n : MeshTables) (id : MsgId) : Decidable (HasRoom n id) :=
  inferInstanceAs (Decidable (_ → _))

instance decidableRoomFor : ∀ (σ : Gossip ι) offers, Decidable (σ.RoomFor offers)
  | _, [] => isTrue trivial
  | σ, offered :: rest =>
    have := decidableRoomFor (σ.offer offered) rest
    inferInstanceAs (Decidable (_ ∧ _))

instance decidableRoomForRounds : ∀ (σ : Gossip ι) rounds, Decidable (σ.RoomForRounds rounds)
  | _, [] => isTrue trivial
  | σ, edges :: rest =>
    have := decidableRoomForRounds (σ.round edges) rest
    inferInstanceAs (Decidable (_ ∧ _))

end Gossip

/-! ## 3. A node with room -/

namespace MeshTables

variable {n : MeshTables} {frame : MeshFrame}

theorem push_of_room {cap : Nat} {q : List MsgId} {id : MsgId} (h : q.length < cap) (i : MsgId) :
    i ∈ Fifo.push cap q id ↔ i ∈ q ∨ i = id := by
  rw [Fifo.push]
  split
  · rename_i hmem
    constructor
    · exact Or.inl
    · rintro (hi | rfl)
      · exact hi
      · exact hmem
  · have hroom : ¬ (q ++ [id]).length > cap := by
      rw [List.length_append, List.length_singleton]
      exact Nat.not_lt.mpr h
    rw [Fifo.enqueue, if_neg hroom, List.mem_append, List.mem_singleton]

theorem lookup_storeFrame_of_room (inv : Inv n) (h : n.storeOrder.length < STORE_CAP)
    (i : MsgId) : (n.storeFrame frame).store.lookup i =
      if i = frame.msgId then some frame else n.store.lookup i := by
  obtain ⟨store, heq, hlookup⟩ := storeFrame_cases inv frame
  rw [heq]
  refine (hlookup i).trans ?_
  by_cases hmem : i ∈ Fifo.push STORE_CAP n.storeOrder frame.msgId
  · rw [if_pos hmem]
  · obtain ⟨hold, hne⟩ := not_or.mp (mt (push_of_room h i).mpr hmem)
    have hnone := Finmap.lookup_eq_none.mpr fun h' => hold ((inv.mem_store i).mp h')
    rw [if_neg hmem, if_neg hne, hnone]

theorem mem_seen_markSeen_of_room (inv : Inv n) {id : MsgId} (h : n.seenOrder.length < SEEN_CAP)
    (i : MsgId) : i ∈ (n.markSeen id).seen ↔ i ∈ n.seen ∨ i = id := by
  rw [(inv_markSeen inv id).mem_seen, markSeen_seenOrder inv, push_of_room h, inv.mem_seen]

theorem storeFrame_seen (n : MeshTables) (frame : MeshFrame) :
    (n.storeFrame frame).seen = n.seen := by
  simp only [storeFrame]
  split
  · rfl
  · split
    · split <;> rfl
    · rfl

/-- Accepting a frame, with room for it. -/
theorem handleIncoming_of_room (inv : Inv n) (hnew : frame.msgId ∉ n.seen)
    (hseen : n.seenOrder.length < SEEN_CAP) (hstore : n.storeOrder.length < STORE_CAP)
    (i : MsgId) :
    (i ∈ (n.handleIncoming frame).2.seen ↔ i ∈ n.seen ∨ i = frame.msgId) ∧
    (n.handleIncoming frame).2.store.lookup i =
      if i = frame.msgId ∧ 0 < frame.onward.ttl then some frame.onward else n.store.lookup i := by
  obtain ⟨-, -, hmarked, horder, -⟩ := markSeen_frame n frame.msgId
  have hmark : i ∈ (n.markSeen frame.msgId).seen ↔ i ∈ n.seen ∨ i = frame.msgId :=
    mem_seen_markSeen_of_room inv hseen i
  rw [handleIncoming_of_not_mem hnew]
  by_cases hpos : 0 < frame.onward.ttl
  · simp only [hpos, and_true, if_true]
    have hinv := (inv_markSeen inv frame.msgId).withInbox
      (if frame.recipient = n.me then n.inbox ++ [frame.payload] else n.inbox)
    have hlength := lt_of_eq_of_lt (congrArg List.length horder) hstore
    have hroom := @lookup_storeFrame_of_room _ frame.onward hinv hlength i
    rw [storeFrame_seen, hroom]
    dsimp only
    rw [hmarked]
    exact ⟨hmark, rfl⟩
  · simp only [hpos, and_false, if_false]
    exact ⟨hmark, congrArg (Finmap.lookup i) hmarked⟩

end MeshTables

/-! ## 4. What a node knows -/

namespace Gossip

variable {ι : Type} {frame : MeshFrame} {d k c : ℕ} {δ : ℕ∞} {n : MeshTables}

/-- The copy of a frame that a node at distance `d` from its origin carries. -/
def copyAt (frame : MeshFrame) (d : ℕ) : MeshFrame :=
  { frame with ttl := UInt8.ofNat (frame.ttl.toNat - d) }

theorem toNat_copyAt (frame : MeshFrame) (d : ℕ) :
    (copyAt frame d).ttl.toNat = frame.ttl.toNat - d := by
  have hlt := frame.ttl.toNat_lt
  exact UInt8.toNat_ofNat_of_lt' (by change _ < 256; omega)

theorem copyAt_zero (frame : MeshFrame) : copyAt frame 0 = frame := by
  rw [copyAt, Nat.sub_zero, UInt8.ofNat_toNat]

theorem onward_copyAt (frame : MeshFrame) (d : ℕ) :
    (copyAt frame d).onward = copyAt frame (d + 1) := by
  have hnat : (copyAt frame d).onward.ttl.toNat = (copyAt frame (d + 1)).ttl.toNat := by
    rw [MeshFrame.toNat_onward, toNat_copyAt, toNat_copyAt, Nat.sub_sub]
  have httl : (copyAt frame d).onward.ttl = (copyAt frame (d + 1)).ttl :=
    UInt8.toNat_inj.mp hnat
  rw [MeshFrame.onward] at httl ⊢
  simp only [copyAt] at httl ⊢
  rw [httl]

theorem onward_copyAt_pos : 0 < (copyAt frame d).onward.ttl ↔ d + 1 < frame.ttl.toNat := by
  rw [onward_copyAt, UInt8.lt_iff_toNat_lt, toNat_copyAt, UInt8.toNat_zero]
  omega

/-- What a node at distance `δ` from the origin of `frame` knows of it after `k` rounds, and
    how often it has accepted it. -/
structure Status (frame : MeshFrame) (δ : ℕ∞) (k : ℕ) (n : MeshTables) (c : ℕ) : Prop where
  inv : n.Inv
  seen : frame.msgId ∈ n.seen ↔ ∃ d : ℕ, δ = d ∧ d ≤ k ∧ d ≤ frame.ttl.toNat
  carried : ∀ f, n.store.lookup frame.msgId = some f ↔
    ∃ d : ℕ, δ = d ∧ d ≤ k ∧ d < frame.ttl.toNat ∧ f = copyAt frame d
  once : (∃ d : ℕ, δ = d ∧ 1 ≤ d ∧ d ≤ k ∧ d ≤ frame.ttl.toNat) → c = 1
  never : (¬ ∃ d : ℕ, δ = d ∧ 1 ≤ d ∧ d ≤ k ∧ d ≤ frame.ttl.toNat) → c = 0

/-- Nothing is to happen in the next round at another distance than `k + 1`. -/
theorem Status.next (h : Status frame δ k n c)
    (hfar : ∀ d : ℕ, δ = d → d = k + 1 → frame.ttl.toNat < d) : Status frame δ (k + 1) n c := by
  have hsame : ∀ d : ℕ, δ = d → d ≤ frame.ttl.toNat → (d ≤ k ↔ d ≤ k + 1) := by
    intro d hd hle
    have := hfar d hd
    omega
  refine ⟨h.inv, h.seen.trans ?_, fun f => (h.carried f).trans ?_, ?_, ?_⟩
  · apply exists_congr
    intro d
    constructor
    · rintro ⟨hd, hk, hle⟩
      exact ⟨hd, (hsame d hd hle).mp hk, hle⟩
    · rintro ⟨hd, hk, hle⟩
      exact ⟨hd, (hsame d hd hle).mpr hk, hle⟩
  · apply exists_congr
    intro d
    constructor
    · rintro ⟨hd, hk, hlt, hf⟩
      exact ⟨hd, (hsame d hd hlt.le).mp hk, hlt, hf⟩
    · rintro ⟨hd, hk, hlt, hf⟩
      exact ⟨hd, (hsame d hd hlt.le).mpr hk, hlt, hf⟩
  · rintro ⟨d, hd, hone, hk, hle⟩
    exact h.once ⟨d, hd, hone, (hsame d hd hle).mpr hk, hle⟩
  · intro hnot
    apply h.never
    rintro ⟨d, hd, hone, hk, hle⟩
    exact hnot ⟨d, hd, hone, (hsame d hd hle).mp hk, hle⟩

/-- Another frame changes nothing. -/
theorem Status.other (h : Status frame δ k n c) {f : MeshFrame} (hne : f.msgId ≠ frame.msgId)
    (room : HasRoom n f.msgId) : Status frame δ k (n.handleIncoming f).2 c := by
  have hinv : (n.handleIncoming f).2.Inv := MeshTables.inv_step h.inv (.receive f)
  by_cases hseen : f.msgId ∈ n.seen
  · rw [MeshTables.handleIncoming_of_mem hseen]
    exact h
  · obtain ⟨hroomSeen, hroomStore⟩ := room hseen
    obtain ⟨hs, hl⟩ := MeshTables.handleIncoming_of_room h.inv hseen hroomSeen hroomStore
      frame.msgId
    refine ⟨hinv, ?_, ?_, h.once, h.never⟩
    · rw [hs, or_iff_left (Ne.symm hne)]
      exact h.seen
    · intro f'
      rw [hl, if_neg fun h' => hne h'.1.symm]
      exact h.carried f'

/-- A node that has the frame already refuses it. -/
theorem Status.duplicate (h : Status frame δ k n c) {f : MeshFrame}
    (hid : f.msgId = frame.msgId) (hseen : ∃ e : ℕ, δ = e ∧ e ≤ k ∧ e ≤ frame.ttl.toNat) :
    n.handleIncoming f = (.duplicate, n) :=
  MeshTables.handleIncoming_of_mem (hid ▸ h.seen.mpr hseen)

/-- A node one hop further out accepts the frame. -/
theorem Status.accept (h : Status frame δ k n c) (hδ : δ = (k + 1 : ℕ))
    (hk : k < frame.ttl.toNat) (room : HasRoom n frame.msgId) :
    (∃ forMe willForward,
      (n.handleIncoming (copyAt frame k)).1 = .accepted forMe willForward) ∧
    c = 0 ∧ Status frame δ (k + 1) (n.handleIncoming (copyAt frame k)).2 1 := by
  have hdist : ∀ e : ℕ, δ = e → e = k + 1 := by
    intro e he
    rw [hδ] at he
    exact (Nat.cast_injective he).symm
  have hunseen : frame.msgId ∉ n.seen := by
    intro hseen
    obtain ⟨e, he, hle, -⟩ := h.seen.mp hseen
    have := hdist e he
    omega
  have hunseen' : (copyAt frame k).msgId ∉ n.seen := hunseen
  obtain ⟨hroomSeen, hroomStore⟩ := room hunseen
  obtain ⟨hs, hl⟩ := MeshTables.handleIncoming_of_room h.inv hunseen' hroomSeen hroomStore
    frame.msgId
  have hinv := MeshTables.inv_step h.inv (.receive (copyAt frame k))
  have hnone : n.store.lookup frame.msgId = none := by
    apply Option.eq_none_iff_forall_ne_some.mpr
    intro f hf
    obtain ⟨e, he, hle, -⟩ := (h.carried f).mp hf
    have := hdist e he
    omega
  refine ⟨?_, ?_, hinv, ?_, ?_, fun _ => rfl, ?_⟩
  · rw [MeshTables.handleIncoming_of_not_mem hunseen']
    exact ⟨_, _, rfl⟩
  · apply h.never
    rintro ⟨e, he, -, hle, -⟩
    have := hdist e he
    omega
  · rw [hs]
    exact iff_of_true (Or.inr rfl) ⟨k + 1, hδ, le_refl _, hk⟩
  · intro f
    by_cases hmore : k + 1 < frame.ttl.toNat
    · have hpos : 0 < (copyAt frame k).onward.ttl := onward_copyAt_pos.mpr hmore
      rw [hl, if_pos ⟨rfl, hpos⟩, onward_copyAt, Option.some.injEq]
      constructor
      · rintro rfl
        exact ⟨k + 1, hδ, le_refl _, hmore, rfl⟩
      · rintro ⟨e, he, -, -, rfl⟩
        rw [hdist e he]
    · have hpos : ¬ 0 < (copyAt frame k).onward.ttl := mt onward_copyAt_pos.mp hmore
      rw [hl, if_neg fun h' => hpos h'.2, hnone]
      refine iff_of_false (fun h' => nomatch h') ?_
      rintro ⟨e, he, -, hlt, -⟩
      have := hdist e he
      omega
  · intro hnot
    exact absurd ⟨k + 1, hδ, Nat.le_add_left .., le_refl _, hk⟩ hnot

/-! ## 5. One round -/

section Round

variable [DecidableEq ι] {G : SimpleGraph ι} {o v : ι} {σ : Gossip ι} {offered : ι × MeshFrame}

/-- `v` knows of a frame of `o` what its distance and `k` rounds make it know. -/
def Knows (frame : MeshFrame) (G : SimpleGraph ι) (o : ι) (k : ℕ) (σ : Gossip ι) (v : ι) : Prop :=
  Status frame (G.edist o v) k (σ.node v) (σ.accepted.count (v, frame.msgId))

theorem offer_of_duplicate (h : (σ.node offered.1).handleIncoming offered.2 =
    (.duplicate, σ.node offered.1)) : σ.offer offered = σ := by
  simp only [offer, h, Function.update_eq_self]

theorem node_offer_self (σ : Gossip ι) (v : ι) (f : MeshFrame) :
    (σ.offer (v, f)).node v = ((σ.node v).handleIncoming f).2 := Function.update_self ..

theorem node_offer_of_ne (h : v ≠ offered.1) : (σ.offer offered).node v = σ.node v :=
  Function.update_of_ne h ..

theorem count_offer_of_ne {e : ι × MsgId} (h : e ≠ (offered.1, offered.2.msgId)) :
    (σ.offer offered).accepted.count e = σ.accepted.count e := by
  simp only [offer]
  split
  · rfl
  · rw [List.count_append, List.count_singleton, if_neg (by simpa using h.symm), Nat.add_zero]

/-- An offer of another frame, or to another node, teaches `v` nothing. -/
theorem Knows.elsewhere (h : Knows frame G o k σ v)
    (room : HasRoom (σ.node offered.1) offered.2.msgId)
    (hne : ¬ (offered.1 = v ∧ offered.2.msgId = frame.msgId)) :
    Knows frame G o k (σ.offer offered) v := by
  have hcount : (σ.offer offered).accepted.count (v, frame.msgId) =
      σ.accepted.count (v, frame.msgId) := by
    apply count_offer_of_ne
    intro h'
    exact hne ⟨(Prod.mk.inj h').1.symm, (Prod.mk.inj h').2.symm⟩
  rw [Knows, hcount]
  by_cases hv : v = offered.1
  · subst hv
    have hid : offered.2.msgId ≠ frame.msgId := fun hid => hne ⟨rfl, hid⟩
    rw [node_offer_self σ offered.1 offered.2]
    exact Status.other h hid room
  · rw [node_offer_of_ne hv]
    exact h

/-- A copy from a neighbour that has the frame after `k` rounds. -/
structure FromNeighbour (frame : MeshFrame) (G : SimpleGraph ι) (o : ι) (k : ℕ)
    (offered : ι × MeshFrame) (d : ℕ) : Prop where
  copy : offered.2 = copyAt frame d
  round : d ≤ k
  alive : d < frame.ttl.toNat
  near : G.edist o offered.1 ≤ (d + 1 : ℕ)

omit [DecidableEq ι] in
theorem FromNeighbour.edist (h : FromNeighbour frame G o k offered d) :
    ∃ e : ℕ, G.edist o offered.1 = e ∧ e ≤ d + 1 := by
  have hfin : G.edist o offered.1 ≠ ⊤ := ne_top_of_le_ne_top (ENat.natCast_ne_top _) h.near
  obtain ⟨e, he⟩ := ENat.ne_top_iff_exists.mp hfin
  refine ⟨e, he.symm, ?_⟩
  have hnear := h.near
  rw [← he] at hnear
  exact Nat.cast_le.mp hnear

/-- Once is enough. -/
theorem Knows.again (h : Knows frame G o (k + 1) σ offered.1)
    (hfrom : FromNeighbour frame G o k offered d) :
    Knows frame G o (k + 1) (σ.offer offered) offered.1 := by
  obtain ⟨e, he, hle⟩ := hfrom.edist
  have hround := hfrom.round
  have halive := hfrom.alive
  have hid : offered.2.msgId = frame.msgId := by rw [hfrom.copy, copyAt]
  rw [offer_of_duplicate (Status.duplicate h hid ⟨e, he, by omega, by omega⟩)]
  exact h

/-- The offer that brings a node on to the next round. -/
theorem Knows.taught (h : Knows frame G o k σ offered.1)
    (hfrom : FromNeighbour frame G o k offered d)
    (room : HasRoom (σ.node offered.1) offered.2.msgId) :
    Knows frame G o (k + 1) (σ.offer offered) offered.1 := by
  obtain ⟨e, he, hle⟩ := hfrom.edist
  have hround := hfrom.round
  have halive := hfrom.alive
  have hid : offered.2.msgId = frame.msgId := by rw [hfrom.copy, copyAt]
  by_cases hek : e ≤ k
  · rw [offer_of_duplicate (Status.duplicate h hid ⟨e, he, hek, by omega⟩)]
    apply Status.next h
    intro d' hd' hnext
    have hsame : e = d' := Nat.cast_injective (he.symm.trans hd')
    omega
  · have hdk : d = k := by omega
    have hdist : G.edist o offered.1 = (k + 1 : ℕ) := by
      rw [he]
      exact congrArg Nat.cast (by omega : e = k + 1)
    subst hdk
    obtain ⟨v, f⟩ := offered
    obtain rfl : f = copyAt frame d := hfrom.copy
    obtain ⟨⟨forMe, willForward, haccepted⟩, hnever, hstatus⟩ := Status.accept h hdist halive room
    rw [Knows, node_offer_self]
    have hcount : (σ.offer (v, copyAt frame d)).accepted.count (v, frame.msgId) = 1 := by
      simp only [offer, haccepted]
      rw [List.count_append, hnever, Nat.zero_add]
      exact List.count_singleton_self
    rw [hcount]
    exact hstatus

/-- A series of offers, seen from one node. -/
theorem Knows.foldl {offers : List (ι × MeshFrame)} (room : σ.RoomFor offers)
    (hfrom : ∀ offered ∈ offers, offered.2.msgId = frame.msgId →
      ∃ d, FromNeighbour frame G o k offered d) :
    (Knows frame G o (k + 1) σ v → Knows frame G o (k + 1) (offers.foldl offer σ) v) ∧
    (Knows frame G o k σ v → (∃ f, (v, f) ∈ offers ∧ f.msgId = frame.msgId) →
      Knows frame G o (k + 1) (offers.foldl offer σ) v) ∧
    (Knows frame G o k σ v → (¬ ∃ f, (v, f) ∈ offers ∧ f.msgId = frame.msgId) →
      Knows frame G o k (offers.foldl offer σ) v) := by
  induction offers generalizing σ with
  | nil => exact ⟨id, fun _ ⟨_, hf, _⟩ => (nomatch hf), fun h _ => h⟩
  | cons offered rest ih =>
    obtain ⟨hroom, hrest⟩ := room
    obtain ⟨ihAfter, ihOffered, ihNot⟩ :=
      ih hrest fun x hx => hfrom x (List.mem_cons_of_mem _ hx)
    by_cases hv : offered.1 = v ∧ offered.2.msgId = frame.msgId
    · obtain ⟨d, hcopy⟩ := hfrom offered List.mem_cons_self hv.2
      obtain ⟨rfl, hid⟩ := hv
      refine ⟨fun h => ihAfter (Knows.again h hcopy), fun h _ => ihAfter (Knows.taught h hcopy hroom), ?_⟩
      intro _ hnot
      exact absurd ⟨offered.2, List.mem_cons_self, hid⟩ hnot
    · refine ⟨fun h => ihAfter (Knows.elsewhere h hroom hv), ?_, ?_⟩
      · rintro h ⟨f, hf, hid⟩
        rcases List.mem_cons.mp hf with rfl | hf
        · exact absurd ⟨rfl, hid⟩ hv
        · exact ihOffered (Knows.elsewhere h hroom hv) ⟨f, hf, hid⟩
      · intro h hnot
        apply ihNot (Knows.elsewhere h hroom hv)
        rintro ⟨f, hf, hid⟩
        exact hnot ⟨f, List.mem_cons_of_mem _ hf, hid⟩

omit [DecidableEq ι] in
theorem mem_offers {edges : List (ι × ι)} (hedges : Lists G edges)
    {outbound : ι → List MeshFrame} {f : MeshFrame} :
    (v, f) ∈ offers outbound edges ↔ ∃ u, G.Adj u v ∧ f ∈ outbound u := by
  simp only [offers, List.mem_flatMap, List.mem_append, List.mem_map, Prod.mk.injEq]
  constructor
  · rintro ⟨⟨a, b⟩, he, ⟨_, hf, rfl, rfl⟩ | ⟨_, hf, rfl, rfl⟩⟩
    · exact ⟨a, (hedges a b).mpr (Or.inl he), hf⟩
    · exact ⟨b, (hedges b a).mpr (Or.inr he), hf⟩
  · rintro ⟨u, hadj, hf⟩
    rcases (hedges u v).mp hadj with he | he
    · exact ⟨(u, v), he, Or.inl ⟨f, hf, rfl, rfl⟩⟩
    · exact ⟨(v, u), he, Or.inr ⟨f, hf, rfl, rfl⟩⟩

/-- After one more round every node knows what it is to know then. -/
theorem knows_round {edges : List (ι × ι)} (hedges : Lists G edges)
    (h : ∀ v, Knows frame G o k σ v)
    (room : σ.RoomFor (offers (fun i => (σ.node i).outbound) edges)) (v : ι) :
    Knows frame G o (k + 1) (σ.round edges) v := by
  have hcarried : ∀ {u f}, f ∈ (σ.node u).outbound → f.msgId = frame.msgId →
      ∃ d : ℕ, G.edist o u = d ∧ d ≤ k ∧ d < frame.ttl.toNat ∧ f = copyAt frame d := by
    intro u f hf hid
    have hlookup := ((h u).inv.mem_outbound f).mp hf
    exact ((h u).carried f).mp (hid ▸ hlookup)
  have hfrom : ∀ offered ∈ offers (fun i => (σ.node i).outbound) edges,
      offered.2.msgId = frame.msgId → ∃ d, FromNeighbour frame G o k offered d := by
    rintro ⟨w, f⟩ hmem hid
    obtain ⟨u, hadj, hf⟩ := (mem_offers hedges).mp hmem
    obtain ⟨d, hd, hk, halive, hcopy⟩ := hcarried hf hid
    have hnear := Hops.edist_adj_le (o := o) hadj
    rw [hd] at hnear
    exact ⟨d, hcopy, hk, halive, hnear⟩
  obtain ⟨-, hoffered, hnot⟩ := Knows.foldl (v := v) room hfrom
  by_cases hv : ∃ f, (v, f) ∈ offers (fun i => (σ.node i).outbound) edges ∧ f.msgId = frame.msgId
  · exact hoffered (h v) hv
  · -- no neighbour carries the frame, so `v` is not at distance `k + 1`, unless too far
    refine Status.next (hnot (h v) hv) ?_
    rintro d hd rfl
    by_contra hnear
    obtain ⟨u, hadj, hu⟩ := Hops.exists_adj_edist hd
    have hlookup := ((h u).carried (copyAt frame k)).mpr ⟨k, hu, le_refl _, by omega, rfl⟩
    have hout := ((h u).inv.mem_outbound (copyAt frame k)).mpr hlookup
    exact hv ⟨copyAt frame k, (mem_offers hedges).mpr ⟨u, hadj, hout⟩, rfl⟩

theorem knows_rounds (rounds : List (List (ι × ι))) (hedges : ∀ edges ∈ rounds, Lists G edges)
    (h : ∀ v, Knows frame G o k σ v) (room : σ.RoomForRounds rounds) (v : ι) :
    Knows frame G o (k + rounds.length) (rounds.foldl round σ) v := by
  induction rounds generalizing σ k with
  | nil => exact h v
  | cons edges rest ih =>
    obtain ⟨hroom, hrest⟩ := room
    have hone := knows_round (hedges edges List.mem_cons_self) h hroom
    have hall := ih (fun e he => hedges e (List.mem_cons_of_mem _ he)) hone hrest
    rw [List.length_cons, Nat.add_comm rest.length, ← Nat.add_assoc]
    exact hall

end Round

/-! ## 6. The ball -/

section Ball

variable [DecidableEq ι] {G : SimpleGraph ι} {o : ι} {nodes : ι → MeshTables} {id : MsgId}
  {recipient : Bytes32} {payload : Bytes}

/-- Nodes before a frame is originated at one of them: its id is new, and there is room. -/
structure Fresh (nodes : ι → MeshTables) (o : ι) (id : MsgId) : Prop where
  inv : ∀ v, (nodes v).Inv
  seen : ∀ v, id ∉ (nodes v).seen
  carried : ∀ v, (nodes v).store.lookup id = none
  room : HasRoom (nodes o) id

/-- The frame is known at its origin only. -/
theorem knows_originate (fresh : Fresh nodes o id) (hT : 1 ≤ (nodes o).ttl) (v : ι) :
    Knows ⟨id, recipient, (nodes o).ttl, payload⟩ G o 0
      ((Gossip.mk nodes []).originate o id recipient payload) v := by
  have halive : 0 < (nodes o).ttl.toNat := UInt8.le_iff_toNat_le.mp hT
  have hself : ∀ d : ℕ, ¬ (1 ≤ d ∧ d ≤ 0) := by omega
  have hnever : ∀ d : ℕ, G.edist o v = d → d ≤ 0 → v = o := by
    intro d hd hle
    obtain rfl : d = 0 := Nat.le_zero.mp hle
    exact (SimpleGraph.edist_eq_zero_iff.mp hd).symm
  by_cases hv : v = o
  · subst hv
    obtain ⟨hroomSeen, hroomStore⟩ := fresh.room (fresh.seen v)
    have hmark := MeshTables.inv_markSeen (fresh.inv v) id
    obtain ⟨-, -, -, horder, -⟩ := MeshTables.markSeen_frame (nodes v) id
    have hlength := lt_of_eq_of_lt (congrArg List.length horder) hroomStore
    have hnode : ((Gossip.mk nodes []).originate v id recipient payload).node v =
        ((nodes v).originate id recipient payload).2 := Function.update_self ..
    rw [Knows, hnode]
    have hzero : G.edist v v = (0 : ℕ) := SimpleGraph.edist_self
    refine ⟨MeshTables.inv_storeFrame hmark _, ?_, ?_, ?_, fun _ => rfl⟩
    · rw [MeshTables.originate, MeshTables.storeFrame_seen,
        MeshTables.mem_seen_markSeen_of_room (fresh.inv v) hroomSeen]
      exact iff_of_true (Or.inr rfl) ⟨0, hzero, le_refl _, Nat.zero_le _⟩
    · intro f
      rw [MeshTables.originate, MeshTables.lookup_storeFrame_of_room hmark hlength, if_pos rfl,
        Option.some.injEq]
      constructor
      · rintro rfl
        exact ⟨0, hzero, le_refl _, halive, (copyAt_zero _).symm⟩
      · rintro ⟨d, -, hd, -, rfl⟩
        obtain rfl : d = 0 := Nat.le_zero.mp hd
        exact (copyAt_zero _).symm
    · rintro ⟨d, -, hone, hle, -⟩
      exact absurd ⟨hone, hle⟩ (hself d)
  · have hnode : ((Gossip.mk nodes []).originate o id recipient payload).node v = nodes v :=
      Function.update_of_ne hv ..
    rw [Knows, hnode]
    refine ⟨fresh.inv v, ?_, ?_, ?_, fun _ => rfl⟩
    · refine iff_of_false (fresh.seen v) ?_
      rintro ⟨d, hd, hle, -⟩
      exact hv (hnever d hd hle)
    · intro f
      rw [fresh.carried v]
      refine iff_of_false (Option.some_ne_none f).symm ?_
      rintro ⟨d, hd, hle, -⟩
      exact hv (hnever d hd hle)
    · rintro ⟨d, -, hone, hle, -⟩
      exact absurd ⟨hone, hle⟩ (hself d)

/-- After `k` rounds a frame with budget `T` has been accepted at the distances from 1 to
    `min k T`, once by each node; within `T` it is stored with what is left of the budget,
    and at distance `T` it is not stored. -/
theorem gossip_reaches_ball {T : UInt8} (budget : ∀ v, (nodes v).ttl = T) (hT : 1 ≤ T)
    (fresh : Fresh nodes o id) (rounds : List (List (ι × ι)))
    (edges : ∀ es ∈ rounds, Lists G es)
    (room : ((Gossip.mk nodes []).originate o id recipient payload).RoomForRounds rounds) :
    let σ := rounds.foldl round ((Gossip.mk nodes []).originate o id recipient payload)
    (∀ v, (v, id) ∈ σ.accepted ↔
      ∃ d : ℕ, G.edist o v = d ∧ 1 ≤ d ∧ d ≤ min rounds.length T.toNat) ∧
    (∀ v, (v, id) ∈ σ.accepted → σ.accepted.count (v, id) = 1) ∧
    (∀ v (d : ℕ), G.edist o v = d → d ≤ rounds.length → d < T.toNat →
      ∃ ttl : UInt8, ttl.toNat = T.toNat - d ∧
        (σ.node v).store.lookup id = some ⟨id, recipient, ttl, payload⟩) ∧
    (∀ v (f : MeshFrame), (σ.node v).store.lookup id = some f →
      ∃ d : ℕ, G.edist o v = d ∧ d ≤ rounds.length ∧ d < T.toNat) ∧
    (∀ v, G.edist o v = T.toNat → (σ.node v).store.lookup id = none) := by
  intro σ
  obtain rfl : (nodes o).ttl = T := budget o
  have hknows : ∀ v, Knows ⟨id, recipient, (nodes o).ttl, payload⟩ G o rounds.length σ v := by
    intro v
    have hall := knows_rounds rounds edges (fun w => knows_originate fresh hT w) room v
    rwa [Nat.zero_add] at hall
  have honce : ∀ v, (v, id) ∈ σ.accepted →
      ∃ d : ℕ, G.edist o v = d ∧ 1 ≤ d ∧ d ≤ rounds.length ∧
        d ≤ (nodes o).ttl.toNat := by
    intro v hmem
    by_contra hnot
    exact (List.count_pos_iff.mpr hmem).ne' ((hknows v).never hnot)
  refine ⟨?_, ?_, ?_, ?_, ?_⟩
  · intro v
    constructor
    · intro hmem
      obtain ⟨d, hd, hone, hk, hle⟩ := honce v hmem
      exact ⟨d, hd, hone, le_min hk hle⟩
    · rintro ⟨d, hd, hone, hle⟩
      obtain ⟨hk, halive⟩ := le_min_iff.mp hle
      have hcount := (hknows v).once ⟨d, hd, hone, hk, halive⟩
      exact List.count_pos_iff.mp (hcount ▸ Nat.one_pos)
  · intro v hmem
    exact (hknows v).once (honce v hmem)
  · intro v d hd hk hlt
    have hlookup := ((hknows v).carried _).mpr ⟨d, hd, hk, hlt, rfl⟩
    exact ⟨_, toNat_copyAt _ d, hlookup⟩
  · intro v f hf
    obtain ⟨d, hd, hk, hlt, -⟩ := ((hknows v).carried f).mp hf
    exact ⟨d, hd, hk, hlt⟩
  · intro v hv
    apply Option.eq_none_iff_forall_ne_some.mpr
    intro f hf
    obtain ⟨d, hd, -, hlt, -⟩ := ((hknows v).carried f).mp hf
    have hsame : (nodes o).ttl.toNat = d := Nat.cast_injective (hv.symm.trans hd)
    exact hlt.ne' hsame

section Line

/-- Four nodes in a line, with a budget of two hops. -/
def line (v : Fin 4) : MeshTables := .withTtl (.ofByte (.ofNat v.val)) 2

def lineEdges : List (Fin 4 × Fin 4) := (List.finRange 3).map fun i => (i.castSucc, i.succ)

theorem lists_line : Lists (SimpleGraph.pathGraph 4) lineEdges := by
  intro a b
  rw [SimpleGraph.pathGraph_adj]
  revert a b
  decide

theorem fresh_line (id : MsgId) : Fresh line 0 id where
  inv v := MeshTables.inv_withTtl _ _
  seen v := Finset.notMem_empty _
  carried v := Finmap.lookup_empty _
  room _ := by decide

/-- A frame of a node of the line, three rounds later. -/
def lineFrame : MeshFrame := ⟨Vector.replicate 16 7, .ofByte 3, 2, [42]⟩

def lineRounds : List (List (Fin 4 × Fin 4)) := List.replicate 3 lineEdges

def lineStart (o : Fin 4) : Gossip (Fin 4) :=
  (Gossip.mk line []).originate o lineFrame.msgId lineFrame.recipient lineFrame.payload

def lineEnd (o : Fin 4) : Gossip (Fin 4) := lineRounds.foldl round (lineStart o)

/-- It has not crossed the third hop, and is stored with one hop left next to its origin. -/
theorem gossip_reaches_ball_line :
    (lineEnd 0).accepted = [(1, lineFrame.msgId), (2, lineFrame.msgId)] ∧
    (∀ v, (v, lineFrame.msgId) ∈ (lineEnd 0).accepted ↔
      ∃ d : ℕ, (SimpleGraph.pathGraph 4).edist 0 v = d ∧ 1 ≤ d ∧ d ≤ min 3 2) ∧
    (∀ v, (SimpleGraph.pathGraph 4).edist 0 v = 2 →
      ((lineEnd 0).node v).store.lookup lineFrame.msgId = none) := by
  have hedges : ∀ es ∈ lineRounds, Lists (SimpleGraph.pathGraph 4) es := by
    intro es hes
    rw [(List.mem_replicate.mp hes).2]
    exact lists_line
  have hroom : (lineStart 0).RoomForRounds lineRounds := by decide +kernel
  have hbudget : ∀ v, (line v).ttl = 2 := fun _ => rfl
  obtain ⟨haccepted, -, -, -, hlast⟩ := gossip_reaches_ball hbudget (by decide)
    (fresh_line lineFrame.msgId) lineRounds hedges hroom
  exact ⟨by decide +kernel, haccepted, hlast⟩

end Line

end Ball

end Gossip

end Clarity
