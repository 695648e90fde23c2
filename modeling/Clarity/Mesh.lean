/-
  Clarity/Mesh.lean
  =================
  **Store-carry-forward routing** (`mesh/src/lib.rs`): one node, and a mesh of them.

  A frame travels as copies, each with its own remaining hop budget; a node takes the
  first copy it sees of every `msg_id`, as long as it remembers having seen it.  The mesh
  is asynchronous: whatever a node once offered may reach any node, late, repeatedly, in
  any order, and nodes may forget at any time what they have seen or stored.

  The log is not part of any node.  It says who originated what, and who accepted which
  copy from whom, so that a copy can be followed back to its origin (`Walk`).

    * `Mesh.Inv`, `inv_run` — every copy has a walk, and the budget its length leaves;
    * `frames_intact` — nobody accepts a frame further away, and only its recipient gets
      its payload.
-/
import Clarity.LinkedMap
import Clarity.Bincode

namespace Clarity

/-! ## 1. A node -/

/-- `[u8; 16]`. -/
abbrev MsgId := Vector UInt8 16

/-- A single mesh frame as it travels device-to-device over the radio. -/
structure MeshFrame where
  msgId : MsgId
  recipient : Bytes32
  ttl : UInt8
  payload : Bytes
deriving DecidableEq

def SEEN_CAP : Nat := 8192
def STORE_CAP : Nat := 2048

inductive Reception where
  | duplicate
  | accepted (forMe willForward : Bool)
deriving DecidableEq

/-- One participant in the mesh.  The set of seen ids is the list of them in the order
    they were seen; the store keeps the order in which ids were stored. -/
structure MeshNode where
  me : Bytes32
  ttl : UInt8
  seenOrder : List MsgId
  store : LinkedMap MsgId MeshFrame
  inbox : List Bytes

/-- `u8::saturating_sub`. -/
def saturatingSub (a b : UInt8) : UInt8 := if a < b then 0 else a - b

theorem toNat_saturatingSub (a b : UInt8) : (saturatingSub a b).toNat = a.toNat - b.toNat := by
  unfold saturatingSub
  split
  · rename_i h
    have hlt := UInt8.lt_iff_toNat_lt.mp h
    rw [Nat.sub_eq_zero_of_le (Nat.le_of_lt hlt)]
    rfl
  · rename_i h
    exact UInt8.toNat_sub_of_le _ _ (UInt8.not_lt.mp h)

/-- The copy that a node keeps of a frame it accepts. -/
def MeshFrame.onward (frame : MeshFrame) : MeshFrame :=
  { frame with ttl := saturatingSub frame.ttl 1 }

theorem MeshFrame.toNat_onward (frame : MeshFrame) :
    frame.onward.ttl.toNat = frame.ttl.toNat - 1 := toNat_saturatingSub _ _

namespace MeshNode

/-- `with_ttl`. -/
def withTtl (me : Bytes32) (ttl : UInt8) : MeshNode := ⟨me, ttl, [], ∅, []⟩

def markSeen (n : MeshNode) (id : MsgId) : MeshNode :=
  if id ∈ n.seenOrder then n
  else
    let order := n.seenOrder ++ [id]
    { n with seenOrder := if order.length > SEEN_CAP then order.tail else order }

def storeFrame (n : MeshNode) (frame : MeshFrame) : MeshNode :=
  let store := n.store.set frame.msgId frame
  match n.store.get? frame.msgId with
  | some _ => { n with store := store }
  | none =>
    { n with store := if store.entries.length > STORE_CAP then store.dropOldest else store }

/-- Inject a new message; `msgId` is the random value drawn for it. -/
def originate (n : MeshNode) (msgId : MsgId) (recipient : Bytes32) (payload : Bytes) :
    MeshFrame × MeshNode :=
  let frame : MeshFrame := ⟨msgId, recipient, n.ttl, payload⟩
  (frame, (n.markSeen msgId).storeFrame frame)

/-- Process a frame received from a peer. -/
def handleIncoming (n : MeshNode) (frame : MeshFrame) : Reception × MeshNode :=
  if frame.msgId ∈ n.seenOrder then (.duplicate, n)
  else
    let n := n.markSeen frame.msgId
    let forMe : Bool := frame.recipient = n.me
    let n := if forMe then { n with inbox := n.inbox ++ [frame.payload] } else n
    let forwardTtl := saturatingSub frame.ttl 1
    let willForward : Bool := 0 < forwardTtl
    let n := if willForward then n.storeFrame { frame with ttl := forwardTtl } else n
    (.accepted forMe willForward, n)

/-- What a node offers to its peers. -/
def outbound (n : MeshNode) : List MeshFrame := n.store.entries.map Prod.snd

/-- Drain the payloads that have arrived. -/
def takeInbox (n : MeshNode) : List Bytes × MeshNode := (n.inbox, { n with inbox := [] })

variable (n : MeshNode) (id : MsgId) (frame : MeshFrame)

@[simp] theorem markSeen_me : (n.markSeen id).me = n.me := by
  unfold markSeen
  split <;> rfl

@[simp] theorem markSeen_ttl : (n.markSeen id).ttl = n.ttl := by
  unfold markSeen
  split <;> rfl

@[simp] theorem markSeen_store : (n.markSeen id).store = n.store := by
  unfold markSeen
  split <;> rfl

@[simp] theorem markSeen_inbox : (n.markSeen id).inbox = n.inbox := by
  unfold markSeen
  split <;> rfl

@[simp] theorem storeFrame_me : (n.storeFrame frame).me = n.me := by
  unfold storeFrame
  split <;> rfl

@[simp] theorem storeFrame_ttl : (n.storeFrame frame).ttl = n.ttl := by
  unfold storeFrame
  split <;> rfl

@[simp] theorem storeFrame_inbox : (n.storeFrame frame).inbox = n.inbox := by
  unfold storeFrame
  split <;> rfl

@[simp] theorem storeFrame_seenOrder : (n.storeFrame frame).seenOrder = n.seenOrder := by
  unfold storeFrame
  split <;> rfl

variable {n frame} {f : MeshFrame}

/-- Storing a frame offers nothing new but that frame. -/
theorem mem_outbound_storeFrame (h : f ∈ (n.storeFrame frame).outbound) :
    f = frame ∨ f ∈ n.outbound := by
  have hset : ∀ e ∈ (n.store.set frame.msgId frame).entries, e.2 = frame ∨ e.2 ∈ n.outbound := by
    intro e he
    rcases LinkedMap.mem_write he with rfl | he
    · exact Or.inl rfl
    · exact Or.inr (List.mem_map_of_mem he)
  obtain ⟨e, he, rfl⟩ := List.mem_map.mp h
  apply hset
  unfold storeFrame at he
  split at he
  · exact he
  · dsimp only at he
    split at he
    · exact List.mem_of_mem_tail he
    · exact he

theorem handleIncoming_of_mem (h : frame.msgId ∈ n.seenOrder) :
    n.handleIncoming frame = (.duplicate, n) := if_pos h

/-- The node after it has accepted a frame. -/
theorem handleIncoming_of_not_mem (h : frame.msgId ∉ n.seenOrder) :
    n.handleIncoming frame
      = (.accepted (frame.recipient = n.me) (0 < frame.onward.ttl : Bool),
        let delivered : MeshNode := { n.markSeen frame.msgId with
          inbox := if frame.recipient = n.me then n.inbox ++ [frame.payload] else n.inbox }
        if 0 < frame.onward.ttl then delivered.storeFrame frame.onward else delivered) := by
  have hmark : { n.markSeen frame.msgId with inbox := n.inbox } = n.markSeen frame.msgId := by
    rw [← markSeen_inbox n frame.msgId]
  simp only [handleIncoming, if_neg h, MeshFrame.onward, decide_eq_true_eq]
  by_cases hme : frame.recipient = n.me
  · have hme' : frame.recipient = (n.markSeen frame.msgId).me := by rwa [markSeen_me]
    simp only [if_pos hme, if_pos hme', decide_eq_true hme, decide_eq_true hme', markSeen_inbox]
    rfl
  · have hme' : frame.recipient ≠ (n.markSeen frame.msgId).me := by rwa [markSeen_me]
    simp only [if_neg hme, if_neg hme', decide_eq_false hme, decide_eq_false hme', hmark]
    rfl

@[simp] theorem handleIncoming_me : (n.handleIncoming frame).2.me = n.me := by
  by_cases h : frame.msgId ∈ n.seenOrder
  · rw [handleIncoming_of_mem h]
  · rw [handleIncoming_of_not_mem h]
    dsimp only
    split
    · exact (storeFrame_me _ _).trans (markSeen_me ..)
    · exact markSeen_me ..

@[simp] theorem handleIncoming_ttl : (n.handleIncoming frame).2.ttl = n.ttl := by
  by_cases h : frame.msgId ∈ n.seenOrder
  · rw [handleIncoming_of_mem h]
  · rw [handleIncoming_of_not_mem h]
    dsimp only
    split
    · exact (storeFrame_ttl _ _).trans (markSeen_ttl ..)
    · exact markSeen_ttl ..

theorem handleIncoming_inbox (h : frame.msgId ∉ n.seenOrder) :
    (n.handleIncoming frame).2.inbox
      = if frame.recipient = n.me then n.inbox ++ [frame.payload] else n.inbox := by
  rw [handleIncoming_of_not_mem h]
  dsimp only
  split
  · exact storeFrame_inbox _ _
  · rfl

/-- Accepting a frame offers nothing new but its onward copy, when that has budget left. -/
theorem mem_outbound_handleIncoming (h : frame.msgId ∉ n.seenOrder)
    (hf : f ∈ (n.handleIncoming frame).2.outbound) :
    (f = frame.onward ∧ 0 < f.ttl.toNat) ∨ f ∈ n.outbound := by
  rw [handleIncoming_of_not_mem h] at hf
  dsimp only at hf
  split at hf
  · rename_i hpos
    rcases mem_outbound_storeFrame hf with rfl | hf
    · exact Or.inl ⟨rfl, UInt8.lt_iff_toNat_lt.mp hpos⟩
    · rw [outbound, markSeen_store] at hf
      exact Or.inr hf
  · rw [outbound, markSeen_store] at hf
    exact Or.inr hf

theorem mem_outbound_originate {msgId : MsgId} {recipient : Bytes32} {payload : Bytes}
    (h : f ∈ (n.originate msgId recipient payload).2.outbound) :
    f = (n.originate msgId recipient payload).1 ∨ f ∈ n.outbound := by
  rcases mem_outbound_storeFrame h with h | h
  · exact Or.inl h
  · rw [outbound, markSeen_store] at h
    exact Or.inr h

end MeshNode

/-! ## 2. A mesh -/

/-- What has happened. -/
inductive MeshEvent (ι : Type) where
  | originated (node : ι) (frame : MeshFrame)
  /-- `dst` accepted a copy that `src` offered. -/
  | accepted (src dst : ι) (frame : MeshFrame)

structure Mesh (ι : Type) where
  node : ι → MeshNode
  -- the copies on the air, with the node that offered them
  air : List (ι × MeshFrame)
  log : List (MeshEvent ι)

inductive MeshAct (ι : Type) where
  | originate (node : ι) (msgId : MsgId) (recipient : Bytes32) (payload : Bytes)
  /-- A node offers a frame it stores; from now on it may arrive anywhere. -/
  | offer (src : ι) (frame : MeshFrame)
  /-- A copy on the air reaches a node. -/
  | receive (src dst : ι) (frame : MeshFrame)
  | takeInbox (node : ι)
  /-- A node forgets that it has seen an id. -/
  | forget (node : ι) (msgId : MsgId)
  /-- A node drops a stored frame. -/
  | drop (node : ι) (msgId : MsgId)

namespace Mesh

variable {ι : Type} [DecidableEq ι]

/-- Nodes with their identities and hop budgets, before anything has happened. -/
def start (me : ι → Bytes32) (ttl : ι → UInt8) : Mesh ι :=
  ⟨fun i => .withTtl (me i) (ttl i), [], []⟩

/-- One node changes. -/
def setNode (σ : Mesh ι) (i : ι) (n : MeshNode) : Mesh ι :=
  { σ with node := Function.update σ.node i n }

def step (σ : Mesh ι) : MeshAct ι → Mesh ι
  | .originate i msgId recipient payload =>
    let originated := (σ.node i).originate msgId recipient payload
    { σ.setNode i originated.2 with log := σ.log ++ [.originated i originated.1] }
  | .offer src frame =>
    if frame ∈ (σ.node src).outbound then { σ with air := σ.air ++ [(src, frame)] } else σ
  | .receive src dst frame =>
    if (src, frame) ∈ σ.air then
      let handled := (σ.node dst).handleIncoming frame
      match handled.1 with
      | .duplicate => σ.setNode dst handled.2
      | .accepted _ _ =>
        { σ.setNode dst handled.2 with log := σ.log ++ [.accepted src dst frame] }
    else σ
  | .takeInbox i => σ.setNode i (σ.node i).takeInbox.2
  | .forget i msgId =>
    σ.setNode i { σ.node i with seenOrder := (σ.node i).seenOrder.filter fun id => id ≠ msgId }
  | .drop i msgId => σ.setNode i { σ.node i with store := (σ.node i).store.erase msgId }

/-- The random id of a new frame is not one that was drawn before. -/
def FreshIds (σ : Mesh ι) : MeshAct ι → Prop
  | .originate _ msgId _ _ => ∀ i frame, .originated i frame ∈ σ.log → frame.msgId ≠ msgId
  | _ => True

/-- The runs from a start whose acts all meet `Cond`. -/
inductive Run (Cond : Mesh ι → MeshAct ι → Prop) (me : ι → Bytes32) (ttl : ι → UInt8) :
    Mesh ι → Prop where
  | start : Run Cond me ttl (Mesh.start me ttl)
  | step {σ : Mesh ι} (act : MeshAct ι) : Run Cond me ttl σ → Cond σ act →
      Run Cond me ttl (σ.step act)

/-- A list of acts that all meet `Cond` where they are made. -/
def Along (Cond : Mesh ι → MeshAct ι → Prop) : Mesh ι → List (MeshAct ι) → Prop
  | _, [] => True
  | σ, act :: acts => Cond σ act ∧ Along Cond (σ.step act) acts

theorem Run.along {Cond : Mesh ι → MeshAct ι → Prop} {me : ι → Bytes32} {ttl : ι → UInt8}
    {σ : Mesh ι} {acts : List (MeshAct ι)} (run : Run Cond me ttl σ) (h : Along Cond σ acts) :
    Run Cond me ttl (acts.foldl Mesh.step σ) := by
  induction acts generalizing σ with
  | nil => exact run
  | cons act acts ih => exact ih (.step act run h.1) h.2

/-- A copy's way: the nodes from the one that has it back to the origin, the frame as it
    was originated, and the copy. -/
inductive Walk (log : List (MeshEvent ι)) : List ι → MeshFrame → MeshFrame → Prop where
  | origin {i : ι} {f : MeshFrame} : .originated i f ∈ log → Walk log [i] f f
  | hop {i j : ι} {path : List ι} {f₀ f : MeshFrame} : Walk log (i :: path) f₀ f →
      .accepted i j f ∈ log →
      Walk log (j :: i :: path) f₀ f.onward

/-! ## 3. Ways -/

section Ways

omit [DecidableEq ι]

variable {log log' : List (MeshEvent ι)} {path : List ι} {f₀ f : MeshFrame}

theorem Walk.mono (h : Walk log path f₀ f) (hlog : ∀ e ∈ log, e ∈ log') :
    Walk log' path f₀ f := by
  induction h with
  | origin h => exact .origin (hlog _ h)
  | hop _ hacc ih => exact .hop ih (hlog _ hacc)

/-- A way ends where the frame was originated. -/
theorem Walk.originated (h : Walk log path f₀ f) :
    ∃ o, path.getLast? = some o ∧ .originated o f₀ ∈ log := by
  induction h with
  | @origin i f h => exact ⟨i, rfl, h⟩
  | @hop i j path f₀ f _ _ ih =>
    obtain ⟨o, ho, hlog⟩ := ih
    exact ⟨o, by rw [List.getLast?_cons_cons]; exact ho, hlog⟩

/-- On its way a copy keeps everything but its budget. -/
theorem Walk.same (h : Walk log path f₀ f) :
    f.msgId = f₀.msgId ∧ f.recipient = f₀.recipient ∧ f.payload = f₀.payload := by
  induction h with
  | origin _ => exact ⟨rfl, rfl, rfl⟩
  | hop _ _ ih => exact ih

/-- Each hop costs one unit of the budget. -/
theorem Walk.budget (h : Walk log path f₀ f) :
    f.ttl.toNat = f₀.ttl.toNat - (path.length - 1) := by
  induction h with
  | origin _ => rfl
  | @hop i j path f₀ f _ _ ih =>
    rw [MeshFrame.toNat_onward, ih]
    simp only [List.length_cons]
    omega

/-- The copy `f` at node `i` can be followed back, and may still be forwarded. -/
def Traced (log : List (MeshEvent ι)) (i : ι) (f : MeshFrame) : Prop :=
  0 < f.ttl.toNat ∧ ∃ path f₀, Walk log (i :: path) f₀ f

theorem Traced.mono {i : ι} (h : Traced log i f) (hlog : ∀ e ∈ log, e ∈ log') :
    Traced log' i f := by
  obtain ⟨hpos, path, f₀, hwalk⟩ := h
  exact ⟨hpos, path, f₀, hwalk.mono hlog⟩

end Ways

/-! ## 4. The invariant -/

/-- Of a node: what it offers has a way, and what is in its inbox it accepted as the
    recipient. -/
structure NodeInv (me : Bytes32) (ttl : UInt8) (log : List (MeshEvent ι)) (i : ι)
    (n : MeshNode) : Prop where
  sameMe : n.me = me
  sameTtl : n.ttl = ttl
  stored : ∀ f ∈ n.outbound, Traced log i f
  inbox : ∀ payload ∈ n.inbox, ∃ src f, .accepted src i f ∈ log ∧ f.payload = payload ∧
    f.recipient = me

/-- Every copy has a way, and what is originated has its own id and its node's budget. -/
structure Inv (me : ι → Bytes32) (ttl : ι → UInt8) (σ : Mesh ι) : Prop where
  nodes : ∀ i, NodeInv (me i) (ttl i) σ.log i (σ.node i)
  air : ∀ i f, (i, f) ∈ σ.air → Traced σ.log i f
  accepted : ∀ i j f, .accepted i j f ∈ σ.log → Traced σ.log i f
  origin : ∀ i f, .originated i f ∈ σ.log → f.ttl = ttl i
  ids : ∀ i j f g, .originated i f ∈ σ.log → .originated j g ∈ σ.log →
    f.msgId = g.msgId → i = j ∧ f = g

omit [DecidableEq ι] in
theorem NodeInv.mono {log log' : List (MeshEvent ι)} {me : Bytes32} {ttl : UInt8} {i : ι}
    {n : MeshNode} (h : NodeInv me ttl log i n) (hlog : ∀ e ∈ log, e ∈ log') :
    NodeInv me ttl log' i n where
  sameMe := h.sameMe
  sameTtl := h.sameTtl
  stored f hf := (h.stored f hf).mono hlog
  inbox payload hp := by
    obtain ⟨src, f, hacc, hf⟩ := h.inbox payload hp
    exact ⟨src, f, hlog _ hacc, hf⟩

variable {me : ι → Bytes32} {ttl : ι → UInt8} {σ : Mesh ι}

@[simp] theorem node_setNode_self (i : ι) (n : MeshNode) : (σ.setNode i n).node i = n :=
  Function.update_self ..

theorem node_setNode_of_ne {i j : ι} (n : MeshNode) (h : j ≠ i) :
    (σ.setNode i n).node j = σ.node j := Function.update_of_ne h ..

/-- Only the node that changes has to be looked at. -/
theorem nodes_setNode {P : ι → MeshNode → Prop} {i : ι} {n : MeshNode}
    (hother : ∀ j, P j (σ.node j)) (hself : P i n) : ∀ j, P j ((σ.setNode i n).node j) := by
  intro j
  by_cases hj : j = i
  · subst hj
    rw [node_setNode_self]
    exact hself
  · rw [node_setNode_of_ne n hj]
    exact hother j

omit [DecidableEq ι] in
theorem inv_start : Inv me ttl (start me ttl) where
  nodes _ := ⟨rfl, rfl, List.forall_mem_nil _, List.forall_mem_nil _⟩
  air _ _ h := nomatch h
  accepted _ _ _ h := nomatch h
  origin _ _ h := nomatch h
  ids _ _ _ _ h := nomatch h

/-- A node that keeps its name, and offers and holds nothing new. -/
theorem Inv.shrink (inv : Inv me ttl σ) {i : ι} {n : MeshNode} (hme : n.me = (σ.node i).me)
    (httl : n.ttl = (σ.node i).ttl) (hout : ∀ f ∈ n.outbound, f ∈ (σ.node i).outbound)
    (hin : ∀ p ∈ n.inbox, p ∈ (σ.node i).inbox) : Inv me ttl (σ.setNode i n) :=
  have hi := inv.nodes i
  { inv with
    nodes := nodes_setNode inv.nodes
      { sameMe := hme.trans hi.sameMe
        sameTtl := httl.trans hi.sameTtl
        stored := fun f hf => hi.stored f (hout f hf)
        inbox := fun p hp => hi.inbox p (hin p hp) } }

/-- A new frame is its own way. -/
theorem inv_originate (inv : Inv me ttl σ) {i : ι} {msgId : MsgId} {recipient : Bytes32}
    {payload : Bytes} (hT : 1 ≤ ttl i) (hfresh : ∀ j f, .originated j f ∈ σ.log → f.msgId ≠ msgId) :
    Inv me ttl (σ.step (.originate i msgId recipient payload)) := by
  have hi := inv.nodes i
  have hold : ∀ e ∈ σ.log, e ∈ (σ.step (.originate i msgId recipient payload)).log :=
    fun e he => List.mem_append_left _ he
  have hnew : ∀ {j f}, .originated j f ∈ (σ.step (.originate i msgId recipient payload)).log →
      .originated j f ∈ σ.log
        ∨ (j = i ∧ f = ((σ.node i).originate msgId recipient payload).1) := by
    intro j f h
    rcases List.mem_append.mp h with h | h
    · exact Or.inl h
    · obtain ⟨rfl, rfl⟩ := MeshEvent.originated.inj (List.mem_singleton.mp h)
      exact Or.inr ⟨rfl, rfl⟩
  refine ⟨nodes_setNode (fun j => (inv.nodes j).mono hold) ?_, ?_, ?_, ?_, ?_⟩
  · refine ⟨?_, ?_, ?_, ?_⟩
    · exact (MeshNode.storeFrame_me _ _).trans ((MeshNode.markSeen_me _ _).trans hi.sameMe)
    · exact (MeshNode.storeFrame_ttl _ _).trans ((MeshNode.markSeen_ttl _ _).trans hi.sameTtl)
    · intro f hf
      rcases MeshNode.mem_outbound_originate hf with rfl | hf
      · constructor
        · show 0 < (σ.node i).ttl.toNat
          rw [hi.sameTtl]
          exact UInt8.le_iff_toNat_le.mp hT
        · exact ⟨[], _, .origin (List.mem_append_right _ (List.mem_singleton_self _))⟩
      · exact (hi.stored f hf).mono hold
    · intro p hp
      have hp' : p ∈ (σ.node i).inbox := by
        simpa only [MeshNode.originate, MeshNode.storeFrame_inbox, MeshNode.markSeen_inbox] using hp
      exact (hi.mono hold).inbox p hp'
  · intro j f hf
    exact (inv.air j f hf).mono hold
  · intro a b f h
    rcases List.mem_append.mp h with h | h
    · exact (inv.accepted a b f h).mono hold
    · exact absurd (List.mem_singleton.mp h) (by simp)
  · intro j f h
    rcases hnew h with h | ⟨rfl, rfl⟩
    · exact inv.origin j f h
    · exact hi.sameTtl
  · intro a b f g hf hg hid
    rcases hnew hf with hf' | ⟨rfl, rfl⟩ <;> rcases hnew hg with hg' | ⟨rfl, rfl⟩
    · exact inv.ids a b f g hf' hg' hid
    · exact absurd hid (hfresh a f hf')
    · exact absurd hid.symm (hfresh b g hg')
    · exact ⟨rfl, rfl⟩

/-- A node that accepts a copy continues its way. -/
theorem inv_receive (inv : Inv me ttl σ) (src dst : ι) (f : MeshFrame) :
    Inv me ttl (σ.step (.receive src dst f)) := by
  rw [step]
  split
  · rename_i hair
    by_cases hseen : f.msgId ∈ (σ.node dst).seenOrder
    · rw [MeshNode.handleIncoming_of_mem hseen]
      exact inv.shrink rfl rfl (fun _ h => h) (fun _ h => h)
    · have hi := inv.nodes dst
      have hin := MeshNode.handleIncoming_inbox hseen
      have hout := fun g => MeshNode.mem_outbound_handleIncoming (f := g) hseen
      have hme : ((σ.node dst).handleIncoming f).2.me = _ := MeshNode.handleIncoming_me
      have httl : ((σ.node dst).handleIncoming f).2.ttl = _ := MeshNode.handleIncoming_ttl
      have hres := MeshNode.handleIncoming_of_not_mem hseen
      generalize (σ.node dst).handleIncoming f = handled at *
      obtain ⟨reception, n⟩ := handled
      obtain rfl := congrArg Prod.fst hres
      clear hres
      have hold : ∀ e ∈ σ.log, e ∈ σ.log ++ [.accepted src dst f] :=
        fun e he => List.mem_append_left _ he
      have hlast : .accepted src dst f ∈ σ.log ++ [.accepted src dst f] :=
        List.mem_append_right _ (List.mem_singleton_self _)
      have hway := inv.air src f hair
      refine ⟨nodes_setNode (fun j => (inv.nodes j).mono hold) ?_, ?_, ?_, ?_, ?_⟩
      · refine ⟨hme.trans hi.sameMe, httl.trans hi.sameTtl, ?_, ?_⟩
        · intro g hg
          rcases hout g hg with ⟨rfl, hpos⟩ | hg
          · obtain ⟨path, f₀, hwalk⟩ := hway.2
            exact ⟨hpos, src :: path, f₀, .hop (hwalk.mono hold) hlast⟩
          · exact (hi.stored g hg).mono hold
        · intro p hp
          rw [show n.inbox = _ from hin, hi.sameMe] at hp
          split at hp
          · rename_i hrec
            rcases List.mem_append.mp hp with hp | hp
            · exact (hi.mono hold).inbox p hp
            · exact ⟨src, f, hlast, (List.mem_singleton.mp hp).symm, hrec⟩
          · exact (hi.mono hold).inbox p hp
      · intro j g hg
        exact (inv.air j g hg).mono hold
      · intro a b g h
        rcases List.mem_append.mp h with h | h
        · exact (inv.accepted a b g h).mono hold
        · obtain ⟨rfl, rfl, rfl⟩ := MeshEvent.accepted.inj (List.mem_singleton.mp h)
          exact hway.mono hold
      · intro j g h
        rcases List.mem_append.mp h with h | h
        · exact inv.origin j g h
        · exact absurd (List.mem_singleton.mp h) (by simp)
      · intro a b f g hf hg
        refine inv.ids a b f g ?_ ?_
        · exact (List.mem_append.mp hf).resolve_right (by simp)
        · exact (List.mem_append.mp hg).resolve_right (by simp)
  · exact inv

/-- No act breaks the invariant. -/
theorem inv_step (hT : ∀ i, 1 ≤ ttl i) (inv : Inv me ttl σ) (act : MeshAct ι)
    (hfresh : FreshIds σ act) : Inv me ttl (σ.step act) := by
  cases act with
  | originate i msgId recipient payload => exact inv_originate inv (hT i) hfresh
  | offer src frame =>
    rw [step]
    split
    · rename_i hout
      refine { inv with air := ?_ }
      intro j f h
      rcases List.mem_append.mp h with h | h
      · exact inv.air j f h
      · obtain ⟨rfl, rfl⟩ := Prod.mk.inj (List.mem_singleton.mp h)
        exact (inv.nodes j).stored f hout
    · exact inv
  | receive src dst frame => exact inv_receive inv src dst frame
  | takeInbox i => exact inv.shrink rfl rfl (fun _ h => h) (List.forall_mem_nil _)
  | forget i msgId => exact inv.shrink rfl rfl (fun _ h => h) (fun _ h => h)
  | drop i msgId =>
    refine inv.shrink rfl rfl ?_ (fun _ h => h)
    intro f hf
    obtain ⟨e, he, rfl⟩ := List.mem_map.mp hf
    exact List.mem_map_of_mem (List.mem_filter.mp he).1

theorem inv_run (hT : ∀ i, 1 ≤ ttl i) (run : Run FreshIds me ttl σ) : Inv me ttl σ := by
  induction run with
  | start => exact inv_start
  | step act _ hfresh ih => exact inv_step hT ih act hfresh

/-! ## 5. Frames arrive as they were originated -/

/-- The copy `f` at `i` is what `o` originated as `f₀`, and it came back over `path`. -/
structure Way (σ : Mesh ι) (ttl : ι → UInt8) (i : ι) (path : List ι) (o : ι)
    (f₀ f : MeshFrame) : Prop where
  walk : Walk σ.log (i :: path) f₀ f
  origin : .originated o f₀ ∈ σ.log
  last : (i :: path).getLast? = some o
  sameId : f.msgId = f₀.msgId
  sameRecipient : f.recipient = f₀.recipient
  samePayload : f.payload = f₀.payload
  -- `path.length` hops from the origin
  budget : f.ttl.toNat = (ttl o).toNat - path.length
  alive : 1 ≤ f.ttl.toNat

omit [DecidableEq ι] in
theorem Inv.way (inv : Inv me ttl σ) {i : ι} {f : MeshFrame} (h : Traced σ.log i f) :
    ∃ path o f₀, Way σ ttl i path o f₀ f := by
  obtain ⟨hpos, path, f₀, hwalk⟩ := h
  obtain ⟨o, hlast, horigin⟩ := hwalk.originated
  obtain ⟨hid, hrec, hpay⟩ := hwalk.same
  refine ⟨path, o, f₀, hwalk, horigin, hlast, hid, hrec, hpay, ?_, hpos⟩
  rw [hwalk.budget, inv.origin o f₀ horigin]
  rfl

/-- Whatever the order of offers, deliveries and evictions: every stored and every
    accepted copy is the one frame originated under its id, with the budget left by the
    hops on its way; and a payload is only ever in the inbox of its recipient. -/
theorem frames_intact (hT : ∀ i, 1 ≤ ttl i) (run : Run FreshIds me ttl σ) :
    (∀ i, ∀ f ∈ (σ.node i).outbound, ∃ path o f₀, Way σ ttl i path o f₀ f) ∧
    (∀ src dst f, .accepted src dst f ∈ σ.log →
      ∃ path o f₀, Way σ ttl src path o f₀ f ∧ (src :: path).length ≤ (ttl o).toNat) ∧
    (∀ i, ∀ payload ∈ (σ.node i).inbox, ∃ src o f₀ f, .accepted src i f ∈ σ.log ∧
      .originated o f₀ ∈ σ.log ∧ f.msgId = f₀.msgId ∧ f₀.payload = payload ∧
      f₀.recipient = (σ.node i).me) ∧
    (∀ i j f g, .originated i f ∈ σ.log → .originated j g ∈ σ.log →
      f.msgId = g.msgId → i = j ∧ f = g) := by
  have inv := inv_run hT run
  refine ⟨?_, ?_, ?_, inv.ids⟩
  · intro i f hf
    exact inv.way ((inv.nodes i).stored f hf)
  · intro src dst f hacc
    obtain ⟨path, o, f₀, way⟩ := inv.way (inv.accepted src dst f hacc)
    have hbudget := way.budget
    have halive := way.alive
    refine ⟨path, o, f₀, way, ?_⟩
    rw [List.length_cons]
    omega
  · intro i payload hp
    obtain ⟨src, f, hacc, hpay, hrec⟩ := (inv.nodes i).inbox payload hp
    obtain ⟨path, o, f₀, way⟩ := inv.way (inv.accepted src i f hacc)
    refine ⟨src, o, f₀, f, hacc, way.origin, way.sameId, ?_, ?_⟩
    · rw [← way.samePayload, hpay]
    · rw [← way.sameRecipient, hrec, (inv.nodes i).sameMe]

section Sample

/-- Three nodes; a frame of the first for the last is carried by the one between. -/
def carried : List (MeshAct (Fin 3)) :=
  let frame : MeshFrame := ⟨Vector.replicate 16 7, .ofByte 2, 2, [42]⟩
  [.originate 0 frame.msgId frame.recipient frame.payload, .offer 0 frame, .receive 0 1 frame,
    .offer 1 frame.onward, .receive 1 2 frame.onward]

def carriedMesh : Mesh (Fin 3) :=
  carried.foldl step (start (fun i => .ofByte (.ofNat i.val)) fun _ => 2)

theorem run_carried :
    Run FreshIds (fun i : Fin 3 => .ofByte (.ofNat i.val)) (fun _ => 2) carriedMesh := by
  apply Run.along .start
  refine ⟨?_, trivial, trivial, trivial, trivial, trivial⟩
  intro _ _ h
  exact nomatch h

/-- It is in the last node's inbox, and is what the first node originated. -/
theorem frames_intact_carried : (carriedMesh.node 2).inbox = [[42]] ∧
    ∃ src o f₀ f, .accepted src 2 f ∈ carriedMesh.log ∧ .originated o f₀ ∈ carriedMesh.log ∧
      f.msgId = f₀.msgId ∧ f₀.payload = [42] ∧ f₀.recipient = (carriedMesh.node 2).me := by
  have hin : (carriedMesh.node 2).inbox = [[42]] := by decide +kernel
  refine ⟨hin, (frames_intact (fun _ => by decide) run_carried).2.2.1 2 [42] ?_⟩
  rw [hin]
  exact List.mem_singleton_self _

end Sample

end Mesh

end Clarity
