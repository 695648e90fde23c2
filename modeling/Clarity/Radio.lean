/-
  Clarity/Radio.lean
  ==================
  **The mesh service of the app** (`mesh_service.dart` over `ffi/src/mesh_ffi.rs`): nodes
  that hear each other's bytes over a radio.

  A service hands the bytes it hears to its native node and passes on what the node has for
  it; both directions go through the list format of the FFI.  Whatever a service broadcasts
  may be heard anywhere, late, repeatedly, in any order, and so may noise.

    * `Simulates` — the services are the nodes of a `Mesh`, and what a service passes on is
      what its node accepted for it;
    * `simulates_step` — an act of the radio is a few acts of that mesh;
    * `services_are_mesh` — so it is in every run, and nothing is lost between node and app.
-/
import Clarity.Canonical
import Clarity.Mailbox
import Clarity.MeshTables

namespace Clarity

/-- `DEFAULT_TTL`. -/
def DEFAULT_TTL : UInt8 := 16

/-! ## 1. The C ABI -/

namespace MeshFfi

/-- `clarity_mesh_node_new`. -/
def nodeNew (me : Bytes32) : MeshTables := .withTtl me DEFAULT_TTL

/-- `clarity_mesh_originate`. -/
def originate (node : MeshTables) (msgId : MsgId) (recipient : Bytes32) (payload : Bytes) :
    Bytes × MeshTables :=
  let originated := node.originate msgId recipient payload
  (originated.1.encode, originated.2)

/-- `clarity_mesh_ingest`. -/
def ingest (node : MeshTables) (frame : Bytes) : Int × MeshTables :=
  match MeshFrame.decode frame with
  | .ok f => (0, (node.handleIncoming f).2)
  | .error _ => (-1, node)

/-- `clarity_mesh_pending_broadcast`. -/
def pendingBroadcast (node : MeshTables) : Bytes :=
  encodeByteList (node.outbound.map MeshFrame.encode)

/-- `clarity_mesh_take_inbox`. -/
def takeInbox (node : MeshTables) : Bytes × MeshTables :=
  let taken := node.takeInbox
  (encodeByteList taken.1, taken.2)

end MeshFfi

/-! ## 2. The service -/

/-- A node, and what the service has put on its stream `inbox`. -/
structure MeshService where
  node : MeshTables
  inbox : List Bytes

namespace MeshService

/-- The constructor. -/
def new (myIdentity : Bytes32) : MeshService := ⟨MeshFfi.nodeNew myIdentity, []⟩

/-- What is broadcast, and the service; `msgId` is the random value drawn by the node. -/
def send (s : MeshService) (msgId : MsgId) (recipient : Bytes32) (encryptedPayload : Bytes) :
    List Bytes × MeshService :=
  let originated := MeshFfi.originate s.node msgId recipient encryptedPayload
  ([originated.1], { s with node := originated.2 })

/-- `_onFrame`.  What `_ingest` answers is not looked at. -/
def onFrame (s : MeshService) (frameBytes : Bytes) : MeshService :=
  let taken := MeshFfi.takeInbox (MeshFfi.ingest s.node frameBytes).2
  match decodeByteList taken.1 with
  | some delivered => ⟨taken.2, s.inbox ++ delivered⟩
  -- a `RangeError` in the handler; the native inbox is empty by now
  | none => ⟨taken.2, s.inbox⟩

/-- `_flush`: what is broadcast. -/
def flush (s : MeshService) : List Bytes :=
  match decodeByteList (MeshFfi.pendingBroadcast s.node) with
  | some pending => pending
  | none => []

end MeshService

/-! ## 3. The radio -/

structure RadioMesh (ι : Type) where
  service : ι → MeshService
  -- what was broadcast, with the one who did it
  air : List (ι × Bytes)
  -- the frames that were originated; no service has this list
  sent : List (ι × MeshFrame)

inductive RadioAct (ι : Type) where
  | send (src : ι) (msgId : MsgId) (recipient : Bytes32) (payload : Bytes)
  /-- The timer of a service. -/
  | flush (src : ι)
  /-- Something that was broadcast reaches a service. -/
  | hear (src dst : ι) (bytes : Bytes)
  /-- So does something that was not. -/
  | noise (dst : ι) (bytes : Bytes)

namespace RadioMesh

variable {ι : Type} [DecidableEq ι]

def start (me : ι → Bytes32) : RadioMesh ι := ⟨fun i => .new (me i), [], []⟩

def setService (σ : RadioMesh ι) (i : ι) (s : MeshService) : RadioMesh ι :=
  { σ with service := Function.update σ.service i s }

def step (σ : RadioMesh ι) : RadioAct ι → RadioMesh ι
  | .send src msgId recipient payload =>
    let broadcast := (σ.service src).send msgId recipient payload
    { σ.setService src broadcast.2 with
      air := σ.air ++ broadcast.1.map fun bytes => (src, bytes)
      sent := σ.sent ++ [(src, ((σ.service src).node.originate msgId recipient payload).1)] }
  | .flush src => { σ with air := σ.air ++ (σ.service src).flush.map fun bytes => (src, bytes) }
  | .hear src dst bytes =>
    if (src, bytes) ∈ σ.air then σ.setService dst ((σ.service dst).onFrame bytes) else σ
  | .noise dst bytes => σ.setService dst ((σ.service dst).onFrame bytes)

/-- Its encoding fits an item of the list format. -/
def Short (payload : Bytes) : Prop := payload.length + 57 < 2 ^ 32

/-- Random ids differ, payloads are short, and noise is not a frame. -/
def Cond (σ : RadioMesh ι) : RadioAct ι → Prop
  | .send _ msgId _ payload => (∀ i f, (i, f) ∈ σ.sent → f.msgId ≠ msgId) ∧ Short payload
  | .noise _ bytes => ∀ f, MeshFrame.decode bytes ≠ .ok f
  | _ => True

/-- The runs from a start whose acts all meet `Cond`. -/
inductive Run (me : ι → Bytes32) : RadioMesh ι → Prop where
  | start : Run me (RadioMesh.start me)
  | step {σ : RadioMesh ι} (act : RadioAct ι) : Run me σ → Cond σ act → Run me (σ.step act)

/-- A list of acts that all meet `Cond` where they are made. -/
def Along : RadioMesh ι → List (RadioAct ι) → Prop
  | _, [] => True
  | σ, act :: acts => Cond σ act ∧ Along (σ.step act) acts

theorem Run.along {me : ι → Bytes32} {σ : RadioMesh ι} {acts : List (RadioAct ι)}
    (run : Run me σ) (h : Along σ acts) : Run me (acts.foldl RadioMesh.step σ) := by
  induction acts generalizing σ with
  | nil => exact run
  | cons act acts ih => exact ih (.step act run h.1) h.2

@[simp] theorem service_setService_self (σ : RadioMesh ι) (i : ι) (s : MeshService) :
    (σ.setService i s).service i = s := Function.update_self ..

theorem service_setService_of_ne (σ : RadioMesh ι) {i j : ι} (s : MeshService) (h : j ≠ i) :
    (σ.setService i s).service j = σ.service j := Function.update_of_ne h ..

end RadioMesh

/-! ## 4. Frames as bytes -/

theorem Codec.length_array (n : Nat) (v : Vector UInt8 n) : ((Codec.array n).enc v).length = n :=
  Vector.length_toList ..

theorem MeshFrame.length_encode (f : MeshFrame) : f.encode.length = f.payload.length + 57 := by
  have henc : f.encode = (Codec.array 16).enc f.msgId ++
      (f.recipient.bytes ++ (Codec.leBytes 1 f.ttl.toNat ++
        (Codec.leBytes 8 f.payload.length ++ f.payload))) := rfl
  rw [henc]
  simp only [List.length_append, Codec.length_array, Codec.length_leBytes, Bytes32.length_bytes]
  omega

theorem MeshFrame.decode_encode {f : MeshFrame} (h : f.Fits) :
    MeshFrame.decode f.encode = .ok f := by
  have hdec := MeshFrame.codec.dec_enc ((MeshFrame.codec_valid_iff f).mpr h) []
  rw [List.append_nil] at hdec
  rw [decode, encode, hdec]

theorem RadioMesh.Short.fits {f : MeshFrame} (h : RadioMesh.Short f.payload) : f.Fits := by
  rw [RadioMesh.Short] at h
  rw [MeshFrame.Fits]
  omega

theorem RadioMesh.Short.length_encode {f : MeshFrame} (h : RadioMesh.Short f.payload) :
    f.encode.length < 2 ^ 32 := by
  rw [MeshFrame.length_encode]
  exact h

/-! ## 5. One step of a service -/

namespace MeshService

variable {s : MeshService} {f : MeshFrame}

theorem fitsList_nil : FitsList [] := ⟨by decide, List.forall_mem_nil _⟩

/-- Bytes that the node does nothing with. -/
theorem onFrame_of_ingest {bytes : Bytes} (hdrained : s.node.inbox = [])
    (h : (MeshFfi.ingest s.node bytes).2 = s.node) : s.onFrame bytes = s := by
  have hnode : { s.node with inbox := [] } = s.node := by rw [← hdrained]
  simp only [onFrame, h, MeshFfi.takeInbox, MeshTables.takeInbox, hdrained, hnode,
    decodeByteList_encodeByteList fitsList_nil, List.append_nil]

theorem onFrame_of_error {bytes : Bytes} (hdrained : s.node.inbox = [])
    (h : ∀ f, MeshFrame.decode bytes ≠ .ok f) : s.onFrame bytes = s := by
  apply onFrame_of_ingest hdrained
  rw [MeshFfi.ingest]
  cases hdec : MeshFrame.decode bytes with
  | ok f => exact absurd hdec (h f)
  | error e => rfl

theorem ingest_encode (n : MeshTables) (hfits : f.Fits) :
    MeshFfi.ingest n f.encode = (0, (n.handleIncoming f).2) := by
  rw [MeshFfi.ingest, MeshFrame.decode_encode hfits]

theorem onFrame_of_seen (hdrained : s.node.inbox = []) (hfits : f.Fits)
    (hseen : f.msgId ∈ s.node.seen) : s.onFrame f.encode = s := by
  apply onFrame_of_ingest hdrained
  rw [ingest_encode _ hfits, MeshTables.handleIncoming_of_mem hseen]

/-- What the node has for the service gets through. -/
theorem onFrame_encode (hfits : f.Fits)
    (hlist : FitsList (s.node.handleIncoming f).2.inbox) :
    s.onFrame f.encode = ⟨(s.node.handleIncoming f).2.takeInbox.2,
      s.inbox ++ (s.node.handleIncoming f).2.inbox⟩ := by
  simp only [onFrame, ingest_encode _ hfits, MeshFfi.takeInbox, MeshTables.takeInbox,
    decodeByteList_encodeByteList hlist]

/-- So does what it has for the radio. -/
theorem flush_eq (inv : s.node.Inv) (hshort : ∀ f ∈ s.node.outbound, RadioMesh.Short f.payload) :
    s.flush = s.node.outbound.map MeshFrame.encode := by
  have hlist : FitsList (s.node.outbound.map MeshFrame.encode) := by
    constructor
    · have hids := congrArg List.length inv.outbound_msgId
      rw [List.length_map] at hids
      rw [List.length_map, hids]
      exact Nat.lt_of_le_of_lt inv.storeLength (by decide)
    · intro item hitem
      obtain ⟨f, hf, rfl⟩ := List.mem_map.mp hitem
      exact (hshort f hf).length_encode
  rw [flush, MeshFfi.pendingBroadcast, decodeByteList_encodeByteList hlist]

end MeshService

/-! ## 6. A few acts of a mesh -/

/-- A node stores what it originates. -/
theorem MeshTables.mem_outbound_originated {n : MeshTables} (inv : n.Inv) (msgId : MsgId)
    (recipient : Bytes32) (payload : Bytes) :
    (n.originate msgId recipient payload).1 ∈ (n.originate msgId recipient payload).2.outbound := by
  have hstored := inv_step inv (.originate msgId recipient payload)
  apply (hstored.mem_outbound _).mpr
  obtain ⟨store, heq, hlookup⟩ := storeFrame_cases (inv_markSeen inv msgId)
    ⟨msgId, recipient, n.ttl, payload⟩
  rw [step, originate, heq]
  dsimp only
  rw [hlookup, if_pos (Fifo.mem_push_self storeCap_pos _ _), if_pos rfl]

namespace Mesh

variable {ι : Type} [DecidableEq ι] {me : ι → Bytes32} {ttl : ι → UInt8} {μ : Mesh ι}
variable {f : MeshFrame}

/-- A node may offer what it stores, all of it at once. -/
theorem Run.offers (run : Run FreshIds me ttl μ) (src : ι) {frames : List MeshFrame}
    (h : ∀ f ∈ frames, f ∈ (μ.node src).outbound) :
    Run FreshIds me ttl
      { μ with air := μ.air ++ frames.map fun f => (src, f) } := by
  induction frames generalizing μ with
  | nil =>
    rw [List.map_nil, List.append_nil]
    exact run
  | cons f frames ih =>
    obtain ⟨hf, hframes⟩ := List.forall_mem_cons.mp h
    have hoffer : μ.step (.offer src f) = { μ with air := μ.air ++ [(src, f)] } := if_pos hf
    have hoffered := Run.step (.offer src f) run trivial
    rw [hoffer] at hoffered
    have hrest := ih hoffered hframes
    rw [List.append_assoc] at hrest
    exact hrest

theorem step_receive_of_not_mem {src dst : ι} (hair : (src, f) ∈ μ.air)
    (hnew : f.msgId ∉ (μ.node dst).seenOrder) :
    μ.step (.receive src dst f) =
      { μ.setNode dst ((μ.node dst).handleIncoming f).2 with
        log := μ.log ++ [.accepted src dst f] } := by
  have hres := congrArg Prod.fst (MeshNode.handleIncoming_of_not_mem hnew)
  rw [step, if_pos hair]
  simp only [hres]

end Mesh

/-! ## 7. The mesh behind the radio -/

namespace RadioMesh

variable {ι : Type} [DecidableEq ι]

/-- What an event puts on the stream of the service `i`. -/
def delivery (me : Bytes32) (i : ι) : MeshEvent ι → Option Bytes
  | .originated _ _ => none
  | .accepted _ dst frame => if dst = i ∧ frame.recipient = me then some frame.payload else none

/-- The payloads that a node accepted as their recipient, in order. -/
def deliveries (me : Bytes32) (i : ι) (log : List (MeshEvent ι)) : List Bytes :=
  log.filterMap (delivery me i)

/-- A service and the node it stands for. -/
structure Serves (me : Bytes32) (i : ι) (log : List (MeshEvent ι)) (s : MeshService)
    (n : MeshNode) : Prop where
  inv : s.node.Inv
  refines : s.node.Refines n
  -- the native inbox is empty between two acts
  drained : s.node.inbox = []
  inbox : s.inbox = deliveries me i log

/-- The services are the nodes of the mesh, and broadcasts are its copies on the air. -/
structure Simulates (me : ι → Bytes32) (σ : RadioMesh ι) (μ : Mesh ι) : Prop where
  serves : ∀ i, Serves (me i) i μ.log (σ.service i) (μ.node i)
  air : σ.air = μ.air.map fun copy => (copy.1, copy.2.encode)
  sent : ∀ i f, .originated i f ∈ μ.log ↔ (i, f) ∈ σ.sent
  short : ∀ i f, (i, f) ∈ σ.sent → Short f.payload

variable {me : ι → Bytes32} {ttl : ι → UInt8} {σ : RadioMesh ι} {μ : Mesh ι} {f : MeshFrame}

theorem deliveries_originated (b : Bytes32) (i j : ι) (log : List (MeshEvent ι)) (f : MeshFrame) :
    deliveries b i (log ++ [.originated j f]) = deliveries b i log := by
  rw [deliveries, List.filterMap_append]
  exact List.append_nil _

theorem deliveries_accepted (b : Bytes32) (i src dst : ι) (log : List (MeshEvent ι))
    (f : MeshFrame) :
    deliveries b i (log ++ [.accepted src dst f]) =
      deliveries b i log ++ if dst = i ∧ f.recipient = b then [f.payload] else [] := by
  rw [deliveries, List.filterMap_append, List.filterMap_cons, delivery]
  split
  · rename_i h
    split at h
    · cases h
    · rename_i hnot
      rw [if_neg hnot]
      rfl
  · rename_i h
    split at h
    · rename_i hthat
      obtain rfl := Option.some.inj h
      rw [if_pos hthat]
      rfl
    · cases h

theorem of_mem_deliveries {b : Bytes32} {i : ι} {log : List (MeshEvent ι)} {payload : Bytes}
    (h : payload ∈ deliveries b i log) :
    ∃ src f, .accepted src i f ∈ log ∧ f.payload = payload ∧ f.recipient = b := by
  obtain ⟨e, he, hdelivery⟩ := List.mem_filterMap.mp h
  cases e with
  | originated j f => cases hdelivery
  | accepted src dst f =>
    rw [delivery] at hdelivery
    split at hdelivery
    · rename_i hthat
      obtain ⟨rfl, hrecipient⟩ := hthat
      exact ⟨src, f, he, Option.some.inj hdelivery, hrecipient⟩
    · cases hdelivery

theorem Serves.of_deliveries {b : Bytes32} {i : ι} {log log' : List (MeshEvent ι)}
    {s : MeshService} {n : MeshNode} (h : Serves b i log s n)
    (hlog : deliveries b i log' = deliveries b i log) : Serves b i log' s n :=
  { h with inbox := h.inbox.trans hlog.symm }

/-- Only the service that acts has to be looked at. -/
theorem serves_set {P : ι → MeshService → MeshNode → Prop} {i : ι} {s : MeshService}
    {n : MeshNode} (hother : ∀ j, j ≠ i → P j (σ.service j) (μ.node j)) (hself : P i s n) :
    ∀ j, P j ((σ.setService i s).service j) ((μ.setNode i n).node j) := by
  intro j
  by_cases hj : j = i
  · subst hj
    rw [service_setService_self, Mesh.node_setNode_self]
    exact hself
  · rw [service_setService_of_ne σ s hj, Mesh.node_setNode_of_ne n hj]
    exact hother j hj

theorem setService_self (σ : RadioMesh ι) (i : ι) : σ.setService i (σ.service i) = σ := by
  rw [setService, Function.update_eq_self]

theorem simulates_start : Simulates me (start me) (Mesh.start me fun _ => DEFAULT_TTL) where
  serves _ := ⟨MeshTables.inv_withTtl _ _, MeshTables.refines_withTtl _ _, rfl, rfl⟩
  air := rfl
  sent _ _ := iff_of_false List.not_mem_nil List.not_mem_nil
  short _ _ h := nomatch h

/-- Whatever came from somewhere is as short as it was there. -/
theorem Simulates.short_of_traced (hsim : Simulates me σ μ) {i : ι}
    (h : Mesh.Traced μ.log i f) : Short f.payload := by
  obtain ⟨-, path, f₀, hwalk⟩ := h
  obtain ⟨o, -, horigin⟩ := hwalk.originated
  rw [hwalk.same.2.2]
  exact hsim.short o f₀ ((hsim.sent o f₀).mp horigin)

/-! ## 8. Acts of the radio are acts of the mesh -/

theorem simulates_send (run : Mesh.Run Mesh.FreshIds me ttl μ) (hsim : Simulates me σ μ)
    {src : ι} {msgId : MsgId} {recipient : Bytes32} {payload : Bytes}
    (hcond : Cond σ (.send src msgId recipient payload)) :
    ∃ μ', Mesh.Run Mesh.FreshIds me ttl μ' ∧
      Simulates me (σ.step (.send src msgId recipient payload)) μ' := by
  obtain ⟨hfresh, hshort⟩ := hcond
  have hsrc := hsim.serves src
  have hfreshIds : Mesh.FreshIds μ (.originate src msgId recipient payload) := by
    intro i f hf
    exact hfresh i f ((hsim.sent i f).mp hf)
  have horiginated := Mesh.Run.step _ run hfreshIds
  have hrefines := MeshTables.refines_step hsrc.inv hsrc.refines (.originate msgId recipient payload)
  have hinv := MeshTables.inv_step hsrc.inv (.originate msgId recipient payload)
  -- both nodes originate the same frame
  have hframe : ((μ.node src).originate msgId recipient payload).1 =
      ((σ.service src).node.originate msgId recipient payload).1 := by
    simp only [MeshNode.originate, MeshTables.originate, hsrc.refines.ttl]
  have hout : ∀ f ∈ [((μ.node src).originate msgId recipient payload).1],
      f ∈ ((μ.step (.originate src msgId recipient payload)).node src).outbound := by
    intro f hf
    rw [List.mem_singleton.mp hf, hframe, Mesh.step]
    dsimp only
    rw [Mesh.node_setNode_self]
    exact hrefines.outbound_eq ▸ MeshTables.mem_outbound_originated hsrc.inv msgId recipient payload
  refine ⟨_, horiginated.offers src hout, ?_, ?_, ?_, ?_⟩
  · refine serves_set ?_ ⟨hinv, hrefines, ?_, ?_⟩
    · intro j _
      exact (hsim.serves j).of_deliveries (deliveries_originated ..)
    · have hsame := (MeshTables.storeFrame_frame ((σ.service src).node.markSeen msgId)
        ⟨msgId, recipient, (σ.service src).node.ttl, payload⟩).2.2.2
      rw [(MeshTables.markSeen_frame _ msgId).2.2.2.2, hsrc.drained] at hsame
      exact hsame
    · exact hsrc.inbox.trans (deliveries_originated ..).symm
  · simp only [step, MeshService.send, MeshFfi.originate, Mesh.step, hsim.air, List.map_append,
      List.map_cons, List.map_nil, hframe]
    rfl
  · intro i f
    simp only [step, Mesh.step, List.mem_append, List.mem_singleton, hsim.sent, hframe,
      MeshEvent.originated.injEq, Prod.mk.injEq]
  · intro i f hf
    rcases List.mem_append.mp hf with hf | hf
    · exact hsim.short i f hf
    · obtain ⟨-, rfl⟩ := Prod.mk.inj (List.mem_singleton.mp hf)
      exact hshort

theorem simulates_flush (run : Mesh.Run Mesh.FreshIds me ttl μ) (inv : Mesh.Inv me ttl μ)
    (hsim : Simulates me σ μ) (src : ι) :
    ∃ μ', Mesh.Run Mesh.FreshIds me ttl μ' ∧ Simulates me (σ.step (.flush src)) μ' := by
  have hsrc := hsim.serves src
  have hout := hsrc.refines.outbound_eq
  have hflush := MeshService.flush_eq hsrc.inv (by
    intro f hf
    rw [hout] at hf
    exact hsim.short_of_traced ((inv.nodes src).stored f hf))
  refine ⟨_, run.offers src fun _ h => h, hsim.serves, ?_, hsim.sent, hsim.short⟩
  simp only [step, hflush, hout, hsim.air, List.map_append, List.map_map]
  rfl

theorem simulates_hear (run : Mesh.Run Mesh.FreshIds me ttl μ) (inv : Mesh.Inv me ttl μ)
    (hsim : Simulates me σ μ) {src dst : ι} (hair : (src, f) ∈ μ.air) :
    ∃ μ', Mesh.Run Mesh.FreshIds me ttl μ' ∧
      Simulates me (σ.setService dst ((σ.service dst).onFrame f.encode)) μ' := by
  have hdst := hsim.serves dst
  have hshort := hsim.short_of_traced (inv.air src f hair)
  have hme : (μ.node dst).me = me dst := (inv.nodes dst).sameMe
  by_cases hseen : f.msgId ∈ (σ.service dst).node.seen
  · -- the node has seen it, and nothing happens
    rw [MeshService.onFrame_of_seen hdst.drained hshort.fits hseen, setService_self]
    exact ⟨μ, run, hsim⟩
  · have hnew : f.msgId ∉ (μ.node dst).seenOrder := by
      rw [hdst.refines.seenOrder]
      exact fun h => hseen ((hdst.inv.mem_seen _).mpr h)
    have hrefines := MeshTables.refines_step hdst.inv hdst.refines (.receive f)
    have hinv := MeshTables.inv_step hdst.inv (.receive f)
    -- what the node has for its service
    have hinbox : ((σ.service dst).node.handleIncoming f).2.inbox =
        if f.recipient = me dst then [f.payload] else [] := by
      have hinbox' := MeshNode.handleIncoming_inbox hnew
      rw [hme, hdst.refines.inbox, hdst.drained, List.nil_append] at hinbox'
      exact hrefines.inbox.symm.trans hinbox'
    have hfits : FitsList ((σ.service dst).node.handleIncoming f).2.inbox := by
      have hsmall : f.payload.length < 2 ^ 32 :=
        Nat.lt_of_le_of_lt (Nat.le_add_right ..) hshort
      rw [hinbox]
      split
      · exact ⟨(by decide : 1 < 2 ^ 32), List.forall_mem_singleton.mpr hsmall⟩
      · exact MeshService.fitsList_nil
    have hreceived := Mesh.Run.step (.receive src dst f) run trivial
    rw [Mesh.step_receive_of_not_mem hair hnew] at hreceived
    have htaken := Mesh.Run.step (.takeInbox dst) hreceived trivial
    refine ⟨_, htaken, ?_, hsim.air, ?_, hsim.short⟩
    · refine serves_set ?_ ?_
      · intro j hj
        have hother := hsim.serves j
        rw [← Mesh.node_setNode_of_ne ((μ.node dst).handleIncoming f).2 hj] at hother
        refine hother.of_deliveries ((deliveries_accepted ..).trans ?_)
        rw [if_neg fun h => hj h.1.symm, List.append_nil]
      · rw [MeshService.onFrame_encode hshort.fits hfits]
        refine ⟨MeshTables.inv_step hinv .takeInbox, ?_, rfl, ?_⟩
        · dsimp only
          rw [Mesh.node_setNode_self]
          exact MeshTables.refines_step hinv hrefines .takeInbox
        · refine Eq.trans ?_ (deliveries_accepted ..).symm
          simp only [hinbox, hdst.inbox, true_and]
    · intro i g
      refine Iff.trans ?_ (hsim.sent i g)
      constructor
      · intro h
        exact (List.mem_append.mp h).resolve_right (by simp)
      · intro h
        exact List.mem_append_left _ h

/-- **An act of the radio is a few acts of the mesh.** -/
theorem simulates_step (hT : ∀ i, 1 ≤ ttl i) (run : Mesh.Run Mesh.FreshIds me ttl μ)
    (hsim : Simulates me σ μ) (act : RadioAct ι) (hcond : Cond σ act) :
    ∃ μ', Mesh.Run Mesh.FreshIds me ttl μ' ∧ Simulates me (σ.step act) μ' := by
  have inv := Mesh.inv_run hT run
  cases act with
  | send src msgId recipient payload => exact simulates_send run hsim hcond
  | flush src => exact simulates_flush run inv hsim src
  | hear src dst bytes =>
    rw [step]
    split
    · rename_i hair
      rw [hsim.air] at hair
      obtain ⟨⟨src', f⟩, hcopy, heq⟩ := List.mem_map.mp hair
      obtain ⟨rfl, rfl⟩ := Prod.mk.inj heq
      exact simulates_hear run inv hsim hcopy
    · exact ⟨μ, run, hsim⟩
  | noise dst bytes =>
    rw [step, MeshService.onFrame_of_error (hsim.serves dst).drained hcond, setService_self]
    exact ⟨μ, run, hsim⟩

theorem simulates_run (run : Run me σ) :
    ∃ μ, Mesh.Run Mesh.FreshIds me (fun _ => DEFAULT_TTL) μ ∧ Simulates me σ μ := by
  induction run with
  | start => exact ⟨_, .start, simulates_start⟩
  | step act _ hcond ih =>
    obtain ⟨μ, run, hsim⟩ := ih
    exact simulates_step (fun _ => by decide) run hsim act hcond

/-- **The services are a mesh.**  Whatever is sent, flushed, heard and misheard: there is a
    run of the mesh in which every service's stream is what its node accepted for it, each
    payload once and in that order.  So a payload on a stream was sent to that service, and
    it came over a way of at most `DEFAULT_TTL` hops. -/
theorem services_are_mesh (run : Run me σ) :
    ∃ μ, Mesh.Run Mesh.FreshIds me (fun _ => DEFAULT_TTL) μ ∧ Simulates me σ μ ∧
      ∀ i, ∀ payload ∈ (σ.service i).inbox, ∃ o f₀ src path f,
        (o, f₀) ∈ σ.sent ∧ f₀.payload = payload ∧ f₀.recipient = me i ∧
        .accepted src i f ∈ μ.log ∧ Mesh.Way μ (fun _ => DEFAULT_TTL) src path o f₀ f ∧
        (src :: path).length ≤ DEFAULT_TTL.toNat := by
  obtain ⟨μ, hrun, hsim⟩ := simulates_run run
  have inv := Mesh.inv_run (fun _ => by decide) hrun
  refine ⟨μ, hrun, hsim, ?_⟩
  intro i payload hp
  rw [(hsim.serves i).inbox] at hp
  obtain ⟨src, f, hacc, hpayload, hrecipient⟩ := of_mem_deliveries hp
  obtain ⟨path, o, f₀, way⟩ := inv.way (inv.accepted src i f hacc)
  refine ⟨o, f₀, src, path, f, (hsim.sent o f₀).mp way.origin, ?_, ?_, hacc, way, ?_⟩
  · rw [← way.samePayload, hpayload]
  · rw [← way.sameRecipient, hrecipient]
  · have hbudget := way.budget
    have halive := way.alive
    rw [List.length_cons]
    omega

section Sample

inductive Phone where
  | sender
  | carrier
  | recipient
deriving DecidableEq

def Phone.identity : Phone → Bytes32
  | .sender => .ofByte 0
  | .carrier => .ofByte 1
  | .recipient => .ofByte 2

def sampleFrame : MeshFrame := ⟨Vector.replicate 16 7, .ofByte 2, DEFAULT_TTL, [42]⟩

/-- The frame goes from phone to phone; then the last one hears noise. -/
def carriedRadio : RadioMesh Phone :=
  [.send .sender sampleFrame.msgId sampleFrame.recipient sampleFrame.payload,
    .hear .sender .carrier sampleFrame.encode, .flush .carrier,
    .hear .carrier .recipient sampleFrame.onward.encode,
    .noise .recipient [1, 2, 3]].foldl step (start Phone.identity)

theorem run_carriedRadio : Run Phone.identity carriedRadio := by
  apply Run.along .start
  refine ⟨⟨?_, ?_⟩, trivial, trivial, trivial, ?_, trivial⟩
  · intro _ _ h
    exact nomatch h
  · exact (by decide : 1 + 57 < 2 ^ 32)
  · intro f h
    have hnone : MeshFrame.decode [1, 2, 3] = .error (.decode bincodeError) := by decide
    rw [hnone] at h
    exact nomatch h

theorem services_are_mesh_carried : (carriedRadio.service .recipient).inbox = [[42]] ∧
    ∃ o f₀, (o, f₀) ∈ carriedRadio.sent ∧ f₀.payload = [42] ∧
      f₀.recipient = Phone.identity .recipient := by
  have hin : (carriedRadio.service .recipient).inbox = [[42]] := by decide +kernel
  obtain ⟨μ, -, -, hway⟩ := services_are_mesh run_carriedRadio
  obtain ⟨o, f₀, -, -, -, hsent, hpayload, hrecipient, -⟩ := hway .recipient [42] (by
    rw [hin]
    exact List.mem_singleton_self _)
  exact ⟨hin, o, f₀, hsent, hpayload, hrecipient⟩

end Sample

end RadioMesh

end Clarity
