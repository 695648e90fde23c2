/-
  Clarity/Messenger.lean
  ======================
  **Two clients and an honest relay.**

  Alice's and Bob's apps have published their bundles.  Each may fetch the other's
  bundle and go on to add the other as a contact, send texts, and take delivery of
  an envelope that is waiting for it, in any order; the relay loses nothing and
  delivers every envelope once.  An app picks the session for an envelope from its
  own state alone.

    * `Orderly` — nobody opens a session that crosses one the other side already
      has, or that replaces one already in use;
    * `texts_arrive_once` — in every orderly run, once all envelopes are delivered,
      each side shows exactly the texts the other side sent;
    * `crossing_loses_text` — when both add each other first, a text is lost.
-/
import Clarity.AppSpec
import Clarity.Sample

namespace Clarity

/-! ## 1. The system -/

inductive Peer where
  | alice
  | bob
deriving DecidableEq, Repr

namespace Peer

def other : Peer → Peer
  | alice => bob
  | bob => alice

/-- The client on one side of a session that `x` opened. -/
def onSide (x : Peer) : Side → Peer
  | .initiator => x
  | .responder => x.other

/-- The side of `y` in a session that `x` opened. -/
def role (x y : Peer) : Side := if y = x then .initiator else .responder

end Peer

/-- An envelope waiting for its recipient, with the message and the text it was made
    from. -/
structure Mail where
  dest : Peer
  envelope : Bytes
  message : Message Bytes
  text : Text
deriving DecidableEq

structure Messenger (P : Suite Bytes) where
  client : Peer → AppState P
  directory : Directory
  -- the bundles that came back to an `addContact` still to be finished
  fetched : Peer → List PreKeyBundle
  flight : List Mail
  sent : Peer → List Text
  -- the public ratchet keys used so far
  ratchetKeys : List Bytes32

/-- What can happen next. -/
inductive Act (P : Suite Bytes) where
  | fetch (x : Peer)
  | add (x : Peer) (bundle : PreKeyBundle) (displayName : Text) (rnd : Session.InitiateRandom P)
  | send (x : Peer) (text : Text) (eph : P.Secret) (now : DateTime)
  | deliver (mail : Mail) (fresh : P.Secret) (draws : Nat → P.Secret) (now : DateTime)
  | republish (x : Peer)

namespace Messenger

variable {P : Suite Bytes}

def identity (σ : Messenger P) (x : Peer) : Bytes32 := (σ.client x).account.identityPublic

/-- The session `x` has on file for the other client. -/
def session (σ : Messenger P) (x : Peer) : Option (Session P) :=
  (σ.client x).sessions.get? (σ.identity x.other)

/-- Put a client's new state in place, and note the ratchet key it uses. -/
def setClient (σ : Messenger P) (x : Peer) (s : AppState P) : Messenger P :=
  { σ with
    client := Function.update σ.client x s
    ratchetKeys :=
      ((s.sessions.get? (σ.identity x.other)).map fun t => t.ratchet.dhSelfPub).toList ++
        σ.ratchetKeys }

/-- `addContact` up to the directory's answer. -/
def fetch (σ : Messenger P) (x : Peer) : Messenger P :=
  let (bundle, directory) := σ.directory.fetchBundle (σ.identity x.other)
  { σ with
    directory := directory
    fetched := Function.update σ.fetched x (σ.fetched x ++ bundle.toList) }

/-- `addContact` from there on. -/
def add (σ : Messenger P) (x : Peer) (bundle : PreKeyBundle) (displayName : Text)
    (rnd : Session.InitiateRandom P) : Messenger P :=
  { σ.setClient x ((σ.client x).addContact (σ.identity x.other) displayName
      (some bundle.encode) rnd).2 with
    fetched := Function.update σ.fetched x ((σ.fetched x).erase bundle) }

/-- `sendMessage`. -/
def send (D : DartConvert) (σ : Messenger P) (x : Peer) (text : Text) (eph : P.Secret)
    (now : DateTime) : Messenger P :=
  match (σ.client x).sendMessage D (σ.identity x.other) text eph now with
  | (.error _, s) => σ.setClient x s
  | (.ok out, s) =>
    { σ.setClient x s with
      flight := σ.flight ++ [⟨x.other, out.envelope, out.message, text⟩]
      sent := Function.update σ.sent x (σ.sent x ++ [text]) }

/-- `_handleIncoming`. -/
def deliver (D : DartConvert) (σ : Messenger P) (mail : Mail) (fresh : P.Secret)
    (draws : Nat → P.Secret) (now : DateTime) : Messenger P :=
  { σ.setClient mail.dest
      ((σ.client mail.dest).handleIncoming D mail.envelope fresh draws now).2 with
    flight := σ.flight.erase mail }

/-- The end of `_maybeReplenishPrekeys`. -/
def republish (σ : Messenger P) (x : Peer) : Messenger P :=
  { σ with
    client := Function.update σ.client x { σ.client x with replenishing := false }
    directory := σ.directory.publish (σ.client x).account.bundleBase
      (σ.client x).account.oneTimePrekeyPublics }

def apply (D : DartConvert) (σ : Messenger P) : Act P → Messenger P
  | .fetch x => σ.fetch x
  | .add x bundle displayName rnd => σ.add x bundle displayName rnd
  | .send x text eph now => σ.send D x text eph now
  | .deliver mail fresh draws now => σ.deliver D mail fresh draws now
  | .republish x => σ.republish x

/-- What the environment guarantees: envelopes are delivered once, fresh ratchet
    keys are new, and the limits of the ratchet are kept. -/
def Admissible (σ : Messenger P) : Act P → Prop
  | .fetch _ => True
  | .add x bundle _ rnd => bundle ∈ σ.fetched x ∧ P.publicKey rnd.ratchet ∉ σ.ratchetKeys
  | .send x _ _ _ => ∀ s, σ.session x = some s → s.ratchet.nSend.toNat + 1 < 2 ^ 32
  | .deliver mail fresh _ _ =>
    mail ∈ σ.flight ∧ P.publicKey fresh ∉ σ.ratchetKeys ∧
      match σ.session mail.dest with
      | some s => s.ratchet.WithinLimits mail.message.header
      | none => mail.message.header.n.toNat ≤ MAX_SKIP.toNat
  | .republish x => (σ.client x).replenishing = true

/-- A client that has just been set up. -/
def newClient (account : Account P) : AppState P where
  account := account
  contacts := ∅
  sessions := ∅
  conversations := ∅
  replenishing := false

/-- Both apps have started: their bundles are published. -/
def start (accounts : Peer → Account P) : Messenger P where
  client x := newClient (accounts x)
  directory :=
    ((∅ : Directory).publish (accounts .alice).bundleBase
      (accounts .alice).oneTimePrekeyPublics).publish (accounts .bob).bundleBase
        (accounts .bob).oneTimePrekeyPublics
  fetched _ := []
  flight := []
  sent _ := []
  ratchetKeys :=
    [P.publicKey (accounts .alice).signedPrekey, P.publicKey (accounts .bob).signedPrekey]

/-- The runs whose actions all meet `Cond`. -/
inductive Run (D : DartConvert) (accounts : Peer → Account P)
    (Cond : Messenger P → Act P → Prop) : Messenger P → Prop where
  | start : Run D accounts Cond (start accounts)
  | step {σ : Messenger P} (act : Act P) :
      Run D accounts Cond σ → σ.Admissible act → Cond σ act → Run D accounts Cond (σ.apply D act)

/-- A contact is added only while the other side has no session for this client and
    nothing was sent; messages fit the length field of their envelope. -/
def Orderly (D : DartConvert) (σ : Messenger P) : Act P → Prop
  | .add x _ _ _ => σ.session x.other = none ∧ σ.sent x = []
  | .send x text eph now => ∀ out s,
      (σ.client x).sendMessage D (σ.identity x.other) text eph now = (.ok out, s) →
        out.message.encode.length < 2 ^ 32
  | _ => True

/-! ## 2. The invariant -/

/-- Mail as a packet of a session that `x` opened. -/
def packet (D : DartConvert) (x : Peer) (e : Mail) : Packet Bytes :=
  ⟨x.role e.dest, e.message, textBytes D e.text⟩

/-- The system as a session that `x` opened. -/
def conversation (D : DartConvert) (σ : Messenger P) (x : Peer) : Conversation P where
  session side := σ.session (x.onSide side)
  account := (σ.client x.other).account
  flight := σ.flight.map (packet D x)
  ratchetKeys := σ.ratchetKeys

/-- The texts of a list of mail that are for `x`. -/
def textsFor (x : Peer) (flight : List Mail) : List Text :=
  (flight.filter fun e => e.dest = x).map Mail.text

/-- What the recipient of a piece of mail finds in its envelope. -/
def contents (accounts : Peer → Account P) (e : Mail) : OpenedEnvelope where
  senderIdentityEd := (accounts e.dest.other).identityPublic
  senderIdentityDh := (accounts e.dest.other).identityDhPublic
  payload := e.message.encode

/-- What always holds of the state `s` of client `x`. -/
structure ClientInv (accounts : Peer → Account P) (x : Peer) (s : AppState P) : Prop where
  keys : (accounts x).SameKeys s.account
  contact : ∀ c, s.contacts.get? (accounts x.other).identityPublic = some c →
    c.identityDh = (accounts x.other).identityDhPublic
  filed : s.sessions.get? (accounts x.other).identityPublic ≠ none →
    s.contacts.get? (accounts x.other).identityPublic ≠ none ∧
      s.conversations.get? (accounts x.other).identityPublic ≠ none

/-- Nothing has reached `x` yet. -/
structure Untouched (accounts : Peer → Account P) (σ : Messenger P) (x : Peer) : Prop where
  account : (σ.client x).account = accounts x
  sent : σ.sent x = []
  directory : σ.directory.Offered (accounts x)
  fetched : ∀ b ∈ σ.fetched x.other, (accounts x).Offers b

structure Inv (D : DartConvert) (accounts : Peer → Account P) (σ : Messenger P) : Prop where
  client : ∀ x, ClientInv accounts x (σ.client x)
  prekeys : ∀ x, P.publicKey (accounts x).signedPrekey ∈ σ.ratchetKeys
  mail : ∀ e ∈ σ.flight, openEnvelope (accounts e.dest) e.envelope = .ok (contents accounts e) ∧
    Message.decode e.message.encode = .ok e.message
  untouched : ∀ x, σ.session x = none → Untouched accounts σ x
  texts : ∀ x, ((σ.client x.other).incomingTexts (accounts x).identityPublic ++
    textsFor x.other σ.flight).Perm (σ.sent x)
  sessions : (∀ x, σ.session x = none) ∨
    ∃ x hs ad g turn, Conversation.Inv hs ad g turn (σ.conversation D x)

/-! ## 3. Names and sides -/

@[simp] theorem other_other (x : Peer) : x.other.other = x := by cases x <;> rfl

theorem other_ne (x : Peer) : x.other ≠ x := by cases x <;> decide

theorem eq_or_eq_other (x y : Peer) : y = x ∨ y = x.other := by
  cases x <;> cases y <;> decide

@[simp] theorem onSide_role (x y : Peer) : x.onSide (x.role y) = y := by
  cases x <;> cases y <;> rfl

@[simp] theorem role_onSide (x : Peer) (side : Side) : x.role (x.onSide side) = side := by
  cases x <;> cases side <;> rfl

theorem role_other (x y : Peer) : x.role y.other = (x.role y).other := by
  cases x <;> cases y <;> rfl

variable {D : DartConvert} {accounts : Peer → Account P} {σ : Messenger P}

theorem identity_ne (hne : (accounts .alice).identityPublic ≠ (accounts .bob).identityPublic)
    (x : Peer) : (accounts x).identityPublic ≠ (accounts x.other).identityPublic := by
  cases x
  · exact hne
  · exact hne.symm

theorem Inv.identity_eq (h : Inv D accounts σ) (x : Peer) :
    σ.identity x = (accounts x).identityPublic := (h.client x).keys.identityPublic

theorem identity_setClient {x : Peer} {s : AppState P}
    (hs : s.account.identityPublic = σ.identity x) (y : Peer) :
    (σ.setClient x s).identity y = σ.identity y := by
  unfold identity setClient
  by_cases hy : y = x
  · subst hy
    simpa [identity] using hs
  · simp [Function.update_of_ne hy]

theorem session_setClient {x : Peer} {s : AppState P}
    (hs : s.account.identityPublic = σ.identity x) (y : Peer) :
    (σ.setClient x s).session y =
      if y = x then s.sessions.get? (σ.identity x.other) else σ.session y := by
  unfold session
  rw [identity_setClient hs]
  unfold setClient
  by_cases hy : y = x
  · subst hy
    simp
  · simp [hy]

/-- A client that goes on with session `t` moves its side of the conversation. -/
theorem conversation_setClient {x y : Peer} {s : AppState P} {t : Session P} (flight : List Mail)
    (hs : s.account.identityPublic = σ.identity y)
    (ht : s.sessions.get? (σ.identity y.other) = some t) :
    conversation D { σ.setClient y s with flight := flight } x =
      { (σ.conversation D x).setSession (x.role y) t with
        account := ((σ.setClient y s).client x.other).account
        flight := flight.map (packet D x) } := by
  have hsession : ((σ.setClient y s).conversation D x).session =
      Function.update (σ.conversation D x).session (x.role y) (some t) := by
    funext side
    show (σ.setClient y s).session (x.onSide side) = _
    rw [session_setClient hs, ht]
    by_cases hside : side = x.role y
    · subst hside
      simp
    · have hne : x.onSide side ≠ y := by
        intro heq
        exact hside (by rw [← heq, role_onSide])
      rw [Function.update_of_ne hside, if_neg hne]
      rfl
  have hkeys : t.ratchet.dhSelfPub :: (σ.conversation D x).ratchetKeys =
      (σ.setClient y s).ratchetKeys := by
    simp [setClient, ht, conversation]
  unfold Conversation.setSession
  rw [← hsession, hkeys]
  rfl

theorem account_setClient {x : Peer} {s : AppState P}
    (hs : s.account = (σ.client x).account) (y : Peer) :
    ((σ.setClient x s).client y).account = (σ.client y).account := by
  by_cases hy : y = x
  · subst hy
    simpa [setClient] using hs
  · simp [setClient, hy]

theorem setClient_self {x : Peer} (h : σ.session x = none) :
    σ.setClient x (σ.client x) = σ := by
  have hnone : (σ.client x).sessions.get? (σ.identity x.other) = none := h
  simp [setClient, hnone]

/-! ## 4. Fetching and publishing -/

/-- The directory answers with bundles that an untouched account offers. -/
theorem Inv.fetch (hne : (accounts .alice).identityPublic ≠ (accounts .bob).identityPublic)
    (h : Inv D accounts σ) (x : Peer) : Inv D accounts (σ.fetch x) where
  client := h.client
  prekeys := h.prekeys
  mail := h.mail
  texts := h.texts
  sessions := h.sessions
  untouched := by
    intro y hnone
    have hold := h.untouched y hnone
    refine ⟨hold.account, hold.sent, ?_, ?_⟩
    · show (σ.directory.fetchBundle (σ.identity x.other)).2.Offered (accounts y)
      rw [h.identity_eq]
      rcases eq_or_eq_other x.other y with rfl | rfl
      · exact hold.directory.fetch.2
      · exact hold.directory.fetch_other (identity_ne hne _)
    · intro b hb
      change b ∈ Function.update σ.fetched x (σ.fetched x ++
        (σ.directory.fetchBundle (σ.identity x.other)).1.toList) y.other at hb
      rcases eq_or_eq_other x.other y with rfl | rfl
      · rw [other_other, Function.update_self, h.identity_eq] at hb
        rcases List.mem_append.mp hb with hb | hb
        · exact hold.fetched b (by rwa [other_other])
        · exact hold.directory.fetch.1 b (Option.mem_toList.mp hb)
      · rw [Function.update_of_ne (by simpa using other_ne x)] at hb
        exact hold.fetched b hb

theorem session_republish (x y : Peer) : (σ.republish x).session y = σ.session y := by
  have hclient : ∀ z, ((σ.republish x).client z).account = (σ.client z).account ∧
      ((σ.republish x).client z).sessions = (σ.client z).sessions := by
    intro z
    by_cases hz : z = x
    · subst hz
      simp [republish]
    · simp [republish, hz]
  unfold session identity
  rw [(hclient y).2, (hclient y.other).1]

theorem Inv.republish (hne : (accounts .alice).identityPublic ≠ (accounts .bob).identityPublic)
    (h : Inv D accounts σ) (x : Peer) : Inv D accounts (σ.republish x) := by
  -- only the flag of one client changes
  have hclient : ∀ z, (σ.republish x).client z =
      { σ.client z with replenishing := ((σ.republish x).client z).replenishing } := by
    intro z
    by_cases hz : z = x
    · subst hz
      simp [Messenger.republish]
    · simp [Messenger.republish, hz]
  have hconv : ∀ y, (σ.republish x).conversation D y = σ.conversation D y := by
    intro y
    unfold conversation
    rw [hclient y.other]
    simp only [session_republish]
    rfl
  refine ⟨?_, h.prekeys, h.mail, ?_, ?_, ?_⟩
  · intro y
    have hold := h.client y
    rw [hclient y]
    exact ⟨hold.keys, hold.contact, hold.filed⟩
  · intro y hnone
    rw [session_republish] at hnone
    have hold := h.untouched y hnone
    refine ⟨by rw [hclient y]; exact hold.account, hold.sent, ?_, hold.fetched⟩
    show (σ.directory.publish (σ.client x).account.bundleBase
      (σ.client x).account.oneTimePrekeyPublics).Offered (accounts y)
    rcases eq_or_eq_other x y with rfl | rfl
    · rw [hold.account]
      exact Directory.offered_publish _ _
    · apply hold.directory.publish_other
      have hid : (σ.client x).account.identityPublic = _ := h.identity_eq x
      rw [hid]
      exact identity_ne hne x
  · intro y
    rw [hclient y.other]
    exact h.texts y
  · rcases h.sessions with hnone | ⟨y, hs, ad, g, turn, hinv⟩
    · exact Or.inl fun y => by rw [session_republish]; exact hnone y
    · exact Or.inr ⟨y, hs, ad, g, turn, by rw [hconv]; exact hinv⟩

/-- One client moves on, with a session on file. -/
theorem Inv.moved (h : Inv D accounts σ) {x : Peer} {s : AppState P} {t : Session P}
    {fetched : Peer → List PreKeyBundle} {flight : List Mail} {sent : Peer → List Text}
    (hclient : ClientInv accounts x s) (ht : s.sessions.get? (σ.identity x.other) = some t)
    (hfetched : ∀ b ∈ fetched x, b ∈ σ.fetched x) (hsent : sent x.other = σ.sent x.other)
    (hmail : ∀ e ∈ flight, openEnvelope (accounts e.dest) e.envelope = .ok (contents accounts e) ∧
      Message.decode e.message.encode = .ok e.message)
    (htexts : ∀ y, (((σ.setClient x s).client y.other).incomingTexts (accounts y).identityPublic ++
      textsFor y.other flight).Perm (sent y))
    (hconv : ∃ y hs ad g turn, Conversation.Inv hs ad g turn
      (conversation D { σ.setClient x s with flight := flight } y)) :
    Inv D accounts { σ.setClient x s with fetched := fetched, flight := flight, sent := sent } where
  client := by
    intro y
    by_cases hy : y = x
    · subst hy
      simpa [setClient] using hclient
    · simpa [setClient, hy] using h.client y
  prekeys := fun y => List.mem_append_right _ (h.prekeys y)
  mail := hmail
  untouched := by
    intro y hnone
    have hid : s.account.identityPublic = σ.identity x :=
      hclient.keys.identityPublic.trans (h.identity_eq x).symm
    change (σ.setClient x s).session y = none at hnone
    rw [session_setClient hid, ht] at hnone
    -- so it is the other client, whose state did not change
    have hy : y ≠ x := by
      rintro rfl
      simp at hnone
    rw [if_neg hy] at hnone
    obtain rfl : y = x.other := (eq_or_eq_other x y).resolve_left hy
    have hold := h.untouched x.other hnone
    refine ⟨?_, hsent.trans hold.sent, hold.directory, ?_⟩
    · simpa [setClient, hy] using hold.account
    · intro b hb
      rw [other_other] at hb
      exact hold.fetched b (by rw [other_other]; exact hfetched b hb)
  texts := htexts
  sessions := Or.inr hconv

/-! ## 5. Adding a contact -/

theorem mem_textsFor {e : Mail} {flight : List Mail} (h : e ∈ flight) :
    e.text ∈ textsFor e.dest flight :=
  List.mem_map_of_mem (List.mem_filter.mpr ⟨h, by simp⟩)

/-- Nothing is in flight while neither side has sent anything. -/
theorem Inv.flight_nil (h : Inv D accounts σ) (hsent : ∀ x, σ.sent x = []) : σ.flight = [] := by
  apply List.eq_nil_iff_forall_not_mem.mpr
  intro e he
  have htexts := h.texts e.dest.other
  rw [hsent, other_other] at htexts
  have hmem := htexts.mem_iff.mp (List.mem_append_right _ (mem_textsFor he))
  cases hmem

/-- Right after an orderly `addContact` the system is a freshly opened session. -/
theorem Inv.opened (hP : P.Lawful) (h : Inv D accounts σ) {x : Peer} {bundle : PreKeyBundle}
    {rnd : Session.InitiateRandom P} {t : Session P} {s : AppState P}
    (hnone : σ.session x.other = none) (hsent : σ.sent x = [])
    (hoffer : (accounts x.other).Offers bundle)
    (hinit : Session.initiate (σ.client x).account bundle rnd = .ok t)
    (hfresh : P.publicKey rnd.ratchet ∉ σ.ratchetKeys) (haccount : s.account = (σ.client x).account)
    (ht : s.sessions.get? (σ.identity x.other) = some t) :
    ∃ hs ad g turn, Conversation.Inv hs ad g turn (conversation D { σ.setClient x s with flight := σ.flight } x) := by
  have hother := h.untouched x.other hnone
  have hempty : σ.flight = [] := by
    apply h.flight_nil
    intro y
    rcases eq_or_eq_other x y with rfl | rfl
    · exact hsent
    · exact hother.sent
  have hspk : P.publicKey rnd.ratchet ≠ P.publicKey (accounts x.other).signedPrekey := by
    intro heq
    exact hfresh (heq ▸ h.prekeys x.other)
  have hpub : t.ratchet.dhSelfPub = P.publicKey rnd.ratchet := by
    obtain ⟨_, root, hs, spk, _, rfl⟩ := Session.initiate_ok_cases hinit
    rfl
  obtain ⟨hs, ad, g, turn, hopened⟩ := Conversation.inv_opened hP hoffer hinit hspk
  have hweak : Conversation.Inv hs ad g turn
      ⟨Function.update (fun _ => none) .initiator (some t), accounts x.other, [],
        t.ratchet.dhSelfPub :: σ.ratchetKeys⟩ := by
    refine hopened.weaken (fun _ => rfl) ?_
    intro k hk
    rw [hpub]
    rcases List.mem_cons.mp hk with rfl | hk
    · exact List.mem_cons_self ..
    · rw [List.mem_singleton.mp hk]
      exact List.mem_cons_of_mem _ (h.prekeys x.other)
  have hid : s.account.identityPublic = σ.identity x := by rw [haccount]; rfl
  have hsession : Function.update (σ.conversation D x).session .initiator (some t) =
      Function.update (fun _ => none) .initiator (some t) := by
    funext side
    cases side with
    | initiator => simp
    | responder => exact hnone
  have hrole : x.role x = .initiator := by simp [Peer.role]
  have hconv : conversation D { σ.setClient x s with flight := σ.flight } x =
      ⟨Function.update (fun _ => none) .initiator (some t), accounts x.other, [],
        t.ratchet.dhSelfPub :: σ.ratchetKeys⟩ := by
    rw [conversation_setClient σ.flight hid ht, hrole]
    unfold Conversation.setSession
    rw [hsession, account_setClient haccount, hother.account, hempty]
    rfl
  exact ⟨hs, ad, g, turn, by rw [hconv]; exact hweak⟩

theorem Inv.add (hP : P.Lawful) (h : Inv D accounts σ) {x : Peer} {bundle : PreKeyBundle}
    {displayName : Text} {rnd : Session.InitiateRandom P}
    (hadm : σ.Admissible (.add x bundle displayName rnd))
    (hcond : σ.Orderly D (.add x bundle displayName rnd)) :
    Inv D accounts (σ.add x bundle displayName rnd) := by
  obtain ⟨hmem, hfresh⟩ := hadm
  obtain ⟨hnone, hsent⟩ := hcond
  have hother := h.untouched x.other hnone
  have hoffer : (accounts x.other).Offers bundle := hother.fetched bundle (by rwa [other_other])
  obtain ⟨t, hinit⟩ := hoffer.initiate_ok hP (σ.client x).account rnd
  obtain ⟨s, hadd, haccount, hcontacts, hsessions, hconvs⟩ :=
    AppState.addContact_offered hP hoffer displayName hinit
  have hid := h.identity_eq x.other
  unfold Messenger.add
  rw [hid, hadd]
  have ht : s.sessions.get? (σ.identity x.other) = some t := by simp [hsessions, hid]
  refine h.moved ⟨haccount ▸ (h.client x).keys, ?_, ?_⟩ ht ?_ rfl h.mail ?_ ?_
  · intro c hc
    simp only [hcontacts, LinkedMap.get?_set_self, Option.some.injEq] at hc
    rw [← hc]
  · intro _
    constructor
    · simp [hcontacts]
    · simp [hconvs, LinkedMap.get?_putIfAbsent]
  · intro b hb
    simp only [Function.update_self] at hb
    exact List.mem_of_mem_erase hb
  · intro y
    have htexts := h.texts y
    rcases eq_or_eq_other x y.other with hy | hy
    · -- the conversation of `x` is created, if it is not there
      obtain rfl : y = x.other := by rw [← hy, other_other]
      rw [other_other] at htexts ⊢
      simpa [setClient, AppState.incomingTexts, hconvs, LinkedMap.get?_putIfAbsent] using htexts
    · simpa [setClient, hy, other_ne] using htexts
  · exact ⟨x, h.opened hP hnone hsent hoffer hinit hfresh haccount ht⟩

/-! ## 6. Sending -/

theorem textsFor_append (x : Peer) (l l' : List Mail) :
    textsFor x (l ++ l') = textsFor x l ++ textsFor x l' := by
  simp [textsFor]

/-- A session on file is one end of the conversation, so it can encrypt. -/
theorem Inv.encrypt_ok (h : Inv D accounts σ) {x : Peer} {t : Session P}
    (ht : σ.session x = some t) (plaintext : Bytes) :
    ∃ m t', t.encrypt plaintext = (.ok m, t') := by
  rcases h.sessions with hnone | ⟨y, hs, ad, g, turn, hinv⟩
  · rw [hnone x] at ht
    cases ht
  · have hside : (σ.conversation D y).session (y.role x) = some t := by
      show σ.session (y.onSide (y.role x)) = some t
      rw [onSide_role]
      exact ht
    obtain ⟨_, u, _, hat⟩ := hinv.session _ _ hside
    obtain ⟨m, t', henc, _⟩ := Session.encrypt_of_chain hat.send plaintext
    exact ⟨m, t', henc⟩

/-- The new envelope opens at the other client. -/
theorem Inv.mail_sent (hP : P.Lawful) (htag : P.Tagged) (h : Inv D accounts σ) {x : Peer}
    {m : Message Bytes} (hlen : m.encode.length < 2 ^ 32) (eph : P.Secret) :
    openEnvelope (accounts x.other) (sealEnvelope (σ.client x).account
        (accounts x.other).identityDhPublic m.encode eph) =
      .ok ⟨(accounts x).identityPublic, (accounts x).identityDhPublic, m.encode⟩ ∧
    Message.decode m.encode = .ok m := by
  constructor
  · rw [sealEnvelope_sameKeys (h.client x).keys]
    exact openEnvelope_sealEnvelope hP htag _ _ hlen eph
  · exact Message.decode_encode (Message.codec_valid_of_length hlen)

theorem Inv.send (hP : P.Lawful) (htag : P.Tagged) (h : Inv D accounts σ) {x : Peer} {text : Text}
    {eph : P.Secret} {now : DateTime} (hadm : σ.Admissible (.send x text eph now))
    (hcond : σ.Orderly D (.send x text eph now)) :
    Inv D accounts (σ.send D x text eph now) := by
  have hid := h.identity_eq x.other
  unfold Messenger.send
  cases ht : σ.session x with
  | none =>
    rw [AppState.sendMessage_none ht]
    show Inv D accounts (σ.setClient x (σ.client x))
    rw [setClient_self ht]
    exact h
  | some t =>
    obtain ⟨m, t', henc⟩ := h.encrypt_ok ht (textBytes D text)
    have ht' : (σ.client x).sessions.get? (σ.identity x.other) = some t := ht
    have hfiled := (h.client x).filed (by rw [← hid, ht']; simp)
    rw [← hid] at hfiled
    obtain ⟨contact, hcontact⟩ := Option.ne_none_iff_exists'.mp hfiled.1
    obtain ⟨messages, hmessages⟩ := Option.ne_none_iff_exists'.mp hfiled.2
    obtain ⟨s, hsend, haccount, hcontacts, hsessions, hconvs⟩ :=
      AppState.sendMessage_of_session ht' hcontact hmessages henc eph now
    have hlen := hcond _ _ hsend
    have hdh : contact.identityDh = (accounts x.other).identityDhPublic :=
      (h.client x).contact contact (by rw [← hid]; exact hcontact)
    rw [hdh] at hsend
    rw [hsend]
    have hs : s.sessions.get? (σ.identity x.other) = some t' := by simp [hsessions]
    refine h.moved ⟨haccount ▸ (h.client x).keys, hcontacts ▸ (h.client x).contact, ?_⟩ hs
      (fun _ hb => hb) ?_ ?_ ?_ ?_
    · intro _
      rw [← hid, hcontacts]
      exact ⟨hfiled.1, by simp [hconvs]⟩
    · exact Function.update_of_ne (other_ne x) _ _
    · intro e he
      rcases List.mem_append.mp he with he | he
      · exact h.mail e he
      · rw [List.mem_singleton.mp he]
        simpa [contents] using h.mail_sent hP htag hlen eph
    · intro y
      have htexts := h.texts y
      rcases eq_or_eq_other x y with rfl | rfl
      · -- one more text for the other client
        rw [textsFor_append, Function.update_self, ← List.append_assoc]
        simpa [setClient, other_ne, textsFor] using htexts.append_right [text]
      · -- an outgoing entry in this client's own conversation
        rw [other_other] at htexts ⊢
        rw [← hid] at htexts ⊢
        simpa [setClient, AppState.incomingTexts, hconvs, hmessages, textsFor, other_ne]
          using htexts
    · rcases h.sessions with hnone | ⟨y, hs', ad, g, turn, hinv⟩
      · rw [hnone x] at ht
        cases ht
      · have hside : (σ.conversation D y).session (y.role x) = some t := by
          show σ.session (y.onSide (y.role x)) = some t
          rw [onSide_role]
          exact ht
        refine ⟨y, hs', ad, g.count (turn (y.role x)), turn, ?_⟩
        rw [conversation_setClient _ (by rw [haccount]; rfl) hs, account_setClient haccount,
          List.map_append, List.map_singleton, packet, role_other]
        exact hinv.send hside henc (hadm t ht)

/-! ## 7. Delivery -/

/-- Taking one piece of mail out takes its text out. -/
theorem textsFor_erase {mail : Mail} {flight : List Mail} (h : mail ∈ flight) (x : Peer) :
    (textsFor x flight).Perm ((if mail.dest = x then [mail.text] else []) ++
      textsFor x (flight.erase mail)) := by
  have hperm := ((List.perm_cons_erase h).filter fun e => e.dest = x).map Mail.text
  unfold textsFor
  by_cases hx : mail.dest = x
  · simpa [List.filter_cons, hx] using hperm
  · simpa [List.filter_cons, hx] using hperm

/-- The conversation decrypts the mail, so its recipient does. -/
theorem Inv.received (hP : P.Lawful) (h : Inv D accounts σ) {mail : Mail} {fresh : P.Secret}
    {draws : Nat → P.Secret} {now : DateTime} (hadm : σ.Admissible (.deliver mail fresh draws now)) :
    ∃ s t, (σ.client mail.dest).receive (contents accounts mail) fresh draws =
        (some (textBytes D mail.text), s) ∧
      ClientInv accounts mail.dest s ∧ s.sessions.get? (σ.identity mail.dest.other) = some t ∧
      s.incomingTexts (σ.identity mail.dest.other) =
        (σ.client mail.dest).incomingTexts (σ.identity mail.dest.other) ∧
      ∃ y hs ad g turn, Conversation.Inv hs ad g turn
        { (σ.conversation D y).setSession (y.role mail.dest) t with
          account := ((σ.setClient mail.dest s).client y.other).account
          flight := (σ.flight.erase mail).map (packet D y) } := by
  obtain ⟨hmem, hfresh, hlimits⟩ := hadm
  have hdec : Message.decode (contents accounts mail).payload = .ok mail.message :=
    (h.mail mail hmem).2
  have hid := h.identity_eq mail.dest.other
  rcases h.sessions with hnone | ⟨y, hs, ad, g, turn, hinv⟩
  · -- with no session at all nothing can be in flight
    have hempty := h.flight_nil fun x => (h.untouched x (hnone x)).sent
    rw [hempty] at hmem
    cases hmem
  · obtain ⟨front, rest, _, hsplit, herase⟩ := List.exists_erase_eq hmem
    have hsplit' : (σ.conversation D y).flight =
        front.map (packet D y) ++ packet D y mail :: rest.map (packet D y) := by
      simp [conversation, hsplit]
    have hsession : (σ.conversation D y).session (packet D y mail).dest =
        σ.session mail.dest := by
      show σ.session (y.onSide (y.role mail.dest)) = σ.session mail.dest
      rw [onSide_role]
    have hlimits' : (σ.conversation D y).Limits (packet D y mail).dest
        (packet D y mail).message := by
      unfold Conversation.Limits
      rw [hsession]
      cases ht : σ.session mail.dest <;> simpa [ht, packet] using hlimits
    obtain ⟨hok, g', turn', hinv'⟩ := hinv.deliver hP hsplit' hlimits' hfresh
    rw [← List.map_append, ← herase] at hinv'
    cases ht : σ.session mail.dest with
    | some t =>
      rw [ht] at hsession
      rw [Conversation.receive_some hsession] at hok hinv'
      have ht' : (σ.client mail.dest).sessions.get? (contents accounts mail).senderIdentityEd =
          some t := by
        rw [← ht]
        unfold session
        rw [hid]
        rfl
      obtain ⟨s, hrecv, haccount, hsessions, hcontacts, hconvs⟩ :=
        AppState.receive_session hdec ht' fresh draws
      have hok' : (t.decrypt fresh mail.message).1 = .ok (textBytes D mail.text) := hok
      rw [hok'] at hrecv
      refine ⟨s, (t.decrypt fresh mail.message).2, hrecv, ⟨haccount ▸ (h.client _).keys,
        hcontacts ▸ (h.client _).contact, ?_⟩, ?_, ?_, y, hs, ad, g', turn', ?_⟩
      · intro _
        rw [hcontacts, hconvs]
        exact (h.client mail.dest).filed (by
          change _ = some t at ht'
          intro hnone
          exact Option.some_ne_none t (ht'.symm.trans hnone))
      · rw [hsessions, hid]
        exact LinkedMap.get?_set_self ..
      · simp [AppState.incomingTexts, hconvs]
      · rw [account_setClient haccount]
        exact hinv'
    | none =>
      -- only the responder can be without a session
      rw [ht] at hsession
      have hrole : (packet D y mail).dest = .responder := by
        cases hdest : (packet D y mail).dest with
        | responder => rfl
        | initiator =>
          rw [hdest] at hsession
          exact absurd hsession hinv.initiator
      have hrole' : y.role mail.dest = .responder := hrole
      have hdest : mail.dest = y.other := by
        have hside := onSide_role y mail.dest
        rw [hrole'] at hside
        exact hside.symm
      rw [hrole] at hok hinv' hsession
      unfold Conversation.receive at hok hinv'
      rw [hsession] at hok hinv'
      have haccount : (σ.conversation D y).account = (σ.client mail.dest).account := by
        rw [hdest]
        rfl
      rcases hresp : Session.respond (σ.conversation D y).account fresh (packet D y mail).message
        with ⟨_ | ⟨t, first⟩, account⟩
      · simp [hresp] at hok
      · simp only [hresp, Except.ok.injEq] at hok hinv'
        subst hok
        rw [haccount] at hresp
        have ht' : (σ.client mail.dest).sessions.get? (contents accounts mail).senderIdentityEd =
            none := by
          rw [← ht]
          unfold session
          rw [hid]
          rfl
        obtain ⟨s, hrecv, hkeys, hsessions, hcontacts, hconvs⟩ :=
          AppState.receive_first hdec ht' hresp draws
        have hsame := Account.SameKeys.respond (σ.client mail.dest).account fresh mail.message
        have hresp' : Session.respond (σ.client mail.dest).account fresh mail.message =
          (.ok (t, textBytes D mail.text), account) := hresp
        rw [hresp'] at hsame
        refine ⟨s, t, hrecv, ⟨((h.client _).keys.trans hsame).trans hkeys, ?_, ?_⟩, ?_, ?_, y, hs,
          ad, g', turn', ?_⟩
        · intro c hc
          rw [hcontacts] at hc
          change LinkedMap.get? _ (contents accounts mail).senderIdentityEd = some c at hc
          rw [LinkedMap.get?_putIfAbsent, if_pos rfl, Option.some.injEq] at hc
          cases hold : (σ.client mail.dest).contacts.get?
              (contents accounts mail).senderIdentityEd with
          | none =>
            rw [hold] at hc
            rw [← hc]
            rfl
          | some c' =>
            rw [hold] at hc
            rw [← hc]
            exact (h.client mail.dest).contact c' hold
        · intro _
          rw [hcontacts, hconvs]
          constructor
          · simp [contents, LinkedMap.get?_putIfAbsent]
          · simp [contents, LinkedMap.get?_putIfAbsent]
        · rw [hsessions, hid]
          exact LinkedMap.get?_set_self ..
        · rw [hid]
          simp [AppState.incomingTexts, hconvs, contents, LinkedMap.get?_putIfAbsent]
        · rw [hrole']
          refine hinv'.weaken ?_ (fun _ hk => hk)
          intro hnone
          simp [Conversation.setSession] at hnone

/-- A delivery shows the text to its recipient. -/
theorem Inv.deliver (hP : P.Lawful) (hD : D.Lawful) (h : Inv D accounts σ) {mail : Mail}
    {fresh : P.Secret} {draws : Nat → P.Secret} {now : DateTime}
    (hadm : σ.Admissible (.deliver mail fresh draws now)) :
    Inv D accounts (σ.deliver D mail fresh draws now) := by
  obtain ⟨s, t, hrecv, hclient, ht, hincoming, y, hs, ad, g, turn, hinv⟩ := h.received hP hadm
  have hmem : mail ∈ σ.flight := hadm.1
  have hid := h.identity_eq mail.dest.other
  have hopen : openEnvelope (σ.client mail.dest).account mail.envelope =
      .ok (contents accounts mail) := by
    rw [openEnvelope_sameKeys (h.client mail.dest).keys]
    exact (h.mail mail hmem).1
  have hhandle := AppState.handleIncoming_text hD hopen hrecv now
  have hkey : (contents accounts mail).senderIdentityEd = σ.identity mail.dest.other := hid.symm
  rw [hkey] at hhandle
  have hshown := AppState.incomingTexts_append s (σ.identity mail.dest.other) mail.text now
  obtain ⟨s', hs'⟩ : ∃ s', s' = s.append (σ.identity mail.dest.other)
    ⟨.incoming, mail.text, now⟩ := ⟨_, rfl⟩
  have haccount : s'.account = s.account := by rw [hs']; rfl
  have hcontacts : s'.contacts = s.contacts := by rw [hs']; rfl
  have ht' : s'.sessions.get? (σ.identity mail.dest.other) = some t := by rw [hs']; exact ht
  rw [← hs'] at hhandle hshown
  unfold Messenger.deliver
  rw [hhandle]
  refine h.moved ⟨haccount ▸ hclient.keys, hcontacts ▸ hclient.contact, ?_⟩ ht'
    (fun _ hb => hb) rfl ?_ ?_ ?_
  · intro _
    rw [hcontacts]
    refine ⟨(hclient.filed (by rw [← hid, ht]; simp)).1, ?_⟩
    rw [← hid, hs']
    simp [AppState.append]
  · intro e he
    exact h.mail e (List.mem_of_mem_erase he)
  · intro x
    have herase := textsFor_erase hmem x.other
    refine List.Perm.trans ?_ (h.texts x)
    rcases eq_or_eq_other mail.dest x.other with hx | hx
    · -- this is the recipient: the text moves from the mail to the conversation
      obtain rfl : x = mail.dest.other := by rw [← hx, other_other]
      rw [other_other, if_pos rfl] at herase
      have hnew : (σ.setClient mail.dest s').client mail.dest = s' := by simp [setClient]
      rw [other_other, ← hid, hnew, hshown, hincoming, List.append_assoc]
      exact herase.symm.append_left _
    · have hne : mail.dest ≠ x.other := by
        rw [hx]
        exact (other_ne _).symm
      rw [if_neg hne] at herase
      have hold : (σ.setClient mail.dest s').client x.other = σ.client x.other := by
        simp [setClient, hne.symm]
      rw [hold]
      exact herase.symm.append_left _
  · refine ⟨y, hs, ad, g, turn, ?_⟩
    have hkeys : s'.account.identityPublic = σ.identity mail.dest := by
      rw [haccount]
      exact hclient.keys.identityPublic.trans (h.identity_eq mail.dest).symm
    have hsame : ((σ.setClient mail.dest s').client y.other).account =
        ((σ.setClient mail.dest s).client y.other).account := by
      by_cases hy : y.other = mail.dest
      · simp [setClient, hy, haccount]
      · simp [setClient, hy]
    rw [conversation_setClient _ hkeys ht', hsame]
    exact hinv

/-! ## 8. Runs -/

theorem inv_start (D : DartConvert)
    (hne : (accounts .alice).identityPublic ≠ (accounts .bob).identityPublic) :
    Inv D accounts (start accounts) where
  client := by
    intro x
    refine ⟨.refl _, ?_, ?_⟩
    · intro c hc
      simp [start, newClient] at hc
    · intro hsome
      exact absurd rfl hsome
  prekeys := by
    intro x
    cases x <;> simp [start]
  mail := by
    intro e he
    cases he
  untouched := by
    intro x _
    refine ⟨rfl, rfl, ?_, ?_⟩
    · cases x with
      | alice => exact (Directory.offered_publish _ _).publish_other hne.symm
      | bob => exact Directory.offered_publish _ _
    · intro b hb
      cases hb
  texts := by
    intro x
    exact List.Perm.refl _
  sessions := Or.inl fun _ => rfl

theorem Run.inv (hP : P.Lawful) (htag : P.Tagged) (hD : D.Lawful)
    (hne : (accounts .alice).identityPublic ≠ (accounts .bob).identityPublic)
    (hrun : Run D accounts (Orderly D) σ) : Inv D accounts σ := by
  induction hrun with
  | start => exact inv_start D hne
  | step act _ hadm hcond ih =>
    cases act with
    | fetch x => exact ih.fetch hne x
    | add x bundle displayName rnd => exact ih.add hP hadm hcond
    | send x text eph now => exact ih.send hP htag hadm hcond
    | deliver mail fresh draws now => exact ih.deliver hP hD hadm
    | republish x => exact ih.republish hne x

/-- **Orderly clients understand each other.**  In every run in which a contact is
    added only while the other side has no session for this client and nothing was
    sent yet, once all mail is delivered each client shows exactly the texts the
    other one sent, each as often as it was sent. -/
theorem texts_arrive_once (hP : P.Lawful) (htag : P.Tagged) (hD : D.Lawful)
    (hne : (accounts .alice).identityPublic ≠ (accounts .bob).identityPublic)
    (hrun : Run D accounts (Orderly D) σ) (hdone : σ.flight = []) (x : Peer) :
    ((σ.client x.other).incomingTexts (σ.identity x)).Perm (σ.sent x) := by
  have hinv := hrun.inv hP htag hD hne
  have htexts := hinv.texts x
  rw [hdone] at htexts
  rw [hinv.identity_eq x]
  simpa [textsFor] using htexts

/-! ## 9. Two first messages -/

def sampleAccounts : Peer → Account Suite.sample
  | .alice => sampleAlice
  | .bob => sampleBob

/-- Alice has added Bob. -/
def added : Messenger Suite.sample :=
  ((start sampleAccounts).fetch .alice).add .alice sampleBob.bundle [] sampleRandom

/-- Both have added each other. -/
def crossed : Messenger Suite.sample :=
  (added.fetch .bob).add .bob sampleAlice.bundle []
    { ephemeral := sampleSecret 51, coins := Bytes32.ofByte 8, ratchet := sampleSecret 61 }

/-- Alice sends a text. -/
def greeted (σ : Messenger Suite.sample) : Messenger Suite.sample :=
  σ.send sampleConvert .alice (utf16 "hi") (sampleSecret 80) 0

/-- The text is delivered. -/
def greetedAt (σ : Messenger Suite.sample) (mail : Mail) : Messenger Suite.sample :=
  (greeted σ).deliver sampleConvert mail (sampleSecret 90) (fun _ => sampleSecret 0) 0

/-- The text can be sent and its mail delivered. -/
structure Greets (σ : Messenger Suite.sample) (mail : Mail) : Prop where
  send : σ.Admissible (.send .alice (utf16 "hi") (sampleSecret 80) 0)
  flight : (greeted σ).flight = [mail]
  deliver : (greeted σ).Admissible
    (.deliver mail (sampleSecret 90) (fun _ => sampleSecret 0) 0)

theorem Greets.run {Cond : Messenger Suite.sample → Act Suite.sample → Prop}
    {σ : Messenger Suite.sample} {mail : Mail} (h : Greets σ mail)
    (hrun : Run sampleConvert sampleAccounts Cond σ)
    (hsend : Cond σ (.send .alice (utf16 "hi") (sampleSecret 80) 0))
    (hdeliver : Cond (greeted σ) (.deliver mail (sampleSecret 90) (fun _ => sampleSecret 0) 0)) :
    Run sampleConvert sampleAccounts Cond (greetedAt σ mail) ∧ (greetedAt σ mail).flight = [] := by
  constructor
  · apply Run.step (.deliver mail (sampleSecret 90) (fun _ => sampleSecret 0) 0) ?_ h.deliver hdeliver
    exact Run.step (.send .alice (utf16 "hi") (sampleSecret 80) 0) hrun h.send hsend
  · simp [greetedAt, Messenger.deliver, h.flight]

/-- The limits that the delivery of a piece of mail has to keep. -/
def keepsLimits (σ : Messenger Suite.sample) (mail : Mail) : Bool :=
  match σ.session mail.dest with
  | some s => decide (s.ratchet.WithinLimits mail.message.header)
  | none => decide (mail.message.header.n.toNat ≤ MAX_SKIP.toNat)

theorem greets_of {σ : Messenger Suite.sample}
    (hcounter : (σ.session .alice).all fun s => decide (s.ratchet.nSend.toNat + 1 < 2 ^ 32))
    (hlength : (greeted σ).flight.length = 1)
    (hfresh : Suite.sample.publicKey (sampleSecret 90) ∉ (greeted σ).ratchetKeys)
    (hlimits : (greeted σ).flight.all (greeted σ).keepsLimits) :
    ∃ mail, (greeted σ).flight = [mail] ∧ Greets σ mail := by
  obtain ⟨mail, hflight⟩ := List.length_eq_one_iff.mp hlength
  refine ⟨mail, hflight, ?_, hflight, ?_, hfresh, ?_⟩
  · intro s hs
    simpa [hs] using hcounter
  · simp [hflight]
  · simp only [hflight, List.all_cons, List.all_nil, Bool.and_true, keepsLimits] at hlimits
    split <;> simp_all

theorem added_run {Cond : Messenger Suite.sample → Act Suite.sample → Prop}
    (hfetch : Cond (start sampleAccounts) (.fetch .alice))
    (hadd : Cond ((start sampleAccounts).fetch .alice)
      (.add .alice sampleBob.bundle [] sampleRandom)) :
    Run sampleConvert sampleAccounts Cond added := by
  apply Run.step (.add .alice sampleBob.bundle [] sampleRandom)
  · exact .step (.fetch .alice) .start trivial hfetch
  · constructor <;> decide +kernel
  · exact hadd

theorem crossed_run :
    Run sampleConvert sampleAccounts (fun _ _ => True) crossed := by
  refine Run.step (.add .bob sampleAlice.bundle []
    { ephemeral := sampleSecret 51, coins := Bytes32.ofByte 8, ratchet := sampleSecret 61 })
    (.step (.fetch .bob) (added_run trivial trivial) trivial trivial) ?_ trivial
  constructor <;> decide +kernel

/-- The texts Bob is shown in the end. -/
def shown (σ : Messenger Suite.sample) (mail : Mail) : List Text :=
  ((greetedAt σ mail).client .bob).incomingTexts ((greetedAt σ mail).identity .alice)

theorem shown_perm {σ : Messenger Suite.sample} {mail : Mail}
    (h : (((greetedAt σ mail).client Peer.alice.other).incomingTexts
      ((greetedAt σ mail).identity .alice)).Perm ((greetedAt σ mail).sent .alice)) :
    (shown σ mail).Perm ((greeted σ).sent .alice) := h

/-- Both add each other before a text is sent.  Bob then decrypts Alice's first
    message with the session he opened himself, which fails, and her text is lost. -/
theorem crossing_loses_text : ¬ ∀ σ : Messenger Suite.sample,
    Run sampleConvert sampleAccounts (fun _ _ => True) σ → σ.flight = [] →
      ∀ x : Peer, ((σ.client x.other).incomingTexts (σ.identity x)).Perm (σ.sent x) := by
  intro hall
  have hfacts : ((crossed.session .alice).all fun s =>
        decide (s.ratchet.nSend.toNat + 1 < 2 ^ 32)) ∧
      (greeted crossed).flight.length = 1 ∧
      Suite.sample.publicKey (sampleSecret 90) ∉ (greeted crossed).ratchetKeys ∧
      (greeted crossed).flight.all (greeted crossed).keepsLimits ∧
      (greeted crossed).sent .alice = [utf16 "hi"] ∧
      ((greeted crossed).flight.all fun mail => shown crossed mail = []) := by
    decide +kernel
  obtain ⟨hcounter, hlength, hfresh, hlimits, hsent, hshown⟩ := hfacts
  obtain ⟨mail, hflight, hgreets⟩ := greets_of hcounter hlength hfresh hlimits
  obtain ⟨hrun, hdone⟩ := hgreets.run crossed_run trivial trivial
  have hperm := shown_perm (hall _ hrun hdone .alice)
  have hempty : shown crossed mail = [] := by simpa [hflight] using hshown
  rw [hempty, hsent] at hperm
  simp at hperm

/-- Alice adds Bob and sends him a text. -/
theorem texts_arrive_once_sample :
    ∃ mail, Run sampleConvert sampleAccounts (Orderly sampleConvert) (greetedAt added mail) ∧
      (greetedAt added mail).flight = [] ∧ (shown added mail).Perm [utf16 "hi"] := by
  have hfacts : ((added.session .alice).all fun s =>
        decide (s.ratchet.nSend.toNat + 1 < 2 ^ 32)) ∧
      (greeted added).flight.length = 1 ∧
      Suite.sample.publicKey (sampleSecret 90) ∉ (greeted added).ratchetKeys ∧
      (greeted added).flight.all (greeted added).keepsLimits ∧
      (greeted added).sent .alice = [utf16 "hi"] ∧
      (((added.client .alice).sendMessage sampleConvert (added.identity .bob) (utf16 "hi")
        (sampleSecret 80) 0).1.toOption.all fun out =>
          decide (out.message.encode.length < 2 ^ 32)) := by
    decide +kernel
  obtain ⟨hcounter, hlength, hfresh, hlimits, hsent, hfits⟩ := hfacts
  obtain ⟨mail, -, hgreets⟩ := greets_of hcounter hlength hfresh hlimits
  have horderly : Orderly sampleConvert added
      (.send .alice (utf16 "hi") (sampleSecret 80) 0) := by
    intro out s hout
    have hok : (((added.client .alice).sendMessage sampleConvert (added.identity .bob)
        (utf16 "hi") (sampleSecret 80) 0).1.toOption) = some out := by
      rw [show added.identity .bob = added.identity Peer.alice.other from rfl, hout]
      rfl
    simpa [hok] using hfits
  obtain ⟨hrun, hdone⟩ := hgreets.run (added_run trivial ⟨rfl, rfl⟩) horderly trivial
  have hne : (sampleAccounts .alice).identityPublic ≠ (sampleAccounts .bob).identityPublic := by
    decide +kernel
  refine ⟨mail, hrun, hdone, ?_⟩
  have hperm := shown_perm (texts_arrive_once sample_lawful sample_tagged sampleConvert_lawful hne
    hrun hdone .alice)
  rwa [hsent] at hperm

end Messenger

end Clarity
