/-
  Clarity/Filing.lean
  ===================
  **Where a first message is filed.**  An envelope names a sender, and the handshake
  inside it names an initiator; `_handleIncoming` files the new session, the contact
  and the text under the first, and never looks at the second.

    * `AppState.FiledUnderInitiator` — a new session is filed under the identity its
      handshake names;
    * `Device.filed_iff` — in every state of every run, it is exactly when the two
      identities agree;
    * `Device.misfiled` — they need not.
-/
import Clarity.AppSpec
import Clarity.Device
import Clarity.Sample

namespace Clarity

variable {P : Suite Bytes}

namespace AppState

/-! ## 1. Showing a message -/

@[simp] theorem sessions_append (s : AppState P) (key : Bytes32) (m : ChatMessage) :
    (s.append key m).sessions = s.sessions := rfl

@[simp] theorem contacts_append (s : AppState P) (key : Bytes32) (m : ChatMessage) :
    (s.append key m).contacts = s.contacts := rfl

/-- Showing a message changes no session, and no contact's identity. -/
theorem showContent_frame (s : AppState P) (senderKey : Bytes32) (content : MessageContent)
    (now : DateTime) :
    (s.showContent senderKey content now).2.sessions = s.sessions ∧
      ∀ contact, s.contacts.get? senderKey = some contact →
        ∃ contact', (s.showContent senderKey content now).2.contacts.get? senderKey =
          some contact' ∧ contact'.identity = contact.identity := by
  cases content with
  | text body => exact ⟨rfl, fun contact h => ⟨contact, h, rfl⟩⟩
  | timerUpdate seconds =>
    simp only [showContent]
    cases hcontact : s.contacts.get? senderKey with
    | none => exact ⟨rfl, fun contact h => by cases h⟩
    | some contact =>
      dsimp only
      generalize hs1 : append _ senderKey _ = s1
      obtain ⟨conversations, hframe⟩ := sweepExpiredMessages_frame now s1
      have hcontacts : s1.contacts.get? senderKey =
          some { contact with retentionSeconds := seconds } := by
        rw [← hs1]
        exact LinkedMap.get?_set_self ..
      have hsessions : s1.sessions = s.sessions := by rw [← hs1]; rfl
      split
      all_goals
        rename_i hsweep
        rw [hsweep] at hframe
        have hsweep' := congrArg AppState.sessions hframe
        have hsweep'' := congrArg AppState.contacts hframe
        refine ⟨hsweep'.trans hsessions, ?_⟩
        intro contact' h
        cases h
        exact ⟨_, (congrArg (fun m => LinkedMap.get? m senderKey) hsweep'').trans hcontacts, rfl⟩
  | unknown => exact ⟨rfl, fun contact h => ⟨contact, h, rfl⟩⟩

/-! ## 2. Filing -/

/-- The envelope opens, its payload is a first message, there is no session on file
    for the sender it names, and the account answers the handshake. -/
structure FirstContact (s : AppState P) (raw : Bytes) (fresh : P.Secret) (opened : OpenedEnvelope)
    (hs : HandshakeHeader) (session : Session P) (first : Bytes) : Prop where
  opens : openEnvelope s.account raw = .ok opened
  unknown : s.sessions.get? opened.senderIdentityEd = none
  responds : ∃ header ciphertext,
    Message.decode opened.payload = .ok (.preKey hs header ciphertext) ∧
    (Session.respond s.account fresh (.preKey hs header ciphertext)).1 = .ok (session, first)

/-- A session that `_handleIncoming` stores anew, its contact and the text it came with
    are filed under the identity in the handshake that established it, which is the
    initiator half of the associated data. -/
def FiledUnderInitiator (D : DartConvert) (s : AppState P) (raw : Bytes) (fresh : P.Secret)
    (draws : Nat → P.Secret) (now : DateTime) : Prop :=
  ∀ k session, s.sessions.get? k = none →
    (s.handleIncoming D raw fresh draws now).2.sessions.get? k = some session →
    ∃ opened hs first, s.FirstContact raw fresh opened hs session first ∧
      k = hs.identityEd ∧
      session.adPrefix = hs.identityEd.bytes ++ s.account.identityPublic.bytes ∧
      (∃ contact, (s.handleIncoming D raw fresh draws now).2.contacts.get? k = some contact ∧
        contact.identity = hs.identityEd) ∧
      ∀ body, MessageContent.decode D first = .text body →
        (s.handleIncoming D raw fresh draws now).2.conversations.get? hs.identityEd =
          some ((s.conversations.get? hs.identityEd).getD [] ++ [⟨.incoming, body, now⟩])

/-- The sender an answered first message names is the initiator of its handshake. -/
def SenderIsInitiator (s : AppState P) (raw : Bytes) (fresh : P.Secret) : Prop :=
  ∀ opened hs session first, s.FirstContact raw fresh opened hs session first →
    opened.senderIdentityEd = hs.identityEd

/-- What a first contact changes. -/
theorem FirstContact.handleIncoming {s : AppState P} {raw : Bytes} {fresh : P.Secret}
    {opened : OpenedEnvelope} {hs : HandshakeHeader} {session : Session P} {first : Bytes}
    (h : s.FirstContact raw fresh opened hs session first) (D : DartConvert)
    (draws : Nat → P.Secret) (now : DateTime) :
    ∃ s1 : AppState P, (s.handleIncoming D raw fresh draws now).2 =
        (s1.showContent opened.senderIdentityEd (MessageContent.decode D first) now).2 ∧
      s1.sessions = s.sessions.set opened.senderIdentityEd session ∧
      s1.contacts = s.contacts.putIfAbsent opened.senderIdentityEd
        { identity := opened.senderIdentityEd
          identityDh := opened.senderIdentityDh
          displayName := shortId opened.senderIdentityEd
          verified := false
          retentionSeconds := none } ∧
      s1.conversations = s.conversations.putIfAbsent opened.senderIdentityEd [] := by
  obtain ⟨header, ciphertext, hdec, hresp⟩ := h.responds
  obtain ⟨s1, hrecv, _, hsessions, hcontacts, hconversations⟩ :=
    receive_first hdec h.unknown (Prod.ext hresp rfl) draws
  refine ⟨s1, ?_, hsessions, hcontacts, hconversations⟩
  unfold AppState.handleIncoming
  rw [h.opens]
  simp only [hrecv]

/-- A session is stored anew by a first contact only, under the sender the envelope
    names. -/
theorem firstContact_of_new {D : DartConvert} {s : AppState P} {raw : Bytes} {fresh : P.Secret}
    {draws : Nat → P.Secret} {now : DateTime} {k : Bytes32} {session : Session P}
    (hnone : s.sessions.get? k = none)
    (hsome : (s.handleIncoming D raw fresh draws now).2.sessions.get? k = some session) :
    ∃ opened hs first, s.FirstContact raw fresh opened hs session first ∧
      k = opened.senderIdentityEd := by
  cases hopen : openEnvelope s.account raw with
  | error e =>
    simp only [handleIncoming, hopen] at hsome
    cases hnone.symm.trans hsome
  | ok opened =>
    have hsessions : (s.handleIncoming D raw fresh draws now).2.sessions =
        (s.receive opened fresh draws).2.sessions := by
      simp only [handleIncoming, hopen]
      rcases hrecv : s.receive opened fresh draws with ⟨_ | plaintext, s1⟩
      · rfl
      · exact (showContent_frame ..).1
    rw [hsessions] at hsome
    cases hdec : Message.decode opened.payload with
    | error e =>
      simp only [receive, hdec] at hsome
      cases hnone.symm.trans hsome
    | ok m =>
      cases hfile : s.sessions.get? opened.senderIdentityEd with
      | some existing =>
        obtain ⟨s1, hrecv, _, hset, _⟩ := receive_session hdec hfile fresh draws
        rw [hrecv] at hsome
        have hget := LinkedMap.get?_set s.sessions opened.senderIdentityEd k
          (existing.decrypt fresh m).2
        rw [← hset, hsome] at hget
        split at hget
        · rename_i hk
          rw [hk, hfile] at hnone
          cases hnone
        · cases hnone.symm.trans hget.symm
      | none =>
        rcases hresp : Session.respond s.account fresh m with ⟨e | ⟨stored, first⟩, account⟩
        · simp only [receive, hdec, hfile, hresp] at hsome
          cases hnone.symm.trans hsome
        · obtain ⟨s1, hrecv, _, hset, _⟩ := receive_first hdec hfile hresp draws
          rw [hrecv] at hsome
          have hget := LinkedMap.get?_set s.sessions opened.senderIdentityEd k stored
          rw [← hset, hsome] at hget
          split at hget
          · rename_i hk
            cases hget
            obtain ⟨hs, header, ciphertext, _, _, _, rfl, _⟩ := Session.respond_ok_cases hresp
            exact ⟨opened, hs, first, ⟨hopen, hfile, header, ciphertext, hdec, by rw [hresp]⟩, hk⟩
          · cases hnone.symm.trans hget.symm

/-- Filing under the initiator takes a sender that is the initiator. -/
theorem FiledUnderInitiator.sender {D : DartConvert} {s : AppState P} {raw : Bytes}
    {fresh : P.Secret} {draws : Nat → P.Secret} {now : DateTime}
    (h : s.FiledUnderInitiator D raw fresh draws now) : s.SenderIsInitiator raw fresh := by
  intro opened hs session first hfirst
  obtain ⟨s1, hs1, hsessions, _⟩ := hfirst.handleIncoming D draws now
  have hstored : (s.handleIncoming D raw fresh draws now).2.sessions.get?
      opened.senderIdentityEd = some session := by
    rw [hs1, (showContent_frame ..).1, hsessions, LinkedMap.get?_set_self]
  obtain ⟨opened', hs', first', hfirst', hk, _⟩ := h _ session hfirst.unknown hstored
  cases hfirst.opens.symm.trans hfirst'.opens
  obtain ⟨header, ciphertext, hdec, _⟩ := hfirst.responds
  obtain ⟨header', ciphertext', hdec', _⟩ := hfirst'.responds
  cases hdec.symm.trans hdec'
  exact hk

theorem SenderIsInitiator.filed {D : DartConvert} {s : AppState P} (hkeyed : s.Keyed)
    {raw : Bytes} {fresh : P.Secret} (h : s.SenderIsInitiator raw fresh) (draws : Nat → P.Secret)
    (now : DateTime) : s.FiledUnderInitiator D raw fresh draws now := by
  intro k session hnone hsome
  obtain ⟨opened, hs, first, hfirst, rfl⟩ := firstContact_of_new hnone hsome
  have hsender := h opened hs session first hfirst
  obtain ⟨s1, hs1, _, hcontacts, hconversations⟩ := hfirst.handleIncoming D draws now
  obtain ⟨header, ciphertext, _, hresp⟩ := hfirst.responds
  refine ⟨opened, hs, first, hfirst, hsender, ?_, ?_, ?_⟩
  · rcases hrespond : Session.respond s.account fresh (.preKey hs header ciphertext) with
      ⟨res, account⟩
    rw [hrespond] at hresp
    cases hresp
    have hkeys := Account.SameKeys.respond s.account fresh (.preKey hs header ciphertext)
    rw [hrespond] at hkeys
    obtain ⟨_, _, _, _, _, _, hm, _, _, _, rfl⟩ := Session.respond_ok_cases hrespond
    cases hm
    show hs.identityEd.bytes ++ account.identityPublic.bytes = _
    rw [hkeys.identityPublic]
  · have hold : ∃ contact, s1.contacts.get? opened.senderIdentityEd = some contact ∧
        contact.identity = opened.senderIdentityEd := by
      rw [hcontacts, LinkedMap.get?_putIfAbsent, if_pos rfl]
      refine ⟨_, rfl, ?_⟩
      cases hget : s.contacts.get? opened.senderIdentityEd with
      | none => rfl
      | some contact => exact hkeyed _ contact hget
    obtain ⟨contact, hget, hid⟩ := hold
    obtain ⟨contact', hget', hid'⟩ := (showContent_frame s1 opened.senderIdentityEd
      (MessageContent.decode D first) now).2 contact hget
    rw [hs1]
    exact ⟨contact', hget', hid'.trans (hid.trans hsender)⟩
  · intro body hbody
    rw [hs1, hbody]
    simp only [showContent, append, hsender]
    rw [LinkedMap.get?_set_self, hconversations, hsender, LinkedMap.get?_putIfAbsent, if_pos rfl]
    rfl

end AppState

/-- **Filing follows the envelope.**  In every state of every run, a new session is
    filed under the identity that its handshake names exactly when the envelope names
    that identity as the sender. -/
theorem Device.filed_iff (D : DartConvert) (account : Account P) (acts : List (Device.Act P))
    (raw : Bytes) (fresh : P.Secret) (draws : Nat → P.Secret) (now : DateTime) :
    ((Device.start account).run D acts).2.app.FiledUnderInitiator D raw fresh draws now ↔
      ((Device.start account).run D acts).2.app.SenderIsInitiator raw fresh := by
  constructor
  · intro h
    exact h.sender
  · intro h
    exact h.filed (Device.keyed_run (Device.keyed_start account) D acts) draws now

/-! ## 3. Mallory in the name of Alice -/

/-- An envelope in which anyone can name any sender: sealing uses the recipient's
    public key only. -/
def forgedEnvelope (senderEd senderDh recipientDh : Bytes32) (payload : Bytes) (eph : P.Secret) :
    Bytes :=
  let ephPub := P.publicKey eph
  let sealKey := deriveSealKey (P.diffieHellman eph recipientDh) ephPub recipientDh
  SEALED_ENVELOPE_VERSION :: ephPub.bytes ++ P.aeadSeal sealKey
    (resize (senderEd.bytes ++ senderDh.bytes ++ Codec.leBytes LEN_PREFIX payload.length ++ payload)
      (INNER_PREFIX_LEN + bucket payload.length)) ephPub.bytes

theorem forgedEnvelope_eq (sender : Account P) (recipientDh : Bytes32) (payload : Bytes)
    (eph : P.Secret) :
    forgedEnvelope sender.identityPublic sender.identityDhPublic recipientDh payload eph =
      sealEnvelope sender recipientDh payload eph := rfl

/-- The first message of a conversation names the account that opened it. -/
theorem talk_first {C : Type} {Q : Suite C} {alice bob : Account Q}
    {rnd : Session.InitiateRandom Q} {fresh : Q.Secret} {t : Talk Q}
    (h : talk alice bob rnd fresh = some t) :
    ∃ hs header ciphertext session first, t.first = .preKey hs header ciphertext ∧
      hs.identityEd = alice.identityPublic ∧
      (Session.respond bob fresh t.first).1 = .ok (session, first) := by
  simp only [talk, Option.bind_eq_bind, Option.bind_eq_some_iff] at h
  obtain ⟨opened, hopened, ⟨first, sent⟩, hfirst, ⟨_, _⟩, _, ⟨⟨session, plaintext⟩, _⟩, hresp, ht⟩ := h
  cases ht
  have hinit : Session.initiate alice bob.bundle rnd = .ok opened := by
    cases hres : Session.initiate alice bob.bundle rnd with
    | error e =>
      rw [hres] at hopened
      cases hopened
    | ok s =>
      rw [hres] at hopened
      cases hopened
      rfl
  obtain ⟨_, root, hs, spk, hhs, rfl⟩ := Session.initiate_ok_cases hinit
  obtain ⟨_, _, _, hpre⟩ := Session.encrypt_ok_cases (Outcome.toOption_eq_some_iff.mp hfirst)
  refine ⟨hs, _, _, session, plaintext, hpre hs rfl, (Handshake.initiate_header hhs).2.1, ?_⟩
  exact congrArg Prod.fst (Outcome.toOption_eq_some_iff.mp hresp)

def sampleMallory : Account Suite.sample := sampleAccount 80 []

def malloryTalk : Option (Talk Suite.sample) :=
  talk sampleMallory sampleBob sampleRandom (sampleSecret 70)

/-- Mallory's own handshake, in an envelope that names Alice, is filed under Alice. -/
theorem Device.misfiled : ∃ t ∈ malloryTalk,
    ¬ ((Device.start sampleBob).run sampleConvert []).2.app.FiledUnderInitiator sampleConvert
      (forgedEnvelope sampleAlice.identityPublic sampleAlice.identityDhPublic
        sampleBob.identityDhPublic t.first.encode (sampleSecret 90))
      (sampleSecret 70) (fun _ => sampleSecret 71) 0 := by
  have hany : (malloryTalk.any fun t => decide (t.first.encode.length < 2 ^ 32)) = true := by
    decide +kernel
  obtain ⟨t, ht, hfacts⟩ := (Option.any_eq_true _ _).mp hany
  have hlen := of_decide_eq_true hfacts
  obtain ⟨hs, header, ciphertext, session, first, hm, hid, hresp⟩ := talk_first ht
  refine ⟨t, ht, ?_⟩
  intro h
  have hopen := openEnvelope_sealEnvelope sample_lawful sample_tagged sampleAlice sampleBob hlen
    (sampleSecret 90)
  have hdec := Message.decode_encode (Message.codec_valid_of_length hlen)
  have hfirst : AppState.FirstContact
      ((Device.start sampleBob).run sampleConvert []).2.app
      (forgedEnvelope sampleAlice.identityPublic sampleAlice.identityDhPublic
        sampleBob.identityDhPublic t.first.encode (sampleSecret 90)) (sampleSecret 70)
      ⟨sampleAlice.identityPublic, sampleAlice.identityDhPublic, t.first.encode⟩ hs session first :=
    ⟨hopen, rfl, header, ciphertext, hdec.trans (congrArg _ hm), by rw [← hm]; exact hresp⟩
  have hsame : sampleAlice.identityPublic = sampleMallory.identityPublic :=
    (h.sender _ _ _ _ hfirst).trans hid
  exact absurd hsame (by decide +kernel)

end Clarity
