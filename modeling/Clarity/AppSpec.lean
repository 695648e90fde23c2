/-
  Clarity/AppSpec.lean
  ====================
  **What the methods of one client do**, on the inputs an honest peer and an honest
  directory give them.

    * `Account.SameKeys` — an account only ever changes its one-time prekeys;
    * `Directory.Offered` — what the directory holds for an account is a bundle that
      account offers, and it stays so through publishes and fetches;
    * `addContact_offered`, `sendMessage_of_session`, `receive_session`,
      `receive_first` — one lemma for each way through a method.
-/
import Clarity.App
import Clarity.Conversation
import Clarity.Directory

namespace Clarity

/-! ## 1. Accounts -/

section Accounts

variable {C : Type} {P : Suite C}

/-- `b` is `a` with other one-time prekeys. -/
def Account.SameKeys (a b : Account P) : Prop :=
  ∃ pool next, b = { a with oneTimePrekeys := pool, nextOpkId := next }

namespace Account.SameKeys

theorem refl (a : Account P) : a.SameKeys a := ⟨a.oneTimePrekeys, a.nextOpkId, rfl⟩

theorem trans {a b c : Account P} (h1 : a.SameKeys b) (h2 : b.SameKeys c) : a.SameKeys c := by
  obtain ⟨_, _, rfl⟩ := h1
  obtain ⟨pool, next, rfl⟩ := h2
  exact ⟨pool, next, rfl⟩

theorem respond (a : Account P) (fresh : P.Secret) (m : Message C) :
    a.SameKeys (Session.respond a fresh m).2 := by
  rcases Session.respond_account_cases a fresh m with h | ⟨id, h⟩
  · rw [h]
    exact refl a
  · rw [h]
    exact ⟨_, a.nextOpkId, rfl⟩

theorem replenish (a : Account P) (secrets : List P.Secret) :
    a.SameKeys (a.replenishOneTimePrekeys secrets) := ⟨_, _, rfl⟩

theorem identityPublic {a b : Account P} (h : a.SameKeys b) :
    b.identityPublic = a.identityPublic := by
  obtain ⟨_, _, rfl⟩ := h
  rfl

theorem identityDhPublic {a b : Account P} (h : a.SameKeys b) :
    b.identityDhPublic = a.identityDhPublic := by
  obtain ⟨_, _, rfl⟩ := h
  rfl

end Account.SameKeys

/-! ## 2. The directory and the bundles it answers with -/

/-- What the directory holds for `a` is what `a` would publish, less some one-time
    prekeys. -/
def Directory.Offered (d : Directory) (a : Account P) : Prop :=
  ∀ stored, d[a.identityPublic]? = some stored → stored.baseBundle = a.bundleBase ∧
    ∀ e ∈ stored.oneTime, ∃ sk, a.oneTimePrekeys[e.1]? = some sk ∧ e.2 = P.publicKey sk

namespace Directory

theorem offered_publish (d : Directory) (a : Account P) :
    (d.publish a.bundleBase a.oneTimePrekeyPublics).Offered a := by
  intro stored hget
  cases (getElem?_publish_self ..).symm.trans hget
  refine ⟨rfl, ?_⟩
  intro e he
  simp only [Account.oneTimePrekeyPublics, List.mem_map] at he
  obtain ⟨⟨id, sk⟩, hmem, rfl⟩ := he
  exact ⟨sk, Std.ExtTreeMap.mem_toList_iff_getElem?_eq_some.mp hmem, rfl⟩

/-- Publishing under another identity does not touch the entry. -/
theorem Offered.publish_other {d : Directory} {a b : Account P} (h : d.Offered a)
    (hne : b.identityPublic ≠ a.identityPublic) :
    (d.publish b.bundleBase b.oneTimePrekeyPublics).Offered a := by
  intro stored hget
  rw [getElem?_publish_of_ne d _ hne] at hget
  exact h stored hget

theorem offers_base (a : Account P) : a.Offers a.bundleBase := ⟨none, a, rfl, rfl⟩

theorem offers_attached {a : Account P} {id : UInt32} {sk : P.Secret}
    (h : a.oneTimePrekeys[id]? = some sk) :
    a.Offers { a.bundleBase with
      oneTimePrekey := some (P.publicKey sk), oneTimePrekeyId := some id } := by
  refine ⟨some sk, { a with oneTimePrekeys := a.oneTimePrekeys.erase id }, ?_, rfl⟩
  simp [Handshake.takeNamedPrekey, Account.takeOneTimePrekey, h]

/-- A fetch answers with a bundle the account offers. -/
theorem Offered.fetch {d : Directory} {a : Account P} (h : d.Offered a) :
    (∀ b, (d.fetchBundle a.identityPublic).1 = some b → a.Offers b) ∧
      (d.fetchBundle a.identityPublic).2.Offered a := by
  unfold fetchBundle
  cases hget : d[a.identityPublic]? with
  | none => exact ⟨fun b hb => by simp at hb, h⟩
  | some stored =>
    obtain ⟨hbase, hpool⟩ := h stored hget
    rcases hone : stored.oneTime with _ | ⟨⟨id, pub⟩, rest⟩
    · refine ⟨?_, by simpa [hone] using h⟩
      intro b hb
      simp only [hone, Option.some.injEq] at hb
      rw [← hb, hbase]
      exact offers_base a
    · simp only [hone]
      rw [hone] at hpool
      constructor
      · intro b hb
        obtain ⟨sk, hsk, hpub⟩ := hpool (id, pub) (List.mem_cons_self ..)
        simp only [Option.some.injEq] at hb
        rw [← hb, hbase]
        have hpub' : pub = P.publicKey sk := hpub
        rw [hpub']
        exact offers_attached hsk
      · intro stored' hget'
        simp only [Std.ExtTreeMap.getElem?_insert_self, Option.some.injEq] at hget'
        subst hget'
        exact ⟨hbase, fun e he => hpool e (List.mem_cons_of_mem _ he)⟩

/-- A fetch of another identity does not touch the entry. -/
theorem Offered.fetch_other {d : Directory} {a : Account P} (h : d.Offered a)
    {identity : Bytes32} (hne : identity ≠ a.identityPublic) :
    (d.fetchBundle identity).2.Offered a := by
  intro stored hget
  rw [getElem?_fetchBundle_of_ne d hne] at hget
  exact h stored hget

end Directory

end Accounts

variable {P : Suite Bytes}

theorem openEnvelope_sameKeys {a b : Account P} (h : a.SameKeys b) (blob : Bytes) :
    openEnvelope b blob = openEnvelope a blob := by
  obtain ⟨_, _, rfl⟩ := h
  rfl

theorem sealEnvelope_sameKeys {a b : Account P} (h : a.SameKeys b) (recipientDh : Bytes32)
    (payload : Bytes) (eph : P.Secret) :
    sealEnvelope b recipientDh payload eph = sealEnvelope a recipientDh payload eph := by
  obtain ⟨_, _, rfl⟩ := h
  rfl

/-- An offered bundle survives its encoding. -/
theorem Account.Offers.decode_encode (hP : P.Lawful) {a : Account P} {bundle : PreKeyBundle}
    (h : a.Offers bundle) : PreKeyBundle.decode bundle.encode = .ok bundle := by
  obtain ⟨oneTime, a', _, hbundle⟩ := h
  have hsig : ∀ context message, (a.sign context message).length < 256 ^ 8 := by
    intro context message
    unfold Account.sign
    rw [hP.length_sign]
    decide
  have hkem : (P.encapsulationKey a.kyber).length < 256 ^ 8 := by
    rw [hP.length_encapsulationKey]
    decide
  apply PreKeyBundle.decode_encode
  rw [hbundle]
  exact PreKeyBundle.codec_valid (hsig _ _) (hsig _ _) hkem (hsig _ _)

namespace AppState

/-! ## 3. Adding a contact and sending -/

/-- On an offered bundle `addContact` files the new session. -/
theorem addContact_offered (hP : P.Lawful) {s : AppState P} {a : Account P}
    {bundle : PreKeyBundle} (h : a.Offers bundle) (displayName : Text)
    {rnd : Session.InitiateRandom P} {session : Session P}
    (hinit : Session.initiate s.account bundle rnd = .ok session) :
    ∃ s', s.addContact a.identityPublic displayName (some bundle.encode) rnd = (.ok (), s') ∧
      s'.account = s.account ∧
      s'.contacts = s.contacts.set a.identityPublic
        { identity := a.identityPublic
          identityDh := a.identityDhPublic
          displayName := displayName
          verified := false
          retentionSeconds := none } ∧
      s'.sessions = s.sessions.set a.identityPublic session ∧
      s'.conversations = s.conversations.putIfAbsent a.identityPublic [] := by
  have hdec := h.decode_encode hP
  have hverify := h.verifies hP
  obtain ⟨oneTime, a', _, hbundle⟩ := h
  have hed : bundle.identityEd = a.identityPublic := by rw [hbundle]; rfl
  have hdh : bundle.identityDh = a.identityDhPublic := by rw [hbundle]; rfl
  simp [addContact, bundleIdentityKeys, initiateSession, hdec, hverify, hinit, hed, hdh]

variable {D : DartConvert}

/-- Without a session nothing is sent. -/
theorem sendMessage_none {s : AppState P} {contactId : Bytes32}
    (h : s.sessions.get? contactId = none) (text : Text) (eph : P.Secret) (now : DateTime) :
    s.sendMessage D contactId text eph now =
      (.error (.stateError "no session for contact"), s) := by
  simp [sendMessage, sendContent, h]

/-- With one, the text goes out in an envelope to the contact's sealing key. -/
theorem sendMessage_of_session {s : AppState P} {contactId : Bytes32} {session session' : Session P}
    {contact : Contact} {messages : List ChatMessage} {text : Text} {m : Message Bytes}
    (hsession : s.sessions.get? contactId = some session)
    (hcontact : s.contacts.get? contactId = some contact)
    (hmessages : s.conversations.get? contactId = some messages)
    (henc : session.encrypt (textBytes D text) = (.ok m, session')) (eph : P.Secret)
    (now : DateTime) :
    ∃ s', s.sendMessage D contactId text eph now =
        (.ok ⟨contact.identity, m, sealEnvelope s.account contact.identityDh m.encode eph⟩, s') ∧
      s'.account = s.account ∧ s'.contacts = s.contacts ∧
      s'.sessions = s.sessions.set contactId session' ∧
      s'.conversations =
        s.conversations.set contactId (messages ++ [⟨.outgoing, text, now⟩]) := by
  simp [sendMessage, sendContent, hsession, hcontact, hmessages, henc,
    MessageContent.encode_text]

/-! ## 4. Receiving -/

/-- The texts a conversation shows as received. -/
def incomingTexts (s : AppState P) (key : Bytes32) : List Text :=
  ((s.conversations.get? key).getD []).filterMap fun m =>
    if m.direction = .incoming then some m.text else none

theorem receive_session {s : AppState P} {opened : OpenedEnvelope} {m : Message Bytes}
    {existing : Session P} (hdec : Message.decode opened.payload = .ok m)
    (h : s.sessions.get? opened.senderIdentityEd = some existing) (fresh : P.Secret)
    (draws : Nat → P.Secret) :
    ∃ s', s.receive opened fresh draws = ((existing.decrypt fresh m).1.toOption, s') ∧
      s'.account = s.account ∧
      s'.sessions = s.sessions.set opened.senderIdentityEd (existing.decrypt fresh m).2 ∧
      s'.contacts = s.contacts ∧ s'.conversations = s.conversations := by
  simp [receive, hdec, h]

/-- What a successful first message changes. -/
theorem receive_first {s : AppState P} {opened : OpenedEnvelope} {m : Message Bytes}
    {session : Session P} {first : Bytes} {account : Account P}
    (hdec : Message.decode opened.payload = .ok m)
    (h : s.sessions.get? opened.senderIdentityEd = none) {fresh : P.Secret}
    (hresp : Session.respond s.account fresh m = (.ok (session, first), account))
    (draws : Nat → P.Secret) :
    ∃ s', s.receive opened fresh draws = (some first, s') ∧ account.SameKeys s'.account ∧
      s'.sessions = s.sessions.set opened.senderIdentityEd session ∧
      s'.contacts = s.contacts.putIfAbsent opened.senderIdentityEd
        { identity := opened.senderIdentityEd
          identityDh := opened.senderIdentityDh
          displayName := shortId opened.senderIdentityEd
          verified := false
          retentionSeconds := none } ∧
      s'.conversations = s.conversations.putIfAbsent opened.senderIdentityEd [] := by
  refine ⟨(s.receive opened fresh draws).2, by simp only [receive, hdec, h, hresp], ?_⟩
  simp only [receive, hdec, h, hresp, maybeReplenishPrekeys]
  split
  · exact ⟨.refl _, rfl, rfl, rfl⟩
  · exact ⟨.replenish _ _, rfl, rfl, rfl⟩

/-- A received text is appended to the conversation with its sender. -/
theorem handleIncoming_text (hD : D.Lawful) {s s' : AppState P} {raw : Bytes}
    {opened : OpenedEnvelope} {fresh : P.Secret} {draws : Nat → P.Secret} {text : Text}
    (hopen : openEnvelope s.account raw = .ok opened)
    (hrecv : s.receive opened fresh draws = (some (textBytes D text), s')) (now : DateTime) :
    s.handleIncoming D raw fresh draws now =
      (.ok true, s'.append opened.senderIdentityEd ⟨.incoming, text, now⟩) := by
  have hcontent := MessageContent.decode_encode hD (MessageContent.encode_text D text)
  simp [handleIncoming, hopen, hrecv, hcontent, showContent]

theorem incomingTexts_append (s : AppState P) (key : Bytes32) (text : Text) (now : DateTime) :
    (s.append key ⟨.incoming, text, now⟩).incomingTexts key = s.incomingTexts key ++ [text] := by
  simp [incomingTexts, append]

end AppState

end Clarity
