/-
  Clarity/Sending.lean
  ====================
  **From the text field to the relay's mailbox**: every layer a sent message passes.

  The store refuses a message that is too large, the server turns that into a status,
  the HTTP agent into a `NetError`, the FFI into a return code, and the worker isolate
  into a `bool`.  `_transportSend` waits for that `bool` and drops it; so the entry the
  user sees says nothing about any of them.

  The request body is JSON with base64 fields; both are lossless, so a request is what
  its fields stand for, and the length of its text.
-/
import Clarity.App
import Clarity.CatchUp
import Clarity.Mailbox

namespace Clarity

/-! ## 1. The server -/

/-- The body of `POST /send`, its two fields decoded from base64. -/
structure SendRequest where
  recipient : Bytes
  message : Bytes

/-- The length of base64 text, with its padding. -/
def b64Length (n : Nat) : Nat := (n + 2) / 3 * 4

/-- The length of the body: its fields, and 29 characters around them. -/
def SendRequest.bodyLength (r : SendRequest) : Nat :=
  29 + b64Length r.recipient.length + b64Length r.message.length

def MAX_BODY_BYTES : Nat := 4 * 1024 * 1024

/-- A request failure with the HTTP status it should map to. -/
structure RequestError where
  status : Nat
  message : String

def RequestError.bad (message : String) : RequestError := ⟨400, message⟩

/-- The text of a `serde_json` failure; the server only passes it on. -/
def jsonError : String := "json error"

/-- `read_json`: a body that is cut off does not parse. -/
def readJson (r : SendRequest) : Except RequestError SendRequest :=
  if MAX_BODY_BYTES < r.bodyLength then .error (.bad jsonError) else .ok r

def unb64Key (b : Bytes) : Except String Bytes32 :=
  if h : b.length = 32 then .ok ⟨b, h⟩ else .error "expected 32-byte key"

theorem unb64Key_bytes (k : Bytes32) : unb64Key k.bytes = .ok k := dif_pos k.length_eq

namespace RelayStore

def handleSend (store : RelayStore) (r : SendRequest) (now : UInt64) :
    Except RequestError Unit × RelayStore :=
  match readJson r with
  | .error e => (.error e, store)
  | .ok req =>
    match unb64Key req.recipient with
    | .error message => (.error (.bad message), store)
    | .ok recipient =>
      match store.enqueueAt recipient req.message now with
      | (.error .messageTooLarge, store) => (.error ⟨413, "message too large"⟩, store)
      | (.ok (), store) => (.ok (), store)

/-- The server's answer to `POST /send`: first the rate limiter, then `handle`. -/
def serveSend (store : RelayStore) (allowed : Bool) (r : SendRequest) (now : UInt64) :
    Nat × RelayStore :=
  if allowed then
    match store.handleSend r now with
    | (.ok (), store) => (200, store)
    | (.error e, store) => (e.status, store)
  else (429, store)

/-- A request for a mailbox is accepted when its text and its message fit. -/
theorem handleSend_ok_iff (store : RelayStore) (inbox : Bytes32) (message : Bytes) (now : UInt64) :
    (store.handleSend ⟨inbox.bytes, message⟩ now).1.isOk = true ↔
      (SendRequest.mk inbox.bytes message).bodyLength ≤ MAX_BODY_BYTES ∧
        message.length ≤ store.limits.maxMessageBytes := by
  unfold handleSend readJson enqueueAt
  by_cases hbody : MAX_BODY_BYTES < (SendRequest.mk inbox.bytes message).bodyLength
  · rw [if_pos hbody]
    constructor
    · intro h
      cases h
    · intro h
      exact absurd h.1 (Nat.not_le.mpr hbody)
  · rw [if_neg hbody]
    simp only [unb64Key_bytes]
    by_cases hmessage : store.limits.maxMessageBytes < message.length
    · rw [if_pos hmessage]
      constructor
      · intro h
        cases h
      · intro h
        exact absurd h.2 (Nat.not_le.mpr hmessage)
    · rw [if_neg hmessage]
      constructor
      · intro _
        exact ⟨Nat.not_lt.mp hbody, Nat.not_lt.mp hmessage⟩
      · intro _
        rfl

end RelayStore

/-! ## 2. The client's transport -/

/-- What becomes of one HTTP request. -/
inductive Path where
  /-- No connection. -/
  | unreachable
  /-- Something on the way answers. -/
  | answered (status : Nat)
  /-- It arrives at the relay, whose rate limiter allows it or not; the answer may get lost. -/
  | arrives (allowed : Bool) (now : UInt64) (returns : Bool)

/-- `NetError`; `send` ends in one of these two only. -/
inductive NetError where
  | http (reason : String)
  | json (reason : String)

/-- The HTTP agent: statuses from 400 on are errors. -/
def post (path : Path) (relay : RelayStore) (r : SendRequest) :
    Except NetError Nat × RelayStore :=
  let judge (status : Nat) : Except NetError Nat :=
    if 400 ≤ status then .error (.http ("status code " ++ toString status)) else .ok status
  match path with
  | .unreachable => (.error (.http "network error"), relay)
  | .answered status => (judge status, relay)
  | .arrives allowed now returns =>
    let served := relay.serveSend allowed r now
    (if returns then judge served.1 else .error (.http "network error"), served.2)

/-- `RelayTransport::send`. -/
def RelayTransport.send (path : Path) (relay : RelayStore) (recipient : Bytes32)
    (message : Bytes) : Except NetError Unit × RelayStore :=
  match post path relay ⟨recipient.bytes, message⟩ with
  | (.error e, relay) => (.error e, relay)
  | (.ok _, relay) => (.ok (), relay)

/-- How one send travels: whether the worker has a transport at all (a bad proxy
    address leaves it null), and the fate of the request. -/
structure Route where
  transport : Bool
  path : Path

/-- `clarity_relay_send`. -/
def clarityRelaySend (route : Route) (relay : RelayStore) (recipient : Bytes32)
    (message : Bytes) : Int32 × RelayStore :=
  if route.transport then
    match RelayTransport.send route.path relay recipient message with
    | (.ok (), relay) => (0, relay)
    | (.error _, relay) => (-1, relay)
  else (-1, relay)

/-- `RelayWorker.send`. -/
def RelayWorker.send (route : Route) (relay : RelayStore) (recipient : Bytes32)
    (message : Bytes) : Bool × RelayStore :=
  let rc := clarityRelaySend route relay recipient message
  (rc.1 = 0, rc.2)

/-! ## 3. Sizes -/

/-- XChaCha20-Poly1305 appends a tag of 16 bytes. -/
def AEAD_TAG_LEN : Nat := 16

/-- A ciphertext is its plaintext's length and a tag. -/
def Suite.Stretches (P : Suite Bytes) : Prop :=
  ∀ m p ad, (P.xchachaEncrypt m p ad).length = p.length + AEAD_TAG_LEN

variable {P : Suite Bytes}

/-- The length of the next wire message of a session, for a plaintext of `n` bytes:
    version and variant, the handshake while it is pending, header, ciphertext. -/
def Session.wireLength (s : Session P) (n : Nat) : Nat :=
  5 + (s.pendingHandshake.elim 0 fun hs => (HandshakeHeader.codec.enc hs).length) + 40 +
    (8 + (n + AEAD_TAG_LEN))

/-- The length of an envelope around a payload of `n` bytes. -/
def sealedLength (n : Nat) : Nat := HEADER_LEN + (INNER_PREFIX_LEN + bucket n + AEAD_TAG_LEN)

theorem RatchetHeader.length_enc (h : RatchetHeader) : (codec.enc h).length = 40 := by
  simp [codec, Codec.imap, Codec.pair, Codec.bytes32, Codec.u32, Codec.le]

theorem Codec.length_vec (v : Bytes) : (Codec.vec.enc v).length = 8 + v.length := by
  simp [Codec.vec, Codec.le]

theorem length_sealEnvelope (hP : P.Stretches) (sender : Account P) (recipientDh : Bytes32)
    (payload : Bytes) (eph : P.Secret) :
    (sealEnvelope sender recipientDh payload eph).length = sealedLength payload.length := by
  have hroom := le_bucket payload.length
  have hinner : (envelopeInner sender payload).length =
      INNER_PREFIX_LEN + bucket payload.length := by
    unfold envelopeInner
    rw [resize_eq]
    · simp only [List.length_append, Bytes32.length_bytes, Codec.length_leBytes,
        List.length_replicate, INNER_PREFIX_LEN]
      omega
    · simp only [List.length_append, Bytes32.length_bytes, Codec.length_leBytes, INNER_PREFIX_LEN]
      omega
  unfold sealEnvelope Suite.aeadSeal
  simp only [List.length_append, List.length_cons, Bytes32.length_bytes, hP _ _ _, hinner,
    sealedLength, HEADER_LEN]

theorem Session.length_encode (hP : P.Stretches) {s s' : Session P} {plaintext : Bytes}
    {m : Message Bytes} (h : s.encrypt plaintext = (.ok m, s')) :
    m.encode.length = s.wireLength plaintext.length := by
  unfold Session.encrypt at h
  rcases henc : s.ratchet.encrypt plaintext s.adPrefix with ⟨e | ⟨header, ciphertext⟩, r⟩
  · rw [henc] at h
    cases (Prod.mk.inj h).1
  · rw [henc] at h
    cases h
    obtain ⟨ck, -, -, hciphertext, -⟩ := DoubleRatchet.encrypt_ok_cases henc
    have hlen : ciphertext.length = plaintext.length + AEAD_TAG_LEN := by
      rw [hciphertext]
      exact hP _ _ _
    unfold Session.wireLength Message.encode
    cases s.pendingHandshake with
    | none =>
      simp only [Message.codec, Codec.imap, Codec.either, Codec.pair, List.length_cons,
        List.length_append, RatchetHeader.length_enc, Codec.length_vec, hlen, Codec.le,
        Codec.length_leBytes, Option.elim_none]
      omega
    | some hs =>
      simp only [Message.codec, Codec.imap, Codec.either, Codec.pair, List.length_cons,
        List.length_append, RatchetHeader.length_enc, Codec.length_vec, hlen, Codec.le,
        Codec.length_leBytes, Option.elim_some]
      omega

/-! ## 4. The application -/

namespace AppState

/-- `_transportSend` with a relay: the worker's answer is dropped. -/
def transportSend (sha256 : Bytes → Bytes32) (route : Route) (relay : RelayStore)
    (identity : Bytes32) (unixSeconds : UInt64) (envelope : Bytes) : RelayStore :=
  let inbox := inboxId sha256 identity (epochForUnix unixSeconds)
  (RelayWorker.send route relay inbox envelope).2

/-- What `sendMessage` does with the relay: its result, the client and the relay after. -/
structure Sending (P : Suite Bytes) where
  result : Except Thrown Outgoing
  app : AppState P
  relay : RelayStore

/-- `sendMessage` while the relay transport is active. -/
def sendMessageOver (sha256 : Bytes → Bytes32) (D : DartConvert) (s : AppState P)
    (contactId : Bytes32) (text : Text) (eph : P.Secret) (now : DateTime) (unixSeconds : UInt64)
    (route : Route) (relay : RelayStore) : Sending P :=
  match s.sendContent D contactId (.text text) eph with
  | (.error e, s) => ⟨.error e, s, relay⟩
  | (.ok out, s) =>
    let relay := transportSend sha256 route relay out.recipient unixSeconds out.envelope
    match s.conversations.get? contactId with
    | none => ⟨.error .nullCheck, s, relay⟩
    | some messages =>
      let messages := messages ++ [⟨.outgoing, text, now⟩]
      ⟨.ok out, { s with conversations := s.conversations.set contactId messages }, relay⟩

/-- For the client the relay makes no difference. -/
theorem sendMessageOver_client (sha256 : Bytes → Bytes32) (D : DartConvert) (s : AppState P)
    (contactId : Bytes32) (text : Text) (eph : P.Secret) (now : DateTime) (unixSeconds : UInt64)
    (route : Route) (relay : RelayStore) :
    let sending := s.sendMessageOver sha256 D contactId text eph now unixSeconds route relay
    (sending.result, sending.app) = s.sendMessage D contactId text eph now := by
  unfold sendMessageOver sendMessage
  rcases s.sendContent D contactId (.text text) eph with ⟨e | out, s'⟩
  · rfl
  · simp only
    cases s'.conversations.get? contactId with
    | none => rfl
    | some messages => rfl

/-- The conversation grew by the outgoing entry. -/
def Shows (before after : AppState P) (contactId : Bytes32) (text : Text) (now : DateTime) : Prop :=
  after.conversations.get? contactId =
    some ((before.conversations.get? contactId).getD [] ++ [⟨.outgoing, text, now⟩])

/-- The relay's `/send` answered success for this envelope. -/
def Accepts (route : Route) (relay : RelayStore) (inbox : Bytes32) (envelope : Bytes) : Prop :=
  ∃ now returns, route = ⟨true, .arrives true now returns⟩ ∧
    (relay.handleSend ⟨inbox.bytes, envelope⟩ now).1.isOk = true

/-! ## 5. When what is shown was accepted -/

/-- The message reaches the relay's mailbox: the worker has a transport, the request
    gets to the relay's handler, and a sealed payload of this length is not too large
    for it. -/
def Reaches (route : Route) (relay : RelayStore) (envelopeLength : Nat) : Prop :=
  (∃ now returns, route = ⟨true, .arrives true now returns⟩) ∧
    29 + b64Length 32 + b64Length envelopeLength ≤ MAX_BODY_BYTES ∧
    envelopeLength ≤ relay.limits.maxMessageBytes

theorem accepts_iff (route : Route) (relay : RelayStore) (inbox : Bytes32) (envelope : Bytes) :
    Accepts route relay inbox envelope ↔ Reaches route relay envelope.length := by
  unfold Accepts Reaches
  simp only [RelayStore.handleSend_ok_iff, SendRequest.bodyLength, Bytes32.length_bytes]
  constructor
  · rintro ⟨now, returns, hroute, hfits⟩
    exact ⟨⟨now, returns, hroute⟩, hfits⟩
  · rintro ⟨⟨now, returns, hroute⟩, hfits⟩
    exact ⟨now, returns, hroute, hfits⟩

/-- A text that goes out was encrypted by the contact's session. -/
theorem sendContent_ok_cases {D : DartConvert} {s s' : AppState P} {contactId : Bytes32}
    {text : Text} {eph : P.Secret} {out : Outgoing}
    (h : s.sendContent D contactId (.text text) eph = (.ok out, s')) :
    ∃ session session' contact, s.sessions.get? contactId = some session ∧
      s.contacts.get? contactId = some contact ∧
      session.encrypt (textBytes D text) = (.ok out.message, session') ∧
      out.envelope = sealEnvelope s.account contact.identityDh out.message.encode eph ∧
      s' = { s with sessions := s.sessions.set contactId session' } := by
  unfold sendContent at h
  cases hsession : s.sessions.get? contactId with
  | none =>
    rw [hsession] at h
    cases h
  | some session =>
    cases hcontact : s.contacts.get? contactId with
    | none =>
      rw [hsession, hcontact] at h
      cases h
    | some contact =>
      rw [hsession, hcontact] at h
      simp only [MessageContent.encode_text] at h
      rcases henc : session.encrypt (textBytes D text) with ⟨e | m, session'⟩
      · rw [henc] at h
        cases h
      · rw [henc] at h
        cases h
        exact ⟨session, session', contact, rfl, rfl, henc, rfl, rfl⟩

/-- **When a message shown as sent was accepted**: exactly when there is nothing to send
    with, so that the call throws, or the route leads to the relay's handler and the
    message, sealed and padded, fits its limits. -/
theorem shown_iff_accepted (hP : P.Stretches) (sha256 : Bytes → Bytes32) (D : DartConvert)
    (s : AppState P) (contactId : Bytes32) (text : Text) (eph : P.Secret) (now : DateTime)
    (unixSeconds : UInt64) (route : Route) (relay : RelayStore) :
    (∀ out app relay',
      s.sendMessageOver sha256 D contactId text eph now unixSeconds route relay =
        ⟨.ok out, app, relay'⟩ → Shows s app contactId text now →
      Accepts route relay (inboxId sha256 out.recipient (epochForUnix unixSeconds))
        out.envelope) ↔
    ∀ session contact messages, s.sessions.get? contactId = some session →
      s.contacts.get? contactId = some contact → s.conversations.get? contactId = some messages →
      session.ratchet.chainSend ≠ none →
      Reaches route relay (sealedLength (session.wireLength (textBytes D text).length)) := by
  constructor
  · intro h session contact messages hsession hcontact hmessages hchain
    obtain ⟨ck, hck⟩ := Option.ne_none_iff_exists'.mp hchain
    obtain ⟨m, session', henc, -, -⟩ := Session.encrypt_of_chain hck (textBytes D text)
    have hsent : s.sendContent D contactId (.text text) eph =
        (.ok ⟨contact.identity, m, sealEnvelope s.account contact.identityDh m.encode eph⟩,
          { s with sessions := s.sessions.set contactId session' }) := by
      simp only [sendContent, hsession, hcontact, MessageContent.encode_text, henc]
    have hover := h ⟨contact.identity, m, sealEnvelope s.account contact.identityDh m.encode eph⟩
    simp only [sendMessageOver, hsent, hmessages, Sending.mk.injEq] at hover
    have haccepts := hover _ _ ⟨trivial, rfl, rfl⟩ (by
      unfold Shows
      rw [hmessages, LinkedMap.get?_set_self, Option.getD_some])
    rw [accepts_iff, length_sealEnvelope hP, Session.length_encode hP henc] at haccepts
    exact haccepts
  · intro h out app relay' hover _
    unfold sendMessageOver at hover
    rcases hsent : s.sendContent D contactId (.text text) eph with ⟨e | out', s'⟩
    · rw [hsent] at hover
      cases hover
    · rw [hsent] at hover
      simp only at hover
      split at hover
      · cases hover
      · rename_i messages hmessages
        cases hover
        obtain ⟨session, session', contact, hsession, hcontact, henc, henvelope, rfl⟩ :=
          sendContent_ok_cases hsent
        have hchain : session.ratchet.chainSend ≠ none := by
          intro hnone
          simp [Session.encrypt, DoubleRatchet.encrypt, hnone] at henc
        have hreaches := h session contact messages hsession hcontact hmessages hchain
        rw [accepts_iff, henvelope, length_sealEnvelope hP, Session.length_encode hP henc]
        exact hreaches

/-- Alice after adding Bob. -/
def aliceWithBob : AppState Suite.sample :=
  (addContact ⟨sampleAlice, ∅, ∅, ∅, false⟩ sampleBob.identityPublic (utf16 "Bob")
    (some sampleBob.bundle.encode) sampleRandom).2

/-- There is no connection; the call completes, and the message is shown. -/
theorem unreachable_relay_is_shown :
    ∃ out app relay', aliceWithBob.sendMessageOver (fun _ => Bytes32.ofByte 1) sampleConvert
        sampleBob.identityPublic (utf16 "hi") (sampleSecret 80) 0 0 ⟨true, .unreachable⟩
        ⟨∅, .default⟩ = ⟨.ok out, app, relay'⟩ ∧
      Shows aliceWithBob app sampleBob.identityPublic (utf16 "hi") 0 ∧
      ¬ Accepts ⟨true, .unreachable⟩ ⟨∅, .default⟩ (inboxId (fun _ => Bytes32.ofByte 1)
        out.recipient (epochForUnix 0)) out.envelope := by
  set sending := aliceWithBob.sendMessageOver (fun _ => Bytes32.ofByte 1) sampleConvert
    sampleBob.identityPublic (utf16 "hi") (sampleSecret 80) 0 0 ⟨true, .unreachable⟩
    ⟨∅, .default⟩ with hsending
  have hfacts : sending.result.isOk = true ∧
      sending.app.conversations.get? sampleBob.identityPublic =
        some ((aliceWithBob.conversations.get? sampleBob.identityPublic).getD [] ++
          [⟨.outgoing, utf16 "hi", 0⟩]) := by
    rw [hsending]
    decide +kernel
  obtain ⟨result, app, relay'⟩ := sending
  cases result with
  | error e => exact absurd hfacts.1 Bool.false_ne_true
  | ok out =>
    refine ⟨out, app, relay', rfl, hfacts.2, ?_⟩
    rintro ⟨now, returns, hroute, -⟩
    cases hroute

/-- The sample suite with a cipher that only appends a tag. -/
def taggingSuite : Suite Bytes :=
  { Suite.sample with
    xchachaEncrypt := fun _ msg _ => msg ++ List.replicate AEAD_TAG_LEN 0
    xchachaDecrypt := fun _ c _ => some (c.take (c.length - AEAD_TAG_LEN)) }

theorem taggingSuite_stretches : taggingSuite.Stretches := by
  intro m p ad
  simp [taggingSuite]

def taggingSecret (n : UInt8) : taggingSuite.Secret := n

/-- A client whose session with Bob is past the handshake. -/
def taggingAlice : AppState taggingSuite where
  account := Account.generateWithPrekeys (P := taggingSuite) (10 : UInt8) (taggingSecret 11)
    (taggingSecret 12) (13 : UInt8) []
  contacts := (∅ : LinkedMap Bytes32 Contact).set (Bytes32.ofByte 30)
    ⟨Bytes32.ofByte 30, Bytes32.ofByte 31, utf16 "Bob", false, none⟩
  sessions := (∅ : LinkedMap Bytes32 (Session taggingSuite)).set (Bytes32.ofByte 30)
    ⟨DoubleRatchet.initInitiator (P := taggingSuite) (taggingSecret 60) ([1] : Bytes)
      (Bytes32.ofByte 32), [], none⟩
  conversations := (∅ : LinkedMap Bytes32 (List ChatMessage)).set (Bytes32.ofByte 30) []
  replenishing := false

/-- The relay answers, and the message is small. -/
theorem shown_iff_accepted_small :
    ∃ out app relay', taggingAlice.sendMessageOver (fun _ => Bytes32.ofByte 1) sampleConvert
        (Bytes32.ofByte 30) (utf16 "hi") (taggingSecret 80) 0 0 ⟨true, .arrives true 0 true⟩
        ⟨∅, .default⟩ = ⟨.ok out, app, relay'⟩ ∧
      Shows taggingAlice app (Bytes32.ofByte 30) (utf16 "hi") 0 ∧
      Accepts ⟨true, .arrives true 0 true⟩ ⟨∅, .default⟩ (inboxId (fun _ => Bytes32.ofByte 1)
        out.recipient (epochForUnix 0)) out.envelope := by
  set sending := taggingAlice.sendMessageOver (fun _ => Bytes32.ofByte 1) sampleConvert
    (Bytes32.ofByte 30) (utf16 "hi") (taggingSecret 80) 0 0 ⟨true, .arrives true 0 true⟩
    ⟨∅, .default⟩ with hsending
  have hfacts : sending.result.isOk = true ∧
      sending.app.conversations.get? (Bytes32.ofByte 30) =
        some ((taggingAlice.conversations.get? (Bytes32.ofByte 30)).getD [] ++
          [⟨.outgoing, utf16 "hi", 0⟩]) := by
    rw [hsending]
    decide +kernel
  obtain ⟨result, app, relay'⟩ := sending
  cases result with
  | error e => exact absurd hfacts.1 Bool.false_ne_true
  | ok out =>
    refine ⟨out, app, relay', rfl, hfacts.2, ?_⟩
    refine (shown_iff_accepted taggingSuite_stretches (fun _ => Bytes32.ofByte 1) sampleConvert
      taggingAlice (Bytes32.ofByte 30) (utf16 "hi") (taggingSecret 80) 0 0
      ⟨true, .arrives true 0 true⟩ ⟨∅, .default⟩).mpr ?_ out app relay' hsending.symm hfacts.2
    intro session contact messages hsession hcontact hmessages hchain
    cases hsession
    refine ⟨⟨0, true, rfl⟩, ?_⟩
    decide +kernel

end AppState

end Clarity
