/-
  Clarity/App.lean
  ================
  **The application state** (`app/lib/src/state/app_state.dart`): contacts, sessions
  and conversations of one client, and the methods that add a contact, send a
  message and handle an incoming envelope.

  The native library hands back null for every error, which the wrapper turns into
  a `ClarityException`; native objects are mutated in place, also by a call that
  fails.  The maps of the source are keyed by the lowercase hex of an identity;
  here the key is the identity.  Methods take the random values and the time they
  use as arguments, and `await`s on storage are left out.
-/
import Clarity.Content
import Clarity.Envelope
import Clarity.LinkedMap
import Clarity.Session

namespace Clarity

/-! ## 1. Data -/

/-- What a method can throw. -/
inductive Thrown where
  | stateError (message : String)
  | clarityException (message : String)
  | unsupportedError (message : String)
  | nullCheck
  | rangeError
deriving DecidableEq, Repr

/-- `DateTime`, in microseconds since the epoch. -/
abbrev DateTime := Int64

/-- A hundred million days on either side of the epoch. -/
def MAX_DATE_MICROS : Int := 8640000000000000000

/-- `DateTime.subtract`, which throws when the result is out of range. -/
def DateTime.subtract (t : DateTime) (micros : Int64) : Except Thrown DateTime :=
  let r := t - micros
  if r.toInt.natAbs ≤ MAX_DATE_MICROS.natAbs then .ok r else .error .rangeError

structure Contact where
  identity : Bytes32
  identityDh : Bytes32
  displayName : Text
  verified : Bool
  retentionSeconds : Option Int64

inductive MessageDirection where
  | incoming
  | outgoing
  | info
deriving DecidableEq, Repr

structure ChatMessage where
  direction : MessageDirection
  text : Text
  timestamp : DateTime
deriving DecidableEq

/-- `AppState`, with the relay transport running. -/
structure AppState (P : Suite Bytes) where
  account : Account P
  contacts : LinkedMap Bytes32 Contact
  sessions : LinkedMap Bytes32 (Session P)
  conversations : LinkedMap Bytes32 (List ChatMessage)
  replenishing : Bool

def prekeyLowWater : Nat := 40
def prekeyTarget : Nat := 100

/-- Lowercase hex digits. -/
def hex (b : Bytes) : Text :=
  b.flatMap fun x => [Nat.digitChar (x.toNat / 16), Nat.digitChar (x.toNat % 16)].map
    fun c => c.toNat.toUInt16

/-- `_shortId`. -/
def shortId (id : Bytes32) : Text := (hex id.bytes).take 8 ++ utf16 "…"

variable {P : Suite Bytes}

/-! ## 2. Contacts -/

/-- `bundleIdentityKeys`: decode a bundle and verify its signatures. -/
def bundleIdentityKeys (P : Suite Bytes) (bundle : Bytes) : Except Thrown (Bytes32 × Bytes32) :=
  match PreKeyBundle.decode bundle with
  | .error _ => .error (.clarityException "bundle rejected (bad signature or malformed)")
  | .ok b =>
    match verifyBundle P b with
    | .error _ => .error (.clarityException "bundle rejected (bad signature or malformed)")
    | .ok _ => .ok (b.identityEd, b.identityDh)

/-- `initiateSession`. -/
def initiateSession (account : Account P) (bundle : Bytes) (rnd : Session.InitiateRandom P) :
    Except Thrown (Session P) :=
  match PreKeyBundle.decode bundle with
  | .error _ => .error (.clarityException "bundle rejected (bad signature or malformed)")
  | .ok b =>
    match Session.initiate account b rnd with
    | .error _ => .error (.clarityException "bundle rejected (bad signature or malformed)")
    | .ok s => .ok s

namespace AppState

/-- `addContact`, from the directory's answer on. -/
def addContact (s : AppState P) (identity : Bytes32) (displayName : Text) (fetched : Option Bytes)
    (rnd : Session.InitiateRandom P) : Except Thrown Unit × AppState P :=
  match fetched with
  | none => (.error (.stateError "no prekey bundle available for that identity"), s)
  | some bundle =>
    match bundleIdentityKeys P bundle with
    | .error e => (.error e, s)
    | .ok (identityEd, identityDh) =>
      if identityEd ≠ identity then
        (.error (.stateError "directory returned a bundle for a different identity"), s)
      else match initiateSession s.account bundle rnd with
        | .error e => (.error e, s)
        | .ok session =>
          (.ok (), { s with
            contacts := s.contacts.set identity
              { identity, identityDh, displayName, verified := false, retentionSeconds := none }
            sessions := s.sessions.set identity session
            conversations := s.conversations.putIfAbsent identity [] })

/-! ## 3. Sending -/

/-- What `_sendContent` gives the transport: the recipient, the wire message, and
    the envelope around it. -/
structure Outgoing where
  recipient : Bytes32
  message : Message Bytes
  envelope : Bytes

/-- `_sendContent`, with the ephemeral key its envelope draws. -/
def sendContent (D : DartConvert) (s : AppState P) (contactId : Bytes32)
    (content : MessageContent) (eph : P.Secret) : Except Thrown Outgoing × AppState P :=
  match s.sessions.get? contactId, s.contacts.get? contactId with
  | some session, some contact =>
    match content.encode D with
    | none => (.error (.unsupportedError "unknown content is receive-only"), s)
    | some plaintext =>
      match session.encrypt plaintext with
      | (.error _, session) =>
        (.error (.clarityException "native operation failed"),
          { s with sessions := s.sessions.set contactId session })
      | (.ok m, session) =>
        (.ok ⟨contact.identity, m, sealEnvelope s.account contact.identityDh m.encode eph⟩,
          { s with sessions := s.sessions.set contactId session })
  | _, _ => (.error (.stateError "no session for contact"), s)

/-- `sendMessage`.  The outgoing entry is written once the relay has answered; only
    its place among later entries depends on when that is. -/
def sendMessage (D : DartConvert) (s : AppState P) (contactId : Bytes32) (text : Text)
    (eph : P.Secret) (now : DateTime) : Except Thrown Outgoing × AppState P :=
  match s.sendContent D contactId (.text text) eph with
  | (.error e, s) => (.error e, s)
  | (.ok out, s) =>
    match s.conversations.get? contactId with
    | none => (.error .nullCheck, s)
    | some messages =>
      let messages := messages ++ [⟨.outgoing, text, now⟩]
      (.ok out, { s with conversations := s.conversations.set contactId messages })

/-! ## 4. Prekeys -/

/-- `_maybeReplenishPrekeys` up to its first `await`; `draws` are the secrets the
    account draws. -/
def maybeReplenishPrekeys (s : AppState P) (draws : Nat → P.Secret) : AppState P :=
  let remaining := s.account.oneTimePrekeysRemaining % 2 ^ 32
  if s.replenishing ∨ prekeyLowWater ≤ remaining then s
  else { s with
    account := s.account.replenishOneTimePrekeys
      ((List.range (prekeyTarget - remaining)).map draws)
    replenishing := true }

/-! ## 5. Receiving -/

/-- Append to a conversation, which is created when it is missing. -/
def append (s : AppState P) (key : Bytes32) (m : ChatMessage) : AppState P :=
  { s with conversations :=
      s.conversations.set key ((s.conversations.get? key).getD [] ++ [m]) }

/-- `_sweepExpiredMessages`: delete what is older than the contact's timer, contact
    by contact in the order they were added. -/
def sweepContacts (now : DateTime) : List (Bytes32 × Contact) → AppState P →
    Except Thrown Unit × AppState P
  | [], s => (.ok (), s)
  | (_, contact) :: rest, s =>
    match contact.retentionSeconds, s.conversations.get? contact.identity with
    | some retention, some (m :: ms) =>
      match DateTime.subtract now (durationMicros retention) with
      | .error e => (.error e, s)
      | .ok cutoff =>
        let kept := (m :: ms).filter fun m => ¬ m.timestamp < cutoff
        sweepContacts now rest
          { s with conversations := s.conversations.set contact.identity kept }
    | _, _ => sweepContacts now rest s

/-- The same, over any subtraction: a sweep can be reasoned about without computing the
    microseconds of a timer, a million to the second. -/
def sweepWith (subtract : DateTime → Int64 → Except Thrown DateTime) (now : DateTime) :
    List (Bytes32 × Contact) → AppState P → Except Thrown Unit × AppState P
  | [], s => (.ok (), s)
  | (_, contact) :: rest, s =>
    match contact.retentionSeconds, s.conversations.get? contact.identity with
    | some retention, some (m :: ms) =>
      match subtract now (durationMicros retention) with
      | .error e => (.error e, s)
      | .ok cutoff =>
        let kept := (m :: ms).filter fun m => ¬ m.timestamp < cutoff
        sweepWith subtract now rest
          { s with conversations := s.conversations.set contact.identity kept }
    | _, _ => sweepWith subtract now rest s

theorem sweepContacts_eq (now : DateTime) (l : List (Bytes32 × Contact)) (s : AppState P) :
    sweepContacts now l s = sweepWith DateTime.subtract now l s := by
  delta sweepContacts sweepWith
  with_reducible rfl

def sweepExpiredMessages (s : AppState P) (now : DateTime) : Except Thrown Unit × AppState P :=
  sweepContacts now s.contacts.entries s

/-- The first half of `_handleIncoming`: decrypt with the session on file for the
    claimed sender, or respond to a first message.  `none` is a
    `ClarityException`. -/
def receive (s : AppState P) (opened : OpenedEnvelope) (fresh : P.Secret)
    (draws : Nat → P.Secret) : Option Bytes × AppState P :=
  let senderKey := opened.senderIdentityEd
  match Message.decode opened.payload with
  | .error _ => (none, s)
  | .ok m =>
    match s.sessions.get? senderKey with
    | some existing =>
      ((existing.decrypt fresh m).1.toOption,
        { s with sessions := s.sessions.set senderKey (existing.decrypt fresh m).2 })
    | none =>
      match Session.respond s.account fresh m with
      | (.error _, account) => (none, { s with account := account })
      | (.ok (session, first), account) =>
        (some first, maybeReplenishPrekeys { s with
          account := account
          sessions := s.sessions.set senderKey session
          contacts := s.contacts.putIfAbsent senderKey
            { identity := senderKey
              identityDh := opened.senderIdentityDh
              displayName := shortId senderKey
              verified := false
              retentionSeconds := none }
          conversations := s.conversations.putIfAbsent senderKey [] } draws)

/-- The second half: act on the content.  The result says whether the view changed. -/
def showContent (s : AppState P) (senderKey : Bytes32) (content : MessageContent)
    (now : DateTime) : Except Thrown Bool × AppState P :=
  match content with
  | .text body => (.ok true, s.append senderKey ⟨.incoming, body, now⟩)
  | .timerUpdate seconds =>
    match s.contacts.get? senderKey with
    | none => (.ok false, s)
    | some contact =>
      let contact := { contact with retentionSeconds := seconds }
      let s := { s with contacts := s.contacts.set senderKey contact }
      let s := s.append senderKey ⟨.info, contact.displayName ++
        utf16 (" set disappearing messages to " ++ retentionLabel seconds ++ "."), now⟩
      match s.sweepExpiredMessages now with
      | (.ok _, s) => (.ok true, s)
      | (.error e, s) => (.error e, s)
  | .unknown => (.ok false, s)

/-- `_handleIncoming`. -/
def handleIncoming (D : DartConvert) (s : AppState P) (raw : Bytes) (fresh : P.Secret)
    (draws : Nat → P.Secret) (now : DateTime) : Except Thrown Bool × AppState P :=
  match openEnvelope s.account raw with
  | .error _ => (.ok false, s)
  | .ok opened =>
    match s.receive opened fresh draws with
    | (none, s) => (.ok false, s)
    | (some plaintext, s) =>
      s.showContent opened.senderIdentityEd (MessageContent.decode D plaintext) now

end AppState

end Clarity
