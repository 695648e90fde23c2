/-
  Clarity/Device.lean
  ===================
  **One device over time**: the app in memory, its secure storage, and what is still
  under way — storage writes, transport requests and publishes that were started and
  have not finished (`app_state.dart`, with its `await`s).

  Between two `await`s the code runs to its end; an act of the model is one such
  stretch.  Each write holds the value that was serialized when it was started, and
  writes complete in any order.  A restart drops everything that is under way, loads
  what storage holds, and starts the transport.  Storage keeps values here; the bytes
  in between are those of `Clarity.Storage`.

    * `Device.step` — one act, and what it does that the outside can see (`Event`);
    * `Device.run` — a whole run;
    * `Device.Keyed`, `keyed_run` — every contact is filed under its own identity.
-/
import Clarity.App

namespace Clarity

variable {P : Suite Bytes}

/-! ## 1. Storage -/

/-- Secure storage. -/
structure Disk (P : Suite Bytes) where
  account : Account P
  contacts : List Contact
  sessions : Std.ExtTreeMap Bytes32 (Session P)
  histories : Std.ExtTreeMap Bytes32 (List ChatMessage)

inductive Write (P : Suite Bytes) where
  | account (a : Account P)
  | contacts (l : List Contact)
  | session (contactId : Bytes32) (s : Session P)
  | history (contactId : Bytes32) (messages : List ChatMessage)

/-- A time as it is stored, in milliseconds. -/
def ChatMessage.inMillis (m : ChatMessage) : ChatMessage :=
  { m with timestamp := m.timestamp / 1000 * 1000 }

/-- A write reaches storage.  An empty history deletes its key. -/
def Disk.write (d : Disk P) : Write P → Disk P
  | .account a => { d with account := a }
  | .contacts l => { d with contacts := l }
  | .session contactId s => { d with sessions := d.sessions.insert contactId s }
  | .history contactId messages =>
    if messages.isEmpty then { d with histories := d.histories.erase contactId }
    else { d with
      histories := d.histories.insert contactId (messages.map ChatMessage.inMillis) }

/-! ## 2. What is under way -/

/-- What `_sendContent` was called for. -/
inductive Sending where
  | message (text : Text)
  | timer (seconds : Option Int64)

/-- What goes on when a write has completed. -/
inductive After where
  -- nobody waits for it
  | done
  -- `addContact` after `_persistSession`
  | persistContacts
  -- `setRetention` after `_persistContacts`
  | retain (contactId : Bytes32) (seconds : Option Int64)
  -- `_sendContent` after `_persistSession`
  | sent (contactId : Bytes32) (sending : Sending)
  -- `_maybeReplenishPrekeys` after the account was written
  | publish

/-- Who waits for a publish. -/
inductive Publishing where
  | startTransport
  | replenish

structure Device (P : Suite Bytes) where
  app : AppState P
  disk : Disk P
  writes : List (Write P × After)
  sends : List (Bytes32 × Sending)
  publishes : List Publishing

namespace Device

/-- What can be seen from outside. -/
inductive Event (P : Suite Bytes) where
  -- an envelope was handed to the transport: the message key and the plaintext it protects
  | handed (key : P.Key) (plaintext : Bytes)
  -- a handshake completed and consumed a one-time prekey
  | consumed (id : UInt32) (pub : Bytes32)
  | published (oneTime : List (UInt32 × Bytes32))

/-- What starts a stretch of code. -/
inductive Act (P : Suite Bytes) where
  -- the directory has answered `addContact`
  | addContact (identity : Bytes32) (displayName : Text) (fetched : Option Bytes)
      (rnd : Session.InitiateRandom P)
  | sendMessage (contactId : Bytes32) (text : Text) (eph : P.Secret)
  | setRetention (contactId : Bytes32) (seconds : Option Int64)
  | markVerified (contactId : Bytes32)
  | incoming (raw : Bytes) (fresh : P.Secret) (draws : Nat → P.Secret) (now : DateTime)
  | sweep (now : DateTime)
  -- the write at this place has completed
  | written (i : Nat) (eph : P.Secret) (now : DateTime)
  -- the transport request at this place has been answered, or has thrown
  | answered (i : Nat) (ok : Bool)
  -- the publish at this place has finished, or has thrown
  | published (i : Nat) (ok : Bool) (draws : Nat → P.Secret)
  | startTransport
  -- the process ends here, and the app is started again
  | restart (now : DateTime)

/-! ## 3. Pieces of the acts -/

def persist (d : Device P) (w : Write P) (after : After) : Device P :=
  { d with writes := d.writes ++ [(w, after)] }

/-- `_persistContacts`. -/
def persistContacts (d : Device P) (after : After) : Device P :=
  d.persist (.contacts (d.app.contacts.entries.map Prod.snd)) after

/-- `_persistHistory`. -/
def persistHistory (d : Device P) (contactId : Bytes32) : Device P :=
  d.persist (.history contactId ((d.app.conversations.get? contactId).getD [])) .done

/-- `_persistSession`; without a session there is nothing to write. -/
def persistSession (d : Device P) (contactId : Bytes32) (after : After) : Device P :=
  match d.app.sessions.get? contactId with
  | none => d
  | some s => d.persist (.session contactId s) after

/-- `_appendInfo`. -/
def appendInfo (d : Device P) (contactId : Bytes32) (text : Text) (now : DateTime) : Device P :=
  { d with app := d.app.append contactId ⟨.info, text, now⟩ }.persistHistory contactId

/-- The histories that are written because a conversation has become shorter. -/
def persistSwept (d : Device P) (before : AppState P) : Device P :=
  d.app.contacts.entries.foldl
    (fun d' e =>
      if ((d.app.conversations.get? e.2.identity).getD []).length =
          ((before.conversations.get? e.2.identity).getD []).length then d'
      else d'.persistHistory e.2.identity) d

/-- `_sweepExpiredMessages`. -/
def sweep (d : Device P) (now : DateTime) : Device P :=
  { d with app := (d.app.sweepExpiredMessages now).2 }.persistSwept d.app

/-- The message key that `encrypt` takes next. -/
def nextKey (s : Session P) : Option P.Key := s.ratchet.chainSend.map fun ck => (P.kdfCk ck).2

/-- `_sendContent` up to its first `await`. -/
def sendContent (D : DartConvert) (d : Device P) (contactId : Bytes32) (content : MessageContent)
    (sending : Sending) (eph : P.Secret) : List (Event P) × Device P :=
  let sent := d.app.sendContent D contactId content eph
  match sent.1 with
  | .error _ => ([], { d with app := sent.2 })
  | .ok _ =>
    let key := (d.app.sessions.get? contactId).bind nextKey
    let plaintext := content.encode D
    (match key, plaintext with
      | some key, some plaintext => [.handed key plaintext]
      | _, _ => [],
      { d with app := sent.2, sends := d.sends ++ [(contactId, sending)] })

/-- `_publishBundle` up to its `await`. -/
def publishBundle (d : Device P) (who : Publishing) : List (Event P) × Device P :=
  ([.published d.app.account.oneTimePrekeyPublics], { d with publishes := d.publishes ++ [who] })

/-- Where the pool has been refilled, the account is written. -/
def persistAccount (d : Device P) (before : AppState P) : Device P :=
  if d.app.replenishing ∧ ¬ before.replenishing then d.persist (.account d.app.account) .publish
  else d

def maybeReplenishPrekeys (d : Device P) (draws : Nat → P.Secret) : Device P :=
  { d with app := d.app.maybeReplenishPrekeys draws }.persistAccount d.app

/-- The one-time prekey that a first message in this envelope consumes, if the
    handshake completes. -/
def consumedBy (s : AppState P) (raw : Bytes) (fresh : P.Secret) : Option (UInt32 × Bytes32) :=
  match openEnvelope s.account raw with
  | .error _ => none
  | .ok opened =>
    match Message.decode opened.payload, s.sessions.get? opened.senderIdentityEd with
    | .ok m, none =>
      match (Session.respond s.account fresh m).1, m with
      | .ok _, .preKey hs _ _ =>
        hs.oneTimePrekeyId.bind fun id =>
          s.account.oneTimePrekeys[id]?.map fun sk => (id, P.publicKey sk)
      | _, _ => none
    | _, _ => none

/-- `_handleIncoming`, with the writes it starts. -/
def incoming (D : DartConvert) (d : Device P) (raw : Bytes) (fresh : P.Secret)
    (draws : Nat → P.Secret) (now : DateTime) : List (Event P) × Device P :=
  let events := (consumedBy d.app raw fresh).toList.map fun e => .consumed e.1 e.2
  match openEnvelope d.app.account raw with
  | .error _ => ([], d)
  | .ok opened =>
    let received := d.app.receive opened fresh draws
    let d := { d with app := received.2 }.persistAccount d.app
    match received.1 with
    | none => (events, d)
    | some plaintext =>
      let sender := opened.senderIdentityEd
      let d := (d.persistSession sender .done).persistContacts .done
      (events, match MessageContent.decode D plaintext with
        | .text body =>
          { d with app := d.app.append sender ⟨.incoming, body, now⟩ }.persistHistory sender
        | .timerUpdate seconds =>
          match d.app.contacts.get? sender with
          | none => d
          | some contact =>
            let d := { d with app := { d.app with
              contacts := d.app.contacts.set sender { contact with retentionSeconds := seconds } }
            }.persistContacts .done
            (d.appendInfo sender (contact.displayName ++
              utf16 (" set disappearing messages to " ++ retentionLabel seconds ++ ".")) now).sweep
                now
        | .unknown => d)

/-- What goes on after a write. -/
def resume (D : DartConvert) (d : Device P) (eph : P.Secret) (now : DateTime) :
    After → List (Event P) × Device P
  | .done => ([], d)
  | .persistContacts => ([], d.persistContacts .done)
  | .retain contactId seconds =>
    match d.app.sessions.get? contactId with
    | some _ => d.sendContent D contactId (.timerUpdate seconds) (.timer seconds) eph
    | none => ([], d.sweep now)
  | .sent contactId (.message text) =>
    match d.app.conversations.get? contactId with
    | none => ([], d)
    | some _ =>
      ([], { d with app := d.app.append contactId ⟨.outgoing, text, now⟩ }.persistHistory contactId)
  | .sent contactId (.timer seconds) =>
    ([], (d.appendInfo contactId
      (utf16 ("You set disappearing messages to " ++ retentionLabel seconds ++ ".")) now).sweep now)
  | .publish => d.publishBundle .replenish

/-- `_restoreContactsAndSessions` for one stored contact. -/
def restoreContact (disk : Disk P) (s : AppState P) (contact : Contact) : AppState P :=
  { s with
    contacts := s.contacts.set contact.identity contact
    conversations := match disk.histories[contact.identity]? with
      | some messages => s.conversations.set contact.identity messages
      | none => s.conversations.putIfAbsent contact.identity []
    sessions := match disk.sessions[contact.identity]? with
      | some session => s.sessions.set contact.identity session
      | none => s.sessions }

/-- What `initialize` restores. -/
def restore (disk : Disk P) : AppState P :=
  disk.contacts.foldl (restoreContact disk)
    { account := disk.account, contacts := ∅, sessions := ∅, conversations := ∅,
      replenishing := false }

/-- `initialize` on what storage holds. -/
def restart (d : Device P) (now : DateTime) : List (Event P) × Device P :=
  let fresh : Device P := ⟨restore d.disk, d.disk, [], [], []⟩
  let swept := fresh.sweep now
  match (fresh.app.sweepExpiredMessages now).1 with
  | .ok _ => swept.publishBundle .startTransport
  | .error _ => ([], swept)

/-! ## 4. Runs -/

def step (D : DartConvert) (d : Device P) : Act P → List (Event P) × Device P
  | .addContact identity displayName fetched rnd =>
    match d.app.addContact identity displayName fetched rnd with
    | (.error _, app) => ([], { d with app := app })
    | (.ok _, app) => ([], { d with app := app }.persistSession identity .persistContacts)
  | .sendMessage contactId text eph => d.sendContent D contactId (.text text) (.message text) eph
  | .setRetention contactId seconds =>
    match d.app.contacts.get? contactId with
    | none => ([], d)
    | some contact =>
      ([], { d with app := { d.app with
        contacts := d.app.contacts.set contactId { contact with retentionSeconds := seconds } }
      }.persistContacts (.retain contactId seconds))
  | .markVerified contactId =>
    match d.app.contacts.get? contactId with
    | none => ([], d.persistContacts .done)
    | some contact =>
      ([], { d with app := { d.app with
        contacts := d.app.contacts.set contactId { contact with verified := true } }
      }.persistContacts .done)
  | .incoming raw fresh draws now => d.incoming D raw fresh draws now
  | .sweep now => ([], d.sweep now)
  | .written i eph now =>
    match d.writes[i]? with
    | none => ([], d)
    | some (w, after) =>
      { d with disk := d.disk.write w, writes := d.writes.eraseIdx i }.resume D eph now after
  | .answered i ok =>
    match d.sends[i]? with
    | none => ([], d)
    | some (contactId, sending) =>
      let d := { d with sends := d.sends.eraseIdx i }
      if ok then ([], d.persistSession contactId (.sent contactId sending)) else ([], d)
  | .published i ok draws =>
    match d.publishes[i]? with
    | none => ([], d)
    | some who =>
      let d := { d with publishes := d.publishes.eraseIdx i }
      match who with
      | .startTransport => ([], if ok then d.maybeReplenishPrekeys draws else d)
      | .replenish => ([], { d with app := { d.app with replenishing := false } })
  | .startTransport => d.publishBundle .startTransport
  | .restart now => d.restart now

/-- The first start: the account is generated and written, and published. -/
def start (account : Account P) : Device P :=
  ⟨{ account := account, contacts := ∅, sessions := ∅, conversations := ∅,
      replenishing := false },
    ⟨account, [], ∅, ∅⟩, [], [], [.startTransport]⟩

/-- A whole run: what was seen of it, in order, and the device at its end. -/
def run (D : DartConvert) (d : Device P) : List (Act P) → List (Event P) × Device P
  | [] => ([], d)
  | act :: acts =>
    let after := (d.step D act).2.run D acts
    ((d.step D act).1 ++ after.1, after.2)

/-- The runs whose acts all meet `Cond`, which may look at what was seen so far. -/
inductive Run (D : DartConvert) (account : Account P)
    (Cond : Device P → List (Event P) → Act P → Prop) : Device P → List (Event P) → Prop where
  | start : Run D account Cond (Device.start account) [.published account.oneTimePrekeyPublics]
  | step {d : Device P} {trace : List (Event P)} (act : Act P) : Run D account Cond d trace →
      Cond d trace act → Run D account Cond (d.step D act).2 (trace ++ (d.step D act).1)

/-! ## 5. What the pieces leave alone -/

variable {d : Device P}

@[simp] theorem app_persist (w : Write P) (after : After) : (d.persist w after).app = d.app := rfl

@[simp] theorem disk_persist (w : Write P) (after : After) : (d.persist w after).disk = d.disk := rfl

@[simp] theorem app_persistContacts (after : After) : (d.persistContacts after).app = d.app := rfl

@[simp] theorem app_persistHistory (contactId : Bytes32) :
    (d.persistHistory contactId).app = d.app := rfl

@[simp] theorem app_persistSession (contactId : Bytes32) (after : After) :
    (d.persistSession contactId after).app = d.app := by
  unfold persistSession
  split <;> rfl

@[simp] theorem app_persistAccount (before : AppState P) :
    (d.persistAccount before).app = d.app := by
  unfold persistAccount
  split <;> rfl

/-- Writing histories in a loop. -/
theorem app_foldl_persistHistory {d0 : Device P} {p : Bytes32 × Contact → Prop}
    [DecidablePred p] (l : List (Bytes32 × Contact)) :
    (l.foldl (fun d' e => if p e then d' else d'.persistHistory e.2.identity) d0).app = d0.app := by
  induction l generalizing d0 with
  | nil => rfl
  | cons e rest ih =>
    rw [List.foldl_cons, ih]
    split <;> rfl

@[simp] theorem app_persistSwept (before : AppState P) : (d.persistSwept before).app = d.app :=
  app_foldl_persistHistory _

@[simp] theorem app_sweep (now : DateTime) :
    (d.sweep now).app = (d.app.sweepExpiredMessages now).2 :=
  app_persistSwept _

@[simp] theorem app_appendInfo (contactId : Bytes32) (text : Text) (now : DateTime) :
    (d.appendInfo contactId text now).app = d.app.append contactId ⟨.info, text, now⟩ := rfl

/-- The act is `_handleIncoming`, and the writes it starts. -/
theorem app_incoming (D : DartConvert) (raw : Bytes) (fresh : P.Secret) (draws : Nat → P.Secret)
    (now : DateTime) :
    (d.incoming D raw fresh draws now).2.app = (d.app.handleIncoming D raw fresh draws now).2 := by
  unfold incoming AppState.handleIncoming
  cases hopen : openEnvelope d.app.account raw with
  | error e => rfl
  | ok opened =>
    rcases hrecv : d.app.receive opened fresh draws with ⟨_ | plaintext, s⟩
    · simp [hrecv]
    · simp only [hrecv, AppState.showContent]
      cases MessageContent.decode D plaintext with
      | unknown => simp
      | text body => simp
      | timerUpdate seconds =>
        simp only [app_persistContacts, app_persistSession, app_persistAccount]
        cases s.contacts.get? opened.senderIdentityEd with
        | none => simp
        | some contact =>
          simp only [app_sweep, app_appendInfo, app_persistContacts]
          split <;> simp_all

@[simp] theorem app_sendContent (D : DartConvert) (contactId : Bytes32) (content : MessageContent)
    (sending : Sending) (eph : P.Secret) :
    (d.sendContent D contactId content sending eph).2.app =
      (d.app.sendContent D contactId content eph).2 := by
  unfold sendContent
  dsimp only
  split <;> rfl

@[simp] theorem app_maybeReplenishPrekeys (draws : Nat → P.Secret) :
    (d.maybeReplenishPrekeys draws).app = d.app.maybeReplenishPrekeys draws :=
  app_persistAccount _

end Device

/-! ## 6. Contacts -/

namespace AppState

/-- Every contact is filed under its own identity. -/
def Keyed (s : AppState P) : Prop := ∀ k c, s.contacts.get? k = some c → c.identity = k

theorem sweepContacts_nil (now : DateTime) (s : AppState P) :
    sweepContacts now [] s = (.ok (), s) := rfl

/-- What a sweep does about one contact: nothing to sweep, a timer out of range, or a sweep. -/
theorem sweepWith_cases {subtract : DateTime → Int64 → Except Thrown DateTime} {now : DateTime}
    {e : Bytes32 × Contact} {rest : List (Bytes32 × Contact)} {s : AppState P}
    {r : Except Thrown Unit × AppState P} (h : sweepWith subtract now (e :: rest) s = r) :
    ((e.2.retentionSeconds = none ∨ (s.conversations.get? e.2.identity).getD [] = []) ∧
      sweepWith subtract now rest s = r) ∨
    ∃ seconds messages, e.2.retentionSeconds = some seconds ∧
      s.conversations.get? e.2.identity = some messages ∧ messages ≠ [] ∧
      ((∃ thrown, subtract now (durationMicros seconds) = .error thrown ∧
        (.error thrown, s) = r) ∨
      ∃ cutoff, subtract now (durationMicros seconds) = .ok cutoff ∧
        sweepWith subtract now rest { s with
          conversations := s.conversations.set e.2.identity
            (messages.filter fun m => ¬ m.timestamp < cutoff) } = r) := by
  rw [sweepWith] at h
  cases hretention : e.2.retentionSeconds with
  | none =>
    rw [hretention] at h
    exact Or.inl ⟨Or.inl rfl, h⟩
  | some seconds =>
    cases hmessages : s.conversations.get? e.2.identity with
    | none =>
      rw [hretention, hmessages] at h
      exact Or.inl ⟨Or.inr rfl, h⟩
    | some messages =>
      cases messages with
      | nil =>
        rw [hretention, hmessages] at h
        exact Or.inl ⟨Or.inr rfl, h⟩
      | cons m ms =>
        refine Or.inr ⟨seconds, m :: ms, rfl, rfl, List.cons_ne_nil m ms, ?_⟩
        cases hsub : subtract now (durationMicros seconds) with
        | error thrown =>
          simp only [hretention, hmessages, hsub] at h
          exact Or.inl ⟨thrown, rfl, h⟩
        | ok cutoff =>
          simp only [hretention, hmessages, hsub] at h
          exact Or.inr ⟨cutoff, rfl, h⟩

theorem sweepContacts_cases {now : DateTime} {e : Bytes32 × Contact}
    {rest : List (Bytes32 × Contact)} {s : AppState P} {r : Except Thrown Unit × AppState P}
    (h : sweepContacts now (e :: rest) s = r) :
    ((e.2.retentionSeconds = none ∨ (s.conversations.get? e.2.identity).getD [] = []) ∧
      sweepContacts now rest s = r) ∨
    ∃ seconds messages, e.2.retentionSeconds = some seconds ∧
      s.conversations.get? e.2.identity = some messages ∧ messages ≠ [] ∧
      ((∃ thrown, DateTime.subtract now (durationMicros seconds) = .error thrown ∧
        (.error thrown, s) = r) ∨
      ∃ cutoff, DateTime.subtract now (durationMicros seconds) = .ok cutoff ∧
        sweepContacts now rest { s with
          conversations := s.conversations.set e.2.identity
            (messages.filter fun m => ¬ m.timestamp < cutoff) } = r) := by
  simp only [sweepContacts_eq] at h ⊢
  exact sweepWith_cases h

/-- The sweep touches the conversations only. -/
theorem sweepContacts_frame (now : DateTime) (l : List (Bytes32 × Contact)) (s : AppState P) :
    ∃ conversations, (sweepContacts now l s).2 = { s with conversations := conversations } := by
  induction l generalizing s with
  | nil => exact ⟨s.conversations, rfl⟩
  | cons e rest ih =>
    rcases sweepContacts_cases (rfl : sweepContacts now (e :: rest) s = _) with
      ⟨-, heq⟩ | ⟨_, _, _, _, _, ⟨_, _, heq⟩ | ⟨_, _, heq⟩⟩
    · rw [← heq]
      exact ih s
    · rw [← heq]
      exact ⟨s.conversations, rfl⟩
    · rw [← heq]
      exact ih _

theorem sweepExpiredMessages_frame (now : DateTime) (s : AppState P) :
    ∃ conversations, (s.sweepExpiredMessages now).2 = { s with conversations := conversations } :=
  sweepContacts_frame now _ s

/-- Sending changes the session of the contact, or nothing. -/
theorem sendContent_frame (D : DartConvert) (s : AppState P) (contactId : Bytes32)
    (content : MessageContent) (eph : P.Secret) :
    (s.sendContent D contactId content eph).2 = s ∨
      ∃ session plaintext, s.sessions.get? contactId = some session ∧
        content.encode D = some plaintext ∧
        (s.sendContent D contactId content eph).2 =
          { s with sessions := s.sessions.set contactId (session.encrypt plaintext).2 } := by
  unfold sendContent
  split
  · rename_i session contact hsession _
    split
    · exact Or.inl rfl
    · rename_i plaintext hplaintext
      right
      refine ⟨session, plaintext, hsession, hplaintext, ?_⟩
      split <;> rename_i henc <;> rw [henc]
  · exact Or.inl rfl

theorem Keyed.set {s s' : AppState P} (h : s.Keyed) {k : Bytes32} {c : Contact}
    (hs : s'.contacts = s.contacts.set k c) (hc : c.identity = k) : s'.Keyed := by
  intro k' c' hget
  rw [hs, LinkedMap.get?_set] at hget
  split at hget
  · cases hget
    rw [hc]
    symm
    assumption
  · exact h k' c' hget

theorem Keyed.putIfAbsent {s s' : AppState P} (h : s.Keyed) {k : Bytes32} {c : Contact}
    (hs : s'.contacts = s.contacts.putIfAbsent k c) (hc : c.identity = k) : s'.Keyed := by
  intro k' c' hget
  rw [hs, LinkedMap.get?_putIfAbsent] at hget
  split at hget
  · rename_i hk
    subst hk
    cases hold : s.contacts.get? k' with
    | none =>
      rw [hold] at hget
      cases hget
      exact hc
    | some old =>
      rw [hold] at hget
      cases hget
      exact h k' old hold
  · exact h k' c' hget

theorem Keyed.congr {s s' : AppState P} (h : s.Keyed) (hs : s'.contacts = s.contacts) :
    s'.Keyed := by
  unfold Keyed
  rw [hs]
  exact h

theorem Keyed.sweepExpiredMessages {s : AppState P} (h : s.Keyed) (now : DateTime) :
    (s.sweepExpiredMessages now).2.Keyed := by
  obtain ⟨conversations, hframe⟩ := sweepExpiredMessages_frame now s
  exact h.congr (by rw [hframe])

theorem Keyed.sendContent {s : AppState P} (h : s.Keyed) (D : DartConvert) (contactId : Bytes32)
    (content : MessageContent) (eph : P.Secret) :
    (s.sendContent D contactId content eph).2.Keyed := by
  apply h.congr
  rcases sendContent_frame D s contactId content eph with hs | ⟨_, _, _, _, hs⟩ <;> rw [hs]

theorem Keyed.maybeReplenishPrekeys {s : AppState P} (h : s.Keyed) (draws : Nat → P.Secret) :
    (s.maybeReplenishPrekeys draws).Keyed := by
  unfold AppState.maybeReplenishPrekeys
  dsimp only
  split
  · exact h
  · exact h

theorem Keyed.addContact {s : AppState P} (h : s.Keyed) (identity : Bytes32) (displayName : Text)
    (fetched : Option Bytes) (rnd : Session.InitiateRandom P) :
    (s.addContact identity displayName fetched rnd).2.Keyed := by
  unfold AppState.addContact
  split
  · exact h
  · split
    · exact h
    · split
      · exact h
      · split
        · exact h
        · exact h.set rfl rfl

theorem Keyed.receive {s : AppState P} (h : s.Keyed) (opened : OpenedEnvelope) (fresh : P.Secret)
    (draws : Nat → P.Secret) : (s.receive opened fresh draws).2.Keyed := by
  unfold AppState.receive
  dsimp only
  split
  · exact h
  · split
    · exact h.congr rfl
    · split
      · exact h.congr rfl
      · apply Keyed.maybeReplenishPrekeys
        exact h.putIfAbsent rfl rfl

theorem Keyed.showContent {s : AppState P} (h : s.Keyed) (senderKey : Bytes32)
    (content : MessageContent) (now : DateTime) :
    (s.showContent senderKey content now).2.Keyed := by
  cases content with
  | text body => exact h.congr rfl
  | timerUpdate seconds =>
    simp only [AppState.showContent]
    cases hcontact : s.contacts.get? senderKey with
    | none => exact h
    | some contact =>
      have hid : contact.identity = senderKey := h _ _ hcontact
      have hswept (s1 : AppState P) (hs1 : s1.contacts =
          s.contacts.set senderKey { contact with retentionSeconds := seconds }) :
          (s1.sweepExpiredMessages now).2.Keyed := (h.set hs1 hid).sweepExpiredMessages now
      dsimp only
      split
      · rename_i hsweep
        rw [← congrArg Prod.snd hsweep]
        exact hswept _ rfl
      · rename_i hsweep
        rw [← congrArg Prod.snd hsweep]
        exact hswept _ rfl
  | unknown => exact h

theorem Keyed.handleIncoming {s : AppState P} (h : s.Keyed) (D : DartConvert) (raw : Bytes)
    (fresh : P.Secret) (draws : Nat → P.Secret) (now : DateTime) :
    (s.handleIncoming D raw fresh draws now).2.Keyed := by
  unfold AppState.handleIncoming
  split
  · exact h
  · rename_i opened _
    have hrecv := h.receive opened fresh draws
    split
    · rename_i hres
      rw [hres] at hrecv
      exact hrecv
    · rename_i hres
      rw [hres] at hrecv
      exact hrecv.showContent _ _ _

end AppState

namespace Device

/-- Restored contacts are keyed, whatever storage holds. -/
theorem keyed_restore (disk : Disk P) : (restore disk).Keyed := by
  have hfold : ∀ (l : List Contact) (s : AppState P), s.Keyed →
      (l.foldl (restoreContact disk) s).Keyed := by
    intro l
    induction l with
    | nil => exact fun s h => h
    | cons contact rest ih => exact fun s h => ih _ (h.set rfl rfl)
  exact hfold _ _ fun k c h => by cases h

theorem keyed_resume {d : Device P} (h : d.app.Keyed) (D : DartConvert) (eph : P.Secret)
    (now : DateTime) (after : After) : (d.resume D eph now after).2.app.Keyed := by
  cases after with
  | done => exact h
  | persistContacts => exact h
  | retain contactId seconds =>
    simp only [resume]
    split
    · rw [app_sendContent]
      exact h.sendContent _ _ _ _
    · rw [app_sweep]
      exact h.sweepExpiredMessages now
  | sent contactId sending =>
    cases sending with
    | message text =>
      simp only [resume]
      split
      · exact h
      · exact h.congr rfl
    | timer seconds =>
      simp only [resume, app_sweep, app_appendInfo]
      have hinfo : (d.app.append contactId ⟨.info, utf16 ("You set disappearing messages to " ++
          retentionLabel seconds ++ "."), now⟩).Keyed := h.congr rfl
      exact hinfo.sweepExpiredMessages now
  | publish => exact h

theorem keyed_step {d : Device P} (h : d.app.Keyed) (D : DartConvert) (act : Act P) :
    (d.step D act).2.app.Keyed := by
  cases act with
  | addContact identity displayName fetched rnd =>
    have hadd := h.addContact identity displayName fetched rnd
    simp only [step]
    split
    · rename_i hres
      rw [hres] at hadd
      exact hadd
    · rename_i hres
      rw [hres] at hadd
      rw [app_persistSession]
      exact hadd
  | sendMessage contactId text eph =>
    simp only [step, app_sendContent]
    exact h.sendContent _ _ _ _
  | setRetention contactId seconds =>
    simp only [step]
    split
    · exact h
    · rename_i contact hcontact
      have hid : contact.identity = contactId := h _ _ hcontact
      exact h.set (k := contactId) rfl hid
  | markVerified contactId =>
    simp only [step]
    split
    · exact h
    · rename_i contact hcontact
      have hid : contact.identity = contactId := h _ _ hcontact
      exact h.set (k := contactId) rfl hid
  | incoming raw fresh draws now =>
    simp only [step, app_incoming]
    exact h.handleIncoming _ _ _ _ _
  | sweep now =>
    simp only [step, app_sweep]
    exact h.sweepExpiredMessages now
  | written i eph now =>
    simp only [step]
    split
    · exact h
    · apply keyed_resume
      exact h
  | answered i ok =>
    simp only [step]
    split
    · exact h
    · split
      · rw [app_persistSession]
        exact h
      · exact h
  | published i ok draws =>
    simp only [step]
    split
    · exact h
    · split
      · split
        · rw [app_maybeReplenishPrekeys]
          exact h.maybeReplenishPrekeys draws
        · exact h
      · exact h.congr rfl
  | startTransport => exact h
  | restart now =>
    have hsweep := (keyed_restore d.disk).sweepExpiredMessages now
    simp only [step, restart]
    split
    · simp only [publishBundle, app_sweep]
      exact hsweep
    · rw [app_sweep]
      exact hsweep

theorem keyed_run {d : Device P} (h : d.app.Keyed) (D : DartConvert) (acts : List (Act P)) :
    (d.run D acts).2.app.Keyed := by
  induction acts generalizing d with
  | nil => exact h
  | cons act acts ih => exact ih (keyed_step h D act)

theorem keyed_start (account : Account P) : (start account).app.Keyed := fun k c h => by cases h

end Device

end Clarity
