/-
  Clarity/Http.lean
  =================
  **The relay's HTTP front-end** (`handle` and its handlers in `relay/src/server.rs`, the
  messages of `relay/src/protocol.rs`) over the file-backed store.

  Three formats lie on top of each other here: a bundle is `bincode`, its bytes are base64,
  the text is a JSON field.  `serde_json` is a `JsonCodec` for each message.

    * `handle_spec` — whatever a request says, it is answered with one of four statuses;
      it acts on the store as one operation of the store, and with any status but 200 it
      does not act on it.
-/
import Clarity.Canonical
import Clarity.Json
import Clarity.QueryString
import Clarity.SnapshotFile

namespace Clarity

/-! ## 1. The messages -/

namespace Protocol

structure OneTimePrekey where
  id : UInt32
  publicKey : String

structure PublishRequest where
  bundle : String
  oneTime : List OneTimePrekey

structure BundleResponse where
  bundle : String

structure SendRequest where
  recipient : String
  message : String

structure PollResponse where
  messages : List String

/-- Base64 text. -/
def IsBase64 (s : String) : Prop := ∀ c ∈ s.toList, c ∈ Base64.alphabet

end Protocol

open Protocol

/-- `serde_json` on the four messages; base64 needs no escapes. -/
structure RelayJson where
  publishRequest : JsonCodec PublishRequest
  sendRequest : JsonCodec Protocol.SendRequest
  bundleResponse : JsonCodec BundleResponse
  pollResponse : JsonCodec PollResponse
  publish_plain : ∀ {r : PublishRequest}, IsBase64 r.bundle →
    (∀ k ∈ r.oneTime, IsBase64 k.publicKey) → publishRequest.Plain r
  send_plain : ∀ {r : Protocol.SendRequest}, IsBase64 r.recipient → IsBase64 r.message →
    sendRequest.Plain r
  bundle_plain : ∀ {r : BundleResponse}, IsBase64 r.bundle → bundleResponse.Plain r
  poll_plain : ∀ {r : PollResponse}, (∀ m ∈ r.messages, IsBase64 m) → pollResponse.Plain r

namespace Http

/-! ## 2. Compact JSON -/

/-- `{"id":5,"public":"..."}`. -/
def oneTimeCodec : Codec OneTimePrekey :=
  ((Codec.number.pair (Codec.quoted.between (ascii "\"public\":") (ascii "\x7d"))).between
    (ascii "\x7b\"id\":") []).imap (fun k => (k.id, k.publicKey)) (fun p => some ⟨p.1, p.2⟩)
    (fun _ => rfl)
    (by
      intro p k h
      obtain rfl := Option.some.inj h
      rfl)

theorem isBase64_quoted {s : String} (h : IsBase64 s) : Codec.quoted.Valid s := by
  have hall : (Base64.alphabet.all Codec.plainChar) = true := by decide
  exact Codec.quoted_valid.mpr fun c hc => List.all_eq_true.mp hall c (h c hc)

/-- `{"bundle":"...","one_time":[...]}`. -/
def publishCodec : Codec PublishRequest :=
  ((Codec.quoted.between (ascii "\x7b\"bundle\":") (ascii ",\"one_time\":")).pair
    ((oneTimeCodec.bracketed 123 (by decide) fun _ => rfl).between [] (ascii "\x7d"))).imap
    (fun r => (r.bundle, r.oneTime)) (fun p => some ⟨p.1, p.2⟩) (fun _ => rfl)
    (by
      intro p r h
      obtain rfl := Option.some.inj h
      rfl)

/-- `{"message":"...","recipient":"..."}`: a `Value` has its fields in alphabetical order. -/
def sendCodec : Codec Protocol.SendRequest :=
  ((Codec.quoted.between (ascii "\x7b\"message\":") (ascii ",\"recipient\":")).pair
    (Codec.quoted.between [] (ascii "\x7d"))).imap
    (fun r => (r.message, r.recipient)) (fun p => some ⟨p.2, p.1⟩) (fun _ => rfl)
    (by
      intro p r h
      obtain rfl := Option.some.inj h
      rfl)

def bundleCodec : Codec BundleResponse :=
  (Codec.quoted.between (ascii "\x7b\"bundle\":") (ascii "\x7d")).imap
    (fun r => r.bundle) (fun p => some ⟨p⟩) (fun _ => rfl)
    (by
      intro p r h
      obtain rfl := Option.some.inj h
      rfl)

def pollCodec : Codec PollResponse :=
  ((Codec.quoted.bracketed 34 (by decide) fun _ => rfl).between (ascii "\x7b\"messages\":")
    (ascii "\x7d")).imap
    (fun r => r.messages) (fun p => some ⟨p⟩) (fun _ => rfl)
    (by
      intro p r h
      obtain rfl := Option.some.inj h
      rfl)

/-- The texts that `serde_json` writes. -/
def compactJson : RelayJson where
  publishRequest := publishCodec.json
  sendRequest := sendCodec.json
  bundleResponse := bundleCodec.json
  pollResponse := pollCodec.json
  publish_plain := by
    intro r hbundle hkeys
    refine ⟨Codec.between_valid.mpr (isBase64_quoted hbundle), Codec.between_valid.mpr ?_⟩
    intro k hk
    exact Codec.between_valid.mpr
      ⟨trivial, Codec.between_valid.mpr (isBase64_quoted (hkeys k hk))⟩
  send_plain := fun hrecipient hmessage =>
    ⟨Codec.between_valid.mpr (isBase64_quoted hmessage),
      Codec.between_valid.mpr (isBase64_quoted hrecipient)⟩
  bundle_plain := fun hbundle => Codec.between_valid.mpr (isBase64_quoted hbundle)
  poll_plain := fun hmessages =>
    Codec.between_valid.mpr fun m hm => isBase64_quoted (hmessages m hm)

example : compactJson.sendRequest.write ⟨"AA==", "/w=="⟩ =
    ascii "\x7b\"message\":\"/w==\",\"recipient\":\"AA==\"\x7d" := by decide

/-! ## 3. Requests and responses -/

inductive Method where
  | get
  | post
  | other
deriving DecidableEq

/-- A request: its method, its URL without the origin, its body. -/
structure Request where
  method : Method
  url : Bytes
  body : Bytes

structure Response where
  status : Nat
  body : Bytes

/-- `url.split_once('?')`; the query is empty where there is no `?`. -/
def splitUrl (url : Bytes) : Bytes × Bytes :=
  (url.takeWhile (· ≠ 63), (url.dropWhile (· ≠ 63)).drop 1)

inductive Endpoint where
  | health
  | publish
  | bundle
  | send
  | poll
deriving DecidableEq

/-- The `match` of `handle` on the method and the path. -/
def endpoint (method : Method) (path : Bytes) : Option Endpoint :=
  if method = .get ∧ path = ascii "/health" then some .health
  else if method = .post ∧ path = ascii "/publish" then some .publish
  else if method = .get ∧ path = ascii "/bundle" then some .bundle
  else if method = .post ∧ path = ascii "/send" then some .send
  else if method = .get ∧ path = ascii "/poll" then some .poll
  else none

def respondText (status : Nat) (text : String) : Response := ⟨status, text.toUTF8.toList⟩

def respondJson {α : Type} (c : JsonCodec α) (status : Nat) (body : α) : Response :=
  ⟨status, c.write body⟩

def respondError (e : RequestError) : Response := respondText e.status e.message

/-- `read_json`: at most `MAX_BODY_BYTES` of the body are looked at. -/
def readJson {α : Type} (c : JsonCodec α) (body : Bytes) : Except RequestError α :=
  match c.read (body.take MAX_BODY_BYTES) with
  | .ok a => .ok a
  | .error message => .error (.bad message)

end Http

/-- `Display` of an error. -/
def Error.display : Error → String
  | .badSignature => "signature verification failed"
  | .malformedKey => "malformed key or ciphertext"
  | .decrypt => "decryption failed"
  | .unknownPrekey => "unknown prekey id"
  | .wire message => "wire encoding error: " ++ message
  | .unexpectedMessage => "unexpected message for session state"

/-! ## 4. The handlers -/

namespace Http

open FileStore

variable (json : RelayJson) (engine : Base64Engine) (store : FileStore)

/-- The loop over the one-time prekeys of a publish. -/
def decodeOneTime : List OneTimePrekey → Except RequestError (List (UInt32 × Bytes32))
  | [] => .ok []
  | otp :: rest =>
    match unb64KeyText engine otp.publicKey with
    | .error message => .error (.bad message)
    | .ok key => (decodeOneTime rest).map fun keys => (otp.id, key) :: keys

def handlePublish (body : Bytes) : Except RequestError FileStore := do
  let req ← readJson json.publishRequest body
  match engine.decode req.bundle with
  | .error message => .error (.bad message)
  | .ok bundleBytes =>
    match PreKeyBundle.decode bundleBytes with
    | .error e => .error (.bad e.display)
    | .ok bundle => (decodeOneTime engine req.oneTime).map (store.publish bundle)

def handleBundle (query : Bytes) : Except Panic (Response × FileStore) :=
  (queryKey engine query (ascii "identity")).map fun identity =>
    match identity with
    | none => (respondText 400 "missing identity", store)
    | some identity =>
      match store.fetchBundle identity with
      | (some bundle, store) =>
        (respondJson json.bundleResponse 200 ⟨engine.encode bundle.encode⟩, store)
      | (none, store) => (respondText 404 "unknown identity", store)

def handleSend (body : Bytes) (now : UInt64) : Except RequestError Unit × FileStore :=
  match readJson json.sendRequest body with
  | .error e => (.error e, store)
  | .ok req =>
    match unb64KeyText engine req.recipient with
    | .error message => (.error (.bad message), store)
    | .ok recipient =>
      match engine.decode req.message with
      | .error message => (.error (.bad message), store)
      | .ok message =>
        match store.enqueueAt recipient message now with
        | (.error .messageTooLarge, store) => (.error ⟨413, "message too large"⟩, store)
        | (.ok (), store) => (.ok (), store)

def handlePoll (query : Bytes) (now : UInt64) : Except Panic (Response × FileStore) :=
  (queryKey engine query (ascii "recipient")).map fun recipient =>
    match recipient with
    | none => (respondText 400 "missing recipient", store)
    | some recipient =>
      let polled := store.pollAt recipient now
      (respondJson json.pollResponse 200 ⟨polled.1.map engine.encode⟩, polled.2)

def handle (now : UInt64) (request : Request) : Except Panic (Response × FileStore) :=
  let (path, query) := splitUrl request.url
  match endpoint request.method path with
  | some .health => .ok (respondText 200 "ok", store)
  | some .publish =>
    match handlePublish json engine store request.body with
    | .ok store => .ok (respondText 200 "ok", store)
    | .error e => .ok (respondError e, store)
  | some .bundle => handleBundle json engine store query
  | some .send =>
    match handleSend json engine store request.body now with
    | (.ok (), store) => .ok (respondText 200 "ok", store)
    | (.error e, store) => .ok (respondError e, store)
  | some .poll => handlePoll json engine store query now
  | none => .ok (respondText 404 "not found", store)

end Http

/-- What an operation makes of the store. -/
def RelayOp.onStore (s : FileStore) : RelayOp → FileStore
  | .publish baseBundle oneTime => s.publish baseBundle oneTime
  | .fetchBundle identity => (s.fetchBundle identity).2
  | .enqueueAt recipient message now => (s.enqueueAt recipient message now).2
  | .pollAt recipient now => (s.pollAt recipient now).2
  | .sweepExpiredAt now => (s.sweepExpiredAt now).2
  | .maybeFlush elapsed writes => s.maybeFlush elapsed writes
  | .kill limits => s.reopen limits

theorem Relay.store_step (w : Relay) (op : RelayOp) : (w.step op).store = op.onStore w.store := by
  cases op with
  | enqueueAt recipient message now =>
    simp only [Relay.step, RelayOp.onStore]
    split <;> rfl
  | maybeFlush elapsed writes =>
    simp only [Relay.step, RelayOp.onStore]
    split <;> rfl
  | publish | fetchBundle | pollAt | sweepExpiredAt | kill => rfl

namespace Http

/-! ## 5. What a request can do -/

theorem isCharBoundary_of_ascii {s : Bytes} (h : ∀ b ∈ s, b < 128) {i : Nat} (hi : i ≤ s.length) :
    isCharBoundary s i = true := by
  unfold isCharBoundary
  rcases Nat.lt_or_eq_of_le hi with hlt | rfl
  · rw [List.getElem?_eq_getElem hlt]
    have hb : s[i] < 128 := h _ (List.getElem_mem hlt)
    simp [hb]
  · simp

/-- On an ASCII text the decoder cannot cut a character in two. -/
theorem urlDecodeFrom_ok {s : Bytes} (h : ∀ b ∈ s, b < 128) (i : Nat) (out : String) :
    ∃ text, urlDecodeFrom s i out = .ok text := by
  induction i, out using urlDecodeFrom.induct s with
  | case1 i out hlt hescape hboundary byte hbyte ih =>
    rw [urlDecodeFrom, dif_pos hlt, if_pos hescape, if_pos hboundary, hbyte]
    exact ih
  | case2 i out hlt hescape hboundary hbyte ih =>
    rw [urlDecodeFrom, dif_pos hlt, if_pos hescape, if_pos hboundary, hbyte]
    exact ih
  | case3 i out hlt hescape hboundary =>
    refine absurd ?_ hboundary
    rw [isCharBoundary_of_ascii h (by omega), isCharBoundary_of_ascii h (by omega)]
    rfl
  | case4 i out hlt hescape hplus ih =>
    rw [urlDecodeFrom, dif_pos hlt, if_neg hescape, if_pos hplus]
    exact ih
  | case5 i out hlt hescape hplus ih =>
    rw [urlDecodeFrom, dif_pos hlt, if_neg hescape, if_neg hplus]
    exact ih
  | case6 i out hlt =>
    rw [urlDecodeFrom, dif_neg hlt]
    exact ⟨out, rfl⟩

theorem subset_intercalate (sep : Bytes) {parts : List Bytes} {part : Bytes} (h : part ∈ parts) :
    part ⊆ sep.intercalate parts := by
  induction parts with
  | nil => cases h
  | cons first rest ih =>
    cases rest with
    | nil =>
      obtain rfl := List.mem_singleton.mp h
      rw [List.intercalate_singleton]
      exact List.Subset.refl _
    | cons second rest =>
      rw [List.intercalate_cons_cons]
      rcases List.mem_cons.mp h with rfl | h
      · exact fun b hb => List.mem_append_left _ (List.mem_append_left _ hb)
      · exact fun b hb => List.mem_append_right _ (ih h hb)

theorem splitPair_subset {pair value : Bytes} (h : (splitPair pair).2 = some value) :
    value ⊆ pair := by
  intro b hb
  unfold splitPair at h
  split at h
  · cases h
  · rename_i equals rest hdrop
    obtain rfl := Option.some.inj h
    have hmem : b ∈ pair.dropWhile (· ≠ 61) := by
      rw [hdrop]
      exact List.mem_cons_of_mem _ hb
    exact (List.dropWhile_sublist _).subset hmem

theorem findParam_ok {pairs : List Bytes} (h : ∀ pair ∈ pairs, ∀ b ∈ pair, b < 128) (key : Bytes) :
    ∃ found, findParam key pairs = .ok found := by
  induction pairs with
  | nil => exact ⟨none, rfl⟩
  | cons pair rest ih =>
    obtain ⟨hpair, hrest⟩ := List.forall_mem_cons.mp h
    rw [findParam]
    split
    · have hvalue : ∀ b ∈ (splitPair pair).2.getD [], b < 128 := by
        cases hsplit : (splitPair pair).2 with
        | none =>
          intro b hb
          cases hb
        | some value => exact fun b hb => hpair b (splitPair_subset hsplit hb)
      obtain ⟨text, htext⟩ := urlDecodeFrom_ok hvalue 0 ""
      rw [urlDecode, htext]
      exact ⟨some text, rfl⟩
    · exact ih hrest

theorem queryKey_ok (engine : Base64Engine) {query : Bytes} (h : ∀ b ∈ query, b < 128)
    (name : Bytes) : ∃ key, queryKey engine query name = .ok key := by
  have hpairs : ∀ pair ∈ query.splitOn 38, ∀ b ∈ pair, b < 128 := by
    intro pair hpair b hb
    have hsub := subset_intercalate [38] hpair hb
    rw [List.intercalate_splitOn] at hsub
    exact h b hsub
  obtain ⟨found, hfound⟩ := findParam_ok hpairs name
  rw [queryKey, queryParam, hfound]
  exact ⟨_, rfl⟩

/-- The operations that a request can ask for; what was decoded fits its format. -/
def Asked : RelayOp → Prop
  | .publish baseBundle _ => baseBundle.Fits
  | .fetchBundle .. | .enqueueAt .. | .pollAt .. => True
  | .sweepExpiredAt .. | .maybeFlush .. | .kill .. => False

/-- What an answer says about the store: it acted as an operation, or not at all. -/
inductive Acts (store : FileStore) : Response × FileStore → Prop where
  | did {response : Response} (op : RelayOp) : response.status = 200 → Asked op →
      Acts store (response, op.onStore store)
  | kept {response : Response} : response.status ∈ [200, 400, 404, 413] →
      Acts store (response, store)

variable {json : RelayJson} {engine : Base64Engine} {store : FileStore}

theorem readJson_error {α : Type} {c : JsonCodec α} {body : Bytes} {e : RequestError}
    (h : readJson c body = .error e) : e.status = 400 := by
  unfold readJson at h
  split at h
  · cases h
  · obtain rfl := Except.error.inj h
    rfl

theorem fits_of_decode {bytes : Bytes} {bundle : PreKeyBundle}
    (h : PreKeyBundle.decode bytes = .ok bundle) : bundle.Fits := by
  unfold PreKeyBundle.decode at h
  split at h
  · rename_i b rest hdec
    obtain rfl := Except.ok.inj h
    exact (PreKeyBundle.codec_valid_iff b).mp (PreKeyBundle.codec.enc_of_dec hdec).1
  · cases h

theorem decodeOneTime_error {l : List OneTimePrekey} {e : RequestError}
    (h : decodeOneTime engine l = .error e) : e.status = 400 := by
  induction l with
  | nil => cases h
  | cons otp rest ih =>
    rw [decodeOneTime] at h
    split at h
    · obtain rfl := Except.error.inj h
      rfl
    · cases hrest : decodeOneTime engine rest with
      | error e' =>
        rw [hrest] at h
        obtain rfl := Except.error.inj h
        exact ih hrest
      | ok keys =>
        rw [hrest] at h
        cases h

variable (json engine store)

theorem handlePublish_cases (body : Bytes) :
    (∃ bundle oneTime, bundle.Fits ∧
      handlePublish json engine store body = .ok (store.publish bundle oneTime)) ∨
      ∃ e, handlePublish json engine store body = .error e ∧ e.status = 400 := by
  unfold handlePublish
  cases hreq : readJson json.publishRequest body with
  | error e => exact .inr ⟨e, rfl, readJson_error hreq⟩
  | ok req =>
    simp only [bind, Except.bind]
    cases engine.decode req.bundle with
    | error message => exact .inr ⟨_, rfl, rfl⟩
    | ok bundleBytes =>
      simp only
      cases hbundle : PreKeyBundle.decode bundleBytes with
      | error e => exact .inr ⟨_, rfl, rfl⟩
      | ok bundle =>
        simp only
        cases hkeys : decodeOneTime engine req.oneTime with
        | error e => exact .inr ⟨e, rfl, decodeOneTime_error hkeys⟩
        | ok oneTime => exact .inl ⟨bundle, oneTime, fits_of_decode hbundle, rfl⟩

variable {store}

theorem fetchBundle_none {identity : Bytes32} (h : (store.fetchBundle identity).1 = none) :
    (store.fetchBundle identity).2 = store := by
  have hget : store.keys[identity]? = none := by
    cases hget : store.keys[identity]? with
    | none => rfl
    | some stored =>
      cases hpool : stored.oneTime <;>
        simp [FileStore.fetchBundle, Directory.fetchBundle, hget, hpool] at h
  simp [FileStore.fetchBundle, Directory.fetchBundle, hget]

theorem enqueueAt_error {recipient : Bytes32} {message : Bytes} {now : UInt64} {e : StoreError}
    (h : (store.enqueueAt recipient message now).1 = .error e) :
    (store.enqueueAt recipient message now).2 = store := by
  have hmail : store.mail.enqueueAt recipient message now = (.error e, store.mail) := by
    unfold FileStore.enqueueAt RelayStore.enqueueAt at *
    split
    · cases e
      rfl
    · rename_i hlarge
      simp [hlarge] at h
  simp [FileStore.enqueueAt, hmail, Except.isOk, Except.toBool]

variable (store)

theorem handleSend_cases (body : Bytes) (now : UInt64) :
    (∃ recipient message, handleSend json engine store body now =
      (.ok (), (store.enqueueAt recipient message now).2)) ∨
    ∃ e, handleSend json engine store body now = (.error e, store) ∧ e.status ∈ [400, 413] := by
  unfold handleSend
  cases hreq : readJson json.sendRequest body with
  | error e =>
    refine .inr ⟨e, rfl, ?_⟩
    rw [readJson_error hreq]
    exact List.mem_cons_self
  | ok req =>
    simp only
    cases unb64KeyText engine req.recipient with
    | error message => exact .inr ⟨_, rfl, List.mem_cons_self⟩
    | ok recipient =>
      simp only
      cases engine.decode req.message with
      | error message => exact .inr ⟨_, rfl, List.mem_cons_self⟩
      | ok message =>
        simp only
        rcases hqueued : store.enqueueAt recipient message now with ⟨⟨⟩ | ⟨⟨⟩⟩, after⟩
        · have hkept := enqueueAt_error (congrArg Prod.fst hqueued)
          rw [hqueued] at hkept
          obtain rfl : after = store := hkept
          exact .inr ⟨_, rfl, List.mem_cons_of_mem _ List.mem_cons_self⟩
        · refine .inl ⟨recipient, message, ?_⟩
          rw [hqueued]

variable {json engine store}

theorem handleBundle_acts {query : Bytes} (h : ∀ b ∈ query, b < 128) :
    ∃ result, handleBundle json engine store query = .ok result ∧ Acts store result := by
  obtain ⟨key, hkey⟩ := queryKey_ok engine h (ascii "identity")
  refine ⟨_, by rw [handleBundle, hkey]; rfl, ?_⟩
  cases key with
  | none => exact .kept (by decide)
  | some identity =>
    simp only
    rcases hfetch : store.fetchBundle identity with ⟨_ | bundle, after⟩
    · have hkept := fetchBundle_none (congrArg Prod.fst hfetch)
      rw [hfetch] at hkept
      obtain rfl : after = store := hkept
      exact .kept (by decide)
    · have hafter : after = (RelayOp.fetchBundle identity).onStore store :=
        (congrArg Prod.snd hfetch).symm
      rw [hafter]
      exact .did _ rfl trivial

theorem handlePoll_acts {query : Bytes} (h : ∀ b ∈ query, b < 128) (now : UInt64) :
    ∃ result, handlePoll json engine store query now = .ok result ∧ Acts store result := by
  obtain ⟨key, hkey⟩ := queryKey_ok engine h (ascii "recipient")
  refine ⟨_, by rw [handlePoll, hkey]; rfl, ?_⟩
  cases key with
  | none => exact .kept (by decide)
  | some recipient => exact .did (.pollAt recipient now) rfl trivial

/-- What is answered to a poll is the mail store's answer, in JSON. -/
theorem handlePoll_mail (query : Bytes) (now : UInt64) :
    (handlePoll json engine store query now).map (fun r => (r.1, r.2.mail)) =
      (Clarity.handlePoll engine store.mail query now).map fun r =>
        (match r.1 with
          | .ok messages => respondJson json.pollResponse 200 ⟨messages⟩
          | .error e => respondError e, r.2) := by
  unfold handlePoll Clarity.handlePoll
  rcases queryKey engine query (ascii "recipient") with panic | ⟨_ | recipient⟩ <;> rfl

/-- What is answered to a fetch is the directory's answer, in JSON. -/
theorem handleBundle_keys (query : Bytes) :
    (handleBundle json engine store query).map (fun r => (r.1, r.2.keys)) =
      (Clarity.handleBundle engine store.keys query).map fun r =>
        (match r.1 with
          | .ok bundle => respondJson json.bundleResponse 200 ⟨bundle⟩
          | .error e => respondError e, r.2) := by
  unfold handleBundle Clarity.handleBundle
  rcases queryKey engine query (ascii "identity") with panic | ⟨_ | identity⟩
  · rfl
  · rfl
  · simp only [Except.map, bind, Except.bind, pure, Except.pure, FileStore.fetchBundle]
    rcases store.keys.fetchBundle identity with ⟨_ | bundle, keys⟩ <;> rfl

/-- **Whatever a request says**, the handler answers it, and it acts on the store as one
    operation or not at all. -/
theorem handle_spec (json : RelayJson) (engine : Base64Engine) (store : FileStore) (now : UInt64)
    {request : Request} (h : ∀ b ∈ request.url, b < 128) :
    ∃ result, handle json engine store now request = .ok result ∧ Acts store result := by
  have hquery : ∀ b ∈ (splitUrl request.url).2, b < 128 := by
    intro b hb
    exact h b ((List.dropWhile_sublist _).subset (List.mem_of_mem_drop hb))
  unfold handle
  cases hendpoint : endpoint request.method (splitUrl request.url).1 with
  | none =>
    simp only [hendpoint]
    exact ⟨_, rfl, .kept (by decide)⟩
  | some e =>
    cases e with
    | health =>
      simp only [hendpoint]
      exact ⟨_, rfl, .kept (by decide)⟩
    | publish =>
      rcases handlePublish_cases json engine store request.body with
        ⟨bundle, oneTime, hfits, hok⟩ | ⟨e, herror, hstatus⟩
      · simp only [hendpoint, hok]
        exact ⟨_, rfl, .did (.publish bundle oneTime) rfl hfits⟩
      · simp only [hendpoint, herror]
        refine ⟨_, rfl, .kept ?_⟩
        show e.status ∈ _
        rw [hstatus]
        decide
    | bundle =>
      simp only [hendpoint]
      exact handleBundle_acts hquery
    | send =>
      rcases handleSend_cases json engine store request.body now with ⟨recipient, message, hok⟩ | ⟨e, herror, hstatus⟩
      · simp only [hendpoint, hok]
        exact ⟨_, rfl, .did (.enqueueAt recipient message now) rfl trivial⟩
      · simp only [hendpoint, herror]
        refine ⟨_, rfl, .kept ?_⟩
        show e.status ∈ _
        rcases List.mem_pair.mp hstatus with hs | hs <;> rw [hs] <;> decide
    | poll =>
      simp only [hendpoint]
      exact handlePoll_acts hquery now

end Http

end Clarity
