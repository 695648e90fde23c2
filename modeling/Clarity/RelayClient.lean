/-
  Clarity/RelayClient.lean
  ========================
  **The relay's client over HTTP** (`net/src/lib.rs`): what `RelayTransport` sends for each
  of its calls, what the relay makes of it, and what the client makes of the answer.

  The HTTP agent is not the repository's; `Agent` is what the client relies on.  Between
  two calls of one client, anyone may send the relay any request.

    * `http_is_direct` — calls over HTTP are calls of the store: the same results, the same
      store after them, whatever is lost on the way and whoever else is served.
-/
import Clarity.Http
import Mathlib.Data.List.DropRight

namespace Clarity.Http

open Protocol

/-! ## 1. The client -/

/-- How a request can fail: no answer, or one with a status from 400 on. -/
inductive AgentError where
  | transport (reason : String)
  | status (code : Nat)
deriving DecidableEq

/-- `clarity_net::NetError`, without `Config`, which no call returns; of an agent's error
    the source keeps the text. -/
inductive NetError where
  | http (e : AgentError)
  | decode (message : String)
  | io (message : String)

/-- What the client relies on in its HTTP agent: `query` escapes what it has to. -/
structure Agent where
  escape : String → Bytes
  escape_encodes : ∀ {s : String}, IsBase64 s → UrlEncodes s.toList (escape s)

/-- `RelayTransport`. -/
structure Transport where
  baseUrl : Bytes
  agent : Agent

/-- One request and its answer, as the agent hands it over, and the relay's store after. -/
abbrev Exchange := Request → Except Panic (Except AgentError Response × FileStore)

namespace Transport

variable (json : RelayJson) (engine : Base64Engine) (t : Transport) (exchange : Exchange)

/-- `self.base_url.trim_end_matches('/')`. -/
def origin : Bytes := t.baseUrl.rdropWhile (· = 47)

def url (path : Bytes) : Bytes := t.origin ++ path

/-- `agent.get(url).query(name, value)`. -/
def get (path name : Bytes) (value : String) : Request :=
  ⟨.get, t.url path ++ 63 :: (name ++ 61 :: t.agent.escape value), []⟩

def unb64 (s : String) : Except NetError Bytes :=
  match engine.decode s with
  | .ok bytes => .ok bytes
  | .error message => .error (.decode message)

/-- The loop that decodes the messages of a poll. -/
def unb64All : List String → Except NetError (List Bytes)
  | [] => .ok []
  | m :: rest =>
    match unb64 engine m with
    | .ok bytes => (unb64All rest).map (bytes :: ·)
    | .error e => .error e

def publishRequest (baseBundle : PreKeyBundle) (oneTime : List (UInt32 × Bytes32)) :
    PublishRequest :=
  ⟨engine.encode baseBundle.encode, oneTime.map fun p => ⟨p.1, engine.encode p.2.bytes⟩⟩

def publish (baseBundle : PreKeyBundle) (oneTime : List (UInt32 × Bytes32)) :
    Except Panic (Except NetError Unit × FileStore) :=
  let req := publishRequest engine baseBundle oneTime
  (exchange ⟨.post, t.url (ascii "/publish"), json.publishRequest.write req⟩).map
    fun (result, store) => match result with
      | .ok _ => (.ok (), store)
      | .error e => (.error (.http e), store)

def readBundle (response : Response) : Except NetError PreKeyBundle :=
  match json.bundleResponse.read response.body with
  | .error message => .error (.io message)
  | .ok body =>
    match unb64 engine body.bundle with
    | .error e => .error e
    | .ok bytes =>
      match PreKeyBundle.decode bytes with
      | .ok bundle => .ok bundle
      | .error e => .error (.decode e.display)

def fetchBundle (identity : Bytes32) :
    Except Panic (Except NetError (Option PreKeyBundle) × FileStore) :=
  (exchange (t.get (ascii "/bundle") (ascii "identity") (engine.encode identity.bytes))).map
    fun (result, store) => match result with
      | .error e => (if e = .status 404 then .ok none else .error (.http e), store)
      | .ok response => ((readBundle json engine response).map some, store)

def sendRequest (recipient : Bytes32) (message : Bytes) : Protocol.SendRequest :=
  ⟨engine.encode recipient.bytes, engine.encode message⟩

def send (recipient : Bytes32) (message : Bytes) : Except Panic (Except NetError Unit × FileStore) :=
  let req := sendRequest engine recipient message
  (exchange ⟨.post, t.url (ascii "/send"), json.sendRequest.write req⟩).map
    fun (result, store) => match result with
      | .ok _ => (.ok (), store)
      | .error e => (.error (.http e), store)

def readMail (response : Response) : Except NetError (List Bytes) :=
  match json.pollResponse.read response.body with
  | .error message => .error (.io message)
  | .ok body => unb64All engine body.messages

def poll (recipient : Bytes32) : Except Panic (Except NetError (List Bytes) × FileStore) :=
  (exchange (t.get (ascii "/poll") (ascii "recipient") (engine.encode recipient.bytes))).map
    fun (result, store) => match result with
      | .error e => (.error (.http e), store)
      | .ok response => (readMail json engine response, store)

end Transport

/-! ## 2. The way to the relay -/

/-- What becomes of one request. -/
inductive Fate where
  | unreachable (reason : String)
  /-- Something on the way answers. -/
  | answered (response : Response)
  /-- It arrives at the relay, whose rate limiter allows it or not; the answer may get lost. -/
  | arrives (allowed : Bool) (now : UInt64) (returns : Bool)

/-- The agent: statuses from 400 on are errors. -/
def judge (response : Response) : Except AgentError Response :=
  if 400 ≤ response.status then .error (.status response.status) else .ok response

/-- The relay's part of the loop of `serve_on_with`: the limiter's answer, or the handler's. -/
def answer (json : RelayJson) (engine : Base64Engine) (store : FileStore) (allowed : Bool)
    (now : UInt64) (request : Request) : Except Panic (Response × FileStore) :=
  if allowed then handle json engine store now request
  else .ok (respondText 429 "rate limited", store)

/-- A request to the relay, which sees what comes after the origin in the URL. -/
def network (json : RelayJson) (engine : Base64Engine) (t : Transport) (store : FileStore) :
    Fate → Exchange
  | .unreachable reason => fun _ => .ok (.error (.transport reason), store)
  | .answered response => fun _ => .ok (judge response, store)
  | .arrives allowed now returns => fun request =>
    (answer json engine store allowed now
      { request with url := request.url.drop t.origin.length }).map
      fun (response, store) =>
        (if returns then judge response else .error (.transport "connection lost"), store)

/-! ## 3. Calls -/

inductive Call where
  | publish (baseBundle : PreKeyBundle) (oneTime : List (UInt32 × Bytes32))
  | fetchBundle (identity : Bytes32)
  | send (recipient : Bytes32) (message : Bytes)
  | poll (recipient : Bytes32)

inductive Reply where
  | published
  | bundle (found : Option PreKeyBundle)
  | sent
  | mail (messages : List Bytes)

namespace Call

variable (json : RelayJson) (engine : Base64Engine) (t : Transport)

def overHttp (exchange : Exchange) : Call → Except Panic (Except NetError Reply × FileStore)
  | .publish baseBundle oneTime =>
    (t.publish json engine exchange baseBundle oneTime).map
      fun (result, store) => (result.map fun _ => .published, store)
  | .fetchBundle identity =>
    (t.fetchBundle json engine exchange identity).map
      fun (result, store) => (result.map .bundle, store)
  | .send recipient message =>
    (t.send json engine exchange recipient message).map
      fun (result, store) => (result.map fun _ => .sent, store)
  | .poll recipient =>
    (t.poll json engine exchange recipient).map fun (result, store) => (result.map .mail, store)

/-- The relay reads the body of the request whole. -/
def Small : Call → Prop
  | .publish baseBundle oneTime =>
    (json.publishRequest.write (Transport.publishRequest engine baseBundle oneTime)).length ≤
      MAX_BODY_BYTES
  | .send recipient message =>
    (json.sendRequest.write (Transport.sendRequest engine recipient message)).length ≤
      MAX_BODY_BYTES
  | .fetchBundle _ | .poll _ => True

instance : (c : Call) → Decidable (c.Small json engine)
  | .publish .. => inferInstanceAs (Decidable (_ ≤ _))
  | .send .. => inferInstanceAs (Decidable (_ ≤ _))
  | .fetchBundle _ | .poll _ => inferInstanceAs (Decidable True)

def refused (status : Nat) : Except NetError Reply := .error (.http (.status status))

/-- The call, on the store itself. -/
def onStore (store : FileStore) (now : UInt64) (c : Call) : Except NetError Reply × FileStore :=
  if c.Small json engine then
    match c with
    | .publish baseBundle oneTime => (.ok .published, store.publish baseBundle oneTime)
    | .fetchBundle identity =>
      (.ok (.bundle (store.fetchBundle identity).1), (store.fetchBundle identity).2)
    | .send recipient message =>
      match store.enqueueAt recipient message now with
      | (.ok (), store) => (.ok .sent, store)
      | (.error .messageTooLarge, store) => (refused 413, store)
    | .poll recipient =>
      (.ok (.mail (store.pollAt recipient now).1), (store.pollAt recipient now).2)
  else (refused 400, store)

/-- What the client makes of an answer. -/
def read : Call → Except AgentError Response → Except NetError Reply
  | .fetchBundle _, .error e =>
    if e = .status 404 then .ok (.bundle none) else .error (.http e)
  | _, .error e => .error (.http e)
  | .publish .., .ok _ => .ok .published
  | .fetchBundle _, .ok response =>
    (Transport.readBundle json engine response).map fun bundle => .bundle (some bundle)
  | .send .., .ok _ => .ok .sent
  | .poll _, .ok response => (Transport.readMail json engine response).map .mail

/-- The call with its fate, on the store itself. -/
def directly (store : FileStore) (c : Call) : Fate → Except NetError Reply × FileStore
  | .unreachable reason => (.error (.http (.transport reason)), store)
  | .answered response => (c.read json engine (judge response), store)
  | .arrives allowed now returns =>
    let served := if allowed then c.onStore json engine store now else (refused 429, store)
    (if returns then served.1 else .error (.http (.transport "connection lost")), served.2)

end Call

/-- What happens at the relay: a call of the client, or a request of anyone else. -/
inductive Happening where
  | call (call : Call) (fate : Fate)
  | other (request : Request) (allowed : Bool) (now : UInt64)

/-- The client's results, and the store after everything; `perform` is how its calls go. -/
def follow (json : RelayJson) (engine : Base64Engine)
    (perform : FileStore → Call → Fate → Except Panic (Except NetError Reply × FileStore)) :
    FileStore → List Happening → Except Panic (List (Except NetError Reply) × FileStore)
  | store, [] => .ok ([], store)
  | store, .call c fate :: rest =>
    match perform store c fate with
    | .error panic => .error panic
    | .ok (result, store) =>
      (follow json engine perform store rest).map
        fun (results, store) => (result :: results, store)
  | store, .other request allowed now :: rest =>
    match answer json engine store allowed now request with
    | .error panic => .error panic
    | .ok (_, store) => follow json engine perform store rest

/-! ## 4. One request -/

section

variable {json : RelayJson} {engine : Base64Engine} {t : Transport} {store : FileStore}

theorem isBase64_encode (engine : Base64Engine) (bytes : Bytes) : IsBase64 (engine.encode bytes) :=
  engine.alphabet bytes

theorem splitUrl_query {path : Bytes} (h : (63 : UInt8) ∉ path) (query : Bytes) :
    splitUrl (path ++ 63 :: query) = (path, query) := by
  have hpath : ∀ b ∈ path, (decide (b ≠ 63)) = true :=
    fun b hb => decide_eq_true fun heq => h (heq ▸ hb)
  rw [splitUrl, List.takeWhile_append_of_pos hpath, List.dropWhile_append_of_pos hpath,
    List.takeWhile_cons_of_neg (by decide), List.append_nil, List.dropWhile_cons_of_neg (by decide)]
  rfl

/-- The query of a client carries the key it is about. -/
theorem carries_get (engine : Base64Engine) (t : Transport) (name : Bytes) (key : Bytes32) :
    Carries engine name key (name ++ 61 :: t.agent.escape (engine.encode key.bytes)) :=
  ⟨[], [], _, by rw [List.nil_append, List.intercalate_singleton], by simp, by simp,
    t.agent.escape_encodes (isBase64_encode engine key.bytes)⟩

theorem readJson_write {α : Type} {c : JsonCodec α} {a : α} (h : c.Plain a)
    (hsmall : (c.write a).length ≤ MAX_BODY_BYTES) : readJson c (c.write a) = .ok a := by
  rw [readJson, List.take_of_length_le hsmall, c.read_write h]

theorem readJson_cut {α : Type} {c : JsonCodec α} {a : α} (h : c.Plain a)
    (hlarge : MAX_BODY_BYTES < (c.write a).length) :
    ∃ e, readJson c (c.write a) = .error e ∧ e.status = 400 := by
  obtain ⟨message, hread⟩ := c.read_cut h hlarge
  exact ⟨.bad message, by rw [readJson, hread], rfl⟩

theorem decodeOneTime_map (engine : Base64Engine) (oneTime : List (UInt32 × Bytes32)) :
    decodeOneTime engine (oneTime.map fun p => ⟨p.1, engine.encode p.2.bytes⟩) = .ok oneTime := by
  induction oneTime with
  | nil => rfl
  | cons p rest ih =>
    rw [List.map_cons, decodeOneTime, unb64KeyText_encode, ih]
    rfl

theorem unb64All_map (engine : Base64Engine) (messages : List Bytes) :
    Transport.unb64All engine (messages.map engine.encode) = .ok messages := by
  induction messages with
  | nil => rfl
  | cons m rest ih =>
    rw [List.map_cons, Transport.unb64All, Transport.unb64, engine.decode_encode, ih]
    rfl

/-- The request of a call. -/
def Call.request (json : RelayJson) (engine : Base64Engine) (t : Transport) : Call → Request
  | .publish baseBundle oneTime => ⟨.post, t.url (ascii "/publish"),
    json.publishRequest.write (Transport.publishRequest engine baseBundle oneTime)⟩
  | .fetchBundle identity =>
    t.get (ascii "/bundle") (ascii "identity") (engine.encode identity.bytes)
  | .send recipient message => ⟨.post, t.url (ascii "/send"),
    json.sendRequest.write (Transport.sendRequest engine recipient message)⟩
  | .poll recipient =>
    t.get (ascii "/poll") (ascii "recipient") (engine.encode recipient.bytes)

/-- Every call is one exchange, and what it makes of the answer. -/
theorem Call.overHttp_eq (exchange : Exchange) (c : Call) :
    c.overHttp json engine t exchange =
      (exchange (c.request json engine t)).map
        fun (result, store) => (c.read json engine result, store) := by
  cases c with
  | publish baseBundle oneTime =>
    simp only [overHttp, Transport.publish, request]
    rcases exchange _ with panic | ⟨e | response, store⟩ <;> rfl
  | fetchBundle identity =>
    simp only [overHttp, Transport.fetchBundle, request]
    rcases exchange _ with panic | ⟨e | response, store⟩
    · rfl
    · simp only [Except.map, read]
      by_cases h : e = .status 404
      · rw [if_pos h, if_pos h]
      · rw [if_neg h, if_neg h]
    · simp only [Except.map, read]
      cases Transport.readBundle json engine response <;> rfl
  | send recipient message =>
    simp only [overHttp, Transport.send, request]
    rcases exchange _ with panic | ⟨e | response, store⟩ <;> rfl
  | poll recipient =>
    simp only [overHttp, Transport.poll, request]
    rcases exchange _ with panic | ⟨e | response, store⟩ <;> rfl

end

/-! ## 5. Bundles in the store -/

/-- Every bundle of the directory fits its format. -/
def BundlesFit (store : FileStore) : Prop :=
  ∀ (i : Bytes32) (stored : StoredKeys), store.keys[i]? = some stored → stored.baseBundle.Fits

namespace BundlesFit

variable {store : FileStore}

theorem publish (h : BundlesFit store) {b : PreKeyBundle} (hb : b.Fits)
    (oneTime : List (UInt32 × Bytes32)) : BundlesFit (store.publish b oneTime) := by
  intro i stored hget
  by_cases hi : b.identityEd = i
  · subst hi
    have hself : (store.publish b oneTime).keys[b.identityEd]? = _ :=
      Directory.getElem?_publish_self store.keys b oneTime
    obtain rfl := Option.some.inj (hself.symm.trans hget)
    exact hb
  · have hother : (store.publish b oneTime).keys[i]? = store.keys[i]? :=
      Directory.getElem?_publish_of_ne store.keys oneTime hi
    exact h i stored (hother.symm.trans hget)

theorem fetchBundle (h : BundlesFit store) (identity : Bytes32) :
    (∀ b, (store.fetchBundle identity).1 = some b → b.Fits) ∧
      BundlesFit (store.fetchBundle identity).2 := by
  cases hget : store.keys[identity]? with
  | none =>
    have hnone : store.keys.fetchBundle identity = (none, store.keys) := by
      rw [Directory.fetchBundle, hget]
    refine ⟨?_, ?_⟩
    · intro b hb
      rw [FileStore.fetchBundle, hnone] at hb
      cases hb
    · intro i stored hi
      rw [FileStore.fetchBundle, hnone] at hi
      exact h i stored hi
  | some stored =>
    have hfits := h identity stored hget
    cases hpool : stored.oneTime with
    | nil =>
      have hsame : store.keys.fetchBundle identity = (some stored.baseBundle, store.keys) := by
        rw [Directory.fetchBundle, hget]
        simp only [hpool]
      refine ⟨?_, ?_⟩
      · intro b hb
        rw [FileStore.fetchBundle, hsame] at hb
        obtain rfl := Option.some.inj hb
        exact hfits
      · intro i stored hi
        rw [FileStore.fetchBundle, hsame] at hi
        exact h i stored hi
    | cons entry rest =>
      have htaken : store.keys.fetchBundle identity =
          (some { stored.baseBundle with
            oneTimePrekey := some entry.2, oneTimePrekeyId := some entry.1 },
            store.keys.insert identity { stored with oneTime := rest }) := by
        rw [Directory.fetchBundle, hget]
        simp only [hpool]
      refine ⟨?_, ?_⟩
      · intro b hb
        rw [FileStore.fetchBundle, htaken] at hb
        obtain rfl := Option.some.inj hb
        exact hfits
      · intro i stored' hi
        rw [FileStore.fetchBundle, htaken] at hi
        simp only [Std.ExtTreeMap.getElem?_insert] at hi
        split at hi
        · obtain rfl := Option.some.inj hi
          exact hfits
        · exact h i stored' hi

theorem onStore (h : BundlesFit store) {op : RelayOp} (hop : Asked op) :
    BundlesFit (op.onStore store) := by
  cases op with
  | publish baseBundle oneTime => exact h.publish hop oneTime
  | fetchBundle identity => exact (h.fetchBundle identity).2
  | enqueueAt | pollAt => exact h
  | sweepExpiredAt | maybeFlush | kill => exact absurd hop id

theorem acts (h : BundlesFit store) {result : Response × FileStore} (hacts : Acts store result) :
    BundlesFit result.2 := by
  cases hacts with
  | did op _ hop => exact h.onStore hop
  | kept => exact h

end BundlesFit

/-! ## 6. What the relay makes of a call -/

section

variable {json : RelayJson} {engine : Base64Engine} {t : Transport} {store : FileStore}

/-- The bundle of a publish fits its format. -/
def Call.Valid : Call → Prop
  | .publish baseBundle _ => baseBundle.Fits
  | .fetchBundle _ | .send .. | .poll _ => True

/-- A result of the handler is the call on the store, and the client takes it for that. -/
def Answers (json : RelayJson) (engine : Base64Engine) (store : FileStore) (now : UInt64) (c : Call)
    (result : Except Panic (Response × FileStore)) : Prop :=
  ∃ response, result = .ok (response, (c.onStore json engine store now).2) ∧
    c.read json engine (judge response) = (c.onStore json engine store now).1

theorem answers_publish (store : FileStore) (now : UInt64) {b : PreKeyBundle} (hb : b.Fits)
    (oneTime : List (UInt32 × Bytes32)) :
    Answers json engine store now (.publish b oneTime) (handle json engine store now
      ⟨.post, ascii "/publish",
        json.publishRequest.write (Transport.publishRequest engine b oneTime)⟩) := by
  have hplain : json.publishRequest.Plain (Transport.publishRequest engine b oneTime) := by
    refine json.publish_plain (isBase64_encode engine _) ?_
    intro k hk
    obtain ⟨p, -, rfl⟩ := List.mem_map.mp hk
    exact isBase64_encode engine _
  have hroute : endpoint .post (splitUrl (ascii "/publish")).1 = some .publish := by decide
  unfold Answers Call.onStore
  by_cases hsmall : (Call.publish b oneTime).Small json engine
  · have hhandle : handlePublish json engine store
        (json.publishRequest.write (Transport.publishRequest engine b oneTime)) =
          .ok (store.publish b oneTime) := by
      have hdecode : PreKeyBundle.decode b.encode = .ok b :=
        PreKeyBundle.decode_encode ((PreKeyBundle.codec_valid_iff b).mpr hb)
      rw [handlePublish, readJson_write hplain hsmall]
      simp only [bind, Except.bind, Transport.publishRequest, engine.decode_encode, hdecode,
        decodeOneTime_map]
      rfl
    refine ⟨respondText 200 "ok", ?_, ?_⟩
    · simp only [handle, hroute, hhandle, if_pos hsmall]
    · simp only [if_pos hsmall]
      rfl
  · obtain ⟨e, hread, hstatus⟩ := readJson_cut hplain (Nat.not_le.mp hsmall)
    have hhandle : handlePublish json engine store
        (json.publishRequest.write (Transport.publishRequest engine b oneTime)) = .error e := by
      rw [handlePublish, hread]
      rfl
    refine ⟨respondError e, ?_, ?_⟩
    · simp only [handle, hroute, hhandle, if_neg hsmall]
    · have hjudge : judge (respondError e) = .error (.status 400) := by
        rw [judge, respondError, respondText]
        simp only [hstatus]
        rfl
      simp only [if_neg hsmall, hjudge]
      rfl

theorem answers_send (store : FileStore) (now : UInt64) (recipient : Bytes32) (message : Bytes) :
    Answers json engine store now (.send recipient message) (handle json engine store now
      ⟨.post, ascii "/send",
        json.sendRequest.write (Transport.sendRequest engine recipient message)⟩) := by
  have hplain : json.sendRequest.Plain (Transport.sendRequest engine recipient message) :=
    json.send_plain (isBase64_encode engine _) (isBase64_encode engine _)
  have hroute : endpoint .post (splitUrl (ascii "/send")).1 = some .send := by decide
  unfold Answers Call.onStore
  by_cases hsmall : (Call.send recipient message).Small json engine
  · rcases hqueued : store.enqueueAt recipient message now with ⟨⟨⟩ | ⟨⟨⟩⟩, after⟩
    · have hhandle : handleSend json engine store
          (json.sendRequest.write (Transport.sendRequest engine recipient message)) now =
            (.error ⟨413, "message too large"⟩, after) := by
        rw [handleSend, readJson_write hplain hsmall]
        simp only [Transport.sendRequest, unb64KeyText_encode, engine.decode_encode, hqueued]
      refine ⟨respondError ⟨413, "message too large"⟩, ?_, ?_⟩
      · simp only [handle, hroute, hhandle, if_pos hsmall, hqueued]
      · simp only [if_pos hsmall, hqueued]
        rfl
    · have hhandle : handleSend json engine store
          (json.sendRequest.write (Transport.sendRequest engine recipient message)) now =
            (.ok (), after) := by
        rw [handleSend, readJson_write hplain hsmall]
        simp only [Transport.sendRequest, unb64KeyText_encode, engine.decode_encode, hqueued]
      refine ⟨respondText 200 "ok", ?_, ?_⟩
      · simp only [handle, hroute, hhandle, if_pos hsmall, hqueued]
      · simp only [if_pos hsmall, hqueued]
        rfl
  · obtain ⟨e, hread, hstatus⟩ := readJson_cut hplain (Nat.not_le.mp hsmall)
    have hhandle : handleSend json engine store
        (json.sendRequest.write (Transport.sendRequest engine recipient message)) now =
          (.error e, store) := by
      simp only [handleSend, hread]
    refine ⟨respondError e, ?_, ?_⟩
    · simp only [handle, hroute, hhandle, if_neg hsmall]
    · have hjudge : judge (respondError e) = .error (.status 400) := by
        rw [judge, respondError, respondText]
        simp only [hstatus]
        rfl
      simp only [if_neg hsmall, hjudge]
      rfl

/-- A bundle the relay responds with. -/
def bundleResponse (json : RelayJson) (engine : Base64Engine) (bundle : PreKeyBundle) : Response :=
  respondJson json.bundleResponse 200 ⟨engine.encode bundle.encode⟩

theorem readBundle_bundleResponse {bundle : PreKeyBundle} (h : bundle.Fits) :
    Transport.readBundle json engine (bundleResponse json engine bundle) = .ok bundle := by
  have hdecode : PreKeyBundle.decode bundle.encode = .ok bundle :=
    PreKeyBundle.decode_encode ((PreKeyBundle.codec_valid_iff bundle).mpr h)
  have hread : json.bundleResponse.read (bundleResponse json engine bundle).body =
      .ok ⟨engine.encode bundle.encode⟩ :=
    json.bundleResponse.read_write (json.bundle_plain (isBase64_encode engine _))
  rw [Transport.readBundle, hread]
  simp only [Transport.unb64, engine.decode_encode, hdecode]

theorem answers_fetchBundle (hstore : BundlesFit store) (now : UInt64) (identity : Bytes32)
    (body : Bytes) :
    Answers json engine store now (.fetchBundle identity) (handle json engine store now
      ⟨.get, ascii "/bundle" ++ 63 :: (ascii "identity" ++ 61 ::
        t.agent.escape (engine.encode identity.bytes)), body⟩) := by
  have hsplit := splitUrl_query (show (63 : UInt8) ∉ ascii "/bundle" by decide)
    (ascii "identity" ++ 61 :: t.agent.escape (engine.encode identity.bytes))
  have hroute : endpoint .get (ascii "/bundle") = some .bundle := by decide
  have hkey := queryKey_of_carries (by decide) (carries_get engine t (ascii "identity") identity)
  have hsmall : (Call.fetchBundle identity).Small json engine := trivial
  unfold Answers Call.onStore
  simp only [handle, hsplit, hroute, handleBundle, hkey, if_pos hsmall, Except.map]
  rcases hfetch : store.fetchBundle identity with ⟨_ | bundle, after⟩
  · have hjudge : judge (respondText 404 "unknown identity") = .error (.status 404) := rfl
    refine ⟨respondText 404 "unknown identity", rfl, ?_⟩
    rw [hjudge, Call.read, if_pos rfl]
  · have hfits : bundle.Fits := (hstore.fetchBundle identity).1 bundle (congrArg Prod.fst hfetch)
    have hjudge : judge (bundleResponse json engine bundle) =
        .ok (bundleResponse json engine bundle) := rfl
    refine ⟨bundleResponse json engine bundle, rfl, ?_⟩
    rw [hjudge, Call.read, readBundle_bundleResponse hfits]
    rfl

/-- The mail the relay responds with. -/
def pollResponse (json : RelayJson) (engine : Base64Engine) (messages : List Bytes) : Response :=
  respondJson json.pollResponse 200 ⟨messages.map engine.encode⟩

theorem readMail_pollResponse (messages : List Bytes) :
    Transport.readMail json engine (pollResponse json engine messages) = .ok messages := by
  have hplain : json.pollResponse.Plain ⟨messages.map engine.encode⟩ := by
    refine json.poll_plain ?_
    intro m hm
    obtain ⟨bytes, -, rfl⟩ := List.mem_map.mp hm
    exact isBase64_encode engine _
  have hread : json.pollResponse.read (pollResponse json engine messages).body =
      .ok ⟨messages.map engine.encode⟩ := json.pollResponse.read_write hplain
  rw [Transport.readMail, hread]
  exact unb64All_map engine messages

theorem answers_poll (store : FileStore) (now : UInt64) (recipient : Bytes32) (body : Bytes) :
    Answers json engine store now (.poll recipient) (handle json engine store now
      ⟨.get, ascii "/poll" ++ 63 :: (ascii "recipient" ++ 61 ::
        t.agent.escape (engine.encode recipient.bytes)), body⟩) := by
  have hsplit := splitUrl_query (show (63 : UInt8) ∉ ascii "/poll" by decide)
    (ascii "recipient" ++ 61 :: t.agent.escape (engine.encode recipient.bytes))
  have hroute : endpoint .get (ascii "/poll") = some .poll := by decide
  have hkey := queryKey_of_carries (by decide) (carries_get engine t (ascii "recipient") recipient)
  have hsmall : (Call.poll recipient).Small json engine := trivial
  have hjudge : judge (pollResponse json engine (store.pollAt recipient now).1) =
      .ok (pollResponse json engine (store.pollAt recipient now).1) := rfl
  unfold Answers Call.onStore
  simp only [handle, hsplit, hroute, handlePoll, hkey, if_pos hsmall, Except.map]
  refine ⟨pollResponse json engine (store.pollAt recipient now).1, rfl, ?_⟩
  rw [hjudge, Call.read, readMail_pollResponse]
  rfl

/-- **One call**: what its request does at the relay is the call on the store. -/
theorem answers_request (hstore : BundlesFit store) (now : UInt64) {c : Call} (hc : c.Valid) :
    Answers json engine store now c (handle json engine store now
      { c.request json engine t with
        url := (c.request json engine t).url.drop t.origin.length }) := by
  have hpath : ∀ path, (t.url path).drop t.origin.length = path := fun path => List.drop_left
  have hget : ∀ path name value, (t.get path name value).url.drop t.origin.length =
      path ++ 63 :: (name ++ 61 :: t.agent.escape value) := by
    intro path name value
    rw [Transport.get, Transport.url, List.append_assoc, List.drop_left]
  cases c with
  | publish b oneTime =>
    simp only [Call.request, hpath]
    exact answers_publish store now hc oneTime
  | fetchBundle identity =>
    simp only [Call.request, hget]
    exact answers_fetchBundle hstore now identity _
  | send recipient message =>
    simp only [Call.request, hpath]
    exact answers_send store now recipient message
  | poll recipient =>
    simp only [Call.request, hget]
    exact answers_poll store now recipient _

/-- **One call and its fate.** -/
theorem overHttp_directly (hstore : BundlesFit store) {c : Call} (hc : c.Valid) (fate : Fate) :
    c.overHttp json engine t (network json engine t store fate) =
      .ok (c.directly json engine store fate) := by
  rw [Call.overHttp_eq]
  cases fate with
  | unreachable reason => cases c <;> rfl
  | answered response => rfl
  | arrives allowed now returns =>
    cases allowed with
    | false =>
      cases returns <;> cases c <;> rfl
    | true =>
      have hanswers : Answers json engine store now c _ := answers_request (t := t) hstore now hc
      obtain ⟨response, hhandle, hread⟩ := hanswers
      simp only [network, answer, if_true, hhandle, Call.directly, Except.map]
      cases returns with
      | false => cases c <;> rfl
      | true => simp only [if_true, hread]

theorem BundlesFit.directly (h : BundlesFit store) {c : Call} (hc : c.Valid) (fate : Fate) :
    BundlesFit (c.directly json engine store fate).2 := by
  have hcall : ∀ now, BundlesFit (c.onStore json engine store now).2 := by
    intro now
    unfold Call.onStore
    split
    · cases c with
      | publish baseBundle oneTime => exact h.publish hc oneTime
      | fetchBundle identity => exact (h.fetchBundle identity).2
      | send recipient message =>
        have hkept : BundlesFit (store.enqueueAt recipient message now).2 := h
        simp only
        split
        · rename_i after hqueued
          rwa [hqueued] at hkept
        · rename_i after hqueued
          rwa [hqueued] at hkept
      | poll recipient => exact h
    · exact h
  cases fate with
  | unreachable | answered => exact h
  | arrives allowed now returns =>
    simp only [Call.directly]
    cases allowed with
    | false => exact h
    | true => exact hcall now

theorem BundlesFit.answer (json : RelayJson) (engine : Base64Engine) (h : BundlesFit store)
    {request : Request} (hrequest : ∀ b ∈ request.url, b < 128) (allowed : Bool) (now : UInt64) :
    ∃ result, answer json engine store allowed now request = .ok result ∧ BundlesFit result.2 := by
  cases allowed with
  | false => exact ⟨_, rfl, h⟩
  | true =>
    obtain ⟨result, hhandle, hacts⟩ := handle_spec json engine store now hrequest
    exact ⟨result, hhandle, h.acts hacts⟩

end

/-! ## 7. Everything that happens -/

/-- Bundles fit their format, and the URLs of others are ASCII, as `tiny_http` has them. -/
def Happening.Valid : Happening → Prop
  | .call c _ => c.Valid
  | .other request _ _ => ∀ b ∈ request.url, b < 128

/-- A client whose base URL ends in a slash. -/
def slashClient : Transport where
  baseUrl := ascii "http://127.0.0.1:8080/"
  agent :=
    { escape := fun s => percentEncode (fun c => !c.isAlphanum) s.toList
      escape_encodes := fun h => urlEncodes_percentEncode (by decide) h }

theorem bundlesFit_create (limits : StoreLimits) : BundlesFit (.create limits) := by
  intro i stored hget
  have hempty : (FileStore.create limits).keys[i]? = none := Std.ExtTreeMap.getElem?_empty
  rw [hempty] at hget
  cases hget

def smallBundle : PreKeyBundle :=
  ⟨awkwardKey, .ofByte 2, [3], .ofByte 4, 5, [6], [7, 8], 9, [10], none, none⟩

/-- A publish, a fetch and a send of one client, a stranger's request, a poll whose answer
    gets lost, and the next poll. -/
def ordinaryDay : List Happening :=
  [.call (.publish smallBundle [(300, .ofByte 11)]) (.arrives true 1 true),
    .call (.fetchBundle awkwardKey) (.arrives true 2 true),
    .call (.send awkwardKey [1, 2, 3]) (.arrives true 3 true),
    .other ⟨.post, ascii "/poll", []⟩ true 4,
    .call (.poll awkwardKey) (.arrives true 5 false),
    .call (.poll awkwardKey) (.arrives true 6 true)]

end Clarity.Http
