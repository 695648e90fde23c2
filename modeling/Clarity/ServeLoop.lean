/-
  Clarity/ServeLoop.lean
  ======================
  **The loop of the relay** (`serve_on_with` in `relay/src/server.rs`): the rate limiter,
  the handler, the hourly sweep and the snapshot, request after request.

  The loop reads a monotonic clock several times in an iteration; an `Incoming` carries
  what it read.  A request that the limiter turns away skips the sweep and the snapshot.

    * `serve_answers` — the loop survives every request, and what all of them did to the
      store is a run of its operations, one for each answer of 200 at most;
    * `crash_window` — while writes work, the snapshot lags the memory by requests of less
      than a second.
-/
import Clarity.Http
import Clarity.RateLimit

namespace Clarity

/-- A hard kill. -/
def RelayOp.isKill : RelayOp → Bool
  | .kill _ => true
  | _ => false

/-- The operations that clients ask for. -/
def RelayOp.ofClient : RelayOp → Bool
  | .publish .. | .fetchBundle .. | .enqueueAt .. | .pollAt .. => true
  | .sweepExpiredAt .. | .maybeFlush .. | .kill .. => false

namespace Http

/-! ## 1. The loop -/

def SWEEP_INTERVAL_SECS : Nat := 60 * 60

/-- A request, and what the loop reads while it deals with it; the readings of the
    monotonic clock are in milliseconds. -/
structure Incoming where
  arrival : Arrival
  request : Request
  /-- The wall clock in the handler and in the sweep. -/
  now : UInt64
  sweepNow : UInt64
  /-- Where the sweep is considered, and where it has ended. -/
  sweepCheck : Nat
  swept : Nat
  /-- Where the snapshot is considered, and where it has been written. -/
  flushCheck : Nat
  flushed : Nat
  writes : Bool

/-- What the loop keeps; `lastFlush` is in the store's `Persistence`. -/
structure Server where
  store : FileStore
  limiter : Option RateLimiter
  lastSweep : Nat
  lastFlush : Nat

/-- `elapsed().as_secs()`. -/
def elapsedSecs (since now : Nat) : Nat := (now - since) / 1000

namespace Server

/-- `if last_sweep.elapsed() ... { store.sweep_expired(); ... }`. -/
def sweep (s : Server) (i : Incoming) : Server :=
  if SWEEP_INTERVAL_SECS ≤ elapsedSecs s.lastSweep i.sweepCheck then
    { s with store := (s.store.sweepExpiredAt i.sweepNow).2, lastSweep := i.swept }
  else s

/-- `store.maybe_flush()`. -/
def flush (s : Server) (i : Incoming) : Server :=
  let elapsed := elapsedSecs s.lastFlush i.flushCheck
  { s with
    store := s.store.maybeFlush elapsed i.writes
    lastFlush := if s.store.flushes elapsed && i.writes then i.flushed else s.lastFlush }

variable (json : RelayJson) (engine : Base64Engine)

/-- One iteration. -/
def serveOne (s : Server) (i : Incoming) : Except Panic (Response × Server) :=
  let (allowed, limiter) := pass s.limiter i.arrival
  let s := { s with limiter := limiter }
  if allowed then
    (handle json engine s.store i.now i.request).map fun (response, store) =>
      (response, (({ s with store := store } : Server).sweep i).flush i)
  else .ok (respondText 429 "rate limited", s)

def serve (s : Server) : List Incoming → Except Panic (List Response × Server)
  | [] => .ok ([], s)
  | i :: rest => do
    let (response, s) ← s.serveOne json engine i
    let (responses, s) ← s.serve rest
    return (response :: responses, s)

/-! ## 2. One iteration -/

variable {json engine}
variable {s : Server} {i : Incoming}

theorem sweep_onStore (s : Server) (i : Incoming) :
    (s.sweep i).store = s.store ∨
      (s.sweep i).store = (RelayOp.sweepExpiredAt i.sweepNow).onStore s.store := by
  unfold sweep
  split
  · exact .inr rfl
  · exact .inl rfl

/-- How many operations of clients an answer stands for, at most. -/
def worth (response : Response) : Nat := if response.status = 200 then 1 else 0

/-- What was done to the store, as operations: no kill is among them, and `n` at most are
    what clients asked for. -/
structure Did (before after : FileStore) (n : Nat) (ops : List RelayOp) : Prop where
  result : after = ops.foldl RelayOp.onStore before
  alive : ∀ op ∈ ops, op.isKill = false
  asked : ops.countP RelayOp.ofClient ≤ n

theorem Did.refl (store : FileStore) : Did store store 0 [] :=
  ⟨rfl, by simp, Nat.le_refl 0⟩

theorem Did.append {a b c : FileStore} {n m : Nat} {ops ops' : List RelayOp} (h : Did a b n ops)
    (h' : Did b c m ops') : Did a c (n + m) (ops ++ ops') where
  result := by rw [List.foldl_append, ← h.result, h'.result]
  alive := by
    intro op hop
    rcases List.mem_append.mp hop with hop | hop
    · exact h.alive op hop
    · exact h'.alive op hop
  asked := by
    rw [List.countP_append]
    exact Nat.add_le_add h.asked h'.asked

theorem Did.single (store : FileStore) (op : RelayOp) (hkill : op.isKill = false)
    (hclient : op.ofClient = false) : Did store (op.onStore store) 0 [op] where
  result := rfl
  alive := by
    intro op' hop
    rw [List.mem_singleton.mp hop, hkill]
  asked := by rw [List.countP_cons_of_neg (by simp [hclient]), List.countP_nil]

theorem did_of_acts {store : FileStore} {result : Response × FileStore} (h : Acts store result) :
    ∃ ops, Did store result.2 (worth result.1) ops := by
  cases h with
  | @did response op hstatus hop =>
    refine ⟨[op], rfl, ?_, ?_⟩
    · intro op' hmem
      rw [List.mem_singleton.mp hmem]
      cases op <;> first | rfl | exact absurd hop id
    · rw [worth, if_pos hstatus]
      exact List.countP_le_length
  | kept => exact ⟨[], rfl, by simp, Nat.zero_le _⟩

/-- **One iteration**: an answer, and operations of the store. -/
theorem serveOne_did (s : Server) (i : Incoming) (hurl : ∀ b ∈ i.request.url, b < 128) :
    ∃ response s', s.serveOne json engine i = .ok (response, s') ∧
      response.status ∈ [200, 400, 404, 413, 429] ∧
      ∃ ops, Did s.store s'.store (worth response) ops := by
  unfold serveOne
  rcases pass s.limiter i.arrival with ⟨allowed, limiter⟩
  cases allowed with
  | false => exact ⟨_, _, rfl, by decide, [], rfl, by simp, Nat.zero_le _⟩
  | true =>
    obtain ⟨⟨response, store⟩, hhandle, hacts⟩ := handle_spec json engine s.store i.now hurl
    obtain ⟨ops, hops⟩ := did_of_acts hacts
    set handled : Server := { s with limiter := limiter, store := store } with hhandled
    obtain ⟨ops', hops'⟩ : ∃ ops', Did store (handled.sweep i).store 0 ops' := by
      rcases sweep_onStore handled i with hsweep | hsweep <;> rw [hsweep]
      · exact ⟨[], Did.refl store⟩
      · exact ⟨_, Did.single store _ rfl rfl⟩
    have hflush := Did.single (handled.sweep i).store
      (.maybeFlush (elapsedSecs (handled.sweep i).lastFlush i.flushCheck) i.writes) rfl rfl
    refine ⟨response, (handled.sweep i).flush i, ?_, ?_, _, (hops.append hops').append hflush⟩
    · simp only [if_true, hhandle]
      rfl
    · have hstatus : response.status ∈ [200, 400, 404, 413] := by
        cases hacts with
        | did op h _ => rw [h]; decide
        | kept h => exact h
      exact List.mem_append_left [429] hstatus

/-! ## 3. The loop as a run of the store -/

theorem serve_cons (s : Server) (i : Incoming) (rest : List Incoming) {response : Response}
    {s' : Server} (h : s.serveOne json engine i = .ok (response, s')) :
    s.serve json engine (i :: rest) =
      (s'.serve json engine rest).map fun r => (response :: r.1, r.2) := by
  rw [serve, h]
  simp only [bind, Except.bind]
  rcases s'.serve json engine rest with panic | ⟨responses, s''⟩ <;> rfl

variable (json engine) in
theorem serve_did (s : Server) {incoming : List Incoming}
    (hurls : ∀ i ∈ incoming, ∀ b ∈ i.request.url, b < 128) :
    ∃ responses s', s.serve json engine incoming = .ok (responses, s') ∧
      responses.length = incoming.length ∧
      (∀ r ∈ responses, r.status ∈ [200, 400, 404, 413, 429]) ∧
      ∃ ops, Did s.store s'.store (responses.countP fun r => r.status = 200) ops := by
  induction incoming generalizing s with
  | nil => exact ⟨[], s, rfl, rfl, by simp, [], Did.refl _⟩
  | cons i rest ih =>
    obtain ⟨hurl, hrest⟩ := List.forall_mem_cons.mp hurls
    obtain ⟨response, s', hone, hstatus, ops, hops⟩ := serveOne_did s i hurl
    obtain ⟨responses, s'', hserve, hlength, hstatuses, ops', hops'⟩ := ih s' hrest
    refine ⟨response :: responses, s'', ?_, ?_, ?_, ops ++ ops', ?_⟩
    · rw [serve_cons s i rest hone, hserve]
      rfl
    · rw [List.length_cons, List.length_cons, hlength]
    · exact List.forall_mem_cons.mpr ⟨hstatus, hstatuses⟩
    · have hcount : (response :: responses).countP (fun r => decide (r.status = 200)) =
          worth response + responses.countP fun r => decide (r.status = 200) := by
        rw [List.countP_cons, Nat.add_comm, worth]
        simp only [decide_eq_true_eq]
      rw [hcount]
      exact hops.append hops'

/-- Operations without a kill, observed. -/
theorem run_of_ops {limits : StoreLimits} {w : Relay}
    (hrun : Relay.Run (fun _ op => op.isKill = false) limits w) (hagrees : w.Agrees)
    (hsound : w.Sound) {ops : List RelayOp} (hops : ∀ op ∈ ops, op.isKill = false) :
    ∃ w', Relay.Run (fun _ op => op.isKill = false) limits w' ∧ w'.Agrees ∧ w'.Sound ∧
      w'.store = ops.foldl RelayOp.onStore w.store := by
  induction ops generalizing w with
  | nil => exact ⟨w, hrun, hagrees, hsound, rfl⟩
  | cons op rest ih =>
    obtain ⟨hop, hrest⟩ := List.forall_mem_cons.mp hops
    have hunused : w.BringsBackUnused op := by
      cases op with
      | kill limits => cases hop
      | publish | fetchBundle | enqueueAt | pollAt | sweepExpiredAt | maybeFlush => trivial
    obtain ⟨w', hrun', hagrees', hsound', hstore⟩ :=
      ih (.step op hrun hop) (hagrees.step op) (hsound.step op hunused) hrest
    exact ⟨w', hrun', hagrees', hsound', by rw [hstore, Relay.store_step, List.foldl_cons]⟩

/-- Requests from one address, in one minute: a message, an upload that is not one, and
    one more than the limit. -/
def burst : List Incoming :=
  let when (t : Nat) (request : Request) : Incoming :=
    ⟨⟨some (.v4 #v[10, 0, 0, 1]), 0⟩, request, 100, 100, t, t, t, t + 20, true⟩
  [when 400 ⟨.post, ascii "/send", compactJson.sendRequest.write
      ⟨Base64Engine.standard.encode awkwardKey.bytes, "AQID"⟩⟩,
    when 1300 ⟨.post, ascii "/publish", ascii "\x7b\"bundle\":"⟩,
    when 1700 ⟨.get, ascii "/poll?recipient=none", []⟩]

theorem urls_burst : ∀ i ∈ burst, ∀ b ∈ i.request.url, b < 128 := by
  have hall : (burst.all fun i => i.request.url.all fun b => b < 128) = true := by decide +kernel
  intro i hi b hb
  exact of_decide_eq_true (List.all_eq_true.mp (List.all_eq_true.mp hall i hi) b hb)

/-- No snapshot was taken in between. -/
structure Kept (a b : FileStore) : Prop where
  snapshot : b.snapshot = a.snapshot
  limits : b.mail.limits = a.mail.limits
  clean : a.Clean → b.Clean

theorem Kept.refl (a : FileStore) : Kept a a := ⟨rfl, rfl, id⟩

theorem Kept.trans {a b c : FileStore} (h : Kept a b) (h' : Kept b c) : Kept a c :=
  ⟨h'.snapshot.trans h.snapshot, h'.limits.trans h.limits, fun hclean => h'.clean (h.clean hclean)⟩

theorem kept_acts {store : FileStore} {result : Response × FileStore} (h : Acts store result) :
    Kept store result.2 := by
  cases h with
  | kept => exact Kept.refl store
  | did op _ hop =>
    cases op with
    | publish baseBundle oneTime => exact ⟨rfl, rfl, fun _ => FileStore.clean_of_dirty rfl⟩
    | fetchBundle identity => exact ⟨rfl, rfl, fun h => h.fetchBundle identity⟩
    | enqueueAt recipient message now =>
      exact ⟨rfl, RelayStore.limits_enqueueAt .., fun h => h.enqueueAt recipient message now⟩
    | pollAt recipient now =>
      exact ⟨rfl, RelayStore.limits_pollAt .., fun h => h.pollAt recipient now⟩
    | sweepExpiredAt | maybeFlush | kill => exact absurd hop id

theorem kept_sweep (s : Server) (i : Incoming) :
    Kept s.store (s.sweep i).store ∧ (s.sweep i).lastFlush = s.lastFlush := by
  unfold sweep
  split
  · exact ⟨⟨rfl, RelayStore.limits_sweepExpiredAt .., fun h => h.sweepExpiredAt i.sweepNow⟩, rfl⟩
  · exact ⟨Kept.refl _, rfl⟩

/-- The end of an iteration: the store is clean, or it is less than a second since the
    last snapshot. -/
theorem flush_cases (s : Server) {i : Incoming} (hwrites : i.writes = true) :
    (s.flush i).store.dirty = false ∨
      (s.flush i).store = s.store ∧ (s.flush i).lastFlush = s.lastFlush ∧
        i.flushCheck < s.lastFlush + 1000 := by
  simp only [flush, hwrites, Bool.and_true, FileStore.maybeFlush]
  cases hflushes : s.store.flushes (elapsedSecs s.lastFlush i.flushCheck) with
  | true => exact .inl rfl
  | false =>
    rcases Bool.and_eq_false_iff.mp hflushes with hdirty | helapsed
    · exact .inl hdirty
    · refine .inr ⟨rfl, rfl, ?_⟩
      have hlt := of_decide_eq_false helapsed
      unfold elapsedSecs FLUSH_INTERVAL_SECS at hlt
      omega

/-- The limiter turns a request away, or the handler, the sweep and the snapshot follow. -/
theorem serveOne_cases {response : Response} {s' : Server} (hurl : ∀ b ∈ i.request.url, b < 128)
    (h : s.serveOne json engine i = .ok (response, s')) :
    (response.status = 429 ∧ s'.store = s.store ∧ s'.lastFlush = s.lastFlush) ∨
      ∃ mid : Server, Kept s.store mid.store ∧ mid.lastFlush = s.lastFlush ∧ s' = mid.flush i := by
  simp only [serveOne] at h
  cases hpass : (pass s.limiter i.arrival).1 with
  | false =>
    simp only [hpass, Bool.false_eq_true, if_false] at h
    obtain ⟨rfl, rfl⟩ := Prod.mk.inj (Except.ok.inj h)
    exact .inl ⟨rfl, rfl, rfl⟩
  | true =>
    obtain ⟨⟨response', store⟩, hhandle, hacts⟩ := handle_spec json engine s.store i.now hurl
    simp only [hpass, if_true, hhandle, Except.map] at h
    obtain ⟨rfl, rfl⟩ := Prod.mk.inj (Except.ok.inj h)
    have hsweep := kept_sweep { s with limiter := (pass s.limiter i.arrival).2, store := store } i
    exact .inr ⟨_, (kept_acts hacts).trans hsweep.1, hsweep.2, rfl⟩

theorem serve_ok_cases {rest : List Incoming} {responses : List Response} {s' : Server}
    (h : s.serve json engine (i :: rest) = .ok (responses, s')) :
    ∃ r mid rs, s.serveOne json engine i = .ok (r, mid) ∧
      mid.serve json engine rest = .ok (rs, s') ∧ responses = r :: rs := by
  cases hone : s.serveOne json engine i with
  | error panic =>
    rw [serve, hone] at h
    cases h
  | ok p =>
    obtain ⟨r, mid⟩ := p
    rw [serve_cons s i rest hone] at h
    cases hrest : mid.serve json engine rest with
    | error panic =>
      rw [hrest] at h
      cases h
    | ok q =>
      obtain ⟨rs, last⟩ := q
      rw [hrest] at h
      obtain ⟨rfl, rfl⟩ := Prod.mk.inj (Except.ok.inj h)
      exact ⟨r, mid, rs, rfl, hrest, rfl⟩

theorem serve_snoc {s' : Server} {incoming : List Incoming} {responses : List Response}
    (h : s.serve json engine (incoming ++ [i]) = .ok (responses, s')) :
    ∃ mid rs r, s.serve json engine incoming = .ok (rs, mid) ∧
      mid.serveOne json engine i = .ok (r, s') ∧ responses = rs ++ [r] := by
  induction incoming generalizing s responses with
  | nil =>
    obtain ⟨r, mid, rs, hone, hrest, rfl⟩ := serve_ok_cases h
    obtain ⟨rfl, rfl⟩ := Prod.mk.inj (Except.ok.inj hrest)
    exact ⟨s, [], r, rfl, hone, rfl⟩
  | cons j rest ih =>
    obtain ⟨first, second, rs, hone, hrest, rfl⟩ := serve_ok_cases h
    obtain ⟨mid, rs', r, hserve, hlast, rfl⟩ := ih hrest
    refine ⟨mid, first :: rs', r, ?_, hlast, rfl⟩
    rw [serve_cons s j rest hone, hserve]
    rfl

/-- The snapshot is the memory of an earlier moment, and of the requests since then those
    that were handled were less than a second away from the snapshot. -/
structure Lags (json : RelayJson) (engine : Base64Engine) (start : Server)
    (incoming : List Incoming) (responses : List Response) (s : Server) (before after : List Incoming)
    (rs later : List Response) (earlier : Server) : Prop where
  incoming : incoming = before ++ after
  responses : responses = rs ++ later
  serve : start.serve json engine before = .ok (rs, earlier)
  snapshot : s.store.snapshot = earlier.store.snapshot
  limits : s.store.mail.limits = earlier.store.mail.limits
  lastFlush : s.lastFlush = earlier.lastFlush
  saved : FileStore.Same earlier.store (earlier.store.reopen earlier.store.mail.limits)
  recent : List.Forall₂ (fun i r => r.status ≠ 429 → i.flushCheck < earlier.lastFlush + 1000)
    after later

theorem lags_now {start : Server} {incoming : List Incoming} {responses : List Response}
    (hserve : start.serve json engine incoming = .ok (responses, s)) (hclean : s.store.Clean)
    (hdirty : s.store.dirty = false) :
    Lags json engine start incoming responses s incoming [] responses [] s :=
  ⟨(List.append_nil _).symm, (List.append_nil _).symm, hserve, rfl, rfl, rfl, hclean hdirty, .nil⟩

theorem Lags.snoc {start s' earlier : Server} {incoming before after : List Incoming}
    {responses rs later : List Response} {r : Response}
    (h : Lags json engine start incoming responses s before after rs later earlier)
    (hkept : Kept s.store s'.store) (hflush : s'.lastFlush = s.lastFlush)
    (hrecent : r.status ≠ 429 → i.flushCheck < s.lastFlush + 1000) :
    Lags json engine start (incoming ++ [i]) (responses ++ [r]) s' before (after ++ [i]) rs
      (later ++ [r]) earlier where
  incoming := by rw [h.incoming, List.append_assoc]
  responses := by rw [h.responses, List.append_assoc]
  serve := h.serve
  snapshot := hkept.snapshot.trans h.snapshot
  limits := hkept.limits.trans h.limits
  lastFlush := hflush.trans h.lastFlush
  saved := h.saved
  recent := List.rel_append h.recent (.cons (h.lastFlush ▸ hrecent) .nil)

theorem lags {start : Server} (hclean : start.store.Clean) (hdirty : start.store.dirty = false)
    {incoming : List Incoming} (hurls : ∀ i ∈ incoming, ∀ b ∈ i.request.url, b < 128)
    (hwrites : ∀ i ∈ incoming, i.writes = true) {responses : List Response}
    (hserve : start.serve json engine incoming = .ok (responses, s)) :
    s.store.Clean ∧ ∃ before after rs later earlier,
      Lags json engine start incoming responses s before after rs later earlier := by
  induction incoming using List.reverseRecOn generalizing s responses with
  | nil =>
    obtain ⟨rfl, rfl⟩ := Prod.mk.inj (Except.ok.inj hserve)
    exact ⟨hclean, _, _, _, _, _, lags_now rfl hclean hdirty⟩
  | append_singleton incoming i ih =>
    obtain ⟨mid, rs', r, hbefore, hone, rfl⟩ := serve_snoc hserve
    have hurl := hurls i (List.mem_append_right _ (List.mem_singleton_self i))
    have hwrite := hwrites i (List.mem_append_right _ (List.mem_singleton_self i))
    obtain ⟨hmid, before, after, rs, later, earlier, hlags⟩ :=
      ih (fun j hj => hurls j (List.mem_append_left _ hj))
        (fun j hj => hwrites j (List.mem_append_left _ hj)) hbefore
    rcases serveOne_cases hurl hone with ⟨hstatus, hstore, hflush⟩ | ⟨acted, hkept, hflush, rfl⟩
    · have hkept : Kept mid.store s.store := hstore ▸ Kept.refl mid.store
      exact ⟨hkept.clean hmid, _, _, _, _, _,
        hlags.snoc hkept hflush fun hne => absurd hstatus hne⟩
    · have hafter : (acted.flush i).store.Clean := (hkept.clean hmid).maybeFlush _ _
      refine ⟨hafter, ?_⟩
      rcases flush_cases acted hwrite with hcleaned | ⟨hstore, hlast, hrecent⟩
      · exact ⟨_, _, _, _, _, lags_now hserve hafter hcleaned⟩
      · have hall : Kept mid.store (acted.flush i).store := hstore.symm ▸ hkept
        exact ⟨_, _, _, _, _, hlags.snoc hall (hlast.trans hflush) fun _ => hflush ▸ hrecent⟩

/-- **The crash window.**  While every write works, a crash after any requests goes back
    to the store as it was after some of them, and of those it takes back, the relay had
    handled each less than a second after the snapshot. -/
theorem crash_window (json : RelayJson) (engine : Base64Engine) {start s : Server}
    (hclean : start.store.Clean) (hdirty : start.store.dirty = false) {incoming : List Incoming}
    (hurls : ∀ i ∈ incoming, ∀ b ∈ i.request.url, b < 128)
    (hwrites : ∀ i ∈ incoming, i.writes = true) {responses : List Response}
    (hserve : start.serve json engine incoming = .ok (responses, s)) :
    ∃ before after rs later earlier, incoming = before ++ after ∧ responses = rs ++ later ∧
      start.serve json engine before = .ok (rs, earlier) ∧
      FileStore.Same earlier.store (s.store.reopen s.store.mail.limits) ∧
      List.Forall₂ (fun i r => r.status ≠ 429 → i.flushCheck < earlier.lastFlush + 1000)
        after later := by
  obtain ⟨-, before, after, rs, later, earlier, h⟩ := lags hclean hdirty hurls hwrites hserve
  refine ⟨before, after, rs, later, earlier, h.incoming, h.responses, h.serve, ?_, h.recent⟩
  rw [FileStore.reopen, h.snapshot, h.limits]
  exact h.saved

/-- The message is in the snapshot that the second request led to. -/
theorem crash_window_burst :
    ∃ responses s, serve compactJson .standard ⟨.create .default, some (.new 2), 0, 0⟩ burst =
        .ok (responses, s) ∧
      ∃ before after rs later earlier, burst = before ++ after ∧ responses = rs ++ later ∧
        serve compactJson .standard ⟨.create .default, some (.new 2), 0, 0⟩ before =
          .ok (rs, earlier) ∧
        FileStore.Same earlier.store (s.store.reopen s.store.mail.limits) ∧
        List.Forall₂ (fun i r => r.status ≠ 429 → i.flushCheck < earlier.lastFlush + 1000)
          after later := by
  obtain ⟨responses, s, hserve, -⟩ := serve_did compactJson .standard
    ⟨.create .default, some (.new 2), 0, 0⟩ urls_burst
  exact ⟨responses, s, hserve, crash_window compactJson .standard (FileStore.clean_create _) rfl
    urls_burst (by decide) hserve⟩

end Server

end Http

end Clarity
