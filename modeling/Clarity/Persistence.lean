/-
  Clarity/Persistence.lean
  ========================
  **Restarting changes nothing.**  A session is written as two nested structs, with the
  cache of skipped keys flattened to a list; read back, it is the session it was.

  Two things have to be small enough for the length fields: the cache, which the ratchet
  caps, and the KEM ciphertext a pending handshake carries along.

    * `Session.Storable`, `Session.storable_of_reachable` — what the length fields need,
      and that every reachable session has it;
    * `Session.deserialize_serialize` — a stored session comes back as it was;
    * `reloads_change_nothing` — a run in which accounts and sessions are written out and
      read back anywhere answers every call as the run without.
-/
import Clarity.Prekeys

namespace Clarity

variable {C : Type} {P : Suite C}

/-! ## 1. How long an encoding is -/

namespace Codec

variable {α : Type} {c : Codec α} {n : Nat}

theorem length_le_enc (w m : Nat) : ((le w).enc m).length = w := length_leBytes w m

theorem length_u32 (m : UInt32) : (u32.enc m).length = 4 := length_leBytes 4 _

theorem length_bytes32 (a : Bytes32) : (bytes32.enc a).length = 32 := a.length_eq

theorem length_option (h : ∀ a, (c.enc a).length = n) (o : Option α) :
    (c.option.enc o).length ≤ 1 + n := by
  cases o with
  | none => exact Nat.le_add_right 1 n
  | some a => exact Nat.le_of_eq ((Nat.add_comm _ 1).trans (congrArg (1 + ·) (h a)))

theorem length_list (h : ∀ a, (c.enc a).length = n) (l : List α) :
    (c.list.enc l).length = 8 + l.length * n := by
  have hflat : (l.flatMap c.enc).length = l.length * n := by
    induction l with
    | nil => exact (Nat.zero_mul n).symm
    | cons a l ih =>
      rw [List.flatMap_cons, List.length_append, ih, h, List.length_cons, Nat.succ_mul,
        Nat.add_comm]
  exact (List.length_append ..).trans (congrArg (8 + ·) hflat)

end Codec

/-- The keys inside a session can be written and read back too, each as 32 bytes. -/
structure KeyCodecs.RestoresSessions (K : KeyCodecs P) : Prop extends K.Restores where
  key : ∀ k, K.key.Valid k
  length_key : ∀ k, (K.key.enc k).length = 32
  length_secret : ∀ s, (K.secret.enc s).length = 32

/-- ML-KEM-1024 ciphertexts have their one length. -/
def Suite.SizedCiphertexts (P : Suite C) : Prop :=
  ∀ publicKey coins ciphertext secret, P.kemEncapsulate publicKey coins = some (ciphertext, secret) →
    ciphertext.length = Suite.KYBER_CIPHERTEXT_LEN

/-! ## 2. The cache stays within its cap -/

namespace DoubleRatchet

/-- The cap is checked before every key that is cached. -/
theorem size_skipLoop {remote : Bytes32} {left : Nat} {ck : P.Key} {r : DoubleRatchet P}
    (h : r.skipped.size ≤ MAX_SKIPPED_CACHE) :
    (skipLoop remote left ck r).2.skipped.size ≤ MAX_SKIPPED_CACHE := by
  induction left generalizing ck r with
  | zero => exact h
  | succ left ih =>
    rw [skipLoop_succ]
    split
    · exact h
    · rename_i hroom
      apply ih
      have hins := Std.ExtTreeMap.size_insert_le (t := r.skipped) (k := (remote, r.nRecv))
        (v := (P.kdfCk ck).2)
      exact Nat.le_trans hins (Nat.lt_of_not_le hroom)

theorem size_skipMessageKeys {r : DoubleRatchet P} (upTo : UInt32)
    (h : r.skipped.size ≤ MAX_SKIPPED_CACHE) :
    (r.skipMessageKeys upTo).2.skipped.size ≤ MAX_SKIPPED_CACHE := by
  unfold skipMessageKeys
  split
  · exact h
  · rename_i ck _
    split
    · exact h
    · split
      · exact h
      · split
        · exact h
        · rename_i remote _
          have hloop : (skipLoop remote (upTo - r.nRecv).toNat ck r).2.skipped.size
              ≤ MAX_SKIPPED_CACHE := size_skipLoop h
          rcases hskip : skipLoop remote (upTo - r.nRecv).toNat ck r with ⟨e | ck', r'⟩
          · rw [hskip] at hloop
            exact hloop
          · rw [hskip] at hloop
            exact hloop

theorem size_decrypt {r : DoubleRatchet P} (h : r.skipped.size ≤ MAX_SKIPPED_CACHE)
    (fresh : P.Secret) (header : RatchetHeader) (ciphertext : C) (adPrefix : Bytes) :
    (r.decrypt fresh header ciphertext adPrefix).2.skipped.size ≤ MAX_SKIPPED_CACHE := by
  refine decrypt_preserves (fun r => r.skipped.size ≤ MAX_SKIPPED_CACHE) ?_ ?_ ?_ ?_ h ..
  · intro r slot h
    exact Nat.le_trans Std.ExtTreeMap.size_erase_le h
  · intro r upTo h
    exact size_skipMessageKeys upTo h
  · intro r fresh pub h
    exact h
  · intro r ciphertext ad h
    unfold openNext
    split
    · exact h
    · exact h

end DoubleRatchet

/-! ## 3. Sessions come back -/

namespace Session

theorem size_skipped_respond {me me' : Account P} {fresh : P.Secret} {m : Message C}
    {s : Session P} {p : Bytes} (h : respond me fresh m = (.ok (s, p), me')) :
    s.ratchet.skipped.size ≤ MAX_SKIPPED_CACHE := by
  obtain ⟨hs, header, ciphertext, root, spk, r, rfl, -, -, hdec, rfl⟩ := respond_ok_cases h
  have hsize := DoubleRatchet.size_decrypt (r := DoubleRatchet.initResponder root spk)
    (Nat.zero_le _) fresh header ciphertext (Clarity.adPrefix hs.identityEd me'.identityPublic)
  rw [hdec] at hsize
  exact hsize

theorem skipped_encrypt (s : Session P) (p : Bytes) :
    (s.encrypt p).2.ratchet.skipped = s.ratchet.skipped := by
  rw [ratchet_encrypt]
  unfold DoubleRatchet.encrypt
  split <;> rfl

theorem size_skipped_decrypt {s : Session P} (h : s.ratchet.skipped.size ≤ MAX_SKIPPED_CACHE)
    (fresh : P.Secret) (m : Message C) :
    (s.decrypt fresh m).2.ratchet.skipped.size ≤ MAX_SKIPPED_CACHE := by
  rw [ratchet_decrypt]
  exact DoubleRatchet.size_decrypt h ..

/-- The cap holds at every point of every run, whatever the peer sends. -/
theorem size_skipped_of_reachable {s : Session P} (h : s.Reachable) :
    s.ratchet.skipped.size ≤ MAX_SKIPPED_CACHE := by
  induction h with
  | initiated h =>
    obtain ⟨-, root, hs, spk, -, rfl⟩ := initiate_ok_cases h
    exact Nat.zero_le _
  | responded h => exact size_skipped_respond h
  | @step s op _ ih =>
    cases op with
    | encrypt p =>
      show (s.encrypt p).2.ratchet.skipped.size ≤ MAX_SKIPPED_CACHE
      rw [skipped_encrypt]
      exact ih
    | decrypt fresh m => exact size_skipped_decrypt ih fresh m

/-- The length fields of the two structs have room for the session. -/
structure Storable (s : Session P) : Prop where
  skipped : s.ratchet.skipped.size ≤ MAX_SKIPPED_CACHE
  adPrefix : s.adPrefix.length = 64
  handshake : ∀ hs ∈ s.pendingHandshake, hs.kyberCiphertext.length = Suite.KYBER_CIPHERTEXT_LEN

theorem length_adPrefix (a b : Bytes32) : (Clarity.adPrefix a b).length = 64 := by
  rw [Clarity.adPrefix, List.length_append, a.length_eq, b.length_eq]

theorem storable_initiate (hkem : P.SizedCiphertexts) {me : Account P} {bundle : PreKeyBundle}
    {rnd : InitiateRandom P} {s : Session P} (h : initiate me bundle rnd = .ok s) :
    s.Storable := by
  obtain ⟨-, root, hs, spk, hinit, rfl⟩ := initiate_ok_cases h
  obtain ⟨kyberSecret, hencap, -⟩ := Handshake.initiate_ok_cases hinit
  refine ⟨Nat.zero_le _, length_adPrefix _ _, ?_⟩
  intro hs' hmem
  obtain rfl := Option.some.inj hmem
  unfold Suite.encapsulate at hencap
  split at hencap
  · exact nomatch hencap
  · split at hencap
    · rename_i out hout
      obtain rfl := Except.ok.inj hencap
      exact hkem _ _ _ _ hout
    · exact nomatch hencap

theorem storable_respond {me me' : Account P} {fresh : P.Secret} {m : Message C} {s : Session P}
    {p : Bytes} (h : respond me fresh m = (.ok (s, p), me')) : s.Storable := by
  have hsize := size_skipped_respond h
  obtain ⟨hs, header, ciphertext, root, spk, r, rfl, -, -, hdec, rfl⟩ := respond_ok_cases h
  exact ⟨hsize, length_adPrefix _ _, fun _ hmem => nomatch hmem⟩

theorem Storable.encrypt {s : Session P} (h : s.Storable) (p : Bytes) :
    (s.encrypt p).2.Storable := by
  have hhandshake : (s.encrypt p).2.pendingHandshake = s.pendingHandshake := by
    unfold Session.encrypt
    split <;> rfl
  refine ⟨?_, ?_, ?_⟩
  · rw [skipped_encrypt]
    exact h.skipped
  · rw [adPrefix_encrypt]
    exact h.adPrefix
  · rw [hhandshake]
    exact h.handshake

theorem Storable.decrypt {s : Session P} (h : s.Storable) (fresh : P.Secret) (m : Message C) :
    (s.decrypt fresh m).2.Storable := by
  refine ⟨?_, ?_, ?_⟩
  · exact size_skipped_decrypt h.skipped fresh m
  · rw [adPrefix_decrypt]
    exact h.adPrefix
  · -- an accepted message ends the handshake, a rejected one keeps it
    unfold Session.decrypt
    split
    · exact h.handshake
    · exact fun _ hmem => nomatch hmem

/-- Every reachable session can be stored. -/
theorem storable_of_reachable (hkem : P.SizedCiphertexts) {s : Session P} (h : s.Reachable) :
    s.Storable := by
  induction h with
  | initiated h => exact storable_initiate hkem h
  | responded h => exact storable_respond h
  | step op _ ih =>
    cases op with
    | encrypt p => exact ih.encrypt p
    | decrypt fresh m => exact ih.decrypt fresh m

end Session

/-- The most bytes a stored ratchet takes, its cache full. -/
def maxStoredRatchet : Nat := 215 + MAX_SKIPPED_CACHE * 68

theorem DoubleRatchet.length_serialize {K : KeyCodecs P} (hK : K.RestoresSessions)
    {r : DoubleRatchet P} (h : r.skipped.size ≤ MAX_SKIPPED_CACHE) :
    (r.serialize K).length ≤ maxStoredRatchet := by
  have hremote := Codec.length_option Codec.length_bytes32 r.dhRemote
  have hsend := Codec.length_option hK.length_key r.chainSend
  have hrecv := Codec.length_option hK.length_key r.chainRecv
  have hentry : ∀ e, (((Codec.bytes32.pair Codec.u32).pair K.key).enc e).length = 68 := by
    intro e
    simp only [Codec.pair, List.length_append, Codec.length_bytes32, Codec.length_u32,
      hK.length_key]
  have hcache := Codec.length_list hentry r.skipped.toList
  rw [Std.ExtTreeMap.length_toList] at hcache
  have hmul := Nat.mul_le_mul_right 68 h
  simp only [serialize, StoredRatchet.codec, Codec.imap, Codec.pair, List.length_append,
    stored, hK.length_key, hK.length_secret, Codec.length_bytes32, Codec.length_u32] at *
  unfold maxStoredRatchet
  omega

theorem DoubleRatchet.deserialize_serialize {K : KeyCodecs P} (hK : K.RestoresSessions)
    {r : DoubleRatchet P} (h : r.skipped.size ≤ MAX_SKIPPED_CACHE) :
    deserialize K (r.serialize K) = .ok r := by
  have hcache : ((Codec.bytes32.pair Codec.u32).pair K.key).list.Valid r.skipped.toList := by
    refine ⟨?_, fun e _ => ⟨⟨trivial, Codec.u32_valid _⟩, hK.key _⟩⟩
    rw [Std.ExtTreeMap.length_toList]
    exact Nat.lt_of_le_of_lt h (by decide)
  have hvalid : (StoredRatchet.codec K).Valid r.stored :=
    ⟨hK.key _, hK.secret _, trivial, fun _ _ => trivial, fun _ _ => hK.key _,
      fun _ _ => hK.key _, Codec.u32_valid _, Codec.u32_valid _, Codec.u32_valid _, hcache⟩
  unfold deserialize serialize
  rw [Codec.dec_enc_nil _ hvalid]
  simp only [stored, collect_toList]

/-- **A stored session comes back as it was.** -/
theorem Session.deserialize_serialize {K : KeyCodecs P} (hK : K.RestoresSessions)
    {s : Session P} (h : s.Storable) : deserialize K (s.serialize K) = .ok s := by
  have hratchet : (s.ratchet.serialize K).length < 256 ^ 8 :=
    Nat.lt_of_le_of_lt (DoubleRatchet.length_serialize hK h.skipped) (by decide)
  have hprefix : s.adPrefix.length < 256 ^ 8 := by
    rw [h.adPrefix]
    decide
  have hhandshake : ∀ hs ∈ s.pendingHandshake, HandshakeHeader.codec.Valid hs := by
    intro hs hmem
    apply HandshakeHeader.codec_valid
    rw [h.handshake hs hmem]
    decide
  have hvalid : StoredSession.codec.Valid
      ⟨s.ratchet.serialize K, s.adPrefix, s.pendingHandshake⟩ := ⟨hratchet, hprefix, hhandshake⟩
  unfold deserialize serialize
  rw [Codec.dec_enc_nil _ hvalid]
  simp only [DoubleRatchet.deserialize_serialize hK h.skipped]

/-! ## 4. A caller of the plain API -/

/-- Accounts and sessions, as a caller of the plain API holds them. -/
structure Holdings (P : Suite C) where
  accounts : List (Account P)
  sessions : List (Session P)

namespace Holdings

/-- A call, on the account or the session with the given number. -/
inductive Call (P : Suite C) where
  | createAccount (rnd : Account.GenerateRandom P)
  | accountBundle (account : Nat)
  | initiate (account : Nat) (bundle : PreKeyBundle) (rnd : Session.InitiateRandom P)
  | respond (account : Nat) (fresh : P.Secret) (firstMessage : Message C)
  | encrypt (session : Nat) (plaintext : Bytes)
  | decrypt (session : Nat) (fresh : P.Secret) (message : Message C)

/-- What the caller sees of it. -/
inductive Reply (C : Type) where
  | created (identity : Bytes32)
  | bundle (result : Result (PreKeyBundle × List (UInt32 × Bytes32)))
  | initiated (result : Result Unit)
  | responded (result : Result Bytes)
  | sent (result : Result (Message C))
  | received (result : Result Bytes)
  | replenished (ids : List UInt32)
  /-- There is no account or session with that number. -/
  | absent

/-- The state a call leaves behind, when failing calls are rolled back and when not. -/
def settle {σ α : Type} (undo : Bool) (old : σ) (o : Outcome σ α) : σ :=
  match o.1 with
  | .ok _ => o.2
  | .error _ => if undo then old else o.2

def call (undo : Bool) (h : Holdings P) : Call P → Reply C × Holdings P
  | .createAccount rnd =>
    let account := Account.generate rnd
    (.created account.identityPublic, { h with accounts := h.accounts ++ [account] })
  | .accountBundle i =>
    match h.accounts[i]? with
    | none => (.absent, h)
    | some a => (.bundle (.ok (a.bundleBase, a.oneTimePrekeyPublics)), h)
  | .initiate i bundle rnd =>
    match h.accounts[i]? with
    | none => (.absent, h)
    | some a =>
      match Session.initiate a bundle rnd with
      | .error e => (.initiated (.error e), h)
      | .ok s => (.initiated (.ok ()), { h with sessions := h.sessions ++ [s] })
  | .respond i fresh m =>
    match h.accounts[i]? with
    | none => (.absent, h)
    | some a =>
      let o := Session.respond a fresh m
      let accounts := h.accounts.set i (settle undo a o)
      match o.1 with
      | .error e => (.responded (.error e), { h with accounts := accounts })
      | .ok (s, p) => (.responded (.ok p), ⟨accounts, h.sessions ++ [s]⟩)
  | .encrypt j p =>
    match h.sessions[j]? with
    | none => (.absent, h)
    | some s =>
      let o := s.encrypt p
      (.sent o.1, { h with sessions := h.sessions.set j (settle undo s o) })
  | .decrypt j fresh m =>
    match h.sessions[j]? with
    | none => (.absent, h)
    | some s =>
      let o := s.decrypt fresh m
      (.received o.1, { h with sessions := h.sessions.set j (settle undo s o) })

/-- A step of a caller that also mints prekeys, and writes accounts and sessions out and
    reads them back. -/
inductive Step (P : Suite C) where
  | call (c : Call P)
  | replenish (account : Nat) (secrets : List P.Secret)
  | reloadAccount (account : Nat)
  | reloadSession (session : Nat)

def Step.isReload : Step P → Bool
  | .call _ | .replenish .. => false
  | .reloadAccount _ | .reloadSession _ => true

/-- The replies of a step and what it leaves, unless something cannot be read back. -/
def step (K : KeyCodecs P) (h : Holdings P) : Step P → Option (List (Reply C) × Holdings P)
  | .call c => some ([(h.call false c).1], (h.call false c).2)
  | .replenish i secrets =>
    match h.accounts[i]? with
    | none => some ([.absent], h)
    | some a => some ([.replenished (Account.idsFrom a.nextOpkId secrets.length)],
        { h with accounts := h.accounts.set i (a.replenishOneTimePrekeys secrets) })
  | .reloadAccount i =>
    match h.accounts[i]? with
    | none => some ([], h)
    | some a =>
      match Account.fromBytes K (a.toBytes K) with
      | .error _ => none
      | .ok a => some ([], { h with accounts := h.accounts.set i a })
  | .reloadSession j =>
    match h.sessions[j]? with
    | none => some ([], h)
    | some s =>
      match Session.deserialize K (s.serialize K) with
      | .error _ => none
      | .ok s => some ([], { h with sessions := h.sessions.set j s })

def run (K : KeyCodecs P) (h : Holdings P) : List (Step P) → Option (List (Reply C) × Holdings P)
  | [] => some ([], h)
  | s :: rest => do
    let (replies, h) ← h.step K s
    let (more, h) ← run K h rest
    return (replies ++ more, h)

/-- Every session can be stored. -/
def Storable (h : Holdings P) : Prop := ∀ s ∈ h.sessions, s.Storable

theorem Storable.set {h : Holdings P} (hs : h.Storable) {s : Session P} (hnew : s.Storable)
    (j : Nat) (accounts : List (Account P)) : Storable ⟨accounts, h.sessions.set j s⟩ := by
  intro t ht
  rcases List.mem_or_eq_of_mem_set ht with ht | rfl
  · exact hs t ht
  · exact hnew

theorem Storable.add {h : Holdings P} (hs : h.Storable) {s : Session P} (hnew : s.Storable)
    (accounts : List (Account P)) : Storable ⟨accounts, h.sessions ++ [s]⟩ := by
  intro t ht
  rcases List.mem_append.mp ht with ht | ht
  · exact hs t ht
  · rw [List.mem_singleton.mp ht]
    exact hnew

theorem settle_of {σ α : Type} {I : σ → Prop} {undo : Bool} {old : σ} {o : Outcome σ α}
    (hold : I old) (hnew : I o.2) : I (settle undo old o) := by
  unfold settle
  split
  · exact hnew
  · split
    · exact hold
    · exact hnew

/-- Sessions stay storable, whether or not failing calls are rolled back. -/
theorem Storable.call (hkem : P.SizedCiphertexts) {undo : Bool} {h : Holdings P}
    (hs : h.Storable) (c : Call P) : (h.call undo c).2.Storable := by
  cases c with
  | createAccount rnd => exact hs
  | accountBundle i =>
    rw [Holdings.call]
    split <;> exact hs
  | initiate i bundle rnd =>
    rw [Holdings.call]
    split
    · exact hs
    · split
      · exact hs
      · rename_i hinit
        exact hs.add (Session.storable_initiate hkem hinit) _
  | respond i fresh m =>
    rw [Holdings.call]
    split
    · exact hs
    · rename_i a _
      dsimp only
      split
      · exact hs
      · rename_i s p hok
        exact hs.add (Session.storable_respond (Prod.ext hok rfl)) _
  | encrypt j p =>
    rw [Holdings.call]
    split
    · exact hs
    · rename_i s hget
      have hold := hs s (List.mem_of_getElem? hget)
      exact hs.set (settle_of hold (hold.encrypt p)) j _
  | decrypt j fresh m =>
    rw [Holdings.call]
    split
    · exact hs
    · rename_i s hget
      have hold := hs s (List.mem_of_getElem? hget)
      exact hs.set (settle_of hold (hold.decrypt fresh m)) j _

theorem set_of_getElem? {α : Type} {l : List α} {i : Nat} {a : α} (h : l[i]? = some a) :
    l.set i a = l := by
  obtain ⟨hlt, rfl⟩ := List.getElem?_eq_some_iff.mp h
  exact List.set_getElem_self hlt

/-- A reload succeeds and leaves everything as it was. -/
theorem step_of_isReload {K : KeyCodecs P} (hK : K.RestoresSessions) {h : Holdings P}
    (hs : h.Storable) {s : Step P} (hreload : s.isReload = true) : h.step K s = some ([], h) := by
  cases s with
  | call | replenish => exact nomatch hreload
  | reloadAccount i =>
    rw [step]
    split
    · rfl
    · rename_i a hget
      simp only [Account.fromBytes_toBytes hK.toRestores, set_of_getElem? hget]
  | reloadSession j =>
    rw [step]
    split
    · rfl
    · rename_i s hget
      simp only [Session.deserialize_serialize hK (hs s (List.mem_of_getElem? hget)),
        set_of_getElem? hget]

/-- Any other step answers, and keeps the sessions storable. -/
theorem step_of_not_isReload (hkem : P.SizedCiphertexts) {K : KeyCodecs P} {h : Holdings P}
    (hs : h.Storable) {s : Step P} (hcall : s.isReload = false) :
    ∃ replies h', h.step K s = some (replies, h') ∧ h'.Storable := by
  cases s with
  | call c => exact ⟨_, _, rfl, hs.call hkem c⟩
  | replenish i secrets =>
    rw [step]
    split
    · exact ⟨_, _, rfl, hs⟩
    · exact ⟨_, _, rfl, hs⟩
  | reloadAccount | reloadSession => exact nomatch hcall

/-- The run without the reloads, in the same words. -/
theorem run_eq_run_calls (hkem : P.SizedCiphertexts) {K : KeyCodecs P}
    (hK : K.RestoresSessions) {h : Holdings P} (hs : h.Storable) (steps : List (Step P)) :
    ∃ replies h', run K h steps = some (replies, h') ∧
      run K h (steps.filter fun s => !s.isReload) = some (replies, h') := by
  induction steps generalizing h with
  | nil => exact ⟨[], h, rfl, rfl⟩
  | cons s steps ih =>
    cases hreload : s.isReload with
    | true =>
      obtain ⟨replies, h', hrun, hcalls⟩ := ih hs
      refine ⟨replies, h', ?_, ?_⟩
      · rw [run, step_of_isReload hK hs hreload]
        exact (congrArg (Option.bind · _) hrun).trans rfl
      · rw [List.filter_cons_of_neg (by simp [hreload])]
        exact hcalls
    | false =>
      obtain ⟨first, h₁, hstep, hs₁⟩ := step_of_not_isReload hkem (K := K) hs hreload
      obtain ⟨replies, h', hrun, hcalls⟩ := ih hs₁
      refine ⟨first ++ replies, h', ?_, ?_⟩
      · rw [run, hstep]
        exact (congrArg (Option.bind · _) hrun).trans rfl
      · rw [List.filter_cons_of_pos (by simp [hreload]), run, hstep]
        exact (congrArg (Option.bind · _) hcalls).trans rfl

/-- **Persistence is transparent.**  Every reachable session and every account comes back
    from its bytes as it was, and a run gives the same replies, and ends in the same
    state, wherever accounts and sessions are written out and read back. -/
theorem reloads_change_nothing (hkem : P.SizedCiphertexts) {K : KeyCodecs P}
    (hK : K.RestoresSessions) :
    (∀ s : Session P, s.Reachable → Session.deserialize K (s.serialize K) = .ok s) ∧
    (∀ a : Account P, Account.fromBytes K (a.toBytes K) = .ok a) ∧
    (∀ steps : List (Step P), ∃ replies h, run K ⟨[], []⟩ steps = some (replies, h) ∧
      run K ⟨[], []⟩ (steps.filter fun s => !s.isReload) = some (replies, h)) := by
  refine ⟨?_, ?_, ?_⟩
  · intro s hs
    exact Session.deserialize_serialize hK (Session.storable_of_reachable hkem hs)
  · intro a
    exact Account.fromBytes_toBytes hK.toRestores a
  · intro steps
    exact run_eq_run_calls hkem hK (fun _ hs => absurd hs List.not_mem_nil) steps

end Holdings

/-! ## 5. A suite with keys of one length -/

section Sample

def Bytes32.ofBytes (b : Bytes) : Bytes32 := ⟨lastBytes b, length_lastBytes b⟩

/-- Keys of 32 bytes, as in the code; a ciphertext is its key, its associated data and
    its plaintext. -/
def Suite.fixed : Suite Bytes where
  Secret := Bytes32
  Shared := Bytes
  Key := Bytes32
  Material := Bytes32
  SigningKey := Bytes32
  DecapKey := UInt8
  publicKey s := s
  diffieHellman s p := List.zipWith (· + ·) s.bytes p.bytes
  hmac key data := .ofBytes (key.bytes ++ data)
  hkdf32 _ ikm _ := .ofBytes ikm.flatten
  hkdf64 salt ikm _ := (.ofBytes (salt.bytes ++ ikm), .ofBytes (ikm ++ [4]))
  hkdf56 ikm _ := ikm
  xchachaEncrypt m msg aad := delimited m.bytes ++ delimited aad ++ msg
  xchachaDecrypt m c aad := unframed (delimited m.bytes ++ delimited aad) c
  verifyingKey k := k
  isVerifyingKey _ := true
  sign k msg := k.bytes ++ lastBytes msg
  verify vk msg sig := sig == vk.bytes ++ lastBytes msg
  encapsulationKey k := List.replicate Suite.KYBER_PUBLIC_LEN k
  kemEncapsulate pk coins :=
    let c := coins.bytes.headD 0
    some (List.replicate Suite.KYBER_CIPHERTEXT_LEN c, [pk.headD 0, c])
  kemDecapsulate k ct := some [k, ct.headD 0]

theorem fixed_sizedCiphertexts : Suite.fixed.SizedCiphertexts := by
  intro publicKey coins ciphertext secret h
  obtain ⟨rfl, rfl⟩ := Prod.mk.inj (Option.some.inj h)
  exact List.length_replicate

def fixedCodecs : KeyCodecs Suite.fixed where
  key := Codec.bytes32
  secret := Codec.bytes32
  signingKey := Codec.bytes32
  privateBytes k := [k]
  fromPrivateBytes b := b.head?

theorem fixedCodecs_restoresSessions : fixedCodecs.RestoresSessions where
  secret _ := trivial
  signingKey _ := trivial
  fromPrivateBytes _ := rfl
  length_privateBytes _ := by
    show 1 < 256 ^ 8
    decide
  key _ := trivial
  length_key := Codec.length_bytes32
  length_secret := Codec.length_bytes32

def fixedGenerate (k : UInt8) : Account.GenerateRandom Suite.fixed where
  edSigning := .ofByte k
  dhIdentity := .ofByte (k + 1)
  signedPrekey := .ofByte (k + 2)
  kyber := k
  oneTimePrekeys := List.replicate DEFAULT_ONE_TIME_PREKEYS.toNat (.ofByte (k + 3))
  length_oneTimePrekeys := List.length_replicate

def fixedRandom : Session.InitiateRandom Suite.fixed where
  ephemeral := .ofByte 50
  coins := .ofByte 7
  ratchet := .ofByte 60

/-- Two accounts and a session of the first with the second, everything reloaded before it
    is used again. -/
def reloadedSteps : List (Holdings.Step Suite.fixed) :=
  [.call (.createAccount (fixedGenerate 10)), .call (.createAccount (fixedGenerate 30)),
    .reloadAccount 0, .call (.initiate 0 (Account.generate (fixedGenerate 30)).bundle fixedRandom),
    .reloadSession 0, .call (.encrypt 0 [1]), .reloadSession 0, .call (.encrypt 0 [2])]

theorem reloads_change_nothing_fixed : ∃ replies h,
    Holdings.run fixedCodecs ⟨[], []⟩ reloadedSteps = some (replies, h) ∧
      Holdings.run fixedCodecs ⟨[], []⟩ (reloadedSteps.filter fun s => !s.isReload)
        = some (replies, h) :=
  (Holdings.reloads_change_nothing fixed_sizedCiphertexts fixedCodecs_restoresSessions).2.2 _

end Sample

end Clarity
