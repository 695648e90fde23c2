/-
  Clarity/Enclave.lean
  ====================
  **The enclave boundary** (`core/src/enclave.rs`): sealed state in, sealed state
  out, and the `(key, nonce)` pairs the sealing uses.

  `aead_seal` derives its nonce from the key it is given, so it is meant for keys
  that are used once (`core/src/kdf.rs`: "every message key is unique").  The
  enclave gives it the one `seal_key` every time.

  A seal is recorded as a `Sealing` — the AEAD pair, the plaintext and the
  context — and the blob the host gets is a function of it, so a run of the
  enclave is the list of its sealings.

    * `material_of_run` — every seal of every run uses one and the same pair;
    * `singleSeal_noReuse` — so a run keeps the pair single-use exactly as long
      as it seals one plaintext: when a single account is created and every call
      that would seal anything after it is refused;
    * `pair_reused` — creating an account and opening one session breaks it.
-/
import Clarity.Sample

namespace Clarity

/-! ## 1. The operations -/

def SEAL_AD_ACCOUNT : Bytes := ascii "Clarity-seal-account-v1"
def SEAL_AD_SESSION : Bytes := ascii "Clarity-seal-session-v1"

variable {C : Type} {P : Suite C}

/-- The holder of the sealing key. -/
structure Enclave (P : Suite C) where
  sealKey : P.Key

/-- One use of the AEAD under the sealing key. -/
structure Sealing (P : Suite C) where
  material : P.Material
  plaintext : Bytes
  context : Bytes

/-- `Sealed`: what the host sees of it. -/
def Sealing.blob (s : Sealing P) : C := P.xchachaEncrypt s.material s.plaintext s.context

namespace Enclave

variable (K : KeyCodecs P) (e : Enclave P)

/-- `seal_secret`; its blob is `aead_seal(&self.seal_key, plaintext, context)`. -/
def sealSecret (context plaintext : Bytes) : Sealing P where
  material := P.deriveMessageMaterial e.sealKey
  plaintext := plaintext
  context := context

theorem blob_sealSecret (context plaintext : Bytes) :
    (e.sealSecret context plaintext).blob = P.aeadSeal e.sealKey plaintext context := rfl

def openAccount (blob : C) : Result (Account P) := do
  let bytes ← P.aeadOpen e.sealKey blob SEAL_AD_ACCOUNT
  Account.fromBytes K bytes

def openSession (blob : C) : Result (Session P) := do
  let bytes ← P.aeadOpen e.sealKey blob SEAL_AD_SESSION
  Session.deserialize K bytes

/-- Create a new identity inside the enclave. -/
def createAccount (rnd : Account.GenerateRandom P) : Sealing P × Bytes32 :=
  let account := Account.generate rnd
  (e.sealSecret SEAL_AD_ACCOUNT (account.toBytes K), account.identityPublic)

/-- The public prekey material of a sealed account. -/
def accountBundle (sealedAccount : C) : Result (PreKeyBundle × List (UInt32 × Bytes32)) := do
  let account ← e.openAccount K sealedAccount
  return (account.bundleBase, account.oneTimePrekeyPublics)

def initiate (sealedAccount : C) (bundle : PreKeyBundle) (rnd : Session.InitiateRandom P) :
    Result (Sealing P) := do
  let account ← e.openAccount K sealedAccount
  let session ← Session.initiate account bundle rnd
  return e.sealSecret SEAL_AD_SESSION (session.serialize K)

/-- Accept an inbound first message: the account is sealed again, since a one-time
    prekey was consumed. -/
def respond (sealedAccount : C) (fresh : P.Secret) (firstMessage : Message C) :
    Result (Sealing P × Sealing P × Bytes) := do
  let account ← e.openAccount K sealedAccount
  let (result, account) := Session.respond account fresh firstMessage
  let (session, plaintext) ← result
  let newAccount := e.sealSecret SEAL_AD_ACCOUNT (account.toBytes K)
  let sealedSession := e.sealSecret SEAL_AD_SESSION (session.serialize K)
  return (newAccount, sealedSession, plaintext)

def encrypt (sealedSession : C) (plaintext : Bytes) : Result (Sealing P × Message C) := do
  let session ← e.openSession K sealedSession
  let (result, session) := session.encrypt plaintext
  let message ← result
  return (e.sealSecret SEAL_AD_SESSION (session.serialize K), message)

def decrypt (sealedSession : C) (fresh : P.Secret) (message : Message C) :
    Result (Sealing P × Bytes) := do
  let session ← e.openSession K sealedSession
  let (result, session) := session.decrypt fresh message
  let plaintext ← result
  return (e.sealSecret SEAL_AD_SESSION (session.serialize K), plaintext)

/-! ## 2. Runs -/

/-- A call of the host. -/
inductive Call (P : Suite C) where
  | createAccount (rnd : Account.GenerateRandom P)
  | accountBundle (sealedAccount : C)
  | initiate (sealedAccount : C) (bundle : PreKeyBundle) (rnd : Session.InitiateRandom P)
  | respond (sealedAccount : C) (fresh : P.Secret) (firstMessage : Message C)
  | encrypt (sealedSession : C) (plaintext : Bytes)
  | decrypt (sealedSession : C) (fresh : P.Secret) (message : Message C)

/-- The blob a call hands in. -/
def Call.blob : Call P → Option C
  | createAccount _ => none
  | accountBundle b => some b
  | initiate b _ _ => some b
  | respond b _ _ => some b
  | encrypt b _ => some b
  | decrypt b _ _ => some b

/-- The sealings a call makes; every one of them goes back to the host. -/
def seals : Call P → List (Sealing P)
  | .createAccount rnd => [(e.createAccount K rnd).1]
  | .accountBundle _ => []
  | .initiate b bundle rnd =>
    match e.initiate K b bundle rnd with
    | .ok session => [session]
    | .error _ => []
  | .respond b fresh m =>
    match e.respond K b fresh m with
    | .ok (account, session, _) => [account, session]
    | .error _ => []
  | .encrypt b p =>
    match e.encrypt K b p with
    | .ok (session, _) => [session]
    | .error _ => []
  | .decrypt b fresh m =>
    match e.decrypt K b fresh m with
    | .ok (session, _) => [session]
    | .error _ => []

/-- The runs of an enclave whose calls all meet `Cond`, as the sealings made so far.
    The host hands in only blobs the enclave returned. -/
inductive Run (Cond : List (Sealing P) → Call P → Prop) : List (Sealing P) → Prop where
  | start : Run Cond []
  | call {log : List (Sealing P)} (c : Call P) :
      Run Cond log → (∀ b ∈ c.blob, b ∈ log.map Sealing.blob) → Cond log c →
      Run Cond (log ++ e.seals K c)

/-- No pair is used for two different plaintexts. -/
def NoReuse (log : List (Sealing P)) : Prop :=
  ∀ s ∈ log, ∀ t ∈ log, s.material = t.material → s.plaintext = t.plaintext

/-- The call stops before it seals: the blob does not open, or the account or the
    session in it refuses the input. -/
def Refuses : Call P → Prop
  | .createAccount _ => False
  | .accountBundle _ => True
  | .initiate b bundle rnd => ∀ account, e.openAccount K b = .ok account →
      ∃ err, Session.initiate account bundle rnd = .error err
  | .respond b fresh m => ∀ account, e.openAccount K b = .ok account →
      ∃ err, (Session.respond account fresh m).1 = .error err
  | .encrypt b p => ∀ session, e.openSession K b = .ok session →
      ∃ err, (session.encrypt p).1 = .error err
  | .decrypt b fresh m => ∀ session, e.openSession K b = .ok session →
      ∃ err, (session.decrypt fresh m).1 = .error err

/-- The call is refused, or it creates the only account there is. -/
def Admits (log : List (Sealing P)) (c : Call P) : Prop :=
  e.Refuses K c ∨ ∃ rnd, c = .createAccount rnd ∧
    ∀ s ∈ log, s.plaintext = (Account.generate rnd).toBytes K

/-! ## 3. What a call seals -/

variable {K e}

theorem initiate_ok_cases {b : C} {bundle : PreKeyBundle} {rnd : Session.InitiateRandom P}
    {s : Sealing P} (h : e.initiate K b bundle rnd = .ok s) :
    ∃ account session, e.openAccount K b = .ok account ∧
      Session.initiate account bundle rnd = .ok session ∧
      s = e.sealSecret SEAL_AD_SESSION (session.serialize K) := by
  unfold initiate at h
  cases hopen : e.openAccount K b with
  | error err => simp [hopen, bind, Except.bind] at h
  | ok account =>
    cases hinit : Session.initiate account bundle rnd with
    | error err => simp [hopen, hinit, bind, Except.bind] at h
    | ok session =>
      simp only [hopen, hinit, bind, Except.bind, pure, Except.pure, Except.ok.injEq] at h
      exact ⟨account, session, rfl, hinit, h.symm⟩

theorem respond_ok_cases {b : C} {fresh : P.Secret} {m : Message C} {s t : Sealing P} {p : Bytes}
    (h : e.respond K b fresh m = .ok (s, t, p)) :
    ∃ account session account', e.openAccount K b = .ok account ∧
      Session.respond account fresh m = (.ok (session, p), account') ∧
      s = e.sealSecret SEAL_AD_ACCOUNT (account'.toBytes K) ∧
      t = e.sealSecret SEAL_AD_SESSION (session.serialize K) := by
  unfold respond at h
  cases hopen : e.openAccount K b with
  | error err => simp [hopen, bind, Except.bind] at h
  | ok account =>
    rcases hresp : Session.respond account fresh m with ⟨_ | ⟨session, q⟩, account'⟩
    · simp [hopen, hresp, bind, Except.bind] at h
    · simp only [hopen, hresp, bind, Except.bind, pure, Except.pure, Except.ok.injEq,
        Prod.mk.injEq] at h
      obtain ⟨hs, ht, rfl⟩ := h
      exact ⟨account, session, account', rfl, hresp, hs.symm, ht.symm⟩

theorem encrypt_ok_cases {b : C} {p : Bytes} {s : Sealing P} {m : Message C}
    (h : e.encrypt K b p = .ok (s, m)) :
    ∃ session session', e.openSession K b = .ok session ∧
      session.encrypt p = (.ok m, session') ∧
      s = e.sealSecret SEAL_AD_SESSION (session'.serialize K) := by
  unfold encrypt at h
  cases hopen : e.openSession K b with
  | error err => simp [hopen, bind, Except.bind] at h
  | ok session =>
    rcases henc : session.encrypt p with ⟨_ | m', session'⟩
    · simp [hopen, henc, bind, Except.bind] at h
    · simp only [hopen, henc, bind, Except.bind, pure, Except.pure, Except.ok.injEq,
        Prod.mk.injEq] at h
      obtain ⟨hs, rfl⟩ := h
      exact ⟨session, session', rfl, henc, hs.symm⟩

theorem decrypt_ok_cases {b : C} {fresh : P.Secret} {m : Message C} {s : Sealing P} {p : Bytes}
    (h : e.decrypt K b fresh m = .ok (s, p)) :
    ∃ session session', e.openSession K b = .ok session ∧
      session.decrypt fresh m = (.ok p, session') ∧
      s = e.sealSecret SEAL_AD_SESSION (session'.serialize K) := by
  unfold decrypt at h
  cases hopen : e.openSession K b with
  | error err => simp [hopen, bind, Except.bind] at h
  | ok session =>
    rcases hdec : session.decrypt fresh m with ⟨_ | p', session'⟩
    · simp [hopen, hdec, bind, Except.bind] at h
    · simp only [hopen, hdec, bind, Except.bind, pure, Except.pure, Except.ok.injEq,
        Prod.mk.injEq] at h
      obtain ⟨hs, rfl⟩ := h
      exact ⟨session, session', rfl, hdec, hs.symm⟩

/-- A sealing was made under the enclave's one pair, by a call that was not
    refused. -/
theorem seals_cases {c : Call P} {s : Sealing P} (h : s ∈ e.seals K c) :
    (∃ context plaintext, s = e.sealSecret context plaintext) ∧ ¬ e.Refuses K c := by
  cases c with
  | createAccount rnd =>
    simp only [seals, List.mem_singleton] at h
    exact ⟨⟨_, _, h⟩, fun hfalse => hfalse⟩
  | accountBundle b => simp [seals] at h
  | initiate b bundle rnd =>
    simp only [seals] at h
    split at h
    · rename_i session hok
      obtain ⟨account, session', hopen, hinit, rfl⟩ := initiate_ok_cases hok
      simp only [List.mem_singleton] at h
      refine ⟨⟨_, _, h⟩, ?_⟩
      intro hrefuses
      obtain ⟨err, herr⟩ := hrefuses account hopen
      simp [hinit] at herr
    · simp at h
  | respond b fresh m =>
    simp only [seals] at h
    split at h
    · rename_i s1 s2 p hok
      obtain ⟨account, session, account', hopen, hresp, rfl, rfl⟩ := respond_ok_cases hok
      constructor
      · simp only [List.mem_cons, List.not_mem_nil, or_false] at h
        rcases h with h | h
        · exact ⟨_, _, h⟩
        · exact ⟨_, _, h⟩
      · intro hrefuses
        obtain ⟨err, herr⟩ := hrefuses account hopen
        simp [hresp] at herr
    · simp at h
  | encrypt b p =>
    simp only [seals] at h
    split at h
    · rename_i s' m hok
      obtain ⟨session, session', hopen, henc, rfl⟩ := encrypt_ok_cases hok
      simp only [List.mem_singleton] at h
      refine ⟨⟨_, _, h⟩, ?_⟩
      intro hrefuses
      obtain ⟨err, herr⟩ := hrefuses session hopen
      simp [henc] at herr
    · simp at h
  | decrypt b fresh m =>
    simp only [seals] at h
    split at h
    · rename_i s' p hok
      obtain ⟨session, session', hopen, hdec, rfl⟩ := decrypt_ok_cases hok
      simp only [List.mem_singleton] at h
      refine ⟨⟨_, _, h⟩, ?_⟩
      intro hrefuses
      obtain ⟨err, herr⟩ := hrefuses session hopen
      simp [hdec] at herr
    · simp at h

/-! ## 4. One pair for everything -/

/-- **The sealing pair never changes.**  Every seal of every run uses the pair that
    the sealing key expands to. -/
theorem material_of_run {Cond : List (Sealing P) → Call P → Prop} {log : List (Sealing P)}
    (hrun : e.Run K Cond log) : ∀ s ∈ log, s.material = P.deriveMessageMaterial e.sealKey := by
  induction hrun with
  | start => simp
  | call c _ _ _ ih =>
    intro s hs
    rcases List.mem_append.mp hs with hold | hnew
    · exact ih s hold
    · obtain ⟨⟨context, plaintext, rfl⟩, _⟩ := seals_cases hnew
      rfl

/-- A run of admitted calls seals one plaintext, however often. -/
theorem plaintext_of_admitted {log : List (Sealing P)} (hrun : e.Run K (e.Admits K) log) :
    ∃ p, ∀ s ∈ log, s.plaintext = p := by
  induction hrun with
  | start => exact ⟨[], by simp⟩
  | call c _ _ hcond ih =>
    rcases hcond with hrefuses | ⟨rnd, rfl, hsame⟩
    · -- a refused call seals nothing
      obtain ⟨p, hp⟩ := ih
      refine ⟨p, ?_⟩
      intro s hs
      rcases List.mem_append.mp hs with hold | hnew
      · exact hp s hold
      · exact absurd hrefuses (seals_cases hnew).2
    · refine ⟨(Account.generate rnd).toBytes K, ?_⟩
      intro s hs
      rcases List.mem_append.mp hs with hold | hnew
      · exact hsame s hold
      · simp only [seals, List.mem_singleton] at hnew
        subst hnew
        rfl

/-- **When sealing does not reuse a pair.**  A run in which one account is created and
    every other call is refused never seals two plaintexts under one pair; and
    whatever the run, all its seals share the pair, so it has that property only
    if it never seals two plaintexts at all. -/
theorem singleSeal_noReuse (K : KeyCodecs P) (e : Enclave P) :
    (∀ log, e.Run K (e.Admits K) log → NoReuse log) ∧
    (∀ log, e.Run K (fun _ _ => True) log →
      (NoReuse log ↔ ∀ s ∈ log, ∀ t ∈ log, s.plaintext = t.plaintext)) := by
  constructor
  · intro log hrun s hs t ht _
    obtain ⟨p, hp⟩ := plaintext_of_admitted hrun
    rw [hp s hs, hp t ht]
  · intro log hrun
    constructor
    · intro hno s hs t ht
      exact hno s hs t ht (by rw [material_of_run hrun s hs, material_of_run hrun t ht])
    · intro hsame s hs t ht _
      exact hsame s hs t ht

/-! ## 5. Opening a session reuses the pair -/

/-- Draws for an account of the sample suite. -/
def sampleGenerate (k : UInt8) : Account.GenerateRandom Suite.sample where
  edSigning := k
  dhIdentity := k + 1
  signedPrekey := k + 2
  kyber := k + 3
  oneTimePrekeys := List.replicate DEFAULT_ONE_TIME_PREKEYS.toNat k
  length_oneTimePrekeys := List.length_replicate

def sampleEnclave : Enclave Suite.sample := ⟨[9]⟩

/-- The blob of the sample account. -/
def sampleBlob : Bytes := (sampleEnclave.createAccount sampleCodecs (sampleGenerate 10)).1.blob

/-- The sealing of a session that the sample account opens with Bob. -/
def sampleOpened : Option (Sealing Suite.sample) :=
  (sampleEnclave.initiate sampleCodecs sampleBlob sampleBob.bundle sampleRandom).toOption

/-- Creating an account and opening one session on its blob seals the account and the
    session under one pair. -/
theorem pair_reused :
    ¬ ∀ log, sampleEnclave.Run sampleCodecs (fun _ _ => True) log → NoReuse log := by
  intro hall
  have hany : (sampleOpened.any fun s =>
      decide (s.plaintext ≠ (Account.generate (sampleGenerate 10)).toBytes sampleCodecs)) = true := by
    decide +kernel
  obtain ⟨s, hs, hne⟩ := (Option.any_eq_true _ _).mp hany
  have hok : sampleEnclave.initiate sampleCodecs sampleBlob sampleBob.bundle sampleRandom =
      .ok s := by
    unfold sampleOpened at hs
    cases hinit : sampleEnclave.initiate sampleCodecs sampleBlob sampleBob.bundle sampleRandom with
    | error err => simp [hinit, Except.toOption] at hs
    | ok t => simpa [hinit, Except.toOption] using hs
  have hcreated : sampleEnclave.Run sampleCodecs (fun _ _ => True) _ :=
    .call (.createAccount (sampleGenerate 10)) .start (by simp [Call.blob]) trivial
  have hopened := Run.call (.initiate sampleBlob sampleBob.bundle sampleRandom) hcreated
    (by simp [Call.blob, seals, sampleBlob]) trivial
  have hseals : sampleEnclave.seals sampleCodecs
      (.initiate sampleBlob sampleBob.bundle sampleRandom) = [s] := by
    simp only [seals, hok]
  rw [hseals] at hopened
  -- the two sealings of the run: the session and the account
  have hsame := hall _ hopened s (by simp)
    (sampleEnclave.createAccount sampleCodecs (sampleGenerate 10)).1 (by simp [seals])
    (material_of_run hopened s (by simp))
  exact of_decide_eq_true hne hsame

/-- One account, and a session refused because a signature of the bundle does not
    verify. -/
theorem singleSeal_noReuse_sample :
    ∃ log, sampleEnclave.Run sampleCodecs (sampleEnclave.Admits sampleCodecs) log ∧
      log.length = 1 ∧ NoReuse log := by
  have hcreated : sampleEnclave.Run sampleCodecs (sampleEnclave.Admits sampleCodecs) _ :=
    .call (.createAccount (sampleGenerate 10)) .start (by simp [Call.blob])
      (Or.inr ⟨_, rfl, by simp⟩)
  have hrefuses : sampleEnclave.Refuses sampleCodecs
      (.initiate sampleBlob { sampleBob.bundle with identityDhSig := [] } sampleRandom) := by
    intro account _
    exact ⟨.badSignature, rfl⟩
  have hrun := Run.call _ hcreated (by simp [Call.blob, seals, sampleBlob]) (Or.inl hrefuses)
  have hseals : sampleEnclave.seals sampleCodecs
      (.initiate sampleBlob { sampleBob.bundle with identityDhSig := [] } sampleRandom) = [] := by
    apply List.eq_nil_iff_forall_not_mem.mpr
    intro s hs
    exact (seals_cases hs).2 hrefuses
  rw [hseals, List.append_nil] at hrun
  exact ⟨_, hrun, rfl, (singleSeal_noReuse sampleCodecs sampleEnclave).1 _ hrun⟩

end Enclave

end Clarity
