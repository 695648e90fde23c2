/-
  Clarity/Host.lean
  =================
  **The enclave behind its host.**  The host only ever holds sealed blobs: it hands one
  in with every call, puts the one it gets back in its place, and keeps the old one when
  the call fails.  Seen from outside this is the plain API, with every failing call undone.

    * `Holdings.sealedBy` — the blobs that stand for accounts and sessions;
    * `call_refines` — one call on the blobs answers as the call on what is in them;
    * `enclave_refines_plain` — so does every run, and a blob of the other kind or of
      another enclave is never accepted.
-/
import Clarity.Enclave
import Clarity.Persistence

namespace Clarity

variable {C : Type} {P : Suite C}

/-- Ideal authenticated encryption under keys that are expanded without collisions: what
    opens was sealed with the same key for the same context. -/
structure Suite.IdealAead (P : Suite C) : Prop where
  decrypt_encrypt : ∀ m p ad, P.xchachaDecrypt m (P.xchachaEncrypt m p ad) ad = some p
  bound : ∀ m m' p p' ad ad', P.xchachaDecrypt m' (P.xchachaEncrypt m p ad) ad' = some p' →
    m' = m ∧ ad' = ad
  hkdf56_inj : ∀ k k' info, P.hkdf56 k info = P.hkdf56 k' info → k = k'

namespace Enclave

variable {K : KeyCodecs P} {e e' : Enclave P}

/-! ## 1. What opens -/

theorem open_sealSecret (hP : P.IdealAead) (context plaintext : Bytes) :
    P.aeadOpen e.sealKey (e.sealSecret context plaintext).blob context = .ok plaintext := by
  unfold Suite.aeadOpen sealSecret Sealing.blob
  rw [hP.decrypt_encrypt]

theorem openAccount_seal (hP : P.IdealAead) (hK : K.RestoresSessions) (a : Account P) :
    e.openAccount K (e.sealSecret SEAL_AD_ACCOUNT (a.toBytes K)).blob = .ok a := by
  unfold openAccount
  rw [open_sealSecret hP]
  simp only [bind, Except.bind]
  exact Account.fromBytes_toBytes hK.toRestores a

theorem openSession_seal (hP : P.IdealAead) (hK : K.RestoresSessions) {s : Session P}
    (hs : s.Storable) :
    e.openSession K (e.sealSecret SEAL_AD_SESSION (s.serialize K)).blob = .ok s := by
  unfold openSession
  rw [open_sealSecret hP]
  simp only [bind, Except.bind]
  exact Session.deserialize_serialize hK hs

/-- Nothing opens under another key or for another context. -/
theorem open_foreign (hP : P.IdealAead) {context context' plaintext : Bytes}
    (h : e'.sealKey ≠ e.sealKey ∨ context' ≠ context) :
    P.aeadOpen e.sealKey (e'.sealSecret context' plaintext).blob context = .error .decrypt := by
  unfold Suite.aeadOpen sealSecret Sealing.blob
  split
  · rename_i p hopen
    obtain ⟨hmaterial, hcontext⟩ := hP.bound _ _ _ _ _ _ hopen
    have hkey := hP.hkdf56_inj _ _ _ hmaterial
    rcases h with h | h
    · exact absurd hkey.symm h
    · exact absurd hcontext.symm h
  · rfl

/-- No call takes the blob as an account. -/
structure RejectsAccount (K : KeyCodecs P) (e : Enclave P) (b : C) : Prop where
  accountBundle : e.accountBundle K b = .error .decrypt
  initiate : ∀ bundle rnd, e.initiate K b bundle rnd = .error .decrypt
  respond : ∀ fresh m, e.respond K b fresh m = .error .decrypt

/-- No call takes the blob as a session. -/
structure RejectsSession (K : KeyCodecs P) (e : Enclave P) (b : C) : Prop where
  encrypt : ∀ plaintext, e.encrypt K b plaintext = .error .decrypt
  decrypt : ∀ fresh m, e.decrypt K b fresh m = .error .decrypt

theorem rejectsAccount_of_open {b : C}
    (h : P.aeadOpen e.sealKey b SEAL_AD_ACCOUNT = .error .decrypt) : e.RejectsAccount K b := by
  have hopen : e.openAccount K b = .error .decrypt := by
    unfold openAccount
    rw [h]
    rfl
  refine ⟨?_, fun _ _ => ?_, fun _ _ => ?_⟩
  · unfold Enclave.accountBundle
    rw [hopen]
    rfl
  · unfold Enclave.initiate
    rw [hopen]
    rfl
  · unfold Enclave.respond
    rw [hopen]
    rfl

theorem rejectsSession_of_open {b : C}
    (h : P.aeadOpen e.sealKey b SEAL_AD_SESSION = .error .decrypt) : e.RejectsSession K b := by
  have hopen : e.openSession K b = .error .decrypt := by
    unfold openSession
    rw [h]
    rfl
  refine ⟨fun _ => ?_, fun _ _ => ?_⟩
  · unfold Enclave.encrypt
    rw [hopen]
    rfl
  · unfold Enclave.decrypt
    rw [hopen]
    rfl

end Enclave

/-! ## 2. The host -/

/-- The sealed accounts and sessions a host keeps. -/
structure Host (C : Type) where
  accounts : List C
  sessions : List C

namespace Host

open Holdings (Call Reply)

variable (K : KeyCodecs P) (e : Enclave P)

def call (h : Host C) : Call P → Reply C × Host C
  | .createAccount rnd =>
    let created := e.createAccount K rnd
    (.created created.2, { h with accounts := h.accounts ++ [created.1.blob] })
  | .accountBundle i =>
    match h.accounts[i]? with
    | none => (.absent, h)
    | some b => (.bundle (e.accountBundle K b), h)
  | .initiate i bundle rnd =>
    match h.accounts[i]? with
    | none => (.absent, h)
    | some b =>
      match e.initiate K b bundle rnd with
      | .error err => (.initiated (.error err), h)
      | .ok session => (.initiated (.ok ()), { h with sessions := h.sessions ++ [session.blob] })
  | .respond i fresh m =>
    match h.accounts[i]? with
    | none => (.absent, h)
    | some b =>
      match e.respond K b fresh m with
      | .error err => (.responded (.error err), h)
      | .ok (account, session, p) =>
        (.responded (.ok p), ⟨h.accounts.set i account.blob, h.sessions ++ [session.blob]⟩)
  | .encrypt j p =>
    match h.sessions[j]? with
    | none => (.absent, h)
    | some b =>
      match e.encrypt K b p with
      | .error err => (.sent (.error err), h)
      | .ok (session, m) =>
        (.sent (.ok m), { h with sessions := h.sessions.set j session.blob })
  | .decrypt j fresh m =>
    match h.sessions[j]? with
    | none => (.absent, h)
    | some b =>
      match e.decrypt K b fresh m with
      | .error err => (.received (.error err), h)
      | .ok (session, p) =>
        (.received (.ok p), { h with sessions := h.sessions.set j session.blob })

/-- The replies of a sequence of calls, and what the host has afterwards. -/
def run (h : Host C) : List (Call P) → List (Reply C) × Host C
  | [] => ([], h)
  | c :: calls =>
    let rest := run (h.call K e c).2 calls
    ((h.call K e c).1 :: rest.1, rest.2)

end Host

namespace Holdings

/-- The same calls on the plain API, failing ones rolled back. -/
def runUndone (h : Holdings P) : List (Call P) → List (Reply C) × Holdings P
  | [] => ([], h)
  | c :: calls =>
    let rest := runUndone (h.call true c).2 calls
    ((h.call true c).1 :: rest.1, rest.2)

/-- The blobs that stand for the accounts and sessions. -/
def sealedBy (K : KeyCodecs P) (e : Enclave P) (h : Holdings P) : Host C where
  accounts := h.accounts.map fun a => (e.sealSecret SEAL_AD_ACCOUNT (a.toBytes K)).blob
  sessions := h.sessions.map fun s => (e.sealSecret SEAL_AD_SESSION (s.serialize K)).blob

end Holdings

/-! ## 3. One call -/

namespace Enclave

variable {K : KeyCodecs P} {e : Enclave P}

/-- What each call does with a blob that opens. -/
theorem accountBundle_of_open {b : C} {a : Account P} (h : e.openAccount K b = .ok a) :
    e.accountBundle K b = .ok (a.bundleBase, a.oneTimePrekeyPublics) := by
  unfold Enclave.accountBundle
  rw [h]
  rfl

theorem initiate_of_open {b : C} {a : Account P} (h : e.openAccount K b = .ok a)
    (bundle : PreKeyBundle) (rnd : Session.InitiateRandom P) :
    e.initiate K b bundle rnd = (Session.initiate a bundle rnd).map fun s =>
      e.sealSecret SEAL_AD_SESSION (s.serialize K) := by
  unfold Enclave.initiate
  rw [h]
  cases hinit : Session.initiate a bundle rnd with
  | error err => simp only [bind, Except.bind, hinit, Except.map]
  | ok s => simp only [bind, Except.bind, hinit, Except.map, pure, Except.pure]

theorem respond_of_open {b : C} {a : Account P} (h : e.openAccount K b = .ok a)
    (fresh : P.Secret) (m : Message C) :
    e.respond K b fresh m = (Session.respond a fresh m).1.map fun r =>
      (e.sealSecret SEAL_AD_ACCOUNT ((Session.respond a fresh m).2.toBytes K),
        e.sealSecret SEAL_AD_SESSION (r.1.serialize K), r.2) := by
  unfold Enclave.respond
  rw [h]
  rcases hresp : Session.respond a fresh m with ⟨err | ⟨s, p⟩, a'⟩
  · simp only [bind, Except.bind, hresp, Except.map]
  · simp only [bind, Except.bind, hresp, Except.map, pure, Except.pure]

theorem encrypt_of_open {b : C} {s : Session P} (h : e.openSession K b = .ok s)
    (plaintext : Bytes) :
    e.encrypt K b plaintext = (s.encrypt plaintext).1.map fun m =>
      (e.sealSecret SEAL_AD_SESSION ((s.encrypt plaintext).2.serialize K), m) := by
  unfold Enclave.encrypt
  rw [h]
  rcases henc : s.encrypt plaintext with ⟨err | m, s'⟩
  · simp only [bind, Except.bind, henc, Except.map]
  · simp only [bind, Except.bind, henc, Except.map, pure, Except.pure]

theorem decrypt_of_open {b : C} {s : Session P} (h : e.openSession K b = .ok s)
    (fresh : P.Secret) (m : Message C) :
    e.decrypt K b fresh m = (s.decrypt fresh m).1.map fun p =>
      (e.sealSecret SEAL_AD_SESSION ((s.decrypt fresh m).2.serialize K), p) := by
  unfold Enclave.decrypt
  rw [h]
  rcases hdec : s.decrypt fresh m with ⟨err | p, s'⟩
  · simp only [bind, Except.bind, hdec, Except.map]
  · simp only [bind, Except.bind, hdec, Except.map, pure, Except.pure]

end Enclave

namespace Holdings

variable {K : KeyCodecs P} {e : Enclave P} {h : Holdings P}

theorem account_sealedBy (i : Nat) : (h.sealedBy K e).accounts[i]? =
    h.accounts[i]?.map fun a => (e.sealSecret SEAL_AD_ACCOUNT (a.toBytes K)).blob :=
  List.getElem?_map ..

theorem session_sealedBy (j : Nat) : (h.sealedBy K e).sessions[j]? =
    h.sessions[j]?.map fun s => (e.sealSecret SEAL_AD_SESSION (s.serialize K)).blob :=
  List.getElem?_map ..

/-- **One call.**  On the blobs it answers as the plain call with its failures undone,
    and leaves the blobs of what that call leaves. -/
theorem call_refines (hP : P.IdealAead) (hK : K.RestoresSessions) (hs : h.Storable)
    (c : Call P) : (h.sealedBy K e).call K e c =
      ((h.call true c).1, (h.call true c).2.sealedBy K e) := by
  cases c with
  | createAccount rnd =>
    simp only [Host.call, Holdings.call, sealedBy, List.map_append, List.map_singleton]
    rfl
  | accountBundle i =>
    simp only [Host.call, Holdings.call, account_sealedBy]
    cases h.accounts[i]? with
    | none => rfl
    | some a =>
      simp only [Option.map_some, Enclave.accountBundle_of_open (Enclave.openAccount_seal hP hK a)]
  | initiate i bundle rnd =>
    simp only [Host.call, Holdings.call, account_sealedBy]
    cases h.accounts[i]? with
    | none => rfl
    | some a =>
      simp only [Option.map_some, Enclave.initiate_of_open (Enclave.openAccount_seal hP hK a)]
      cases Session.initiate a bundle rnd with
      | error err => rfl
      | ok s => simp only [Except.map, sealedBy, List.map_append, List.map_singleton]
  | respond i fresh m =>
    simp only [Host.call, Holdings.call, account_sealedBy]
    cases hget : h.accounts[i]? with
    | none => rfl
    | some a =>
      simp only [Option.map_some, Enclave.respond_of_open (Enclave.openAccount_seal hP hK a)]
      rcases Session.respond a fresh m with ⟨err | ⟨s, p⟩, a'⟩
      · simp only [Except.map, settle, if_true, set_of_getElem? hget]
      · simp only [Except.map, settle, sealedBy, List.map_append, List.map_singleton,
          List.map_set]
  | encrypt j p =>
    simp only [Host.call, Holdings.call, session_sealedBy]
    cases hget : h.sessions[j]? with
    | none => rfl
    | some s =>
      have hopen := Enclave.openSession_seal (e := e) hP hK (hs s (List.mem_of_getElem? hget))
      simp only [Option.map_some, Enclave.encrypt_of_open hopen]
      rcases s.encrypt p with ⟨err | m, s'⟩
      · simp only [Except.map, settle, if_true, set_of_getElem? hget]
      · simp only [Except.map, settle, sealedBy, List.map_set]
  | decrypt j fresh m =>
    simp only [Host.call, Holdings.call, session_sealedBy]
    cases hget : h.sessions[j]? with
    | none => rfl
    | some s =>
      have hopen := Enclave.openSession_seal (e := e) hP hK (hs s (List.mem_of_getElem? hget))
      simp only [Option.map_some, Enclave.decrypt_of_open hopen]
      rcases s.decrypt fresh m with ⟨err | p, s'⟩
      · simp only [Except.map, settle, if_true, set_of_getElem? hget]
      · simp only [Except.map, settle, sealedBy, List.map_set]

/-- The run on the blobs is the run on what is in them. -/
theorem run_refines (hP : P.IdealAead) (hkem : P.SizedCiphertexts) (hK : K.RestoresSessions)
    (hs : h.Storable) (calls : List (Call P)) : (h.sealedBy K e).run K e calls =
      ((h.runUndone calls).1, (h.runUndone calls).2.sealedBy K e) := by
  induction calls generalizing h with
  | nil => rfl
  | cons c calls ih =>
    rw [Host.run, call_refines hP hK hs c, ih (hs.call hkem c)]
    rfl

end Holdings

namespace Enclave

/-- **The enclave refines the plain API.**  A host that threads its blobs through any
    sequence of calls sees what a caller of the plain API sees that undoes every failing
    call; and no call takes a session for an account, an account for a session, or
    anything another enclave sealed. -/
theorem enclave_refines_plain (hP : P.IdealAead) (hkem : P.SizedCiphertexts) {K : KeyCodecs P}
    (hK : K.RestoresSessions) (e : Enclave P) :
    (∀ calls : List (Holdings.Call P),
      (Host.run K e ⟨[], []⟩ calls).1 = (Holdings.runUndone ⟨[], []⟩ calls).1 ∧
      (Host.run K e ⟨[], []⟩ calls).2 = (Holdings.runUndone ⟨[], []⟩ calls).2.sealedBy K e) ∧
    (∀ plaintext, e.RejectsSession K (e.sealSecret SEAL_AD_ACCOUNT plaintext).blob) ∧
    (∀ plaintext, e.RejectsAccount K (e.sealSecret SEAL_AD_SESSION plaintext).blob) ∧
    (∀ e' : Enclave P, e'.sealKey ≠ e.sealKey → ∀ context plaintext,
      e.RejectsAccount K (e'.sealSecret context plaintext).blob ∧
      e.RejectsSession K (e'.sealSecret context plaintext).blob) := by
  have hcontexts : SEAL_AD_ACCOUNT ≠ SEAL_AD_SESSION := by decide
  refine ⟨?_, ?_, ?_, ?_⟩
  · intro calls
    have hrun := Holdings.run_refines (e := e) (h := ⟨[], []⟩) hP hkem hK
      (fun _ hs => absurd hs List.not_mem_nil) calls
    exact ⟨congrArg Prod.fst hrun, congrArg Prod.snd hrun⟩
  · intro plaintext
    exact rejectsSession_of_open (open_foreign hP (Or.inr hcontexts))
  · intro plaintext
    exact rejectsAccount_of_open (open_foreign hP (Or.inr hcontexts.symm))
  · intro e' hkey context plaintext
    exact ⟨rejectsAccount_of_open (open_foreign hP (Or.inl hkey)),
      rejectsSession_of_open (open_foreign hP (Or.inl hkey))⟩

end Enclave

/-! ## 4. The sample -/

section Sample

theorem unframed_eq_some {front b rest : Bytes} (h : unframed front b = some rest) :
    b = front ++ rest := by
  unfold unframed at h
  split at h
  · rename_i hfront
    rw [← Option.some.inj h]
    exact (List.take_append_drop front.length b).symm.trans (congrArg (· ++ _) hfront)
  · exact nomatch h

theorem fixed_idealAead : Suite.fixed.IdealAead where
  decrypt_encrypt m p ad := unframed_append _ p
  bound m m' p p' ad ad' h := by
    have heq : delimited m.bytes ++ (delimited ad ++ p)
        = delimited m'.bytes ++ (delimited ad' ++ p') := by
      rw [← List.append_assoc, ← List.append_assoc]
      exact unframed_eq_some h
    obtain ⟨hm, hrest⟩ := delimited_append_inj heq
    obtain ⟨had, -⟩ := delimited_append_inj hrest
    exact ⟨Bytes32.ext_bytes hm.symm, had.symm⟩
  hkdf56_inj _ _ _ h := h

/-- A session opened, a message encrypted, a bundle with a bad signature refused, and the
    session used again. -/
def sampleCalls : List (Holdings.Call Suite.fixed) :=
  [.createAccount (fixedGenerate 10), .accountBundle 0,
    .initiate 0 (Account.generate (fixedGenerate 30)).bundle fixedRandom, .encrypt 0 [1],
    .initiate 0 { (Account.generate (fixedGenerate 30)).bundle with identityDhSig := [] }
      fixedRandom,
    .encrypt 0 [2]]

theorem enclave_refines_plain_fixed :
    (Host.run fixedCodecs ⟨Bytes32.ofByte 1⟩ ⟨[], []⟩ sampleCalls).1
      = (Holdings.runUndone ⟨[], []⟩ sampleCalls).1 ∧
    Enclave.RejectsSession fixedCodecs (⟨Bytes32.ofByte 2⟩ : Enclave Suite.fixed)
      (Enclave.sealSecret (P := Suite.fixed) ⟨Bytes32.ofByte 1⟩ SEAL_AD_SESSION [7]).blob := by
  have refines := Enclave.enclave_refines_plain fixed_idealAead fixed_sizedCiphertexts
    fixedCodecs_restoresSessions
  have hkeys : Bytes32.ofByte 1 ≠ Bytes32.ofByte 2 := by decide
  exact ⟨((refines ⟨Bytes32.ofByte 1⟩).1 sampleCalls).1,
    ((refines ⟨Bytes32.ofByte 2⟩).2.2.2 _ hkeys _ _).2⟩

end Sample

end Clarity
