/-
  Clarity/Substitution.lean
  =========================
  **What a hostile directory can change in a bundle.**

  Ed25519 is assumed unforgeable: `signed vk msg sig` is the record of what the
  holder of `vk` has signed, and `verify` accepts nothing else (`Unforgeable`).  A
  signature covers the context of its role and one key.

    * `SigRole.context_append_inj` — a signed message tells its role and its key;
    * `AppState.addContact_authentic` — a contact is added only with keys that the
      holder of the identity signed, each in its own role;
    * `completes_iff` — ids and one-time prekeys are not signed: the owner completes
      the handshakes opened on an accepted bundle exactly when these are its own.
-/
import Clarity.Agreement
import Clarity.App

namespace Clarity

/-! ## 1. Signatures by role -/

/-- What an identity key signs. -/
inductive SigRole where
  | identityDh
  | signedPrekey
  | kyberPrekey
deriving DecidableEq, Repr

def SigRole.context : SigRole → Bytes
  | identityDh => SIG_CTX_IDENTITY_DH
  | signedPrekey => SIG_CTX_SIGNED_PREKEY
  | kyberPrekey => SIG_CTX_KYBER_PREKEY

/-- The thirteenth byte of each context. -/
def SigRole.byte : SigRole → UInt8
  | identityDh => 0x69
  | signedPrekey => 0x73
  | kyberPrekey => 0x6b

theorem SigRole.byte_inj {role role' : SigRole} (h : role.byte = role'.byte) : role = role' := by
  cases role <;> cases role' <;> first | rfl | exact absurd h (by decide)

theorem SigRole.byte_context (role : SigRole) (value : Bytes) :
    (role.context ++ value).drop 12 = role.byte :: (role.context.drop 13 ++ value) := by
  cases role <;> rfl

/-- No context is the front part of another: role and value can be read off. -/
theorem SigRole.context_append_inj {role role' : SigRole} {value value' : Bytes}
    (h : role.context ++ value = role'.context ++ value') : role = role' ∧ value = value' := by
  have hrole : role = role' := by
    have hdrop := congrArg (List.drop 12) h
    rw [SigRole.byte_context, SigRole.byte_context] at hdrop
    exact SigRole.byte_inj (List.cons.inj hdrop).1
  subst hrole
  exact ⟨rfl, List.append_cancel_left h⟩

/-- `verify` accepts only the signatures in the record. -/
def Unforgeable {C : Type} (P : Suite C) (signed : Bytes32 → Bytes → Bytes → Prop) : Prop :=
  ∀ vk msg sig, P.verify vk msg sig = true → signed vk msg sig

section Verify

variable {C : Type} {P : Suite C} {signed : Bytes32 → Bytes → Bytes → Prop}

theorem verifySig_signed (hunf : Unforgeable P signed) {vk : Bytes32} {context value sig : Bytes}
    (h : verifySig P vk context value sig = .ok ()) : signed vk (context ++ value) sig := by
  unfold verifySig at h
  split at h
  · cases h
  · split at h
    · rename_i hverify
      exact hunf _ _ _ hverify
    · cases h

/-- All three signatures of an accepted bundle were checked. -/
theorem verifyBundle_ok_cases {bundle : PreKeyBundle} (h : verifyBundle P bundle = .ok ()) :
    verifySig P bundle.identityEd SigRole.identityDh.context bundle.identityDh.bytes
        bundle.identityDhSig = .ok () ∧
    verifySig P bundle.identityEd SigRole.signedPrekey.context bundle.signedPrekey.bytes
        bundle.signedPrekeySig = .ok () ∧
    verifySig P bundle.identityEd SigRole.kyberPrekey.context bundle.kyberPrekey
        bundle.kyberPrekeySig = .ok () := by
  unfold verifyBundle at h
  cases hkey : P.isVerifyingKey bundle.identityEd with
  | false => simp [hkey, throw, throwThe, MonadExceptOf.throw, bind, Except.bind] at h
  | true =>
    simp only [hkey, Bool.not_true, Bool.false_eq_true, if_false] at h
    cases h1 : verifySig P bundle.identityEd SIG_CTX_IDENTITY_DH bundle.identityDh.bytes
        bundle.identityDhSig with
    | error e => simp [h1, bind, Except.bind] at h
    | ok _ =>
      cases h2 : verifySig P bundle.identityEd SIG_CTX_SIGNED_PREKEY bundle.signedPrekey.bytes
          bundle.signedPrekeySig with
      | error e => simp [h1, h2, bind, Except.bind] at h
      | ok _ =>
        simp only [h1, h2, bind, Except.bind] at h
        exact ⟨h1, h2, h⟩

/-- The keys of a bundle, each signed in its own role. -/
structure PreKeyBundle.Signed (signed : Bytes32 → Bytes → Bytes → Prop) (bundle : PreKeyBundle) :
    Prop where
  identityDh : signed bundle.identityEd (SigRole.identityDh.context ++ bundle.identityDh.bytes)
    bundle.identityDhSig
  signedPrekey : signed bundle.identityEd
    (SigRole.signedPrekey.context ++ bundle.signedPrekey.bytes) bundle.signedPrekeySig
  kyberPrekey : signed bundle.identityEd (SigRole.kyberPrekey.context ++ bundle.kyberPrekey)
    bundle.kyberPrekeySig

theorem verifyBundle_signed (hunf : Unforgeable P signed) {bundle : PreKeyBundle}
    (h : verifyBundle P bundle = .ok ()) : bundle.Signed signed := by
  obtain ⟨hdh, hspk, hkyber⟩ := verifyBundle_ok_cases h
  constructor
  · exact verifySig_signed hunf hdh
  · exact verifySig_signed hunf hspk
  · exact verifySig_signed hunf hkyber

end Verify

/-! ## 2. Adding a contact -/

namespace AppState

variable {P : Suite Bytes} {signed : Bytes32 → Bytes → Bytes → Prop}

/-- What a successful `addContact` went through. -/
theorem addContact_ok_cases {s s' : AppState P} {identity : Bytes32} {displayName : Text}
    {bytes : Bytes} {rnd : Session.InitiateRandom P}
    (h : s.addContact identity displayName (some bytes) rnd = (.ok (), s')) :
    ∃ bundle session, PreKeyBundle.decode bytes = .ok bundle ∧
      verifyBundle P bundle = .ok () ∧ bundle.identityEd = identity ∧
      Session.initiate s.account bundle rnd = .ok session ∧
      s' = { s with
        contacts := s.contacts.set identity ⟨identity, bundle.identityDh, displayName, false, none⟩
        sessions := s.sessions.set identity session
        conversations := s.conversations.putIfAbsent identity [] } := by
  unfold addContact bundleIdentityKeys initiateSession at h
  cases hdec : PreKeyBundle.decode bytes with
  | error e =>
    simp only [hdec] at h
    cases (Prod.mk.inj h).1
  | ok bundle =>
    cases hver : verifyBundle P bundle with
    | error e =>
      simp only [hdec, hver] at h
      cases (Prod.mk.inj h).1
    | ok _ =>
      simp only [hdec, hver] at h
      by_cases hid : bundle.identityEd = identity
      · cases hinit : Session.initiate s.account bundle rnd with
        | error e =>
          simp only [hid, ne_eq, not_true_eq_false, if_false, hinit] at h
          cases (Prod.mk.inj h).1
        | ok session =>
          simp only [hid, ne_eq, not_true_eq_false, if_false, hinit] at h
          exact ⟨bundle, session, rfl, hver, hid, hinit, (Prod.mk.inj h).2.symm⟩
      · simp only [hid, ne_eq, not_false_eq_true, if_true] at h
        cases (Prod.mk.inj h).1

/-- **A hostile directory cannot substitute signed keys.**  Whatever bytes it
    returns, a contact is added only with keys that the holder of the identity
    signed, each in its own role; and a signature made in one role is accepted in
    no other, and for no other key. -/
theorem addContact_authentic (hunf : Unforgeable P signed) :
    (∀ (s s' : AppState P) (identity : Bytes32) (displayName : Text) (bytes : Bytes)
      (rnd : Session.InitiateRandom P),
      s.addContact identity displayName (some bytes) rnd = (.ok (), s') →
      ∃ bundle session, PreKeyBundle.decode bytes = .ok bundle ∧ bundle.identityEd = identity ∧
        bundle.Signed signed ∧ Session.initiate s.account bundle rnd = .ok session ∧
        s'.sessions.get? identity = some session ∧
        (s'.contacts.get? identity).map Contact.identityDh = some bundle.identityDh) ∧
    ∀ (vk : Bytes32) (role : SigRole) (value sig : Bytes),
      (∀ msg, signed vk msg sig → msg = role.context ++ value) →
      ∀ role' value', verifySig P vk role'.context value' sig = .ok () →
        role' = role ∧ value' = value := by
  constructor
  · intro s s' identity displayName bytes rnd h
    obtain ⟨bundle, session, hdec, hver, hid, hinit, rfl⟩ := addContact_ok_cases h
    refine ⟨bundle, session, hdec, hid, verifyBundle_signed hunf hver, hinit, ?_, ?_⟩
    · simp
    · simp
  · intro vk role value sig honly role' value' haccepted
    exact SigRole.context_append_inj (honly _ (verifySig_signed hunf haccepted))

end AppState

/-! ## 3. The fields that are not signed -/

section Completes

variable {C : Type} {P : Suite C} {signed : Bytes32 → Bytes → Bytes → Prop}

/-- The key of an account in each role. -/
def Account.signedValue (a : Account P) : SigRole → Bytes
  | .identityDh => (P.publicKey a.dhIdentity).bytes
  | .signedPrekey => (P.publicKey a.signedPrekey).bytes
  | .kyberPrekey => P.encapsulationKey a.kyber

/-- An honest owner signs its own keys, each in its role, and nothing else. -/
def Account.SignsOwn (a : Account P) (signed : Bytes32 → Bytes → Bytes → Prop) : Prop :=
  ∀ msg sig, signed a.identityPublic msg sig → ∃ role, msg = SigRole.context role ++ a.signedValue role

theorem Account.SignsOwn.value {a : Account P} (h : a.SignsOwn signed) {role : SigRole}
    {value sig : Bytes} (hsig : signed a.identityPublic (role.context ++ value) sig) :
    value = a.signedValue role := by
  obtain ⟨role', hmsg⟩ := h _ _ hsig
  obtain ⟨rfl, hvalue⟩ := SigRole.context_append_inj hmsg
  exact hvalue

/-- The fields of a bundle that no signature covers are those of the account. -/
structure Account.OwnIds (a : Account P) (bundle : PreKeyBundle) : Prop where
  signedPrekeyId : bundle.signedPrekeyId = a.signedPrekeyId
  kyberPrekeyId : bundle.kyberPrekeyId = a.kyberPrekeyId
  oneTimePrekey : ∃ opk : Option (UInt32 × Bytes32), (∀ e ∈ opk, e ∈ a.oneTimePrekeyPublics) ∧
    bundle.oneTimePrekeyId = opk.map Prod.fst ∧ bundle.oneTimePrekey = opk.map Prod.snd

/-- Whoever opens a session on the bundle and sends a first message is understood
    by the owner. -/
def Account.Completes (owner : Account P) (bundle : PreKeyBundle) : Prop :=
  ∀ (my : Account P) (rnd : Session.InitiateRandom P) (fresh : P.Secret) (plaintext : Bytes)
    (opened sent : Session P) (m : Message C), Session.initiate my bundle rnd = .ok opened →
    opened.encrypt plaintext = (.ok m, sent) →
    ∃ received owner', Session.respond owner fresh m = (.ok (received, plaintext), owner')

/-- Unforgeable signatures pin the signed keys down. -/
theorem Account.SignsOwn.keys (hunf : Unforgeable P signed) {owner : Account P}
    (hown : owner.SignsOwn signed) {bundle : PreKeyBundle}
    (hid : bundle.identityEd = owner.identityPublic) (hver : verifyBundle P bundle = .ok ()) :
    bundle.identityDh = P.publicKey owner.dhIdentity ∧
      bundle.signedPrekey = P.publicKey owner.signedPrekey ∧
      bundle.kyberPrekey = P.encapsulationKey owner.kyber := by
  obtain ⟨hdh, hspk, hkyber⟩ := verifyBundle_signed hunf hver
  rw [hid] at hdh hspk hkyber
  exact ⟨Bytes32.ext_bytes (hown.value hdh), Bytes32.ext_bytes (hown.value hspk),
    hown.value hkyber⟩

/-- On a bundle with the owner's keys and ids every handshake completes. -/
theorem Account.OwnIds.completes (hP : P.Exchange) {owner : Account P} {bundle : PreKeyBundle}
    (hown : owner.OwnIds bundle) (hid : bundle.identityEd = owner.identityPublic)
    (hver : verifyBundle P bundle = .ok ())
    (hkeys : bundle.identityDh = P.publicKey owner.dhIdentity ∧
      bundle.signedPrekey = P.publicKey owner.signedPrekey ∧
      bundle.kyberPrekey = P.encapsulationKey owner.kyber) : owner.Completes bundle := by
  intro my rnd fresh plaintext opened sent m hopened henc
  obtain ⟨hdh, hspk, hkyber⟩ := hkeys
  obtain ⟨opk, hheld, hopkId, hopkPub⟩ := hown.oneTimePrekey
  obtain ⟨oneTime, htake, hpublic⟩ := Account.takeNamedPrekey_of_held hheld
  obtain ⟨_, root, hs, spk, hhs, _⟩ := Session.initiate_ok_cases hopened
  obtain ⟨rfl, _, hspkId, _⟩ := Handshake.initiate_header hhs
  have hroot : Handshake.respond owner hs = (.ok root, owner.spend opk) :=
    Handshake.respond_initiate_of_names hP hhs
      ⟨hdh, hspk, hown.signedPrekeyId, hkyber, hown.kyberPrekeyId⟩ (hopkId ▸ htake)
      (hopkPub.trans hpublic)
  have hsame : (owner.spend opk).identityPublic = owner.identityPublic ∧
      (owner.spend opk).signedPrekey = owner.signedPrekey ∧
      (owner.spend opk).signedPrekeyById hs.signedPrekeyId =
        .ok (owner.spend opk).signedPrekey := by
    rw [hspkId, hown.signedPrekeyId]
    cases opk <;> exact ⟨rfl, rfl, if_pos rfl⟩
  obtain ⟨hidentity, hsigned, hspkOk⟩ := hsame
  rw [hspk, ← hsigned] at hhs
  obtain ⟨opened', m', sent', received, hopened', henc', hresp, _, _⟩ :=
    Session.respond_first hP hver (hid.trans hidentity.symm) hhs hroot hspkOk fresh plaintext
  cases hopened.symm.trans hopened'
  cases henc.symm.trans henc'
  exact ⟨received, owner.spend opk, hresp⟩

/-- On an accepted bundle with an honest KEM key a session can be opened, and a
    first message sent. -/
theorem Session.initiate_of_verified (hP : P.Exchange) (my : Account P) {bundle : PreKeyBundle}
    (hver : verifyBundle P bundle = .ok ()) {kyber : P.DecapKey}
    (hkyber : bundle.kyberPrekey = P.encapsulationKey kyber) (rnd : Session.InitiateRandom P) :
    ∃ opened, Session.initiate my bundle rnd = .ok opened ∧
      opened.ratchet.chainSend.isSome = true := by
  obtain ⟨ct, secret, hencap, _⟩ := hP.encapsulate_ok kyber rnd.coins
  unfold Session.initiate Handshake.initiate
  rw [hver, hkyber, hencap]
  exact ⟨_, rfl, rfl⟩

/-- The one-time prekey both sides used is the same one. -/
theorem oneTime_eq_of_root (hdh : P.SymbolicDh) {ephemeral : P.Secret} {front front' : List P.Shared}
    (hlen : front.length = front'.length) {named : Option Bytes32} {held : Option P.Secret}
    {kyber kyber' : P.Shared}
    (h : front ++ named.toList.map (P.diffieHellman ephemeral) ++ [kyber] =
      front' ++ held.toList.map (fun opk => P.diffieHellman opk (P.publicKey ephemeral)) ++
        [kyber']) : named = held.map P.publicKey := by
  obtain ⟨hmain, _⟩ := List.append_inj' h rfl
  obtain ⟨_, htail⟩ := List.append_inj hmain hlen
  cases named with
  | none =>
    cases held with
    | none => rfl
    | some opk => cases htail
  | some pub =>
    cases held with
    | none => cases htail
    | some opk =>
      rcases hdh _ _ _ _ (List.cons.inj htail).1 with ⟨hself, hpub⟩ | ⟨_, hpub⟩
      · exact congrArg some (hpub.trans hself)
      · exact congrArg some hpub

end Completes

section Converse

variable {C : Type} {P : Suite C} [DecidableEq P.Shared]

theorem verifyBundle_free (bundle : PreKeyBundle) :
    verifyBundle P.free bundle = verifyBundle P bundle := rfl

/-- A responder that opens the first message has the initiator's root key. -/
theorem Session.root_of_respond {owner owner' : Account P.free} {bundle : PreKeyBundle}
    {rnd : Session.InitiateRandom P.free} {root : P.free.Key} {hs : HandshakeHeader}
    {spk : Bytes32} {m : Message (CipherTerm P.Shared)} {sent received : Session P.free}
    {fresh : P.free.Secret} {plaintext : Bytes}
    (henc : (⟨DoubleRatchet.initInitiator rnd.ratchet root spk,
      Clarity.adPrefix hs.identityEd bundle.identityEd, some hs⟩ : Session P.free).encrypt
        plaintext = (.ok m, sent))
    (hresp : Session.respond owner fresh m = (.ok (received, plaintext), owner')) :
    Handshake.respond owner hs = (.ok root, owner') := by
  obtain ⟨_, _, _, hpre⟩ := Session.encrypt_ok_cases henc
  obtain ⟨m', sent', henc', hheader, hcipher⟩ := Session.encrypt_of_chain
    (s := ⟨DoubleRatchet.initInitiator rnd.ratchet root spk,
      Clarity.adPrefix hs.identityEd bundle.identityEd, some hs⟩) rfl plaintext
  cases henc.symm.trans henc'
  obtain ⟨hs', header, ciphertext, root', spk', r, hm, hroot, _, hdec, _⟩ :=
    Session.respond_ok_cases hresp
  obtain ⟨rfl, rfl, rfl⟩ := Message.preKey.inj ((hpre hs rfl).symm.trans hm)
  have hgap : m.header.n ≤ MAX_SKIP := by
    rw [hheader]
    exact UInt32.zero_le
  rw [DoubleRatchet.decrypt_initResponder root' spk' hgap] at hdec
  have hsealed := Suite.free_aeadOpen_eq_ok (Prod.mk.inj hdec).1
  obtain ⟨hkey, _, _⟩ := Suite.free_aeadSeal_inj (hcipher.symm.trans hsealed)
  rw [hheader] at hkey
  obtain ⟨hchain, _⟩ := KeyTerm.hmac.inj hkey
  obtain ⟨rfl, _, _⟩ := KeyTerm.hkdf64Snd.inj hchain
  exact hroot

/-- An owner that completes the handshakes opened on a bundle finds its own ids in
    it, and a one-time prekey it holds. -/
theorem Account.Completes.ownIds (hP : P.Exchange) (hdh : P.SymbolicDh) {owner : Account P.free}
    {bundle : PreKeyBundle} (hver : verifyBundle P.free bundle = .ok ())
    (hkyber : bundle.kyberPrekey = P.encapsulationKey owner.kyber)
    (h : owner.Completes bundle) : owner.OwnIds bundle := by
  set rnd : Session.InitiateRandom P.free :=
    ⟨owner.dhIdentity, Bytes32.ofByte 0, owner.dhIdentity⟩ with hrnd
  obtain ⟨opened, hopened, hchain⟩ := Session.initiate_of_verified hP.free owner hver hkyber rnd
  obtain ⟨ck, hck⟩ := Option.isSome_iff_exists.mp hchain
  obtain ⟨m, sent, henc, _, _⟩ := Session.encrypt_of_chain hck []
  obtain ⟨received, owner', hresp⟩ := h owner rnd owner.dhIdentity [] opened sent m hopened henc
  obtain ⟨_, root, hs, spk, hhs, rfl⟩ := Session.initiate_ok_cases hopened
  have hrespond := Session.root_of_respond henc hresp
  obtain ⟨hkyberId, hspkId, oneTime, kyberSecret, htake, _, hroot⟩ :=
    Handshake.respond_ok_cases hrespond
  obtain ⟨_, _, hroot', hheader, _⟩ := Handshake.initiate_ok_cases hhs
  have hfields : hs.kyberPrekeyId = bundle.kyberPrekeyId ∧
      hs.signedPrekeyId = bundle.signedPrekeyId ∧
      hs.oneTimePrekeyId = bundle.oneTimePrekeyId ∧ hs.ephemeralDh = P.publicKey rnd.ephemeral := by
    rw [hheader]
    exact ⟨rfl, rfl, rfl, rfl⟩
  obtain ⟨hfkyber, hfspk, hfopk, hfeph⟩ := hfields
  have hlist := (KeyTerm.hkdf32.inj (hroot'.symm.trans hroot)).2.1
  rw [hfeph] at hlist
  have hpub : bundle.oneTimePrekey = oneTime.map P.publicKey :=
    oneTime_eq_of_root hdh (by rfl) hlist
  refine ⟨hfspk.symm.trans hspkId, hfkyber.symm.trans hkyberId, ?_⟩
  rw [hfopk] at htake
  cases hid : bundle.oneTimePrekeyId with
  | none =>
    rw [hid] at htake
    cases htake
    exact ⟨none, by simp, rfl, hpub⟩
  | some id =>
    rw [hid] at htake
    cases hsk : owner.oneTimePrekeys[id]? with
    | none => simp [Handshake.takeNamedPrekey, Account.takeOneTimePrekey, hsk] at htake
    | some sk =>
      simp only [Handshake.takeNamedPrekey, Account.takeOneTimePrekey, hsk, Outcome.andThen_ok,
        Prod.mk.injEq, Except.ok.injEq] at htake
      obtain ⟨rfl, _⟩ := htake
      refine ⟨some (id, P.publicKey sk), ?_, rfl, hpub⟩
      rintro e ⟨⟩
      exact Account.mem_oneTimePrekeyPublics.mpr ⟨sk, hsk, rfl⟩

variable {signed : Bytes32 → Bytes → Bytes → Prop}

end Converse

/-! ## 4. Bob's signatures only -/

/-- `Suite.exact`, where `verify` accepts only the signatures of Bob's bundle. -/
def Suite.onlyBob : Suite Bytes :=
  { Suite.exact with
    verify := fun vk msg sig => vk == sampleBob.identityPublic &&
      [SigRole.identityDh, .signedPrekey, .kyberPrekey].any fun role =>
        msg == role.context ++ sampleBob.signedValue role &&
          sig == sampleBob.sign role.context (sampleBob.signedValue role) }

instance : DecidableEq Suite.onlyBob.Shared := inferInstanceAs (DecidableEq Bytes)

/-- Bob has signed the keys of his bundle. -/
def bobSigned (vk : Bytes32) (msg sig : Bytes) : Prop :=
  vk = sampleBob.identityPublic ∧ ∃ role : SigRole,
    msg = role.context ++ sampleBob.signedValue role ∧
      sig = sampleBob.sign role.context (sampleBob.signedValue role)

theorem onlyBob_exchange : Suite.onlyBob.Exchange where
  dh_comm := exact_lawful.dh_comm
  decrypt_encrypt := exact_lawful.decrypt_encrypt
  length_encapsulationKey := exact_lawful.length_encapsulationKey
  decapsulate_encapsulate := exact_lawful.decapsulate_encapsulate

theorem onlyBob_unforgeable : Unforgeable Suite.onlyBob bobSigned := by
  intro vk msg sig h
  simp only [Suite.onlyBob, Bool.and_eq_true, beq_iff_eq, List.any_eq_true] at h
  obtain ⟨hvk, role, _, hmsg, hsig⟩ := h
  exact ⟨hvk, role, hmsg, hsig⟩

theorem verifySig_onlyBob (role : SigRole) :
    verifySig Suite.onlyBob sampleBob.identityPublic role.context (sampleBob.signedValue role)
      (sampleBob.sign role.context (sampleBob.signedValue role)) = .ok () := by
  have hlen : (sampleBob.sign role.context (sampleBob.signedValue role)).length =
      Suite.SIGNATURE_LEN := sample_lawful.length_sign _ _
  have hverify : Suite.onlyBob.verify sampleBob.identityPublic
      (role.context ++ sampleBob.signedValue role)
      (sampleBob.sign role.context (sampleBob.signedValue role)) = true := by
    simp only [Suite.onlyBob, Bool.and_eq_true, beq_iff_eq, List.any_eq_true]
    refine ⟨trivial, role, ?_, rfl, rfl⟩
    cases role <;> simp
  unfold verifySig
  rw [if_neg (not_not_intro hlen), if_pos hverify]

/-- Bob's bundle, with ids and a one-time prekey that a directory chose. -/
def bobBundle (signedPrekeyId kyberPrekeyId : UInt32) (oneTimePrekey : Option Bytes32)
    (oneTimePrekeyId : Option UInt32) : PreKeyBundle :=
  { sampleBob.bundle with
    signedPrekeyId := signedPrekeyId
    kyberPrekeyId := kyberPrekeyId
    oneTimePrekey := oneTimePrekey
    oneTimePrekeyId := oneTimePrekeyId }

theorem verifyBundle_onlyBob (spkId kyberId : UInt32) (opk : Option Bytes32)
    (opkId : Option UInt32) :
    verifyBundle Suite.onlyBob (bobBundle spkId kyberId opk opkId) = .ok () := by
  set bundle := bobBundle spkId kyberId opk opkId with hbundle
  have hdh : verifySig Suite.onlyBob bundle.identityEd SIG_CTX_IDENTITY_DH bundle.identityDh.bytes
      bundle.identityDhSig = .ok () := verifySig_onlyBob .identityDh
  have hspk : verifySig Suite.onlyBob bundle.identityEd SIG_CTX_SIGNED_PREKEY
      bundle.signedPrekey.bytes bundle.signedPrekeySig = .ok () := verifySig_onlyBob .signedPrekey
  have hkyber : verifySig Suite.onlyBob bundle.identityEd SIG_CTX_KYBER_PREKEY bundle.kyberPrekey
      bundle.kyberPrekeySig = .ok () := verifySig_onlyBob .kyberPrekey
  unfold verifyBundle
  rw [hdh, hspk, hkyber]
  rfl


theorem decode_bobBundle (spkId kyberId : UInt32) (opk : Option Bytes32) (opkId : Option UInt32) :
    PreKeyBundle.decode (bobBundle spkId kyberId opk opkId).encode =
      .ok (bobBundle spkId kyberId opk opkId) := by
  have hsig : ∀ context message, (sampleBob.sign context message).length < 256 ^ 8 := by
    intro context message
    rw [show (sampleBob.sign context message).length = Suite.SIGNATURE_LEN from
      sample_lawful.length_sign _ _]
    decide
  have hkem : (bobBundle spkId kyberId opk opkId).kyberPrekey.length < 256 ^ 8 := by
    rw [show (bobBundle spkId kyberId opk opkId).kyberPrekey.length = Suite.KYBER_PUBLIC_LEN from
      sample_lawful.length_encapsulationKey _]
    decide
  exact PreKeyBundle.decode_encode (PreKeyBundle.codec_valid (hsig _ _) (hsig _ _) hkem (hsig _ _))

/-- A client that has no contacts yet. -/
def onlyBobApp : AppState Suite.onlyBob where
  account := Account.generateWithPrekeys (P := Suite.onlyBob) (10 : UInt8) (11 : UInt8)
    (12 : UInt8) (13 : UInt8) []
  contacts := ∅
  sessions := ∅
  conversations := ∅
  replenishing := false

def onlyBobRandom : Session.InitiateRandom Suite.onlyBob where
  ephemeral := (50 : UInt8)
  coins := Bytes32.ofByte 7
  ratchet := (60 : UInt8)

theorem sign_bob_inj {role role' : SigRole}
    (h : sampleBob.sign role.context (sampleBob.signedValue role) =
      sampleBob.sign role'.context (sampleBob.signedValue role')) : role = role' := by
  have hne : ∀ r r' : SigRole, r ≠ r' → (sampleBob.sign r.context (sampleBob.signedValue r))[63]? ≠
      (sampleBob.sign r'.context (sampleBob.signedValue r'))[63]? := by
    intro r r' hr
    cases r <;> cases r' <;> first | exact absurd rfl hr | decide +kernel
  by_contra hr
  exact hne _ _ hr (by rw [h])

/-- A client adds Bob, to whose bundle the directory has attached a one-time prekey of
    its own; and Bob's signature of his signed prekey is good for nothing else. -/
theorem AppState.addContact_authentic_bob :
    ∃ s', onlyBobApp.addContact sampleBob.identityPublic []
        (some (bobBundle 0 0 (some (Bytes32.ofByte 99)) (some 0)).encode) onlyBobRandom =
          (.ok (), s') ∧
      (∃ bundle session,
        PreKeyBundle.decode (bobBundle 0 0 (some (Bytes32.ofByte 99)) (some 0)).encode =
          .ok bundle ∧ bundle.identityEd = sampleBob.identityPublic ∧ bundle.Signed bobSigned ∧
        s'.sessions.get? sampleBob.identityPublic = some session) ∧
      ∀ role' value', verifySig Suite.onlyBob sampleBob.identityPublic role'.context value'
          sampleBob.bundle.signedPrekeySig = .ok () →
        role' = SigRole.signedPrekey ∧ value' = sampleBob.signedValue .signedPrekey := by
  obtain ⟨opened, hopened, _⟩ := Session.initiate_of_verified onlyBob_exchange onlyBobApp.account
    (verifyBundle_onlyBob 0 0 (some (Bytes32.ofByte 99)) (some 0))
    (show _ = Suite.onlyBob.encapsulationKey (33 : UInt8) from rfl) onlyBobRandom
  have hadd : ∃ s', onlyBobApp.addContact sampleBob.identityPublic []
      (some (bobBundle 0 0 (some (Bytes32.ofByte 99)) (some 0)).encode) onlyBobRandom =
        (.ok (), s') := by
    unfold addContact bundleIdentityKeys initiateSession
    simp only [decode_bobBundle, verifyBundle_onlyBob, hopened]
    exact ⟨_, if_neg (not_not_intro rfl)⟩
  obtain ⟨s', hs'⟩ := hadd
  obtain ⟨hkeys, hroles⟩ := addContact_authentic onlyBob_unforgeable
  obtain ⟨bundle, session, hdec, hid, hsigned, _, hsession, _⟩ := hkeys _ _ _ _ _ _ hs'
  refine ⟨s', hs', ⟨bundle, session, hdec, hid, hsigned, hsession⟩, ?_⟩
  apply hroles sampleBob.identityPublic .signedPrekey
  rintro msg ⟨_, role, rfl, hsig⟩
  have hrole : SigRole.signedPrekey = role := sign_bob_inj hsig
  cases hrole
  rfl

/-! A directory exchanges the one-time prekey of Bob's bundle for a key of its own. -/

/-- Bob, with the free key schedule. -/
def onlyBobOwner : Account Suite.onlyBob.free :=
  Account.generateWithPrekeys (P := Suite.onlyBob.free) (30 : UInt8) (31 : UInt8) (32 : UInt8)
    (33 : UInt8) [(40 : UInt8), (41 : UInt8)]

theorem onlyBobOwner_signsOwn : onlyBobOwner.SignsOwn bobSigned := by
  rintro msg sig ⟨_, role, rfl, _⟩
  refine ⟨role, ?_⟩
  cases role <;> rfl

end Clarity
