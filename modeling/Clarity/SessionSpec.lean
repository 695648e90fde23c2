/-
  Clarity/SessionSpec.lean
  ========================
  **What each session method can do**, and that the two sides of the handshake
  agree.

    * `initiate_ok_cases`, `respond_ok_cases`, `encrypt_ok_cases`,
      `decrypt_ok_cases` — what a successful call went through;
    * `Handshake.respond_initiate` — with lawful primitives the responder rebuilds
      the root key the initiator started from, whether or not a one-time prekey
      was used.
-/
import Clarity.RatchetSpec
import Clarity.Session

namespace Clarity

variable {C : Type} {P : Suite C}

/-! ## 1. The handshake -/

namespace Handshake

/-- The prekey the header names is there: the responder derives its root key. -/
theorem respond_ok {me me' : Account P} {hs : HandshakeHeader} {oneTime : Option P.Secret}
    {kyberSecret : P.Shared} (hkyber : hs.kyberPrekeyId = me.kyberPrekeyId)
    (hsigned : hs.signedPrekeyId = me.signedPrekeyId)
    (htake : takeNamedPrekey me hs.oneTimePrekeyId = (.ok oneTime, me'))
    (hdecap : P.decapsulate me'.kyber hs.kyberCiphertext = .ok kyberSecret) :
    respond me hs = (.ok (P.kdfRootFromIkm
      ([P.diffieHellman me.signedPrekey hs.identityDh, P.diffieHellman me.dhIdentity hs.ephemeralDh,
        P.diffieHellman me.signedPrekey hs.ephemeralDh] ++
        oneTime.toList.map (fun opk => P.diffieHellman opk hs.ephemeralDh) ++ [kyberSecret])), me') := by
  unfold respond Account.signedPrekeyById Outcome.lift
  rw [if_neg (not_not_intro hkyber), if_pos hsigned, Outcome.andThen_ok, htake, Outcome.andThen_ok,
    hdecap, Outcome.andThen_ok]

/-- What `take_one_time_prekey` does to the account, if it is called at all. -/
theorem takeNamedPrekey_account (me : Account P) (id? : Option UInt32) :
    (takeNamedPrekey me id?).2 =
      match id? with
      | some id => { me with oneTimePrekeys := me.oneTimePrekeys.erase id }
      | none => me := by
  cases id? with
  | none => rfl
  | some id =>
    cases hsk : me.oneTimePrekeys[id]? with
    | some sk => simp [takeNamedPrekey, Account.takeOneTimePrekey, hsk]
    | none =>
      have hnot : id ∉ me.oneTimePrekeys := by
        intro hmem
        have := Std.ExtTreeMap.isSome_getElem?_iff_mem.mpr hmem
        rw [hsk] at this
        cases this
      have hsame : me.oneTimePrekeys.erase id = me.oneTimePrekeys := by
        ext k sk
        rw [Std.ExtTreeMap.getElem?_erase]
        by_cases hk : compare id k = .eq
        · have hk' := Std.LawfulEqOrd.eq_of_compare hk
          subst hk'
          simp [hsk]
        · rw [if_neg hk]
      simp [takeNamedPrekey, Account.takeOneTimePrekey, hsk, hsame]

/-- Taking a prekey touches nothing else of the account. -/
theorem takeNamedPrekey_fields {me me' : Account P} {id? : Option UInt32}
    {oneTime : Option P.Secret} (h : takeNamedPrekey me id? = (.ok oneTime, me')) :
    ∃ pool, me' = { me with oneTimePrekeys := pool } := by
  have haccount := takeNamedPrekey_account me id?
  rw [h] at haccount
  cases id? with
  | none => exact ⟨me.oneTimePrekeys, haccount⟩
  | some id => exact ⟨me.oneTimePrekeys.erase id, haccount⟩

/-- The account after the responder's half of the handshake. -/
theorem respond_account (me : Account P) (hs : HandshakeHeader) :
    (respond me hs).2 =
      if hs.kyberPrekeyId = me.kyberPrekeyId ∧ hs.signedPrekeyId = me.signedPrekeyId then
        (takeNamedPrekey me hs.oneTimePrekeyId).2
      else me := by
  unfold respond Account.signedPrekeyById Outcome.lift
  by_cases hk : hs.kyberPrekeyId = me.kyberPrekeyId
  · by_cases hs' : hs.signedPrekeyId = me.signedPrekeyId
    · rw [if_neg (not_not_intro hk), if_pos hs', if_pos ⟨hk, hs'⟩]
      simp only [Outcome.andThen_ok]
      rcases htake : takeNamedPrekey me hs.oneTimePrekeyId with ⟨res, me'⟩
      cases res with
      | error e => rfl
      | ok oneTime =>
        simp only [Outcome.andThen_ok]
        cases P.decapsulate me'.kyber hs.kyberCiphertext <;> rfl
    · rw [if_neg (not_not_intro hk), if_neg hs', if_neg (fun h => hs' h.2)]
      rfl
  · rw [if_pos hk, if_neg (fun h => hk h.1)]

/-- What a completed responder's half went through. -/
theorem respond_ok_cases {me me' : Account P} {hs : HandshakeHeader} {root : P.Key}
    (h : respond me hs = (.ok root, me')) :
    hs.kyberPrekeyId = me.kyberPrekeyId ∧ hs.signedPrekeyId = me.signedPrekeyId ∧
      ∃ oneTime kyberSecret, takeNamedPrekey me hs.oneTimePrekeyId = (.ok oneTime, me') ∧
        P.decapsulate me.kyber hs.kyberCiphertext = .ok kyberSecret ∧
        root = P.kdfRootFromIkm
          ([P.diffieHellman me.signedPrekey hs.identityDh,
            P.diffieHellman me.dhIdentity hs.ephemeralDh,
            P.diffieHellman me.signedPrekey hs.ephemeralDh] ++
            oneTime.toList.map (fun opk => P.diffieHellman opk hs.ephemeralDh) ++
            [kyberSecret]) := by
  by_cases hk : hs.kyberPrekeyId = me.kyberPrekeyId
  · by_cases hs' : hs.signedPrekeyId = me.signedPrekeyId
    · rcases htake : takeNamedPrekey me hs.oneTimePrekeyId with ⟨e | oneTime, me1⟩
      · simp [respond, Account.signedPrekeyById, Outcome.lift, hk, hs', htake] at h
      · obtain ⟨pool, rfl⟩ := takeNamedPrekey_fields htake
        cases hdecap : P.decapsulate me.kyber hs.kyberCiphertext with
        | error e =>
          simp [respond, Account.signedPrekeyById, Outcome.lift, hk, hs', htake, hdecap] at h
        | ok kyberSecret =>
          rw [respond_ok hk hs' htake hdecap] at h
          cases h
          exact ⟨hk, hs', oneTime, kyberSecret, rfl, rfl, rfl⟩
    · simp [respond, Account.signedPrekeyById, Outcome.lift, hk, hs'] at h
  · simp [respond, hk] at h

/-- What the initiator computes. -/
theorem initiate_ok_cases {my : Account P} {bundle : PreKeyBundle} {ephemeral : P.Secret}
    {coins : Bytes32} {root : P.Key} {hs : HandshakeHeader} {spk : Bytes32}
    (h : initiate my bundle ephemeral coins = .ok (root, hs, spk)) :
    ∃ kyberSecret, P.encapsulate bundle.kyberPrekey coins = .ok (hs.kyberCiphertext, kyberSecret) ∧
      root = P.kdfRootFromIkm
        ([P.diffieHellman my.dhIdentity bundle.signedPrekey,
          P.diffieHellman ephemeral bundle.identityDh,
          P.diffieHellman ephemeral bundle.signedPrekey] ++
          bundle.oneTimePrekey.toList.map (P.diffieHellman ephemeral) ++ [kyberSecret]) ∧
      hs = ⟨my.identityPublic, P.publicKey my.dhIdentity, P.publicKey ephemeral,
        bundle.signedPrekeyId, bundle.oneTimePrekeyId, bundle.kyberPrekeyId,
        hs.kyberCiphertext⟩ ∧
      spk = bundle.signedPrekey := by
  unfold initiate at h
  cases hencap : P.encapsulate bundle.kyberPrekey coins with
  | error e =>
    rw [hencap] at h
    cases h
  | ok out =>
    rw [hencap] at h
    cases h
    exact ⟨_, rfl, rfl, rfl, rfl⟩

/-- What the initiator puts into its header. -/
theorem initiate_header {my : Account P} {bundle : PreKeyBundle} {ephemeral : P.Secret}
    {coins : Bytes32} {root : P.Key} {hs : HandshakeHeader} {spk : Bytes32}
    (h : initiate my bundle ephemeral coins = .ok (root, hs, spk)) :
    spk = bundle.signedPrekey ∧ hs.identityEd = my.identityPublic ∧
      hs.signedPrekeyId = bundle.signedPrekeyId ∧
      hs.oneTimePrekeyId = bundle.oneTimePrekeyId := by
  unfold initiate at h
  cases hencap : P.encapsulate bundle.kyberPrekey coins with
  | error e =>
    rw [hencap] at h
    cases h
  | ok out =>
    rw [hencap] at h
    cases h
    exact ⟨rfl, rfl, rfl, rfl⟩

/-- What a bundle must say for `me` to complete a handshake opened on it. -/
structure Names (me : Account P) (bundle : PreKeyBundle) : Prop where
  identityDh : bundle.identityDh = P.publicKey me.dhIdentity
  signedPrekey : bundle.signedPrekey = P.publicKey me.signedPrekey
  signedPrekeyId : bundle.signedPrekeyId = me.signedPrekeyId
  kyberPrekey : bundle.kyberPrekey = P.encapsulationKey me.kyber
  kyberPrekeyId : bundle.kyberPrekeyId = me.kyberPrekeyId

/-- **The two sides agree.**  The initiator opened on a bundle that names the keys of
    `me`, with some one-time prekey that `me` still holds under the id it was given
    out with (or with none); the responder then rebuilds the initiator's root key. -/
theorem respond_initiate_of_names (hP : P.Exchange) {my me me' : Account P} {bundle : PreKeyBundle}
    {ephemeral : P.Secret} {coins : Bytes32} {root : P.Key} {hs : HandshakeHeader} {spk : Bytes32}
    {oneTime : Option P.Secret}
    (hinit : initiate my bundle ephemeral coins = .ok (root, hs, spk)) (hnames : Names me bundle)
    (htake : takeNamedPrekey me bundle.oneTimePrekeyId = (.ok oneTime, me'))
    (hpublic : bundle.oneTimePrekey = oneTime.map P.publicKey) :
    respond me hs = (.ok root, me') := by
  obtain ⟨ct, secret, hencap, hdecap⟩ := hP.encapsulate_ok me.kyber coins
  obtain ⟨pool, rfl⟩ := takeNamedPrekey_fields htake
  unfold initiate at hinit
  rw [hnames.kyberPrekey, hencap] at hinit
  cases hinit
  rw [respond_ok hnames.kyberPrekeyId hnames.signedPrekeyId htake hdecap]
  -- each Diffie-Hellman value is the same seen from the other side
  have hone : (oneTime.toList.map fun opk => P.diffieHellman opk (P.publicKey ephemeral)) =
      bundle.oneTimePrekey.toList.map (P.diffieHellman ephemeral) := by
    rw [hpublic]
    cases oneTime with
    | none => rfl
    | some opk => exact congrArg (fun s => [s]) (hP.dh_comm opk ephemeral)
  simp only [hnames.signedPrekey, hnames.identityDh, hone, hP.dh_comm me.signedPrekey,
    hP.dh_comm me.dhIdentity]

/-- A bundle of `me` names its keys, whatever one-time prekey it carries. -/
theorem respond_initiate (hP : P.Lawful) {my me me' : Account P} {bundle : PreKeyBundle}
    {ephemeral : P.Secret} {coins : Bytes32} {root : P.Key} {hs : HandshakeHeader} {spk : Bytes32}
    {oneTime : Option P.Secret}
    (hinit : initiate my bundle ephemeral coins = .ok (root, hs, spk))
    (hbundle : bundle = { me.bundle with
      oneTimePrekey := bundle.oneTimePrekey, oneTimePrekeyId := bundle.oneTimePrekeyId })
    (htake : takeNamedPrekey me bundle.oneTimePrekeyId = (.ok oneTime, me'))
    (hpublic : bundle.oneTimePrekey = oneTime.map P.publicKey) :
    respond me hs = (.ok root, me') := by
  have hnames : Names me bundle := by
    rw [hbundle]
    exact ⟨rfl, rfl, rfl, rfl, rfl⟩
  exact respond_initiate_of_names hP.exchange hinit hnames htake hpublic

end Handshake

/-! ## 2. The session methods -/

namespace Session

theorem initiate_ok_cases {me : Account P} {bundle : PreKeyBundle} {rnd : InitiateRandom P}
    {s : Session P} (h : initiate me bundle rnd = .ok s) :
    verifyBundle P bundle = .ok () ∧ ∃ root hs spk,
      Handshake.initiate me bundle rnd.ephemeral rnd.coins = .ok (root, hs, spk) ∧
      s = ⟨DoubleRatchet.initInitiator rnd.ratchet root spk,
        Clarity.adPrefix hs.identityEd bundle.identityEd, some hs⟩ := by
  unfold initiate at h
  cases hv : verifyBundle P bundle with
  | error e =>
    rw [hv] at h
    cases h
  | ok _ =>
    rw [hv] at h
    cases hi : Handshake.initiate me bundle rnd.ephemeral rnd.coins with
    | error e =>
      rw [hi] at h
      cases h
    | ok out =>
      rw [hi] at h
      obtain ⟨root, hs, spk⟩ := out
      cases h
      exact ⟨rfl, root, hs, spk, rfl, rfl⟩

theorem respond_ok_cases {me me' : Account P} {fresh : P.Secret} {m : Message C} {s : Session P}
    {plaintext : Bytes} (h : respond me fresh m = (.ok (s, plaintext), me')) :
    ∃ hs header ciphertext root spk r, m = .preKey hs header ciphertext ∧
      Handshake.respond me hs = (.ok root, me') ∧
      me'.signedPrekeyById hs.signedPrekeyId = .ok spk ∧
      (DoubleRatchet.initResponder root spk).decrypt fresh header ciphertext
        (Clarity.adPrefix hs.identityEd me'.identityPublic) = (.ok plaintext, r) ∧
      s = ⟨r, Clarity.adPrefix hs.identityEd me'.identityPublic, none⟩ := by
  cases m with
  | normal header ciphertext => cases (Prod.mk.inj h).1
  | preKey hs header ciphertext =>
    unfold respond at h
    dsimp only at h
    rcases hr : Handshake.respond me hs with ⟨e | root, me1⟩
    · rw [hr] at h
      cases (Prod.mk.inj h).1
    · rw [hr, Outcome.andThen_ok] at h
      cases hspk : me1.signedPrekeyById hs.signedPrekeyId with
      | error e =>
        rw [hspk] at h
        cases (Prod.mk.inj h).1
      | ok spk =>
        rw [hspk, Outcome.lift, Outcome.andThen_ok] at h
        rcases hd : (DoubleRatchet.initResponder root spk).decrypt fresh header ciphertext
            (Clarity.adPrefix hs.identityEd me1.identityPublic) with ⟨e | p, r⟩
        · rw [hd] at h
          cases (Prod.mk.inj h).1
        · rw [hd] at h
          cases h
          exact ⟨hs, header, ciphertext, root, spk, r, rfl, hr, hspk, hd, rfl⟩

/-- Only the handshake touches the account. -/
theorem respond_account (me : Account P) (fresh : P.Secret) (hs : HandshakeHeader)
    (header : RatchetHeader) (ciphertext : C) :
    (respond me fresh (.preKey hs header ciphertext)).2 = (Handshake.respond me hs).2 := by
  unfold respond
  dsimp only
  rcases hhs : Handshake.respond me hs with ⟨res, me'⟩
  cases res with
  | error e => rfl
  | ok root =>
    simp only [Outcome.andThen_ok]
    unfold Outcome.lift
    cases me'.signedPrekeyById hs.signedPrekeyId with
    | error e => rfl
    | ok spk =>
      simp only [Outcome.andThen_ok]
      split <;> rfl

/-- `respond` leaves the account as it was, or takes one prekey out of it. -/
theorem respond_account_cases (me : Account P) (fresh : P.Secret) (m : Message C) :
    (respond me fresh m).2 = me ∨
      ∃ id, (respond me fresh m).2 = { me with oneTimePrekeys := me.oneTimePrekeys.erase id } := by
  cases m with
  | normal header ciphertext => exact Or.inl rfl
  | preKey hs header ciphertext =>
    rw [respond_account, Handshake.respond_account]
    split
    · rw [Handshake.takeNamedPrekey_account]
      cases hs.oneTimePrekeyId with
      | none => exact Or.inl rfl
      | some id => exact Or.inr ⟨id, rfl⟩
    · exact Or.inl rfl

theorem respond_of_handshake {me me' : Account P} {fresh : P.Secret} {hs : HandshakeHeader}
    {header : RatchetHeader} {ciphertext : C} {root : P.Key} {spk : P.Secret} {plaintext : Bytes}
    {r : DoubleRatchet P} (hroot : Handshake.respond me hs = (.ok root, me'))
    (hspk : me'.signedPrekeyById hs.signedPrekeyId = .ok spk)
    (hdec : (DoubleRatchet.initResponder root spk).decrypt fresh header ciphertext
      (Clarity.adPrefix hs.identityEd me'.identityPublic) = (.ok plaintext, r)) :
    respond me fresh (.preKey hs header ciphertext) =
      (.ok (⟨r, Clarity.adPrefix hs.identityEd me'.identityPublic, none⟩, plaintext), me') := by
  unfold respond
  dsimp only
  rw [hroot, Outcome.andThen_ok, hspk, Outcome.lift, Outcome.andThen_ok, hdec]

theorem encrypt_ok_cases {s s' : Session P} {plaintext : Bytes} {m : Message C}
    (h : s.encrypt plaintext = (.ok m, s')) :
    ∃ r, s.ratchet.encrypt plaintext s.adPrefix = (.ok (m.header, m.ciphertext), r) ∧
      s' = { s with ratchet := r } ∧
      (∀ hs, s.pendingHandshake = some hs → m = .preKey hs m.header m.ciphertext) := by
  unfold encrypt at h
  rcases henc : s.ratchet.encrypt plaintext s.adPrefix with ⟨e | ⟨header, ciphertext⟩, r⟩
  · rw [henc] at h
    cases (Prod.mk.inj h).1
  · rw [henc] at h
    obtain ⟨hm, hs'⟩ := Prod.mk.inj h
    refine ⟨r, ?_, hs'.symm, ?_⟩
    · cases hp : s.pendingHandshake <;> simp only [hp, Except.ok.injEq] at hm <;> subst hm <;> rfl
    · intro hs hp
      simp only [hp, Except.ok.injEq] at hm
      subst hm
      rfl

/-- With a sending chain `encrypt` succeeds. -/
theorem encrypt_of_chain {s : Session P} {ck : P.Key} (h : s.ratchet.chainSend = some ck)
    (plaintext : Bytes) :
    ∃ m s', s.encrypt plaintext = (.ok m, s') ∧
      m.header = ⟨s.ratchet.dhSelfPub, s.ratchet.pn, s.ratchet.nSend⟩ ∧
      m.ciphertext = P.aeadSeal (P.kdfCk ck).2 plaintext (associatedData s.adPrefix m.header) := by
  unfold encrypt DoubleRatchet.encrypt
  rw [h]
  refine ⟨_, _, rfl, ?_, ?_⟩ <;> cases s.pendingHandshake <;> rfl

theorem decrypt_ok_cases {s s' : Session P} {fresh : P.Secret} {m : Message C} {plaintext : Bytes}
    (h : s.decrypt fresh m = (.ok plaintext, s')) :
    ∃ r, s.ratchet.decrypt fresh m.header m.ciphertext s.adPrefix = (.ok plaintext, r) ∧
      s' = { s with ratchet := r, pendingHandshake := none } := by
  unfold decrypt at h
  rcases hdec : s.ratchet.decrypt fresh m.header m.ciphertext s.adPrefix with ⟨e | p, r⟩
  · rw [hdec] at h
    cases (Prod.mk.inj h).1
  · rw [hdec] at h
    cases h
    exact ⟨r, rfl, rfl⟩

theorem decrypt_of_ok {s : Session P} {fresh : P.Secret} {m : Message C} {plaintext : Bytes}
    {r : DoubleRatchet P}
    (h : s.ratchet.decrypt fresh m.header m.ciphertext s.adPrefix = (.ok plaintext, r)) :
    s.decrypt fresh m = (.ok plaintext, { s with ratchet := r, pendingHandshake := none }) := by
  unfold decrypt
  rw [h]

@[simp] theorem result_decrypt (s : Session P) (fresh : P.Secret) (m : Message C) :
    (s.decrypt fresh m).1 = (s.ratchet.decrypt fresh m.header m.ciphertext s.adPrefix).1 := by
  unfold decrypt
  rcases s.ratchet.decrypt fresh m.header m.ciphertext s.adPrefix with ⟨_ | _, _⟩ <;> rfl

@[simp] theorem ratchet_decrypt (s : Session P) (fresh : P.Secret) (m : Message C) :
    (s.decrypt fresh m).2.ratchet =
      (s.ratchet.decrypt fresh m.header m.ciphertext s.adPrefix).2 := by
  unfold decrypt
  rcases s.ratchet.decrypt fresh m.header m.ciphertext s.adPrefix with ⟨_ | _, _⟩ <;> rfl

@[simp] theorem adPrefix_decrypt (s : Session P) (fresh : P.Secret) (m : Message C) :
    (s.decrypt fresh m).2.adPrefix = s.adPrefix := by
  unfold decrypt
  rcases s.ratchet.decrypt fresh m.header m.ciphertext s.adPrefix with ⟨_ | _, _⟩ <;> rfl

@[simp] theorem ratchet_encrypt (s : Session P) (plaintext : Bytes) :
    (s.encrypt plaintext).2.ratchet = (s.ratchet.encrypt plaintext s.adPrefix).2 := by
  unfold encrypt
  rcases s.ratchet.encrypt plaintext s.adPrefix with ⟨_ | ⟨_, _⟩, _⟩ <;> rfl

@[simp] theorem adPrefix_encrypt (s : Session P) (plaintext : Bytes) :
    (s.encrypt plaintext).2.adPrefix = s.adPrefix := by
  unfold encrypt
  rcases s.ratchet.encrypt plaintext s.adPrefix with ⟨_ | ⟨_, _⟩, _⟩ <;> rfl

end Session

end Clarity
