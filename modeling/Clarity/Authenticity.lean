/-
  Clarity/Authenticity.lean
  =========================
  **Message authenticity under injection.**

  Two honest accounts share a session whose root key the adversary does not
  know.  The adversary owns the network: it sees every ciphertext, and everything
  a session is given was made by it (`Crafted`) — replays, reflections of a
  party's own messages, messages sealed under any other key, noise, each under
  a header of its choice.

    * `Pair.Run` — the runs of such a pair, from `initiate` on, with the trace of
      what was sent and what was accepted;
    * `accepted_was_sent` — in every trace, whatever a session accepts was sent
      before by the other session, with the same header, ciphertext, plaintext
      and associated data.
-/
import Clarity.KeyUse
import Clarity.SessionSpec
import Clarity.Sample

namespace Clarity

/-! ## 1. The associated data determines its parts -/

theorem length_enc_ratchetHeader (h : RatchetHeader) : (RatchetHeader.codec.enc h).length = 40 := by
  show (h.dhPub.bytes ++ (Codec.leBytes 4 h.pn.toNat ++ Codec.leBytes 4 h.n.toNat)).length = 40
  simp [Codec.length_leBytes]

theorem associatedData_inj {ad ad' : Bytes} {h h' : RatchetHeader}
    (heq : associatedData ad h = associatedData ad' h') : ad = ad' ∧ h = h' := by
  unfold associatedData at heq
  -- the header takes the last forty bytes
  have hlen : (RatchetHeader.codec.enc h).length = (RatchetHeader.codec.enc h').length := by
    rw [length_enc_ratchetHeader, length_enc_ratchetHeader]
  obtain ⟨had, henc⟩ := List.append_inj' heq hlen
  have hdec := Codec.dec_enc_nil RatchetHeader.codec (RatchetHeader.codec_valid h)
  rw [henc, Codec.dec_enc_nil RatchetHeader.codec (RatchetHeader.codec_valid h')] at hdec
  exact ⟨had, (Prod.mk.inj (Option.some.inj hdec)).1.symm⟩

/-! ## 2. What the adversary knows -/

/-- Every key that is not derived from another one, except `root`. -/
def KeyTerm.baseExcept {S : Type} (root : KeyTerm S) : Set (KeyTerm S) :=
  { k | ((∃ n, k = .atom n) ∨ ∃ salt ikm info, k = .hkdf32 salt ikm info) ∧ k ≠ root }

theorem KeyTerm.not_descends_of_baseExcept {S : Type} {root k : KeyTerm S}
    (h : k ∈ root.baseExcept) : ¬ KeyTerm.Descends root k := by
  obtain ⟨hbase, hne⟩ := h
  intro hd
  rcases hbase with ⟨n, rfl⟩ | ⟨salt, ikm, info, rfl⟩
  · cases hd
    exact hne rfl
  · cases hd
    exact hne rfl

/-! ## 3. Runs of a pair of sessions -/

/-- In the free key schedule a handshake root is not derived from another key. -/
theorem Handshake.initiate_root {C : Type} {P : Suite C} [DecidableEq P.Shared]
    {my : Account P.free} {bundle : PreKeyBundle} {ephemeral : P.free.Secret} {coins : Bytes32}
    {root : P.free.Key} {hs : HandshakeHeader} {spk : Bytes32}
    (h : Handshake.initiate my bundle ephemeral coins = .ok (root, hs, spk)) :
    ∃ salt ikm info, root = KeyTerm.hkdf32 salt ikm info := by
  unfold Handshake.initiate at h
  cases henc : P.free.encapsulate bundle.kyberPrekey coins with
  | error e =>
    rw [henc] at h
    cases h
  | ok out =>
    rw [henc] at h
    cases h
    exact ⟨_, _, _, rfl⟩

/-- What can be observed of the two sessions. -/
inductive Event (C : Type) where
  | sent (side : Side) (adPrefix plaintext : Bytes) (header : RatchetHeader) (ciphertext : C)
  | accepted (side : Side) (adPrefix plaintext : Bytes) (header : RatchetHeader) (ciphertext : C)

namespace Event

variable {C : Type} {P : Suite C}

/-- The ciphertexts that went over the network. -/
def seen : List (Event C) → List C
  | [] => []
  | sent _ _ _ _ c :: rest => c :: seen rest
  | accepted _ _ _ _ _ :: rest => seen rest

theorem mem_seen {trace : List (Event C)} {c : C} :
    c ∈ seen trace ↔ ∃ side ad p h, sent side ad p h c ∈ trace := by
  induction trace with
  | nil => simp [seen]
  | cons e rest ih =>
    cases e with
    | sent side ad p h c' =>
      simp only [seen, List.mem_cons, ih]
      constructor
      · rintro (rfl | ⟨side', ad', p', h', hmem⟩)
        · exact ⟨side, ad, p, h, Or.inl rfl⟩
        · exact ⟨side', ad', p', h', Or.inr hmem⟩
      · rintro ⟨side', ad', p', h', heq | hmem⟩
        · cases heq
          exact Or.inl rfl
        · exact Or.inr ⟨side', ad', p', h', hmem⟩
    | accepted side ad p h c' =>
      simp only [seen, List.mem_cons, ih]
      constructor
      · rintro ⟨side', ad', p', h', hmem⟩
        exact ⟨side', ad', p', h', Or.inr hmem⟩
      · rintro ⟨side', ad', p', h', heq | hmem⟩
        · cases heq
        · exact ⟨side', ad', p', h', hmem⟩

/-- The event of an `encrypt` call that returned `result`. -/
def ofEncrypt (side : Side) (s : Session P) (plaintext : Bytes) :
    Result (Message C) → List (Event C)
  | .ok m => [sent side s.adPrefix plaintext m.header m.ciphertext]
  | .error _ => []

/-- The event of a `decrypt` call on `m` that returned `result`. -/
def ofDecrypt (side : Side) (s : Session P) (m : Message C) : Result Bytes → List (Event C)
  | .ok plaintext => [accepted side s.adPrefix plaintext m.header m.ciphertext]
  | .error _ => []

/-- In the trace, every acceptance follows the sending of the same message by
    the other side. -/
def Authentic (trace : List (Event C)) : Prop :=
  ∀ before side ad p h c later, trace = before ++ accepted side ad p h c :: later →
    sent side.other ad p h c ∈ before

theorem Authentic.concat {trace : List (Event C)} (htrace : Authentic trace)
    {e : Event C}
    (he : ∀ side ad p h c, e = .accepted side ad p h c →
      sent side.other ad p h c ∈ trace) : Authentic (trace ++ [e]) := by
  intro before side ad p h c later heq
  rcases List.eq_nil_or_concat later with rfl | ⟨later', e', rfl⟩
  · obtain ⟨rfl, hlast⟩ := List.append_inj' heq rfl
    exact he side ad p h c (List.singleton_inj.mp hlast)
  · rw [List.concat_eq_append, ← List.cons_append, ← List.append_assoc] at heq
    obtain ⟨hfront, _⟩ := List.append_inj' heq rfl
    exact htrace before side ad p h c later' hfront

end Event

/-- The sessions of the two sides, and the account the responder answers from. -/
structure Pair {C : Type} (P : Suite C) where
  session : Side → Option (Session P)
  account : Account P

namespace Pair

variable {C : Type} {P : Suite C} [DecidableEq P.Shared]

/-- The runs of a session between `alice`, who opens it on `bundle`, and `bob`.
    `root` is the key both handshakes arrive at. -/
inductive Run (alice bob : Account P.free) (bundle : PreKeyBundle) (root : P.free.Key) :
    List (Event (CipherTerm P.Shared)) → Pair P.free → Prop where
  | opened {rnd : Session.InitiateRandom P.free} {s : Session P.free} {hs : HandshakeHeader}
      {spk : Bytes32} :
      Session.initiate alice bundle rnd = .ok s →
      Handshake.initiate alice bundle rnd.ephemeral rnd.coins = .ok (root, hs, spk) →
      Run alice bob bundle root [] ⟨Function.update (fun _ => none) .initiator (some s), bob⟩
  | send {trace : List (Event (CipherTerm P.Shared))} {pair : Pair P.free} {s : Session P.free}
      (side : Side) (plaintext : Bytes) :
      Run alice bob bundle root trace pair → pair.session side = some s →
      Run alice bob bundle root
        (trace ++ Event.ofEncrypt side s plaintext (s.encrypt plaintext).1)
        { pair with session := Function.update pair.session side (some (s.encrypt plaintext).2) }
  | deliver {trace : List (Event (CipherTerm P.Shared))} {pair : Pair P.free}
      {s : Session P.free} (side : Side) (fresh : P.free.Secret)
      (m : Message (CipherTerm P.Shared)) :
      Run alice bob bundle root trace pair → pair.session side = some s →
      Crafted root.baseExcept (Event.seen trace) m.ciphertext →
      Run alice bob bundle root (trace ++ Event.ofDecrypt side s m (s.decrypt fresh m).1)
        { pair with session := Function.update pair.session side (some (s.decrypt fresh m).2) }
  /-- `bob` answers the handshake: the session he gets is the other half of the pair. -/
  | respond {trace : List (Event (CipherTerm P.Shared))} {pair : Pair P.free}
      {s : Session P.free} {account : Account P.free} {plaintext : Bytes} (fresh : P.free.Secret)
      (hs : HandshakeHeader) (header : RatchetHeader) (ciphertext : CipherTerm P.Shared) :
      Run alice bob bundle root trace pair → pair.session .responder = none →
      Crafted root.baseExcept (Event.seen trace) ciphertext →
      (Handshake.respond pair.account hs).1 = .ok root →
      Session.respond pair.account fresh (.preKey hs header ciphertext) =
        (.ok (s, plaintext), account) →
      Run alice bob bundle root
        (trace ++ [.accepted .responder s.adPrefix plaintext header ciphertext])
        ⟨Function.update pair.session .responder (some s), account⟩
  /-- `bob` is called with something else: the call fails, or opens some other session. -/
  | respondElse {trace : List (Event (CipherTerm P.Shared))} {pair : Pair P.free}
      (fresh : P.free.Secret) (m : Message (CipherTerm P.Shared)) :
      Run alice bob bundle root trace pair → pair.session .responder = none →
      Run alice bob bundle root trace
        { pair with account := (Session.respond pair.account fresh m).2 }

/-! ## 4. Authenticity -/

/-- The sessions hold keys derived from the root, and what was sent was sealed
    at a sending turn of the side that sent it. -/
structure Inv (root : P.free.Key) (trace : List (Event (CipherTerm P.Shared)))
    (pair : Pair P.free) : Prop where
  root_base : ∃ salt ikm info, root = KeyTerm.hkdf32 salt ikm info
  keys : ∀ side s, pair.session side = some s →
    s.ratchet.KeysFrom root (Ends.sendParity root side)
  sent : ∀ side ad p h c, Event.sent side ad p h c ∈ trace →
    ∃ k, c = P.free.aeadSeal k p (associatedData ad h) ∧
      (KeyTerm.msgPos k).1 % 2 = Ends.sendParity root side

variable {root : P.free.Key} {trace : List (Event (CipherTerm P.Shared))} {pair : Pair P.free}

/-- The key an accepted message was opened with: derived from the root, and at a
    turn at which this side does not send. -/
theorem opening_key {r r' : DoubleRatchet P.free} {parity : Nat} (hkeys : r.KeysFrom root parity)
    {fresh : P.free.Secret} {header : RatchetHeader} {ciphertext : CipherTerm P.Shared}
    {adPrefix plaintext : Bytes}
    (h : r.decrypt fresh header ciphertext adPrefix = (.ok plaintext, r')) :
    ∃ k, ciphertext = P.free.aeadSeal k plaintext (associatedData adPrefix header) ∧
      KeyTerm.Descends root k ∧ (KeyTerm.msgPos k).1 % 2 ≠ parity := by
  rcases DoubleRatchet.decrypt_ok_cases h with ⟨k, hk, hopen, _⟩ |
      ⟨_, r1, r2, ck, hfollow, hskip, hck, hopen, _⟩
  · obtain ⟨hdesc, hpar⟩ := hkeys.cached _ _ hk
    exact ⟨k, Suite.free_aeadOpen_eq_ok hopen, hdesc, hpar⟩
  · -- the chain the key is taken from is a receiving chain of `r2`
    have hkeys1 : r1.KeysFrom root parity := by
      have := hkeys.followRemote fresh header
      rwa [hfollow] at this
    have hkeys2 : r2.KeysFrom root parity := by
      have := hkeys1.skipMessageKeys header.n
      rwa [hskip] at this
    obtain ⟨hdesc, hturn⟩ := hkeys2.recv ck hck
    have hpar := hkeys2.root_parity
    refine ⟨_, Suite.free_aeadOpen_eq_ok hopen, (descends_kdfCk hdesc).2, ?_⟩
    rw [msgPos_kdfCk]
    omega

/-- A message an adversary without the root can deliver, if it opens at a
    receiving turn of `side`, is one the other side sent. -/
theorem Inv.sent_of_crafted (hinv : Inv root trace pair) {side : Side}
    {k : P.free.Key} {c : CipherTerm P.Shared} {ad p : Bytes} {header : RatchetHeader}
    (hcrafted : Crafted (KeyTerm.baseExcept root) (Event.seen trace) c)
    (hc : c = P.free.aeadSeal k p (associatedData ad header)) (hdesc : KeyTerm.Descends root k)
    (hpar : (KeyTerm.msgPos k).1 % 2 ≠ Ends.sendParity root side) :
    Event.sent side.other ad p header c ∈ trace := by
  cases hcrafted with
  | replay hseen =>
    obtain ⟨side', ad', p', h', hsent⟩ := Event.mem_seen.mp hseen
    obtain ⟨k', hc', hpar'⟩ := hinv.sent side' ad' p' h' c hsent
    obtain ⟨rfl, rfl, had⟩ := Suite.free_aeadSeal_inj (hc'.symm.trans hc)
    obtain ⟨rfl, rfl⟩ := associatedData_inj had
    -- a reflected message would sit at a turn of the wrong parity
    have hside : side' = side.other := by
      cases side <;> cases side' <;> first | rfl | exact absurd hpar' hpar
    rw [← hside]
    exact hsent
  | forge info' msg aad hder =>
    have hk : _ = k := (CipherTerm.sealed.inj hc).1
    obtain ⟨salt, ikm, info, hroot⟩ := hinv.root_base
    subst hk hroot
    exact absurd hdesc (KeyTerm.not_descends_of_derivable
      (fun _ => KeyTerm.not_descends_of_baseExcept) hder)
  | noise bytes => cases hc

/-- Replacing one session, with no new `sent` event of the other side. -/
theorem Inv.update (hinv : Inv root trace pair) {side : Side} {s : Session P.free}
    (hkeys : s.ratchet.KeysFrom root (Ends.sendParity root side))
    (new : List (Event (CipherTerm P.Shared))) (account : Account P.free)
    (hnew : ∀ side' ad p h c, Event.sent side' ad p h c ∈ new →
      ∃ k, c = P.free.aeadSeal k p (associatedData ad h) ∧
        (KeyTerm.msgPos k).1 % 2 = Ends.sendParity root side') :
    Inv root (trace ++ new) ⟨Function.update pair.session side (some s), account⟩ where
  root_base := hinv.root_base
  keys := by
    intro side' s' hs'
    by_cases hs : side' = side
    · subst hs
      dsimp only at hs'
      rw [Function.update_self] at hs'
      cases hs'
      exact hkeys
    · dsimp only at hs'
      rw [Function.update_of_ne hs] at hs'
      exact hinv.keys side' s' hs'
  sent := by
    intro side' ad p h c hmem
    rcases List.mem_append.mp hmem with hold | hn
    · exact hinv.sent side' ad p h c hold
    · exact hnew side' ad p h c hn

theorem Inv.send (hinv : Inv root trace pair) (htrace : Event.Authentic trace) {side : Side}
    {s : Session P.free} (hs : pair.session side = some s) (plaintext : Bytes) :
    Inv root (trace ++ Event.ofEncrypt side s plaintext (s.encrypt plaintext).1)
        { pair with session := Function.update pair.session side (some (s.encrypt plaintext).2) } ∧
      Event.Authentic (trace ++ Event.ofEncrypt side s plaintext (s.encrypt plaintext).1) := by
  have hkeys : (s.encrypt plaintext).2.ratchet.KeysFrom root (Ends.sendParity root side) := by
    rw [Session.ratchet_encrypt]
    exact (hinv.keys side s hs).encrypt _ _
  rcases henc : s.encrypt plaintext with ⟨e | m, s'⟩
  · rw [henc] at hkeys
    rw [Event.ofEncrypt, List.append_nil]
    refine ⟨?_, htrace⟩
    have hupd := hinv.update hkeys [] pair.account (fun _ _ _ _ _ h => by cases h)
    rwa [List.append_nil] at hupd
  · rw [henc] at hkeys
    obtain ⟨r, hr, _, _⟩ := Session.encrypt_ok_cases henc
    obtain ⟨ck, hck, _, hc, _⟩ := DoubleRatchet.encrypt_ok_cases hr
    have hold := hinv.keys side s hs
    refine ⟨hinv.update hkeys _ pair.account ?_, htrace.concat ?_⟩
    · intro side' ad p h c hmem
      cases List.mem_singleton.mp hmem
      refine ⟨_, hc, ?_⟩
      rw [msgPos_kdfCk, (hold.send ck hck).2]
      exact hold.root_parity
    · intro _ _ _ _ _ heq
      cases heq

theorem Inv.deliver (hinv : Inv root trace pair) (htrace : Event.Authentic trace) {side : Side}
    {s : Session P.free} (hs : pair.session side = some s) (fresh : P.free.Secret)
    {m : Message (CipherTerm P.Shared)}
    (hcrafted : Crafted (KeyTerm.baseExcept root) (Event.seen trace) m.ciphertext) :
    Inv root (trace ++ Event.ofDecrypt side s m (s.decrypt fresh m).1)
        { pair with session := Function.update pair.session side (some (s.decrypt fresh m).2) } ∧
      Event.Authentic (trace ++ Event.ofDecrypt side s m (s.decrypt fresh m).1) := by
  have hkeys : (s.decrypt fresh m).2.ratchet.KeysFrom root (Ends.sendParity root side) := by
    rw [Session.ratchet_decrypt]
    exact (hinv.keys side s hs).decrypt _ _ _ _
  rcases hdec : s.decrypt fresh m with ⟨e | p, s'⟩
  · rw [hdec] at hkeys
    rw [Event.ofDecrypt, List.append_nil]
    refine ⟨?_, htrace⟩
    have hupd := hinv.update hkeys [] pair.account (fun _ _ _ _ _ h => by cases h)
    rwa [List.append_nil] at hupd
  · rw [hdec] at hkeys
    obtain ⟨r, hr, _⟩ := Session.decrypt_ok_cases hdec
    obtain ⟨k, hc, hdesc, hpar⟩ := opening_key (hinv.keys side s hs) hr
    refine ⟨hinv.update hkeys _ pair.account ?_, htrace.concat ?_⟩
    · intro _ _ _ _ _ hmem
      cases List.mem_singleton.mp hmem
    · intro _ _ _ _ _ heq
      cases heq
      exact hinv.sent_of_crafted hcrafted hc hdesc hpar

theorem Inv.respond (hinv : Inv root trace pair) (htrace : Event.Authentic trace) {s : Session P.free}
    {account : Account P.free} {plaintext : Bytes} {fresh : P.free.Secret} {hs : HandshakeHeader}
    {header : RatchetHeader} {ciphertext : CipherTerm P.Shared}
    (hcrafted : Crafted (KeyTerm.baseExcept root) (Event.seen trace) ciphertext)
    (hroot : (Handshake.respond pair.account hs).1 = .ok root)
    (hresp : Session.respond pair.account fresh (.preKey hs header ciphertext) =
      (.ok (s, plaintext), account)) :
    Inv root (trace ++ [.accepted .responder s.adPrefix plaintext header ciphertext])
        ⟨Function.update pair.session .responder (some s), account⟩ ∧
      Event.Authentic (trace ++ [.accepted .responder s.adPrefix plaintext header ciphertext]) := by
  obtain ⟨hs', header', c', root', spk, r, hm, hhs, _, hdec, rfl⟩ := Session.respond_ok_cases hresp
  cases hm
  rw [hhs] at hroot
  cases hroot
  have hinit := DoubleRatchet.keysFrom_initResponder root spk
  have hkeys : r.KeysFrom root (Ends.sendParity root .responder) := by
    have := hinit.decrypt fresh header ciphertext
      (Clarity.adPrefix hs.identityEd account.identityPublic)
    rwa [hdec] at this
  obtain ⟨k, hc, hdesc, hpar⟩ := opening_key hinit hdec
  refine ⟨hinv.update hkeys _ account ?_, htrace.concat ?_⟩
  · intro _ _ _ _ _ hmem
    cases List.mem_singleton.mp hmem
  · intro _ _ _ _ _ heq
    cases heq
    exact hinv.sent_of_crafted hcrafted hc hdesc hpar

theorem Run.inv {alice bob : Account P.free} {bundle : PreKeyBundle}
    (hrun : Run alice bob bundle root trace pair) : Inv root trace pair ∧ Event.Authentic trace := by
  induction hrun with
  | opened hs hhs =>
    obtain ⟨_, root', hs', spk', hhs', rfl⟩ := Session.initiate_ok_cases hs
    rw [hhs] at hhs'
    cases hhs'
    refine ⟨⟨Handshake.initiate_root hhs, ?_, fun _ _ _ _ _ hmem => by cases hmem⟩, ?_⟩
    · intro side s hside
      cases side with
      | initiator =>
        cases hside
        exact DoubleRatchet.keysFrom_initInitiator root _ _
      | responder => cases hside
    · intro before _ _ _ _ _ later heq
      exact absurd heq.symm (by simp)
  | send side plaintext _ hs ih => exact ih.1.send ih.2 hs plaintext
  | deliver side fresh m _ hs hcrafted ih => exact ih.1.deliver ih.2 hs fresh hcrafted
  | respond fresh hs header ciphertext _ _ hcrafted hroot hresp ih =>
    exact ih.1.respond ih.2 hcrafted hroot hresp
  | respondElse fresh m _ _ ih => exact ⟨⟨ih.1.root_base, ih.1.keys, ih.1.sent⟩, ih.2⟩

/-- **Message authenticity.**  Whatever the adversary does, a session accepts
    only what the other session sent before: the same header and ciphertext,
    for the same plaintext and under the same associated data. -/
theorem accepted_was_sent {alice bob : Account P.free} {bundle : PreKeyBundle}
    (hrun : Run alice bob bundle root trace pair)
    (before later : List (Event (CipherTerm P.Shared))) (side : Side) (ad p : Bytes)
    (h : RatchetHeader) (c : CipherTerm P.Shared)
    (htrace : trace = before ++ Event.accepted side ad p h c :: later) :
    Event.sent side.other ad p h c ∈ before :=
  hrun.inv.2 before side ad p h c later htrace

/-- Bob derives the initiator's root from the first message, and reads `[1]` in it. -/
def readsFirst : Outcome (Session Suite.sample.free) (Message (CipherTerm Bytes)) → Bool
  | (.ok (.preKey hs header ciphertext), _) =>
    decide ((Handshake.respond freeBob hs).1.toOption = (Handshake.initiate freeAlice
        freeBob.bundle freeRandom.ephemeral freeRandom.coins).toOption.map Prod.fst ∧
      ((Session.respond freeBob (freeSecret 70) (.preKey hs header ciphertext)).1.map
        Prod.snd).toOption = some [1])
  | _ => false

/-- Alice's first message, delivered unchanged, is accepted by Bob. -/
theorem accepted_was_sent_sample :
    ∃ root trace pair, Run freeAlice freeBob freeBob.bundle root trace pair ∧
      ∃ before ad h c, trace = before ++ [Event.accepted .responder ad [1] h c] ∧
        Event.sent .initiator ad [1] h c ∈ before := by
  have hroots : ((Session.initiate freeAlice freeBob.bundle freeRandom).toOption.any fun s =>
      readsFirst (s.encrypt [1])) = true := by
    decide +kernel
  obtain ⟨s, hs, hmatch⟩ := (Option.any_eq_true _ _).mp hroots
  have hinit : Session.initiate freeAlice freeBob.bundle freeRandom = .ok s := by
    cases hres : Session.initiate freeAlice freeBob.bundle freeRandom with
    | error e =>
      rw [hres] at hs
      cases hs
    | ok s' =>
      rw [hres] at hs
      cases hs
      rfl
  obtain ⟨_, root, hs', spk, hhs, _⟩ := Session.initiate_ok_cases hinit
  rcases henc : s.encrypt [1] with ⟨e | ⟨hs, header, ciphertext⟩ | ⟨header, ciphertext⟩, s1⟩
  · rw [henc] at hmatch
    cases hmatch
  · rw [henc] at hmatch
    obtain ⟨hroot, hplain⟩ := of_decide_eq_true hmatch
    rw [hhs] at hroot
    rcases hresp : Session.respond freeBob (freeSecret 70) (.preKey hs header ciphertext) with
      ⟨e | ⟨b, p⟩, account⟩
    · rw [hresp] at hplain
      cases hplain
    · rw [hresp] at hplain
      cases hplain
      have hrespRoot : (Handshake.respond freeBob hs).1 = .ok root := by
        cases hr : (Handshake.respond freeBob hs).1 with
        | error e =>
          rw [hr] at hroot
          cases hroot
        | ok root' =>
          rw [hr] at hroot
          cases hroot
          rfl
      have hopen : Run freeAlice freeBob freeBob.bundle root [] _ := Run.opened hinit hhs
      have hrun := Run.respond (freeSecret 70) hs header ciphertext
        (Run.send .initiator [1] hopen rfl) rfl
        (by
          rw [henc]
          exact Crafted.replay (List.mem_singleton.mpr rfl)) hrespRoot hresp
      refine ⟨root, _, _, hrun, _, b.adPrefix, header, ciphertext, rfl, ?_⟩
      exact accepted_was_sent hrun _ [] .responder b.adPrefix [1] header ciphertext rfl
  · rw [henc] at hmatch
    cases hmatch

end Pair

end Clarity
