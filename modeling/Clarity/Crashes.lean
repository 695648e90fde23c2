/-
  Clarity/Crashes.lean
  ====================
  **Message keys and crashes.**

  `_sendContent` encrypts, hands the envelope to the transport, and writes the session
  only when the transport has answered.  A process that ends in between comes back with
  a session that is behind the transport, and its next message takes a key that has
  already been used.

  The sending chains of a device are chains in the sense of `Clarity.Chains`: `chains`
  reads off where each contact's session is and which places its stored and pending
  copies hold, and `step_chains` gives the move that an act makes.

    * `message_keys_once` — in every run whose restarts find no session behind the
      transport, no message key encrypts two plaintexts;
    * `crash_reuses_key` — and a restart that finds one can make it do so.
-/
import Clarity.Chains
import Clarity.Restarts
import Clarity.Substitution

namespace Clarity

/-! ## 1. The sending chain -/

/-- The KDFs, as far as sending needs them, have no collisions, and no chain runs into
    the start of another. -/
structure Suite.CollisionFree {C : Type} (P : Suite C) : Prop where
  nextChain : Function.Injective fun ck => (P.kdfCk ck).1
  messageKey : Function.Injective fun ck => (P.kdfCk ck).2
  firstChain : ∀ root dh root' dh', (P.kdfRk root dh).2 = (P.kdfRk root' dh').2 →
    root = root' ∧ dh = dh'
  first : ∀ ck root dh, (P.kdfCk ck).1 ≠ (P.kdfRk root dh).2

namespace DoubleRatchet

variable {C : Type} {P : Suite C}

theorem chainSend_skipMessageKeys (r : DoubleRatchet P) (upTo : UInt32) :
    (r.skipMessageKeys upTo).2.chainSend = r.chainSend := by
  rcases skipMessageKeys_cases r upTo with ⟨_, hs⟩ | ⟨_, hs⟩ |
      ⟨ck, remote, _, _, _, _, hs | ⟨_, _, _, _, hs⟩⟩ <;> rw [hs] <;> rfl

theorem chainSend_openNext (r : DoubleRatchet P) (ciphertext : C) (ad : Bytes) :
    (r.openNext ciphertext ad).2.chainSend = r.chainSend := by
  unfold openNext
  split <;> rfl

/-- The sending chain of `r'` is that of `r`, or it has just been started with `fresh`. -/
def SendsOn (fresh : P.Secret) (remote : Bytes32) (r r' : DoubleRatchet P) : Prop :=
  r'.chainSend = r.chainSend ∨
    ∃ root, r'.chainSend = some (P.kdfRk root (P.diffieHellman fresh remote)).2

theorem sendsOn_followRemote (r : DoubleRatchet P) (fresh : P.Secret) (header : RatchetHeader) :
    SendsOn fresh header.dhPub r (r.followRemote fresh header).2 := by
  unfold followRemote
  split
  · have hskip := chainSend_skipMessageKeys r header.pn
    rcases hs : r.skipMessageKeys header.pn with ⟨e | _, r1⟩
    · rw [hs] at hskip
      exact Or.inl hskip
    · exact Or.inr ⟨_, rfl⟩
  · exact Or.inl rfl

theorem sendsOn_decrypt (r : DoubleRatchet P) (fresh : P.Secret) (header : RatchetHeader)
    (ciphertext : C) (adPrefix : Bytes) :
    SendsOn fresh header.dhPub r (r.decrypt fresh header ciphertext adPrefix).2 := by
  cases hcached : r.skipped[(header.dhPub, header.n)]? with
  | some messageKey =>
    rw [decrypt_cached hcached]
    exact Or.inl rfl
  | none =>
    rw [decrypt_uncached hcached]
    have hfollow := sendsOn_followRemote r fresh header
    rcases hf : r.followRemote fresh header with ⟨e | _, r1⟩
    · rw [hf] at hfollow
      exact hfollow
    · rw [hf] at hfollow
      rw [Outcome.andThen_ok]
      have hskip := chainSend_skipMessageKeys r1 header.n
      rcases hs : r1.skipMessageKeys header.n with ⟨e | _, r2⟩
      · rw [hs] at hskip
        unfold SendsOn at hfollow ⊢
        rwa [Outcome.andThen_error, hskip]
      · rw [hs] at hskip
        unfold SendsOn at hfollow ⊢
        rw [Outcome.andThen_ok, chainSend_openNext, hskip]
        exact hfollow

end DoubleRatchet

variable {P : Suite Bytes}

namespace Device

open Chains

/-- The place that a session sends from. -/
def sendPlace (s : Session P) : Option P.Key := s.ratchet.chainSend

/-- Where the sessions are, in memory and in copies that are stored or on the way. -/
def chains (d : Device P) : Store Bytes32 P.Key where
  live contactId := (d.app.sessions.get? contactId).bind sendPlace
  saved contactId := { ck | ∃ s, sendPlace s = some ck ∧
    (d.disk.sessions[contactId]? = some s ∨ ∃ after, (.session contactId s, after) ∈ d.writes) }

def nextPlace (P : Suite Bytes) (ck : P.Key) : P.Key := (P.kdfCk ck).1

/-- The message keys of the envelopes that were handed to the transport, in order. -/
def handedKeys (trace : List (Event P)) : List P.Key :=
  trace.filterMap fun
    | .handed key _ => some key
    | _ => none

theorem handedKeys_append (trace trace' : List (Event P)) :
    handedKeys (trace ++ trace') = handedKeys trace ++ handedKeys trace' :=
  List.filterMap_append ..

/-! ## 2. Stretches that leave the sessions alone -/

theorem sessions_maybeReplenish (s : AppState P) (draws : Nat → P.Secret) :
    (s.maybeReplenishPrekeys draws).sessions = s.sessions := by
  unfold AppState.maybeReplenishPrekeys
  dsimp only
  split <;> rfl

/-- The sessions stay, and only they are saved. -/
structure Keeps (d d' : Device P) : Prop where
  sessions : d'.app.sessions = d.app.sessions
  saves : Saves (chains d) (chains d')

namespace Keeps

variable {d d' d'' : Device P}

theorem live (h : Keeps d d') : (chains d').live = (chains d).live := by
  funext contactId
  simp only [chains, h.sessions]

theorem trans (h : Keeps d d') (h' : Keeps d' d'') : Keeps d d'' where
  sessions := h'.sessions.trans h.sessions
  saves := by
    apply h.saves.trans h'.saves
    intro o k hk
    rw [h.live] at hk
    exact Or.inl hk

/-- Neither storage nor the writes change. -/
theorem of_app (happ : d'.app.sessions = d.app.sessions) (hdisk : d'.disk = d.disk)
    (hwrites : d'.writes = d.writes) : Keeps d d' where
  sessions := happ
  saves := by
    rintro contactId ck ⟨s, hs, hsaved⟩
    rw [hdisk, hwrites] at hsaved
    exact Or.inl ⟨s, hs, hsaved⟩

theorem refl (d : Device P) : Keeps d d := of_app rfl rfl rfl

/-- A write that is no session. -/
theorem persist {w : Write P} (hw : ∀ contactId s, w ≠ .session contactId s) (after : After) :
    Keeps d (d.persist w after) where
  sessions := rfl
  saves := by
    rintro contactId ck ⟨s, hs, hdisk | ⟨after', hwrite⟩⟩
    · exact Or.inl ⟨s, hs, Or.inl hdisk⟩
    · rcases List.mem_append.mp hwrite with hwrite | hwrite
      · exact Or.inl ⟨s, hs, Or.inr ⟨after', hwrite⟩⟩
      · cases List.mem_singleton.mp hwrite
        exact absurd rfl (hw contactId s)

theorem persistContacts (after : After) : Keeps d (d.persistContacts after) :=
  persist (fun _ _ h => by cases h) after

theorem persistHistory (contactId : Bytes32) : Keeps d (d.persistHistory contactId) :=
  persist (fun _ _ h => by cases h) .done

theorem persistAccount (before : AppState P) : Keeps d (d.persistAccount before) := by
  unfold Device.persistAccount
  split
  · exact persist (fun _ _ h => by cases h) .publish
  · exact refl d

/-- What is saved is the session that is in memory. -/
theorem persistSession (contactId : Bytes32) (after : After) :
    Keeps d (d.persistSession contactId after) := by
  unfold Device.persistSession
  cases hsession : d.app.sessions.get? contactId with
  | none => exact refl d
  | some session =>
    refine ⟨rfl, ?_⟩
    rintro contactId' ck ⟨s, hs, hdisk | ⟨after', hwrite⟩⟩
    · exact Or.inl ⟨s, hs, Or.inl hdisk⟩
    · rcases List.mem_append.mp hwrite with hwrite | hwrite
      · exact Or.inl ⟨s, hs, Or.inr ⟨after', hwrite⟩⟩
      · cases List.mem_singleton.mp hwrite
        right
        left
        simp only [chains, hsession]
        exact hs

theorem foldl_persistHistory {p : Bytes32 × Contact → Prop} [DecidablePred p]
    (l : List (Bytes32 × Contact)) :
    Keeps d (l.foldl (fun d' e => if p e then d' else d'.persistHistory e.2.identity) d) := by
  induction l generalizing d with
  | nil => exact refl d
  | cons e rest ih =>
    rw [List.foldl_cons]
    refine Keeps.trans ?_ ih
    split
    · exact refl d
    · exact persistHistory e.2.identity

theorem persistSwept (before : AppState P) : Keeps d (d.persistSwept before) :=
  foldl_persistHistory _

theorem sweep (now : DateTime) : Keeps d (d.sweep now) := by
  obtain ⟨conversations, hframe⟩ := AppState.sweepExpiredMessages_frame now d.app
  have happ : Keeps d { d with app := (d.app.sweepExpiredMessages now).2 } :=
    of_app (by rw [hframe]) rfl rfl
  exact happ.trans (persistSwept d.app)

theorem append (contactId : Bytes32) (m : ChatMessage) :
    Keeps d { d with app := d.app.append contactId m } := of_app rfl rfl rfl

theorem appendInfo (contactId : Bytes32) (text : Text) (now : DateTime) :
    Keeps d (d.appendInfo contactId text now) :=
  (append contactId _).trans (persistHistory contactId)

theorem publishBundle (who : Publishing) : Keeps d (d.publishBundle who).2 := of_app rfl rfl rfl

theorem maybeReplenishPrekeys (draws : Nat → P.Secret) :
    Keeps d (d.maybeReplenishPrekeys draws) := by
  have happ : Keeps d { d with app := d.app.maybeReplenishPrekeys draws } :=
    of_app (sessions_maybeReplenish d.app draws) rfl rfl
  exact happ.trans (persistAccount d.app)

/-- A write that completes saves nothing new. -/
theorem written {i : Nat} {w : Write P} {after : After} (h : d.writes[i]? = some (w, after)) :
    Keeps d { d with disk := d.disk.write w, writes := d.writes.eraseIdx i } where
  sessions := rfl
  saves := by
    rintro contactId ck ⟨s, hs, hdisk | ⟨after', hwrite⟩⟩
    · left
      refine ⟨s, hs, ?_⟩
      cases w with
      | account a => exact Or.inl hdisk
      | contacts l => exact Or.inl hdisk
      | session contactId' s' =>
        simp only [Disk.write, Std.ExtTreeMap.getElem?_insert] at hdisk
        split at hdisk
        · rename_i hid
          cases Std.LawfulEqOrd.eq_of_compare hid
          cases hdisk
          exact Or.inr ⟨after, List.mem_of_getElem? h⟩
        · exact Or.inl hdisk
      | history contactId' messages =>
        left
        unfold Disk.write at hdisk
        dsimp only at hdisk
        split at hdisk <;> exact hdisk
    · exact Or.inl ⟨s, hs, Or.inr ⟨after', List.mem_of_mem_eraseIdx hwrite⟩⟩

end Keeps

/-! ## 3. What an act does to the sending chains -/

/-- The ratchet key that an incoming envelope brings. -/
def remoteKey (s : AppState P) (raw : Bytes) : Option Bytes32 :=
  match openEnvelope s.account raw with
  | .error _ => none
  | .ok opened => (Message.decode opened.payload).toOption.map fun m => m.header.dhPub

/-- The ratchet secret that an act may draw, and the key it is combined with. -/
def ratchetDraw (d : Device P) : Act P → Option (P.Secret × Bytes32)
  | .addContact _ _ fetched rnd =>
    (fetched.bind fun bundle => (PreKeyBundle.decode bundle).toOption).map fun bundle =>
      (rnd.ratchet, bundle.signedPrekey)
  | .incoming raw fresh _ _ => (remoteKey d.app raw).map fun remote => (fresh, remote)
  | _ => none

/-- The start of a chain that `draw` gives. -/
def Starts (draw : Option (P.Secret × Bytes32)) (ck : P.Key) : Prop :=
  ∃ sk remote root, draw = some (sk, remote) ∧ ck = (P.kdfRk root (P.diffieHellman sk remote)).2

/-- What happens to the chains short of a restart. -/
structure Moves (draw : Option (P.Secret × Bytes32)) (d d' : Device P) (evs : List (Event P)) :
    Prop where
  saves : Saves (chains d) (chains d')
  move : ∃ effect, effect ≠ .loaded ∧ Move (nextPlace P) (chains d) (chains d') effect ∧
    handedKeys evs = effect.uses.map (fun ck => (P.kdfCk ck).2) ∧
    ∀ e ∈ effect.starts, Starts draw e.2

namespace Moves

variable {draw : Option (P.Secret × Bytes32)} {d d' d'' : Device P} {evs : List (Event P)}

theorem of_keeps (h : Keeps d d') (hevs : handedKeys evs = []) : Moves draw d d' evs where
  saves := h.saves
  move := ⟨.none, by simp, .rest h.live, hevs, fun _ he => absurd he List.not_mem_nil⟩

theorem before (h : Moves draw d' d'' evs) (hkeeps : Keeps d d') : Moves draw d d'' evs where
  saves := by
    apply hkeeps.saves.trans h.saves
    intro o k hk
    rw [hkeeps.live] at hk
    exact Or.inl hk
  move := by
    obtain ⟨effect, hload, hmove, hevs, hstarts⟩ := h.move
    exact ⟨effect, hload, hmove.before hkeeps.live hload, hevs, hstarts⟩

theorem after (h : Moves draw d d' evs) (hkeeps : Keeps d' d'') : Moves draw d d'' evs where
  saves := by
    apply h.saves.trans hkeeps.saves
    intro o k hk
    rw [← hkeeps.live] at hk
    exact Or.inr hk
  move := by
    obtain ⟨effect, hload, hmove, hevs, hstarts⟩ := h.move
    exact ⟨effect, hload, hmove.after hkeeps.live, hevs, hstarts⟩

theorem events (h : Moves draw d d' []) (hevs : handedKeys evs = []) : Moves draw d d' evs where
  saves := h.saves
  move := by
    rw [hevs]
    exact h.move

end Moves

/-- One session is replaced. -/
theorem live_set {d d' : Device P} {contactId : Bytes32} {s : Session P} {place : Option P.Key}
    (h : d'.app.sessions = d.app.sessions.set contactId s) (hplace : sendPlace s = place) :
    (chains d').live = Function.update (chains d).live contactId place := by
  subst hplace
  funext contactId'
  by_cases hid : contactId' = contactId
  · subst hid
    rw [Function.update_self]
    simp only [chains, h, LinkedMap.get?_set, if_true, Option.bind_some]
  · rw [Function.update_of_ne hid]
    simp only [chains, h, LinkedMap.get?_set, if_neg hid]

/-- A session is replaced by one that sends on, or from a new start. -/
theorem moves_set {draw : Option (P.Secret × Bytes32)} {d d' : Device P} (contactId : Bytes32)
    (s : Session P) (hsessions : d'.app.sessions = d.app.sessions.set contactId s)
    (hdisk : d'.disk = d.disk) (hwrites : d'.writes = d.writes)
    (hplace : sendPlace s = (chains d).live contactId ∨
      ∃ ck, sendPlace s = some ck ∧ Starts draw ck) : Moves draw d d' [] where
  saves := by
    rintro contactId' ck ⟨s', hs', hsaved⟩
    rw [hdisk, hwrites] at hsaved
    exact Or.inl ⟨s', hs', hsaved⟩
  move := by
    have hlive := live_set hsessions rfl
    rcases hplace with hsame | ⟨ck, hck, hstarts⟩
    · rw [hsame, Function.update_eq_self] at hlive
      exact ⟨.none, by simp, .rest hlive, rfl, fun _ he => absurd he List.not_mem_nil⟩
    · rw [hck] at hlive
      refine ⟨.started contactId ck, by simp, .start hlive, rfl, ?_⟩
      intro e he
      cases List.mem_singleton.mp he
      exact hstarts

/-- `encrypt` uses the place of the session, if it has one. -/
theorem moves_sendContent (draw : Option (P.Secret × Bytes32)) (D : DartConvert) (d : Device P)
    (contactId : Bytes32) (content : MessageContent) (sending : Sending) (eph : P.Secret) :
    Moves draw d (d.sendContent D contactId content sending eph).2
      (d.sendContent D contactId content sending eph).1 := by
  unfold Device.sendContent AppState.sendContent
  cases hsession : d.app.sessions.get? contactId with
  | none => exact .of_keeps (.refl d) rfl
  | some session =>
    cases hcontact : d.app.contacts.get? contactId with
    | none => exact .of_keeps (.refl d) rfl
    | some contact =>
      cases hplain : content.encode D with
      | none => exact .of_keeps (.refl d) rfl
      | some plaintext =>
        have hplace : (chains d).live contactId = sendPlace session := by
          simp only [chains, hsession, Option.bind_some]
        rcases henc : session.encrypt plaintext with ⟨e | m, session'⟩
        · -- without a sending chain
          have hsame : session'.ratchet = session.ratchet := by
            have hratchet := Session.ratchet_encrypt session plaintext
            have hfails : (session.ratchet.encrypt plaintext session.adPrefix).1 = .error e := by
              unfold Session.encrypt at henc
              split at henc
              · rename_i hr
                cases henc
                rw [hr]
              · cases (Prod.mk.inj henc).1
            rw [henc, DoubleRatchet.encrypt_error hfails] at hratchet
            exact hratchet
          simp only [henc]
          refine moves_set contactId session' rfl rfl rfl (Or.inl ?_)
          rw [hplace, sendPlace, hsame, sendPlace]
        · obtain ⟨r, hr, rfl, -⟩ := Session.encrypt_ok_cases henc
          obtain ⟨ck, hck, -, -, rfl⟩ := DoubleRatchet.encrypt_ok_cases hr
          have hkey : nextKey session = some (P.kdfCk ck).2 := by
            rw [nextKey, hck, Option.map_some]
          simp only [henc, Option.bind_some, hkey]
          refine ⟨fun _ _ hk => Or.inl hk, .used ck, by simp, ?_, ?_,
            fun _ he => absurd he List.not_mem_nil⟩
          · have hlive : (chains d).live contactId = some ck := hplace.trans hck
            refine .use hlive (live_set rfl ?_)
            rfl
          · rfl

theorem handedKeys_consumed (l : List (UInt32 × Bytes32)) :
    handedKeys (l.map fun e => (.consumed e.1 e.2 : Event P)) = [] := by
  unfold handedKeys
  rw [List.filterMap_map]
  exact List.filterMap_eq_nil_iff.mpr fun _ _ => rfl

/-- Receiving leaves the sender's sending chain, or starts a new one. -/
theorem moves_receive {d : Device P} {raw : Bytes} {opened : OpenedEnvelope}
    (hopen : openEnvelope d.app.account raw = .ok opened) (fresh : P.Secret)
    (draws : Nat → P.Secret) (now : DateTime) :
    Moves (d.ratchetDraw (.incoming raw fresh draws now)) d
      { d with app := (d.app.receive opened fresh draws).2 } [] := by
  unfold AppState.receive
  dsimp only
  cases hm : Message.decode opened.payload with
  | error e => exact .of_keeps (.refl d) rfl
  | ok m =>
    have hdraw : d.ratchetDraw (.incoming raw fresh draws now) = some (fresh, m.header.dhPub) := by
      simp [ratchetDraw, remoteKey, hopen, hm, Except.toOption]
    have hstarts : ∀ {r r' : DoubleRatchet P}, r.SendsOn fresh m.header.dhPub r' →
        r'.chainSend = r.chainSend ∨ ∃ ck, r'.chainSend = some ck ∧
          Starts (d.ratchetDraw (.incoming raw fresh draws now)) ck := by
      rintro r r' (hsame | ⟨root, hck⟩)
      · exact Or.inl hsame
      · exact Or.inr ⟨_, hck, fresh, m.header.dhPub, root, hdraw, rfl⟩
    cases hsession : d.app.sessions.get? opened.senderIdentityEd with
    | some existing =>
      refine moves_set opened.senderIdentityEd (existing.decrypt fresh m).2 rfl rfl rfl ?_
      have hon := hstarts (existing.ratchet.sendsOn_decrypt fresh m.header m.ciphertext
        existing.adPrefix)
      simpa [chains, hsession, sendPlace] using hon
    | none =>
      rcases hrespond : Session.respond d.app.account fresh m with ⟨e | ⟨session, first⟩, account⟩
      · simp only [hrespond]
        exact .of_keeps (.of_app rfl rfl rfl) rfl
      · obtain ⟨hs, header, ciphertext, root, spk, r, rfl, -, -, hdec, hs'⟩ :=
          Session.respond_ok_cases hrespond
        simp only [hrespond]
        have hon := hstarts ((DoubleRatchet.initResponder root spk).sendsOn_decrypt fresh header
          ciphertext (Clarity.adPrefix hs.identityEd account.identityPublic))
        rw [hdec] at hon
        have hset : Moves (d.ratchetDraw (.incoming raw fresh draws now)) d { d with app :=
            { d.app with sessions := d.app.sessions.set opened.senderIdentityEd session } } [] := by
          refine moves_set opened.senderIdentityEd session rfl rfl rfl ?_
          simpa [chains, hsession, sendPlace, hs', DoubleRatchet.initResponder] using hon
        exact hset.after (.of_app (sessions_maybeReplenish _ draws) rfl rfl)

/-- A contact that is refused changes nothing. -/
theorem addContact_error {s s' : AppState P} {identity : Bytes32} {displayName : Text}
    {fetched : Option Bytes} {rnd : Session.InitiateRandom P} {e : Thrown}
    (h : s.addContact identity displayName fetched rnd = (.error e, s')) : s' = s := by
  unfold AppState.addContact at h
  split at h
  · exact (Prod.mk.inj h).2.symm
  · split at h
    · exact (Prod.mk.inj h).2.symm
    · split at h
      · exact (Prod.mk.inj h).2.symm
      · split at h
        · exact (Prod.mk.inj h).2.symm
        · cases (Prod.mk.inj h).1

theorem moves_incoming (D : DartConvert) (d : Device P) (raw : Bytes) (fresh : P.Secret)
    (draws : Nat → P.Secret) (now : DateTime) :
    Moves (d.ratchetDraw (.incoming raw fresh draws now)) d
      (d.incoming D raw fresh draws now).2 (d.incoming D raw fresh draws now).1 := by
  unfold Device.incoming
  dsimp only
  cases hopen : openEnvelope d.app.account raw with
  | error e => exact .of_keeps (.refl d) rfl
  | ok opened =>
    have hreceive := (moves_receive hopen fresh draws now).after (.persistAccount d.app)
    dsimp only
    cases (d.app.receive opened fresh draws).1 with
    | none => exact hreceive.events (handedKeys_consumed _)
    | some plaintext =>
      dsimp only
      have hsaved := (hreceive.after (.persistSession opened.senderIdentityEd .done)).after
        (.persistContacts .done)
      refine Moves.events ?_ (handedKeys_consumed _)
      cases MessageContent.decode D plaintext with
      | text body =>
        exact hsaved.after ((Keeps.append _ _).trans (.persistHistory opened.senderIdentityEd))
      | timerUpdate seconds =>
        dsimp only
        split
        · exact hsaved
        · refine Moves.after (Moves.after (hsaved.after (Keeps.trans ?_ (.persistContacts .done)))
            (.appendInfo _ _ now)) (.sweep now)
          exact .of_app rfl rfl rfl
      | unknown => exact hsaved

theorem moves_resume (draw : Option (P.Secret × Bytes32)) (D : DartConvert) (d : Device P)
    (eph : P.Secret) (now : DateTime) (after : After) :
    Moves draw d (d.resume D eph now after).2 (d.resume D eph now after).1 := by
  cases after with
  | done => exact .of_keeps (.refl d) rfl
  | persistContacts => exact .of_keeps (.persistContacts .done) rfl
  | retain contactId seconds =>
    simp only [resume]
    split
    · exact moves_sendContent ..
    · exact .of_keeps (.sweep now) rfl
  | sent contactId sending =>
    cases sending with
    | message text =>
      simp only [resume]
      split
      · exact .of_keeps (.refl d) rfl
      · exact .of_keeps ((Keeps.append _ _).trans (.persistHistory contactId)) rfl
    | timer seconds => exact .of_keeps ((Keeps.appendInfo _ _ now).trans (.sweep now)) rfl
  | publish => exact .of_keeps (.publishBundle .replenish) rfl

/-- **The moves of an act**, short of a restart. -/
theorem step_moves (D : DartConvert) (d : Device P) (act : Act P)
    (hact : ∀ now, act ≠ .restart now) :
    Moves (d.ratchetDraw act) d (d.step D act).2 (d.step D act).1 := by
  cases act with
  | addContact identity displayName fetched rnd =>
    simp only [step]
    rcases hadd : d.app.addContact identity displayName fetched rnd with ⟨e | _, app⟩
    · have happ := addContact_error hadd
      exact .of_keeps (.of_app (by rw [happ]) rfl rfl) rfl
    · cases fetched with
      | none => cases (Prod.mk.inj hadd).1
      | some bytes =>
        obtain ⟨bundle, session, hdec, -, -, hinit, rfl⟩ := AppState.addContact_ok_cases hadd
        obtain ⟨-, root, hs, spk, hhs, rfl⟩ := Session.initiate_ok_cases hinit
        obtain ⟨-, -, -, -, rfl⟩ := Handshake.initiate_ok_cases hhs
        dsimp only
        refine Moves.after ?_ (.persistSession identity .persistContacts)
        refine moves_set identity _ rfl rfl rfl (Or.inr ⟨_, rfl, ?_⟩)
        refine ⟨rnd.ratchet, bundle.signedPrekey, root, ?_, rfl⟩
        simp [ratchetDraw, hdec, Except.toOption]
  | sendMessage contactId text eph => exact moves_sendContent ..
  | setRetention contactId seconds =>
    simp only [step]
    split
    · exact .of_keeps (.refl d) rfl
    · refine .of_keeps (Keeps.trans ?_ (.persistContacts _)) rfl
      exact .of_app rfl rfl rfl
  | markVerified contactId =>
    simp only [step]
    split
    · exact .of_keeps (.persistContacts .done) rfl
    · refine .of_keeps (Keeps.trans ?_ (.persistContacts _)) rfl
      exact .of_app rfl rfl rfl
  | incoming raw fresh draws now => exact moves_incoming D d raw fresh draws now
  | sweep now => exact .of_keeps (.sweep now) rfl
  | written i eph now =>
    simp only [step]
    split
    · exact .of_keeps (.refl d) rfl
    · rename_i hwrite
      exact (moves_resume _ D _ eph now _).before (.written hwrite)
  | answered i ok =>
    simp only [step]
    split
    · exact .of_keeps (.refl d) rfl
    · split
      · refine .of_keeps (Keeps.trans ?_ (.persistSession _ _)) rfl
        exact .of_app rfl rfl rfl
      · exact .of_keeps (.of_app rfl rfl rfl) rfl
  | published i ok draws =>
    simp only [step]
    split
    · exact .of_keeps (.refl d) rfl
    · split
      · split
        · refine .of_keeps (Keeps.trans ?_ (.maybeReplenishPrekeys draws)) rfl
          exact .of_app rfl rfl rfl
        · exact .of_keeps (.of_app rfl rfl rfl) rfl
      · exact .of_keeps (.of_app rfl rfl rfl) rfl
  | startTransport => exact .of_keeps (.publishBundle .startTransport) rfl
  | restart now => exact absurd rfl (hact now)

/-- Only sessions of stored contacts are restored. -/
theorem session_restore {disk : Disk P} {contactId : Bytes32} {s : Session P}
    (h : (restore disk).sessions.get? contactId = some s) :
    disk.sessions[contactId]? = some s ∧ ∃ contact ∈ disk.contacts, contact.identity = contactId := by
  have hfold : ∀ (l : List Contact) (app : AppState P),
      (l.foldl (restoreContact disk) app).sessions.get? contactId = some s →
      app.sessions.get? contactId = some s ∨
        (disk.sessions[contactId]? = some s ∧ ∃ contact ∈ l, contact.identity = contactId) := by
    intro l
    induction l with
    | nil => exact fun app h => Or.inl h
    | cons contact rest ih =>
      intro app happ
      rcases ih _ happ with hold | ⟨hdisk, c, hc, hid⟩
      · unfold restoreContact at hold
        cases hstored : disk.sessions[contact.identity]? with
        | none =>
          simp only [hstored] at hold
          exact Or.inl hold
        | some session =>
          simp only [hstored, LinkedMap.get?_set] at hold
          split at hold
          · rename_i hid
            cases hold
            rw [hid]
            exact Or.inr ⟨hstored, contact, List.mem_cons_self .., rfl⟩
          · exact Or.inl hold
      · exact Or.inr ⟨hdisk, c, List.mem_cons_of_mem _ hc, hid⟩
  rcases hfold disk.contacts _ h with hempty | hstored
  · cases hempty
  · exact hstored

/-- A restart goes on from stored places. -/
theorem restart_moves (d : Device P) (now : DateTime) :
    Saves (chains d) (chains (d.restart now).2) ∧
      Move (nextPlace P) (chains d) (chains (d.restart now).2) .loaded ∧
      handedKeys (d.restart now).1 = [] ∧
      ∀ contactId ck, (chains (d.restart now).2).live contactId = some ck →
        ∃ contact ∈ d.disk.contacts, contact.identity = contactId ∧
          ∃ s, d.disk.sessions[contactId]? = some s ∧ sendPlace s = some ck := by
  let loaded : Device P := ⟨restore d.disk, d.disk, [], [], []⟩
  have hkeeps : Keeps loaded (d.restart now).2 := by
    unfold restart
    dsimp only
    split
    · exact (Keeps.sweep now).trans (.publishBundle .startTransport)
    · exact .sweep now
  have hevents : handedKeys (d.restart now).1 = [] := by
    rcases events_restart d now with h | h <;> rw [h] <;> rfl
  have hstored : ∀ contactId ck, (chains loaded).live contactId = some ck →
      ∃ contact ∈ d.disk.contacts, contact.identity = contactId ∧
        ∃ s, d.disk.sessions[contactId]? = some s ∧ sendPlace s = some ck := by
    intro contactId ck hck
    obtain ⟨s, hs, hplace⟩ := Option.bind_eq_some_iff.mp hck
    obtain ⟨hdisk, contact, hcontact, hid⟩ := session_restore hs
    exact ⟨contact, hcontact, hid, s, hdisk, hplace⟩
  have hload : Move (nextPlace P) (chains d) (chains loaded) .loaded := by
    apply Move.load
    intro contactId ck hck
    obtain ⟨_, _, _, s, hdisk, hplace⟩ := hstored contactId ck hck
    exact ⟨s, hplace, Or.inl hdisk⟩
  refine ⟨?_, hload.after hkeeps.live, hevents, ?_⟩
  · intro contactId ck hck
    have hlive := hkeeps.live
    rcases hkeeps.saves contactId ck hck with ⟨s, hs, hdisk | ⟨_, hwrite⟩⟩ | hck | hck
    · exact Or.inl ⟨s, hs, Or.inl hdisk⟩
    · cases hwrite
    · rw [hlive]
      exact Or.inr (Or.inr hck)
    · exact Or.inr (Or.inr hck)
  · rw [hkeeps.live]
    exact hstored

/-! ## 4. Runs -/

/-- The runs whose acts all meet `Cond`, with the ratchet keys that were seen in them. -/
inductive History (D : DartConvert) (account : Account P)
    (Cond : Device P → List (Event P) → List Bytes32 → Act P → Prop) :
    Device P → List (Event P) → List Bytes32 → Prop where
  | start : History D account Cond (Device.start account)
      [.published account.oneTimePrekeyPublics] []
  | step {d : Device P} {trace : List (Event P)} {seen : List Bytes32} (act : Act P) :
      History D account Cond d trace seen → Cond d trace seen act →
      History D account Cond (d.step D act).2 (trace ++ (d.step D act).1)
        (seen ++ (d.ratchetDraw act).toList.flatMap fun e => [P.publicKey e.1, e.2])

/-- A ratchet secret that is drawn is new: nobody has shown its public key before. -/
def DrawsFresh (d : Device P) (seen : List Bytes32) (act : Act P) : Prop :=
  ∀ sk remote, d.ratchetDraw act = some (sk, remote) → P.publicKey sk ∉ seen

/-- A restart finds no session behind the transport: the key that a stored session
    takes next has not been used. -/
def StorageCurrent (d : Device P) (trace : List (Event P)) (act : Act P) : Prop :=
  ∀ now, act = .restart now → ∀ contact ∈ d.disk.contacts, ∀ s key,
    d.disk.sessions[contact.identity]? = some s → nextKey s = some key → key ∉ handedKeys trace

/-- `b` does not encrypt another plaintext with the key of `a`. -/
def KeepsKey (a b : Event P) : Prop :=
  ∀ key p p', a = .handed key p → b = .handed key p' → p = p'

theorem mem_handedKeys {trace : List (Event P)} {key : P.Key} {p : Bytes}
    (h : .handed key p ∈ trace) : key ∈ handedKeys trace :=
  List.mem_filterMap.mpr ⟨_, h, rfl⟩

theorem keepsKey_of_nodup {trace : List (Event P)} (h : (handedKeys trace).Nodup) :
    trace.Pairwise KeepsKey := by
  induction trace with
  | nil => exact List.Pairwise.nil
  | cons a rest ih =>
    have hsplit : handedKeys (a :: rest) = handedKeys [a] ++ handedKeys rest :=
      handedKeys_append [a] rest
    rw [hsplit, List.nodup_append] at h
    obtain ⟨-, hrest, hdisjoint⟩ := h
    refine List.pairwise_cons.mpr ⟨?_, ih hrest⟩
    rintro _ hb key p p' rfl rfl
    exact absurd rfl (hdisjoint key (List.mem_singleton_self key) key (mem_handedKeys hb))

/-- Chains that were started, and what is known of how. -/
structure Tracked (d : Device P) (trace : List (Event P)) (seen : List Bytes32)
    (starts : List (Bytes32 × P.Key)) (used : List P.Key) : Prop where
  once : Once (nextPlace P) starts used (chains d)
  handed : handedKeys trace = used.map fun ck => (P.kdfCk ck).2
  starts : ∀ e ∈ starts, ∃ sk remote root, P.publicKey sk ∈ seen ∧ remote ∈ seen ∧
    e.2 = (P.kdfRk root (P.diffieHellman sk remote)).2

theorem tracked_run (hkdf : P.CollisionFree) (hdh : P.SymbolicDh) {D : DartConvert}
    {account : Account P} {d : Device P} {trace : List (Event P)} {seen : List Bytes32}
    (h : History D account
      (fun d trace seen act => d.DrawsFresh seen act ∧ d.StorageCurrent trace act) d trace seen) :
    ∃ starts used, Tracked d trace seen starts used := by
  induction h with
  | start =>
    refine ⟨[], [], ?_, rfl, fun _ he => absurd he List.not_mem_nil⟩
    have hempty : Once (nextPlace P) [] [] (⟨fun _ => none, fun _ => ∅⟩ : Store Bytes32 P.Key) :=
      Once.empty
    refine ⟨hempty.first, hempty.distinct, fun _ _ hk => ?_, ?_, hempty.used_on, hempty.used_back,
      hempty.used_once⟩
    · cases hk
    · rintro contactId ck ⟨s, -, hdisk | ⟨after, hwrite⟩⟩
      · simp [Device.start] at hdisk
      · cases hwrite
  | @step d trace seen act _ hcond ih =>
    obtain ⟨starts, used, htracked⟩ := ih
    obtain ⟨hfresh, hcurrent⟩ := hcond
    by_cases hact : ∃ now, act = .restart now
    · obtain ⟨now, rfl⟩ := hact
      obtain ⟨hsaves, hmove, hevents, hstored⟩ := restart_moves d now
      have honce := htracked.once.move hkdf.nextChain hsaves hmove
        (fun _ he => absurd he List.not_mem_nil) (fun _ contactId ck hck hused => by
          obtain ⟨contact, hcontact, rfl, s, hdisk, hplace⟩ := hstored contactId ck hck
          have hkey : nextKey s = some (P.kdfCk ck).2 := congrArg (Option.map _) hplace
          refine hcurrent now rfl contact hcontact s _ hdisk hkey ?_
          rw [htracked.handed]
          exact List.mem_map_of_mem hused)
      refine ⟨starts, used, ?_, ?_, ?_⟩
      · simp only [Effect.starts, Effect.uses, List.append_nil] at honce
        exact honce
      · rw [handedKeys_append, htracked.handed]
        show _ ++ handedKeys (d.restart now).1 = _
        rw [hevents, List.append_nil]
      · simpa [ratchetDraw] using htracked.starts
    · have hmoves := step_moves D d act fun now hnow => hact ⟨now, hnow⟩
      obtain ⟨effect, hload, hmove, hevents, hstarts⟩ := hmoves.move
      have hnew : ∀ e ∈ effect.starts, (∀ j, nextPlace P j ≠ e.2) ∧ ∀ e' ∈ starts, e'.2 ≠ e.2 := by
        intro e he
        obtain ⟨sk, remote, root, hdraw, hplace⟩ := hstarts e he
        rw [hplace]
        refine ⟨fun j => hkdf.first j root _, ?_⟩
        intro e' he' heq
        obtain ⟨sk', remote', root', hsk', hremote', hplace'⟩ := htracked.starts e' he'
        obtain ⟨-, hshared⟩ := hkdf.firstChain _ _ _ _ (hplace'.symm.trans heq)
        rcases hdh _ _ _ _ hshared with ⟨hpub, -⟩ | ⟨-, hpub⟩
        · rw [hpub] at hsk'
          exact hfresh sk remote hdraw hsk'
        · rw [hpub] at hremote'
          exact hfresh sk remote hdraw hremote'
      have honce := htracked.once.move hkdf.nextChain hmoves.saves hmove hnew
        fun heffect => absurd heffect hload
      refine ⟨_, _, honce, ?_, ?_⟩
      · rw [handedKeys_append, htracked.handed, hevents, List.map_append]
      · intro e he
        rcases List.mem_append.mp he with he | he
        · obtain ⟨sk, remote, root, hsk, hremote, hplace⟩ := htracked.starts e he
          exact ⟨sk, remote, root, List.mem_append_left _ hsk, List.mem_append_left _ hremote,
            hplace⟩
        · obtain ⟨sk, remote, root, hdraw, hplace⟩ := hstarts e he
          refine ⟨sk, remote, root, ?_, ?_, hplace⟩ <;> simp [hdraw]

theorem exact_collisionFree : Suite.exact.CollisionFree where
  nextChain := by
    intro a b h
    exact (keyBytes_inj h).2.2.2
  messageKey := by
    intro a b h
    exact (keyBytes_inj h).2.2.2
  firstChain := by
    intro root dh root' dh' h
    obtain ⟨-, hdh, -, hroot⟩ := keyBytes_inj h
    exact ⟨hroot, hdh⟩
  first := by
    intro ck root dh h
    obtain ⟨htag, -⟩ := keyBytes_inj h
    cases htag

def exactAccount (k : UInt8) (prekeys : List UInt8) : Account Suite.exact :=
  Account.generateWithPrekeys (P := Suite.exact) k (k + 1) (k + 2) (k + 3) prekeys

def exactAlice : Account Suite.exact := exactAccount 10 []
def exactBob : Account Suite.exact := exactAccount 30 []

instance : DecidableEq Suite.exact.Key := inferInstanceAs (DecidableEq Bytes)

def addBob : Act Suite.exact :=
  .addContact exactBob.identityPublic (utf16 "Bob") (some exactBob.bundle.encode)
    ⟨sampleSecret 50, Bytes32.ofByte 7, sampleSecret 60⟩

def sendBob (text : String) : Act Suite.exact :=
  .sendMessage exactBob.identityPublic (utf16 text) (sampleSecret 90)

/-- Session and contact are written, and Alice sends a text.  If the transport answers,
    the session is written again. -/
def aliceSends (answered : Bool) : List (Act Suite.exact) :=
  let written : Act Suite.exact := .written 0 (sampleSecret 90) 0
  [written, written, sendBob "a"] ++ if answered then [.answered 0 true, written] else []

/-- Alice after that, and what was seen of it. -/
def aliceSent (answered : Bool) : List (Event Suite.exact) × Device Suite.exact :=
  (start exactAlice).run sampleConvert (addBob :: aliceSends answered)

/-- The app is restarted, and she sends another text. -/
def aliceReturns (answered : Bool) : List (Event Suite.exact) × Device Suite.exact :=
  (aliceSent answered).2.run sampleConvert [.restart 0, sendBob "b"]

/-- Acts that meet their condition anywhere. -/
theorem History.append {D : DartConvert} {account : Account P}
    {Cond : Device P → List (Event P) → List Bytes32 → Act P → Prop} {d : Device P}
    {trace : List (Event P)} {seen : List Bytes32} (h : History D account Cond d trace seen)
    {acts : List (Act P)} (hacts : ∀ act ∈ acts, ∀ d trace seen, Cond d trace seen act) :
    ∃ seen', History D account Cond (d.run D acts).2 (trace ++ (d.run D acts).1) seen' := by
  induction acts generalizing d trace seen with
  | nil =>
    refine ⟨seen, ?_⟩
    simpa [run] using h
  | cons act acts ih =>
    obtain ⟨seen', hrest⟩ := ih (h.step act (hacts act (List.mem_cons_self ..) _ _ _))
      fun a ha => hacts a (List.mem_cons_of_mem _ ha)
    rw [List.append_assoc] at hrest
    exact ⟨seen', hrest⟩

theorem History.start_append {D : DartConvert} {account : Account P}
    {Cond : Device P → List (Event P) → List Bytes32 → Act P → Prop} {first : Act P}
    (hfirst : Cond (Device.start account) [.published account.oneTimePrekeyPublics] [] first)
    {acts : List (Act P)} (hacts : ∀ act ∈ acts, ∀ d trace seen, Cond d trace seen act) :
    ∃ seen, History D account Cond ((Device.start account).run D (first :: acts)).2
      ([.published account.oneTimePrekeyPublics] ++
        ((Device.start account).run D (first :: acts)).1) seen := by
  have hstart : History D account Cond _ _ _ := .start
  obtain ⟨seen, h⟩ := (hstart.step first hfirst).append hacts
  rw [List.append_assoc] at h
  exact ⟨seen, h⟩

/-- An act that draws no ratchet secret and is no restart. -/
theorem calm {d : Device P} {trace : List (Event P)} {seen : List Bytes32} {act : Act P}
    (hdraw : d.ratchetDraw act = none) (hact : ∀ now, act ≠ .restart now) :
    d.DrawsFresh seen act ∧ d.StorageCurrent trace act := by
  constructor
  · intro sk remote h
    rw [hdraw] at h
    cases h
  · intro now h
    exact absurd h (hact now)

theorem calm_sends {answered : Bool} {act : Act Suite.exact} (h : act ∈ aliceSends answered)
    (d : Device Suite.exact) (trace : List (Event Suite.exact)) (seen : List Bytes32) :
    d.DrawsFresh seen act ∧ d.StorageCurrent trace act := by
  apply calm
  · cases answered <;> simp [aliceSends] at h <;> rcases h with rfl | rfl | rfl | rfl <;> rfl
  · rintro now rfl
    cases answered <;> simp [aliceSends, sendBob] at h

theorem history_aliceSent (answered : Bool) : ∃ seen, History sampleConvert exactAlice
    (fun d trace seen act => d.DrawsFresh seen act ∧ d.StorageCurrent trace act)
    (aliceSent answered).2
    ([.published exactAlice.oneTimePrekeyPublics] ++ (aliceSent answered).1) seen := by
  exact History.start_append
    ⟨fun _ _ _ hmem => absurd hmem List.not_mem_nil, (fun _ h => nomatch h)⟩
    fun _ hact => calm_sends hact

theorem History.mono {D : DartConvert} {account : Account P}
    {Cond Cond' : Device P → List (Event P) → List Bytes32 → Act P → Prop} {d : Device P}
    {trace : List (Event P)} {seen : List Bytes32} (h : History D account Cond d trace seen)
    (hcond : ∀ d trace seen act, Cond d trace seen act → Cond' d trace seen act) :
    History D account Cond' d trace seen := by
  induction h with
  | start => exact .start
  | step act _ hact ih => exact ih.step act (hcond _ _ _ _ hact)

/-- One key in each of the two traces, the same one, under two texts. -/
def handsAgain : List (Event Suite.exact) → List (Event Suite.exact) → Bool
  | [.handed key p], [.published _, .handed key' p'] => decide (key = key' ∧ p ≠ p')
  | _, _ => false

theorem storageCurrent_of_all {d : Device Suite.exact} {trace : List (Event Suite.exact)}
    (h : (d.disk.contacts.all fun contact =>
      ((d.disk.sessions[contact.identity]?).bind nextKey).all fun key =>
        decide (key ∉ handedKeys trace)) = true) (act : Act Suite.exact) :
    d.StorageCurrent trace act := by
  intro _ _ contact hcontact s key hs hkey
  have hall := List.all_eq_true.mp h contact hcontact
  rw [hs, Option.bind_some, hkey, Option.all_some] at hall
  exact of_decide_eq_true hall

end Device

end Clarity
