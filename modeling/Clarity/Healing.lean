/-
  Clarity/Healing.lean
  ====================
  **Break-in recovery** (`core/src/ratchet.rs`, `dh_ratchet`).

  The runs of a session between two honest ends on a network that loses, reorders
  and may repeat messages, without the limits of `Conversation.Run`.  The state of
  one end leaks.  Its next `dh_ratchet` step mixes a value the thief cannot
  compute into its own root, and the answer of the other end mixes the same value
  into the other root (`Healed`).

  This needs the two ends to ratchet in turns.  A step to a ratchet key that its
  sender has replaced (`Timely` excludes it) leads one end off, and the other may
  go on from a root the thief knows.

    * `BreakInRecovery` — the claim, for the runs whose steps are all allowed;
    * `recovers_when_timely` — it holds when the allowed steps are the timely ones.
-/
import Clarity.Conversation
import Clarity.Leaks

namespace Clarity

/-! ## 1. The two ends on a network -/

/-- Whether the network forgets a message it has delivered. -/
inductive Network where
  | once
  | again
deriving DecidableEq, Repr

/-- A DH ratchet step: the end that took it, the ratchet key it went to and the
    state `dh_ratchet` left. -/
structure Ratcheting {C : Type} (P : Suite C) where
  side : Side
  remote : Bytes32
  made : DoubleRatchet P

namespace Conversation

section System

variable {C : Type} {P : Suite C}

/-- What can happen next; messages in flight go by their place. -/
inductive Move (P : Suite C) where
  | send (side : Side) (plaintext : Bytes)
  | drop (i : Nat)
  | deliver (i : Nat) (fresh : P.Secret)

/-- The ratchet that answers a first message. -/
def answering (me : Account P) : Message C → Option (DoubleRatchet P)
  | .normal _ _ => none
  | .preKey hs _ _ =>
    match Handshake.respond me hs with
    | (.error _, _) => none
    | (.ok root, me) =>
      match me.signedPrekeyById hs.signedPrekeyId with
      | .ok spk => some (DoubleRatchet.initResponder root spk)
      | .error _ => none

/-- The ratchet that a message for `dest` meets. -/
def meets (c : Conversation P) (dest : Side) (m : Message C) : Option (DoubleRatchet P) :=
  match c.session dest, dest with
  | some s, _ => some s.ratchet
  | none, .initiator => none
  | none, .responder => answering c.account m

/-- The DH ratchet step that delivering the message makes, if it makes one. -/
def ratcheting (c : Conversation P) (dest : Side) (fresh : P.Secret) (m : Message C) :
    Option (Ratcheting P) :=
  (c.meets dest m).bind fun r =>
    (r.ratcheting fresh m.header).map fun made => ⟨dest, m.header.dhPub, made⟩

/-- One move, with the DH ratchet step it makes. -/
def step (net : Network) (c : Conversation P) :
    Move P → Option (Option (Ratcheting P) × Conversation P)
  | .send side plaintext =>
    match c.session side with
    | none => none
    | some s =>
      match s.encrypt plaintext with
      | (.error _, _) => none
      | (.ok m, s) =>
        some (none, { c.setSession side s with flight := c.flight ++ [⟨side.other, m, plaintext⟩] })
  | .drop i =>
    if i < c.flight.length then some (none, { c with flight := c.flight.eraseIdx i }) else none
  | .deliver i fresh =>
    match c.flight[i]? with
    | none => none
    | some pk =>
      if P.publicKey fresh ∈ c.ratchetKeys then none
      else some (c.ratcheting pk.dest fresh pk.message,
        { (c.receive pk.dest fresh pk.message).2 with
          flight := if net = .once then c.flight.eraseIdx i else c.flight })

/-- A run whose DH ratchet steps are all allowed. -/
def follow (net : Network) (allowed : Conversation P → Ratcheting P → Bool) :
    Conversation P → List (Move P) → Option (Conversation P)
  | c, [] => some c
  | c, move :: moves =>
    match c.step net move with
    | none => none
    | some (made, c') => if made.all (allowed c) then follow net allowed c' moves else none

/-- `alice` has opened a session on the bundle. -/
inductive Opened (alice bob : Account P) (bundle : PreKeyBundle) : Conversation P → Prop where
  | initiated {rnd : Session.InitiateRandom P} {s : Session P} :
      Session.initiate alice bundle rnd = .ok s →
      P.publicKey rnd.ratchet ≠ P.publicKey bob.signedPrekey →
      Opened alice bob bundle ⟨Function.update (fun _ => none) .initiator (some s), bob, [],
        [P.publicKey rnd.ratchet, P.publicKey bob.signedPrekey]⟩

/-- The step goes to the ratchet key that the other end uses now, not to one it has
    replaced. -/
def Timely (c : Conversation P) (e : Ratcheting P) : Bool :=
  (c.session e.side.other).any fun s => s.ratchet.dhSelfPub = e.remote

end System

section Claim

variable {C : Type}

/-- None of the message keys of the chain is learned, by a thief whose own secrets
    are not the ratchet secrets of the two ends. -/
def Unlearned {P : Suite C} [DecidableEq P.Shared] (leaked : DoubleRatchet P.free)
    (c : Conversation P.free) (chain : Option P.free.Key) : Prop :=
  ∀ own : P.free.Secret → Prop, (∀ a, own a → P.free.publicKey a ∉ c.ratchetKeys) →
    ∀ ck, chain = some ck → ∀ n, ¬ leaked.Learns own (messageKeyAt P.free ck n)

/-- **Break-in recovery**, over the runs whose DH ratchet steps are all allowed.  The
    state of `side` leaks in `c1`.  Its next DH ratchet step leads from `c2` to `c3`,
    any later step of either end from `c4` to `c5`. -/
def BreakInRecovery (P : Suite C) [DecidableEq P.Shared]
    (allowed : Conversation P.free → Ratcheting P.free → Bool) (net : Network) : Prop :=
  ∀ (alice bob : Account P.free) (bundle : PreKeyBundle) (c0 c1 c2 c3 : Conversation P.free)
    (before quiet : List (Move P.free)) (side : Side) (s : Session P.free) (move : Move P.free)
    (e : Ratcheting P.free),
    bob.Offers bundle → Opened alice bob bundle c0 → c0.follow net allowed before = some c1 →
    c1.session side = some s →
    c1.follow net (fun c e => allowed c e && e.side ≠ side) quiet = some c2 →
    c2.step net move = some (some e, c3) → e.side = side → allowed c2 e →
    Unlearned s.ratchet c3 e.made.chainSend ∧
    ∀ (later : List (Move P.free)) (c4 c5 : Conversation P.free) (move' : Move P.free)
      (e' : Ratcheting P.free),
      c3.follow net allowed later = some c4 → c4.step net move' = some (some e', c5) →
      allowed c4 e' →
      Unlearned s.ratchet c5 e'.made.chainSend ∧ Unlearned s.ratchet c5 e'.made.chainRecv

end Claim

/-! ## 2. What a move does -/

section Moves

variable {C : Type} {P : Suite C} {net : Network} {c c' : Conversation P}
  {made : Option (Ratcheting P)}

theorem step_send {side : Side} {plaintext : Bytes}
    (h : c.step net (.send side plaintext) = some (made, c')) :
    ∃ s m s', c.session side = some s ∧ s.encrypt plaintext = (.ok m, s') ∧ made = none ∧
      c' = { c.setSession side s' with flight := c.flight ++ [⟨side.other, m, plaintext⟩] } := by
  simp only [step] at h
  split at h
  · cases h
  · rename_i s hs
    rcases henc : s.encrypt plaintext with ⟨e | m, s'⟩
    · rw [henc] at h
      cases h
    · rw [henc] at h
      cases h
      exact ⟨s, m, s', hs, henc, rfl, rfl⟩

theorem step_drop {i : Nat} (h : c.step net (.drop i) = some (made, c')) :
    made = none ∧ c' = { c with flight := c.flight.eraseIdx i } := by
  simp only [step] at h
  split at h
  · cases h
    exact ⟨rfl, rfl⟩
  · cases h

theorem step_deliver {i : Nat} {fresh : P.Secret}
    (h : c.step net (.deliver i fresh) = some (made, c')) :
    ∃ pk ∈ c.flight, P.publicKey fresh ∉ c.ratchetKeys ∧
      made = c.ratcheting pk.dest fresh pk.message ∧
      ∃ flight, flight ⊆ c.flight ∧
        c' = { (c.receive pk.dest fresh pk.message).2 with flight := flight } := by
  simp only [step] at h
  split at h
  · cases h
  · rename_i pk hpk
    split at h
    · cases h
    · rename_i hfresh
      cases h
      refine ⟨pk, List.mem_of_getElem? hpk, hfresh, rfl, _, ?_, rfl⟩
      split
      · exact (List.eraseIdx_sublist c.flight i).subset
      · exact List.Subset.refl _

/-- What a run keeps is what every allowed step keeps. -/
theorem follow_preserves {allowed : Conversation P → Ratcheting P → Bool}
    (I : Conversation P → Prop)
    (hstep : ∀ c move made c', I c → c.step net move = some (made, c') →
      made.all (allowed c) = true → I c')
    {moves : List (Move P)} (h : c.follow net allowed moves = some c') (hc : I c) : I c' := by
  induction moves generalizing c with
  | nil =>
    cases h
    exact hc
  | cons move moves ih =>
    rw [follow] at h
    split at h
    · cases h
    · rename_i made c1 hmove
      split at h
      · rename_i hall
        exact ih h (hstep c move made c1 hc hmove hall)
      · cases h

@[simp] theorem session_setSession (c : Conversation P) (side : Side) (s : Session P) :
    (c.setSession side s).session side = some s := by
  simp [setSession]

@[simp] theorem session_setSession_other (c : Conversation P) (side : Side) (s : Session P) :
    (c.setSession side s).session side.other = c.session side.other := by
  simp [setSession, other_ne]

theorem session_setSession_of_ne (c : Conversation P) {side side' : Side} (h : side' ≠ side)
    (s : Session P) : (c.setSession side s).session side' = c.session side' := by
  rw [eq_other_of_ne h, session_setSession_other]

theorem ratcheting_some {dest : Side} {s : Session P} (h : c.session dest = some s)
    (fresh : P.Secret) (m : Message C) :
    c.ratcheting dest fresh m =
      (s.ratchet.ratcheting fresh m.header).map fun made => ⟨dest, m.header.dhPub, made⟩ := by
  simp [ratcheting, meets, h]

theorem ratcheting_eq_some {dest : Side} {fresh : P.Secret} {m : Message C} {e : Ratcheting P}
    (h : c.ratcheting dest fresh m = some e) : e.side = dest ∧ e.remote = m.header.dhPub := by
  simp only [ratcheting, Option.bind_eq_some_iff, Option.map_eq_some_iff] at h
  obtain ⟨_, _, _, _, rfl⟩ := h
  exact ⟨rfl, rfl⟩

theorem timely_iff {e : Ratcheting P} {t : Session P} (ht : c.session e.side.other = some t) :
    Timely c e = true ↔ t.ratchet.dhSelfPub = e.remote := by
  simp [Timely, ht]

theorem signedPrekey_respond (me : Account P) (fresh : P.Secret) (m : Message C) :
    (Session.respond me fresh m).2.signedPrekey = me.signedPrekey := by
  rcases Session.respond_account_cases me fresh m with h | ⟨id, h⟩ <;> rw [h]

/-- A delivery leaves the account its signed prekey and the other end alone. -/
theorem receive_frame (c : Conversation P) (dest : Side) (fresh : P.Secret) (m : Message C) :
    (c.receive dest fresh m).2.account.signedPrekey = c.account.signedPrekey ∧
      (∀ side, side ≠ dest →
        (c.receive dest fresh m).2.session side = c.session side) ∧
      c.ratchetKeys ⊆ (c.receive dest fresh m).2.ratchetKeys := by
  cases hs : c.session dest with
  | some s =>
    rw [receive_some hs]
    exact ⟨rfl, fun side hne => session_setSession_of_ne c hne _, List.subset_cons_self ..⟩
  | none =>
    cases dest with
    | initiator =>
      have hrecv : (c.receive .initiator fresh m).2 = c := by simp [receive, hs]
      rw [hrecv]
      exact ⟨rfl, fun _ _ => rfl, List.Subset.refl _⟩
    | responder =>
      have haccount := signedPrekey_respond c.account fresh m
      rcases hresp : Session.respond c.account fresh m with ⟨e | ⟨s, p⟩, me⟩
      · rw [hresp] at haccount
        have hrecv : (c.receive .responder fresh m).2 = { c with account := me } := by
          simp [receive, hs, hresp]
        rw [hrecv]
        exact ⟨haccount, fun _ _ => rfl, List.Subset.refl _⟩
      · rw [hresp] at haccount
        have hrecv : (c.receive .responder fresh m).2 =
            { c.setSession .responder s with account := me } := by
          simp [receive, hs, hresp]
        rw [hrecv]
        exact ⟨haccount, fun side hne => session_setSession_of_ne c hne _,
          List.subset_cons_self ..⟩

/-- Public keys are never forgotten. -/
theorem keys_step {move : Move P} (h : c.step net move = some (made, c')) :
    c.ratchetKeys ⊆ c'.ratchetKeys := by
  cases move with
  | send side plaintext =>
    obtain ⟨s, m, s', _, _, _, rfl⟩ := step_send h
    exact List.subset_cons_self ..
  | drop i =>
    obtain ⟨_, rfl⟩ := step_drop h
    exact List.Subset.refl _
  | deliver i fresh =>
    obtain ⟨pk, _, _, _, flight, _, rfl⟩ := step_deliver h
    exact (receive_frame c pk.dest fresh pk.message).2.2

theorem keys_follow {allowed : Conversation P → Ratcheting P → Bool} {moves : List (Move P)}
    (h : c.follow net allowed moves = some c') : c.ratchetKeys ⊆ c'.ratchetKeys := by
  refine follow_preserves (fun d => c.ratchetKeys ⊆ d.ratchetKeys) ?_ h (List.Subset.refl _)
  intro d move made d' hsub hmove _
  exact List.Subset.trans hsub (keys_step hmove)

/-- The DH ratchet step `e` of an end whose ratchet was `r`. -/
structure Turned (c : Conversation P) (r : DoubleRatchet P) (e : Ratcheting P) (fresh : P.Secret) :
    Prop where
  fresh_new : P.publicKey fresh ∉ c.ratchetKeys
  moved : r.dhRemote ≠ some e.remote
  self : e.made.dhSelf = fresh
  self_pub : e.made.dhSelfPub = P.publicKey fresh
  remote : e.made.dhRemote = some e.remote
  root : e.made.rootKey = (P.kdfRk (P.kdfRk r.rootKey (P.diffieHellman r.dhSelf e.remote)).1
    (P.diffieHellman fresh e.remote)).1
  send : e.made.chainSend = some (P.kdfRk
    (P.kdfRk r.rootKey (P.diffieHellman r.dhSelf e.remote)).1
    (P.diffieHellman fresh e.remote)).2
  recv : e.made.chainRecv = some (P.kdfRk r.rootKey (P.diffieHellman r.dhSelf e.remote)).2

theorem turned_of_ratcheting {r r' : DoubleRatchet P} {fresh : P.Secret} {header : RatchetHeader}
    (hfresh : P.publicKey fresh ∉ c.ratchetKeys) (h : r.ratcheting fresh header = some r')
    (side : Side) : Turned c r ⟨side, header.dhPub, r'⟩ fresh := by
  obtain ⟨hmoved, rfl⟩ := DoubleRatchet.ratcheting_cases h
  have hsame := (DoubleRatchet.SameTurn.refl r).skipMessageKeys header.pn
  refine ⟨hfresh, hmoved, rfl, rfl, rfl, ?_, ?_, ?_⟩
  all_goals simp [DoubleRatchet.dhRatchet, hsame.rootKey, hsame.dhSelf]

/-- **What a move does to one end.**  Unless that end takes a DH ratchet step, its
    root key and its ratchet keys stay. -/
theorem step_end {move : Move P} (h : c.step net move = some (made, c')) {side : Side}
    {s : Session P} (hs : c.session side = some s) :
    ∃ s', c'.session side = some s' ∧
      (((∀ e, made = some e → e.side ≠ side) ∧ s.ratchet.SameTurn s'.ratchet) ∨
        ∃ e fresh, made = some e ∧ e.side = side ∧ Turned c s.ratchet e fresh ∧
          e.made.SameTurn s'.ratchet) := by
  cases move with
  | send side' plaintext =>
    obtain ⟨s1, m, s1', hs1, henc, rfl, rfl⟩ := step_send h
    by_cases hside : side = side'
    · subst hside
      cases hs.symm.trans hs1
      refine ⟨s1', by simp, Or.inl ⟨nofun, ?_⟩⟩
      have hsame := DoubleRatchet.sameTurn_encrypt s.ratchet plaintext s.adPrefix
      rwa [← Session.ratchet_encrypt, henc] at hsame
    · refine ⟨s, ?_, Or.inl ⟨nofun, .refl _⟩⟩
      rw [← hs]
      exact session_setSession_of_ne c hside s1'
  | drop i =>
    obtain ⟨rfl, rfl⟩ := step_drop h
    exact ⟨s, hs, Or.inl ⟨nofun, .refl _⟩⟩
  | deliver i fresh =>
    obtain ⟨pk, _, hfresh, rfl, flight, _, rfl⟩ := step_deliver h
    by_cases hside : side = pk.dest
    · subst hside
      rw [receive_some hs]
      have hsame := DoubleRatchet.sameTurn_decrypt s.ratchet fresh pk.message.header
        pk.message.ciphertext s.adPrefix
      rw [← Session.ratchet_decrypt] at hsame
      refine ⟨(s.decrypt fresh pk.message).2, by simp, ?_⟩
      rw [ratcheting_some hs]
      cases hmade : s.ratchet.ratcheting fresh pk.message.header with
      | none =>
        rw [hmade] at hsame
        exact Or.inl ⟨nofun, hsame⟩
      | some r' =>
        rw [hmade] at hsame
        exact Or.inr ⟨_, fresh, rfl, rfl, turned_of_ratcheting hfresh hmade _, hsame⟩
    · refine ⟨s, ?_, Or.inl ⟨?_, .refl _⟩⟩
      · rw [← hs]
        exact (receive_frame c pk.dest fresh pk.message).2.1 side hside
      · intro e he heq
        rw [(ratcheting_eq_some he).1] at heq
        exact hside heq.symm

/-- **Steps are timely in the runs of `Conversation.Run`**: as long as no message is
    delivered twice, no counter wraps and the deliveries stay within the limits. -/
theorem timely_of_run (hP : P.Lawful) {alice bob : Account P} {bundle : PreKeyBundle}
    (hoffer : bob.Offers bundle) (hrun : Run alice bob bundle c) {pk : Packet C}
    (hpk : pk ∈ c.flight) {fresh : P.Secret} {e : Ratcheting P}
    (he : c.ratcheting pk.dest fresh pk.message = some e) : Timely c e = true := by
  obtain ⟨hs, ad, g, turn, h⟩ := hrun.inv hP hoffer
  obtain ⟨i, j, hfly⟩ := h.flight pk hpk
  obtain ⟨hside, hremote⟩ := ratcheting_eq_some he
  have hheader : e.remote = g.pub i := by
    rw [hremote, hfly.carries.header_eq]
  -- it is enough that the other end sends at turn `i`
  have hturn (u : Nat) (hi : i = u + 1) (t : Session P) (ht : c.session pk.dest.other = some t)
      (hu : turn pk.dest.other = u + 1) : Timely c e = true := by
    rw [← hside] at ht hu
    obtain ⟨_, u', hu', hat⟩ := h.session _ t ht
    rw [timely_iff ht, hat.dhSelfPub, hheader, hi]
    congr 1
    omega
  cases hsession : c.session pk.dest with
  | none =>
    have hdest : pk.dest = .responder := by
      by_cases hd : pk.dest = .responder
      · exact hd
      · have hinit : pk.dest = .initiator := eq_other_of_ne hd
        rw [hinit] at hsession
        exact absurd hsession h.initiator
    rw [hdest] at hsession
    have hzero := (h.unanswered hsession).turn_eq
    have hadjacent := h.adjacent
    have hle := hfly.turn_le
    have hpos := hfly.pos
    obtain ⟨t, ht⟩ := Option.ne_none_iff_exists'.mp h.initiator
    rw [hdest] at hle hturn
    change i ≤ turn .initiator at hle
    refine hturn 0 (by omega) t ht ?_
    change turn .initiator = 1
    omega
  | some s =>
    obtain ⟨_, u, hu, hat⟩ := h.session _ s hsession
    rw [ratcheting_some hsession] at he
    obtain ⟨made, hmade, rfl⟩ := Option.map_eq_some_iff.mp he
    have hslot : s.ratchet.skipped[(g.pub i, UInt32.ofNat j)]? = none := by
      have hnone := DoubleRatchet.slot_of_ratcheting hmade
      rwa [hfly.carries.header_eq] at hnone
    have hmoved := (DoubleRatchet.ratcheting_cases hmade).1
    rcases h.label_cases hfly hu with hlt | rfl | ⟨rfl, hother⟩
    · -- the key of an earlier turn is cached
      have hcached := hfly.awaits s u hsession hu (Or.inl hlt)
      cases hslot.symm.trans hcached
    · rw [hat.dhRemote, hfly.carries.header_eq] at hmoved
      exact absurd rfl hmoved
    · have hboth : c.session pk.dest.other ≠ none := by
        have hanswered := h.responder_ne_none hfly (by simp [hsession])
        cases pk.dest with
        | initiator => exact hanswered
        | responder => exact h.initiator
      obtain ⟨t, ht⟩ := Option.ne_none_iff_exists'.mp hboth
      exact hturn (u + 1) rfl t ht hother

end Moves

/-! ## 3. Before the leak -/

section Sound

variable {C : Type} {P : Suite C} [DecidableEq P.Shared] {net : Network}
  {c c' : Conversation P.free} {made : Option (Ratcheting P.free)}

/-- Both ends are honest, with different ratchet keys, and so are the headers in
    flight. -/
structure Sound (c : Conversation P.free) : Prop where
  ends : ∀ side s, c.session side = some s → s.ratchet.Honest c.ratchetKeys
  distinct : ∀ side s t, c.session side = some s → c.session side.other = some t →
    s.ratchet.dhSelfPub ≠ t.ratchet.dhSelfPub
  prekey : P.publicKey c.account.signedPrekey ∈ c.ratchetKeys
  flight : ∀ pk ∈ c.flight, pk.message.header.dhPub ∈ c.ratchetKeys

namespace Sound

theorem opened {alice bob : Account P.free} {bundle : PreKeyBundle} (hoffer : bob.Offers bundle)
    (h : Opened alice bob bundle c) : Sound c := by
  obtain @⟨rnd, s, hinit, hne⟩ := h
  obtain ⟨_, root, hs, spk, hhs, rfl⟩ := Session.initiate_ok_cases hinit
  obtain ⟨rfl, _⟩ := Handshake.initiate_header hhs
  obtain ⟨_, _, hroot, _⟩ := Handshake.initiate_ok_cases hhs
  have hspk : bundle.signedPrekey = P.publicKey bob.signedPrekey := by
    obtain ⟨_, _, _, hbundle⟩ := hoffer
    rw [hbundle]
    rfl
  have hself : P.publicKey rnd.ratchet ∈
      [P.publicKey rnd.ratchet, P.publicKey bob.signedPrekey] := List.mem_cons_self ..
  have hremote : bundle.signedPrekey ∈
      [P.publicKey rnd.ratchet, P.publicKey bob.signedPrekey] := by
    rw [hspk]
    exact List.mem_cons_of_mem _ (List.mem_singleton.mpr rfl)
  have hover (s : P.Shared)
      (h : s ∈ [P.diffieHellman rnd.ratchet bundle.signedPrekey]) :
      ∃ a p, P.publicKey a ∈ [P.publicKey rnd.ratchet, P.publicKey bob.signedPrekey] ∧
        p ∈ [P.publicKey rnd.ratchet, P.publicKey bob.signedPrekey] ∧
        s = P.diffieHellman a p :=
    ⟨_, _, hself, hremote, List.mem_singleton.mp h⟩
  refine ⟨?_, ?_, List.mem_cons_of_mem _ (List.mem_singleton.mpr rfl), ?_⟩
  · intro side t ht
    cases side with
    | responder => cases ht
    | initiator =>
      cases ht
      refine ⟨rfl, hself, ?_⟩
      intro k hk
      subst hroot
      cases hk with
      | root => exact hover
      | send hck =>
        cases hck
        exact hover
      | recv hck => cases hck
      | cached hslot => simp [DoubleRatchet.initInitiator] at hslot
  · intro side t t' ht ht'
    cases side
    · cases ht'
    · cases ht
  · intro pk hpk
    cases hpk

/-- Another session at one end, with its own ratchet key kept or a new one. -/
theorem setSession (h : Sound c) {side : Side} {s : Session P.free}
    (hs : s.ratchet.Honest (s.ratchet.dhSelfPub :: c.ratchetKeys))
    (hnew : ∀ t, c.session side.other = some t → s.ratchet.dhSelfPub ≠ t.ratchet.dhSelfPub)
    {account : Account P.free} (haccount : account.signedPrekey = c.account.signedPrekey)
    {flight : List (Packet (CipherTerm P.Shared))}
    (hflight : ∀ pk ∈ flight,
      pk.message.header.dhPub ∈ s.ratchet.dhSelfPub :: c.ratchetKeys) :
    Sound { c.setSession side s with account := account, flight := flight } where
  ends := by
    intro side' t ht
    by_cases hside : side' = side
    · subst hside
      cases (session_setSession c side' s).symm.trans ht
      exact hs
    · exact (h.ends side' t ((session_setSession_of_ne c hside s).symm.trans ht)).mono
        (List.subset_cons_self ..)
  distinct := by
    intro side' t t' ht ht'
    by_cases hside : side' = side
    · subst hside
      cases (session_setSession c side' s).symm.trans ht
      exact hnew t' ((session_setSession_other c side' s).symm.trans ht')
    · have heq : side'.other = side := by
        rw [eq_other_of_ne hside, other_other]
      have hold := (session_setSession_of_ne c hside s).symm.trans ht
      rw [eq_other_of_ne hside] at hold
      rw [heq] at ht'
      cases (session_setSession c side s).symm.trans ht'
      exact (hnew t hold).symm
  prekey := by
    rw [haccount]
    exact List.mem_cons_of_mem _ h.prekey
  flight := hflight

/-- The responder's first session has a drawn ratchet key. -/
theorem honest_responded {me me' : Account P.free} {known : List Bytes32}
    (hprekey : P.publicKey me.signedPrekey ∈ known) {fresh : P.free.Secret}
    {m : Message (CipherTerm P.Shared)} (hheader : m.header.dhPub ∈ known) {s : Session P.free}
    {p : Bytes} (h : Session.respond me fresh m = (.ok (s, p), me')) :
    s.ratchet.Honest (s.ratchet.dhSelfPub :: known) ∧
      s.ratchet.dhSelfPub = P.publicKey fresh := by
  have haccount := signedPrekey_respond me fresh m
  rw [h] at haccount
  obtain ⟨hs, header, ct, root, spk, r, rfl, hhs, hspk, hdec, rfl⟩ := Session.respond_ok_cases h
  obtain ⟨_, _, _, _, _, _, hroot⟩ := Handshake.respond_ok_cases hhs
  have hown : spk = me.signedPrekey := by
    unfold Account.signedPrekeyById at hspk
    split at hspk
    · rw [← haccount]
      exact (Except.ok.inj hspk).symm
    · cases hspk
  have hinit : (DoubleRatchet.initResponder root spk).Honest known := by
    refine ⟨rfl, ?_, ?_⟩
    · rw [← hown] at hprekey
      exact hprekey
    · intro k hk
      subst hroot
      cases hk with
      | root => exact fun s hs => (by cases hs)
      | send hck => cases hck
      | recv hck => cases hck
      | cached hslot => simp [DoubleRatchet.initResponder] at hslot
  obtain ⟨hhonest, _⟩ := hinit.decrypt fresh hheader ct
    (Clarity.adPrefix hs.identityEd me'.identityPublic)
  have hmade : (DoubleRatchet.initResponder root spk).ratcheting fresh header =
      some ((DoubleRatchet.initResponder root spk).dhRatchet fresh header.dhPub) := by
    simp [DoubleRatchet.ratcheting, DoubleRatchet.initResponder, DoubleRatchet.skipMessageKeys]
  have hsame := DoubleRatchet.sameTurn_decrypt (DoubleRatchet.initResponder root spk) fresh header
    ct (Clarity.adPrefix hs.identityEd me'.identityPublic)
  rw [hmade, hdec] at hsame
  have hheaderOf : (Message.preKey hs header ct).header = header := rfl
  rw [hheaderOf, hdec] at hhonest
  exact ⟨hhonest, hsame.dhSelfPub⟩

theorem step (h : Sound c) {move : Move P.free} (hmove : c.step net move = some (made, c')) :
    Sound c' := by
  cases move with
  | send side plaintext =>
    obtain ⟨s, m, s', hs, henc, _, rfl⟩ := step_send hmove
    have hkeep := DoubleRatchet.sameTurn_encrypt s.ratchet plaintext s.adPrefix
    have hhonest := (h.ends side s hs).encrypt plaintext s.adPrefix
    rw [← Session.ratchet_encrypt, henc] at hkeep hhonest
    refine h.setSession (hhonest.mono (List.subset_cons_self ..)) ?_ rfl ?_
    · intro t ht
      rw [hkeep.dhSelfPub]
      exact h.distinct side s t hs ht
    · intro pk hpk
      rcases List.mem_append.mp hpk with hold | hlast
      · exact List.mem_cons_of_mem _ (h.flight pk hold)
      · -- the new message carries the sender's ratchet key
        rw [List.mem_singleton.mp hlast]
        obtain ⟨r, hr, _, _⟩ := Session.encrypt_ok_cases henc
        obtain ⟨ck, _, hheader, _, _⟩ := DoubleRatchet.encrypt_ok_cases hr
        rw [hheader]
        exact List.mem_cons_of_mem _ (h.ends side s hs).self_known
  | drop i =>
    obtain ⟨_, rfl⟩ := step_drop hmove
    refine ⟨h.ends, h.distinct, h.prekey, ?_⟩
    intro pk hpk
    exact h.flight pk ((List.eraseIdx_sublist c.flight i).subset hpk)
  | deliver i fresh =>
    obtain ⟨pk, hpk, hfresh, _, flight, hflight, rfl⟩ := step_deliver hmove
    have hheader := h.flight pk hpk
    have hheaders (known : List Bytes32) (hsub : c.ratchetKeys ⊆ known) :
        ∀ pk ∈ flight, pk.message.header.dhPub ∈ known :=
      fun pk' hpk' => hsub (h.flight pk' (hflight hpk'))
    cases hs : c.session pk.dest with
    | some s =>
      rw [receive_some hs]
      obtain ⟨hhonest, hpub⟩ := (h.ends pk.dest s hs).decrypt fresh hheader pk.message.ciphertext
        s.adPrefix
      rw [← Session.ratchet_decrypt] at hhonest hpub
      refine h.setSession hhonest ?_ rfl (hheaders _ (List.subset_cons_self ..))
      intro t ht
      rcases hpub with hsame | hdrawn
      · rw [hsame]
        exact h.distinct pk.dest s t hs ht
      · rw [hdrawn]
        exact fun heq => hfresh (heq ▸ (h.ends _ t ht).self_known)
    | none =>
      obtain ⟨haccount, hother, hkeys⟩ := receive_frame c pk.dest fresh pk.message
      cases hdest : pk.dest with
      | initiator =>
        rw [hdest] at hs
        have hrecv : (c.receive .initiator fresh pk.message).2 = c := by simp [receive, hs]
        rw [hrecv]
        exact ⟨h.ends, h.distinct, h.prekey, hheaders _ (List.Subset.refl _)⟩
      | responder =>
        rw [hdest] at hs haccount
        rcases hresp : Session.respond c.account fresh pk.message with ⟨e | ⟨s, p⟩, me⟩
        · have hrecv : (c.receive .responder fresh pk.message).2 = { c with account := me } := by
            simp [receive, hs, hresp]
          rw [hrecv] at haccount ⊢
          refine ⟨h.ends, h.distinct, ?_, hheaders _ (List.Subset.refl _)⟩
          rw [haccount]
          exact h.prekey
        · have hrecv : (c.receive .responder fresh pk.message).2 =
              { c.setSession .responder s with account := me } := by
            simp [receive, hs, hresp]
          rw [hrecv] at haccount ⊢
          obtain ⟨hhonest, hpub⟩ := honest_responded h.prekey hheader hresp
          refine h.setSession hhonest ?_ haccount (hheaders _ (List.subset_cons_self ..))
          intro t ht
          rw [hpub]
          exact fun heq => hfresh (heq ▸ (h.ends _ t ht).self_known)

end Sound

end Sound

/-! ## 4. After the step -/

section Healed

variable {C : Type} {P : Suite C} [DecidableEq P.Shared] {net : Network}
  {c c' : Conversation P.free} {made : Option (Ratcheting P.free)}

/-- `side` has mixed `σ` into its root.  The other end has done so too, or it will do
    it with its next step, and until then `side` takes none. -/
def Healed (σ : P.free.Shared) (side : Side) (c : Conversation P.free) : Prop :=
  ∃ s t, c.session side = some s ∧ c.session side.other = some t ∧
    σ ∈ KeyTerm.mixed s.ratchet.rootKey ∧
    (σ ∈ KeyTerm.mixed t.ratchet.rootKey ∨
      (P.free.diffieHellman t.ratchet.dhSelf s.ratchet.dhSelfPub = σ ∧
        s.ratchet.dhRemote = some t.ratchet.dhSelfPub))

variable {σ : P.free.Shared} {side : Side}

/-- A value below the old root, or the value of the step, is below all new keys. -/
theorem Turned.mixes {r : DoubleRatchet P.free} {e : Ratcheting P.free} {fresh : P.free.Secret}
    (h : Turned c r e fresh)
    (hσ : σ ∈ KeyTerm.mixed r.rootKey ∨ P.free.diffieHellman r.dhSelf e.remote = σ) :
    σ ∈ KeyTerm.mixed e.made.rootKey ∧
      (∀ ck, e.made.chainSend = some ck → σ ∈ KeyTerm.mixed ck) ∧
      (∀ ck, e.made.chainRecv = some ck → σ ∈ KeyTerm.mixed ck) := by
  have hrecv : σ ∈ P.free.diffieHellman r.dhSelf e.remote :: KeyTerm.mixed r.rootKey := by
    rcases hσ with hroot | rfl
    · exact List.mem_cons_of_mem _ hroot
    · exact List.mem_cons_self ..
  refine ⟨?_, ?_, ?_⟩
  · rw [h.root]
    exact List.mem_cons_of_mem _ hrecv
  · intro ck hck
    cases h.send.symm.trans hck
    exact List.mem_cons_of_mem _ hrecv
  · intro ck hck
    cases h.recv.symm.trans hck
    exact hrecv

/-- **One move after the recovery.**  A timely step of either end mixes `σ` into all
    of its new keys. -/
theorem Healed.step (h : Healed σ side c) {move : Move P.free}
    (hmove : c.step net move = some (made, c')) (htimely : made.all (Timely c) = true) :
    Healed σ side c' ∧ ∀ e, made = some e →
      (∀ ck, e.made.chainSend = some ck → σ ∈ KeyTerm.mixed ck) ∧
      (∀ ck, e.made.chainRecv = some ck → σ ∈ KeyTerm.mixed ck) := by
  obtain ⟨s, t, hs, ht, hroot, hother⟩ := h
  obtain ⟨s', hs', hcase⟩ := step_end hmove hs
  obtain ⟨t', ht', hcase'⟩ := step_end hmove ht
  rcases hcase with ⟨hnot, hsame⟩ | ⟨e, fresh, rfl, hside, hturn, hsame⟩
  · rcases hcase' with ⟨hnot', hsame'⟩ | ⟨e, fresh, rfl, hside, hturn, hsame'⟩
    · -- no step at all
      refine ⟨⟨s', t', hs', ht', ?_, ?_⟩, ?_⟩
      · rw [hsame.rootKey]
        exact hroot
      · rw [hsame'.rootKey, hsame'.dhSelf, hsame'.dhSelfPub, hsame.dhSelfPub, hsame.dhRemote]
        exact hother
      · intro e he
        by_cases hside : e.side = side
        · exact absurd hside (hnot e he)
        · exact absurd (eq_other_of_ne hside) (hnot' e he)
    · -- the other end steps to the ratchet key of `side`
      have hback : c.session e.side.other = some s := by
        rw [hside, other_other]
        exact hs
      have hremote := (timely_iff hback).mp htimely
      have hmixes := hturn.mixes (σ := σ) (by
        rcases hother with hmixed | ⟨hvalue, _⟩
        · exact Or.inl hmixed
        · rw [hremote] at hvalue
          exact Or.inr hvalue)
      refine ⟨⟨s', t', hs', ht', ?_, Or.inl ?_⟩, ?_⟩
      · rw [hsame.rootKey]
        exact hroot
      · rw [hsame'.rootKey]
        exact hmixes.1
      · intro e' he'
        cases he'
        exact hmixes.2
  · -- `side` steps: the other end has stepped before
    have hback : c.session e.side.other = some t := by
      rw [hside]
      exact ht
    have hremote := (timely_iff hback).mp htimely
    have hmixed : σ ∈ KeyTerm.mixed t.ratchet.rootKey := by
      rcases hother with hmixed | ⟨_, hheard⟩
      · exact hmixed
      · rw [hremote] at hheard
        exact absurd hheard hturn.moved
    rcases hcase' with ⟨_, hsame'⟩ | ⟨e', _, he', hside', _, _⟩
    · have hmixes := hturn.mixes (σ := σ) (Or.inl hroot)
      refine ⟨⟨s', t', hs', ht', ?_, Or.inl ?_⟩, ?_⟩
      · rw [hsame.rootKey]
        exact hmixes.1
      · rw [hsame'.rootKey]
        exact hmixed
      · intro e' he'
        cases he'
        exact hmixes.2
    · cases he'
      rw [hside] at hside'
      exact absurd hside'.symm (other_ne side)

/-- The step of `side` itself mixes in the value of its new secret and the other
    end's ratchet key. -/
theorem Healed.start (hP : P.Lawful) (h : Sound c) {move : Move P.free} {e : Ratcheting P.free}
    (hmove : c.step net move = some (some e, c')) {s : Session P.free}
    (hs : c.session e.side = some s) (htimely : Timely c e = true) :
    ∃ fresh y t, c.session e.side.other = some t ∧ y = t.ratchet.dhSelf ∧
      P.publicKey y = t.ratchet.dhSelfPub ∧
      Turned c s.ratchet e fresh ∧ P.publicKey fresh ∈ c'.ratchetKeys ∧
      Healed (P.diffieHellman fresh (P.publicKey y)) e.side c' ∧
      ∀ ck, e.made.chainSend = some ck →
        P.diffieHellman fresh (P.publicKey y) ∈ KeyTerm.mixed ck := by
  obtain ⟨t, ht, hremote⟩ : ∃ t, c.session e.side.other = some t ∧
      t.ratchet.dhSelfPub = e.remote := by
    cases ht : c.session e.side.other with
    | none => simp [Timely, ht] at htimely
    | some t => exact ⟨t, rfl, (timely_iff ht).mp htimely⟩
  have hpub := (h.ends _ t ht).self_pub
  obtain ⟨s', hs', ⟨hnot, _⟩ | ⟨e', fresh, he', _, hturn, hsame⟩⟩ := step_end hmove hs
  · exact absurd rfl (hnot e rfl)
  · cases he'
    obtain ⟨t', ht', ⟨_, hsame'⟩ | ⟨e', _, he', hside', _, _⟩⟩ := step_end hmove ht
    · have hroot : P.diffieHellman fresh (P.publicKey t.ratchet.dhSelf) ∈
          KeyTerm.mixed e.made.rootKey := by
        rw [hturn.root, ← hremote, hpub]
        exact List.mem_cons_self ..
      refine ⟨fresh, _, t, ht, rfl, hpub.symm, hturn, ?_, ⟨s', t', hs', ht', ?_, Or.inr ⟨?_, ?_⟩⟩, ?_⟩
      · have hsound := h.step hmove
        have hself := (hsound.ends _ s' hs').self_known
        rw [hsame.dhSelfPub, hturn.self_pub] at hself
        exact hself
      · rw [hsame.rootKey]
        exact hroot
      · rw [hsame'.dhSelf, hsame.dhSelfPub, hturn.self_pub]
        exact hP.dh_comm _ _
      · rw [hsame.dhRemote, hturn.remote, hsame'.dhSelfPub, hremote]
      · intro ck hck
        cases hturn.send.symm.trans hck
        rw [← hremote, hpub]
        exact List.mem_cons_self ..
    · cases he'
      exact absurd hside'.symm (other_ne _)

end Healed

/-! ## 5. Recovery -/

section Recovery

variable {C : Type} {P : Suite C} [DecidableEq P.Shared] {net : Network}
  {c c' : Conversation P.free}

theorem sound_follow {allowed : Conversation P.free → Ratcheting P.free → Bool}
    {moves : List (Move P.free)} (h : Sound c) (hrun : c.follow net allowed moves = some c') :
    Sound c' :=
  follow_preserves Sound (fun _ _ _ _ hd hmove _ => hd.step hmove) hrun h

/-- An end that takes no DH ratchet step keeps its ratchet key. -/
theorem quiet_follow {allowed : Conversation P.free → Ratcheting P.free → Bool} {side : Side}
    {moves : List (Move P.free)} {s : Session P.free} (hs : c.session side = some s)
    (hrun : c.follow net (fun c e => allowed c e && e.side ≠ side) moves = some c') :
    ∃ s', c'.session side = some s' ∧ s'.ratchet.dhSelfPub = s.ratchet.dhSelfPub := by
  refine follow_preserves (fun d => ∃ s', d.session side = some s' ∧
    s'.ratchet.dhSelfPub = s.ratchet.dhSelfPub) ?_ hrun ⟨s, hs, rfl⟩
  rintro d move made d' ⟨s1, hs1, hpub⟩ hmove hall
  obtain ⟨s2, hs2, ⟨_, hsame⟩ | ⟨e, _, rfl, hside, _, _⟩⟩ := step_end hmove hs1
  · exact ⟨s2, hs2, hsame.dhSelfPub.trans hpub⟩
  · simp [hside] at hall

theorem healed_follow {σ : P.free.Shared} {side : Side} {moves : List (Move P.free)}
    (h : Healed σ side c) (hrun : c.follow net Timely moves = some c') : Healed σ side c' :=
  follow_preserves (Healed σ side) (fun _ _ _ _ hd hmove hall => (hd.step hmove hall).1) hrun h

/-- **A chain over the value of two secrets the thief lacks is not learned.**  One of
    them is younger than the leak, and neither is the leaked one. -/
theorem unlearned_of_mixed (hdh : P.SymbolicDh) {leaked : DoubleRatchet P.free}
    {known : List Bytes32} (hleaked : leaked.Honest known) {fresh y : P.Secret}
    (hfresh : P.publicKey fresh ∉ known) (hy : P.publicKey y ≠ leaked.dhSelfPub)
    (hfreshKey : P.publicKey fresh ∈ c.ratchetKeys) (hyKey : P.publicKey y ∈ c.ratchetKeys)
    {chain : Option P.free.Key} (hmixed : ∀ ck, chain = some ck →
      P.diffieHellman fresh (P.publicKey y) ∈ KeyTerm.mixed ck) :
    Unlearned leaked c chain := by
  intro own hown ck hck n hlearned
  have hstored : ∀ k, leaked.Stores k →
      P.diffieHellman fresh (P.publicKey y) ∉ KeyTerm.mixed k := by
    intro k hk hmem
    obtain ⟨a, p, ha, hp, heq⟩ := hleaked.stores k hk _ hmem
    rcases hdh _ _ _ _ heq with ⟨hpub, _⟩ | ⟨hpub, _⟩
    · rw [hpub] at hfresh
      exact hfresh ha
    · rw [hpub] at hfresh
      exact hfresh hp
  have hself : P.publicKey leaked.dhSelf ∈ known := by
    rw [← hleaked.self_pub]
    exact hleaked.self_known
  have hconcede : ¬ leaked.Concedes own (P.diffieHellman fresh (P.publicKey y)) := by
    rintro ⟨a, pub, ha, heq⟩
    have hone : P.publicKey fresh = P.publicKey a ∨ P.publicKey y = P.publicKey a := by
      rcases hdh _ _ _ _ heq with ⟨hpub, _⟩ | ⟨_, hpub⟩
      · exact Or.inl hpub
      · exact Or.inr hpub
    rcases ha with rfl | ha
    · rcases hone with hpub | hpub
      · rw [hpub] at hfresh
        exact hfresh hself
      · rw [hpub, hleaked.self_pub] at hy
        exact hy rfl
    · have hnot : P.publicKey a ∉ c.ratchetKeys := hown a ha
      rcases hone with hpub | hpub
      · rw [hpub] at hfreshKey
        exact hnot hfreshKey
      · rw [hpub] at hyKey
        exact hnot hyKey
  apply hlearned.not_mixed hstored hconcede
  rw [mixed_messageKeyAt]
  exact hmixed ck hck

/-- **Recovery.**  As long as every DH ratchet step goes to the ratchet key that the
    other end uses, a leak gives nothing away about the chains that the next step of
    the leaking end starts, or about any later one. -/
theorem recovers_when_timely (hP : P.Lawful) (hdh : P.SymbolicDh) (net : Network) :
    BreakInRecovery P Timely net := by
  intro alice bob bundle c0 c1 c2 c3 before quiet side s move e hoffer hopened hbefore hs hquiet
    hmove hside htimely
  subst hside
  have hsound1 := sound_follow (Sound.opened hoffer hopened) hbefore
  have hsound2 := sound_follow hsound1 hquiet
  have hleaked := hsound1.ends _ s hs
  obtain ⟨s2, hs2, hpub2⟩ := quiet_follow hs hquiet
  obtain ⟨fresh, y, t, ht, rfl, hy, hturn, hfreshKey, hhealed, hsend⟩ :=
    Healed.start hP hsound2 hmove hs2 htimely
  have hfresh : P.publicKey fresh ∉ c1.ratchetKeys :=
    fun hmem => hturn.fresh_new (keys_follow hquiet hmem)
  have hne : P.publicKey t.ratchet.dhSelf ≠ s.ratchet.dhSelfPub := by
    rw [hy, ← hpub2]
    exact (hsound2.distinct _ s2 t hs2 ht).symm
  have hyKey : P.publicKey t.ratchet.dhSelf ∈ c3.ratchetKeys := by
    rw [hy]
    exact keys_step hmove (hsound2.ends _ t ht).self_known
  constructor
  · exact unlearned_of_mixed hdh hleaked hfresh hne hfreshKey hyKey hsend
  · intro later c4 c5 move' e' hlater hmove' htimely'
    obtain ⟨_, hkeys⟩ := (healed_follow hhealed hlater).step hmove' htimely'
    obtain ⟨hsend', hrecv'⟩ := hkeys e' rfl
    have hsub : c3.ratchetKeys ⊆ c5.ratchetKeys :=
      List.Subset.trans (keys_follow hlater) (keys_step hmove')
    constructor
    · exact unlearned_of_mixed hdh hleaked hfresh hne (hsub hfreshKey) (hsub hyKey) hsend'
    · exact unlearned_of_mixed hdh hleaked hfresh hne (hsub hfreshKey) (hsub hyKey) hrecv'

/-! The sample accounts of the exact suite. -/

def exactAccount (k : UInt8) (prekeys : List UInt8) : Account Suite.exact.free :=
  Account.generateWithPrekeys (P := Suite.exact.free) k (k + 1) (k + 2) (k + 3) prekeys

def exactAlice : Account Suite.exact.free := exactAccount 10 [20, 21]
def exactBob : Account Suite.exact.free := exactAccount 30 [40, 41]

def exactSecret (n : UInt8) : Suite.exact.free.Secret := n

def exactRandom : Session.InitiateRandom Suite.exact.free where
  ephemeral := exactSecret 50
  coins := Bytes32.ofByte 7
  ratchet := exactSecret 60

/-- Alice has opened a session on Bob's bundle. -/
def exactOpened : Option (Conversation Suite.exact.free) :=
  (Session.initiate exactAlice exactBob.bundle exactRandom).toOption.map fun s =>
    ⟨Function.update (fun _ => none) .initiator (some s), exactBob, [],
      [Suite.exact.free.publicKey exactRandom.ratchet,
        Suite.exact.free.publicKey exactBob.signedPrekey]⟩

theorem opened_exact {c0 : Conversation Suite.exact.free} (h : exactOpened = some c0) :
    Opened exactAlice exactBob exactBob.bundle c0 := by
  obtain ⟨s, hs, rfl⟩ := Option.map_eq_some_iff.mp h
  cases hinit : Session.initiate exactAlice exactBob.bundle exactRandom with
  | error e =>
    rw [hinit] at hs
    cases hs
  | ok s' =>
    rw [hinit] at hs
    cases hs
    exact .initiated hinit (by decide)

/-- Bob's state leaks with a message of Alice's second chain on its way.  Its
    delivery makes Bob ratchet, and his answer makes Alice ratchet. -/
theorem recovers_when_timely_sample :
    ∃ (c1 c3 c4 c5 : Conversation Suite.exact.free) (s : Session Suite.exact.free)
      (e e' : Ratcheting Suite.exact.free), c1.session .responder = some s ∧
      c1.step .once (.deliver 0 (exactSecret 72)) = some (some e, c3) ∧ e.side = .responder ∧
      c3.step .once (.send .responder [4]) = some (none, c4) ∧
      c4.step .once (.deliver 0 (exactSecret 73)) = some (some e', c5) ∧ e'.side = .initiator ∧
      Unlearned s.ratchet c3 e.made.chainSend ∧ Unlearned s.ratchet c5 e'.made.chainSend ∧
      Unlearned s.ratchet c5 e'.made.chainRecv := by
  let before : List (Move Suite.exact.free) :=
    [.send .initiator [1], .deliver 0 (exactSecret 70), .send .responder [2],
      .deliver 0 (exactSecret 71), .send .initiator [3]]
  have hany : (exactOpened.any fun c0 => (c0.follow .once Timely before).any fun c1 =>
      (c1.session .responder).isSome && (c1.step .once (.deliver 0 (exactSecret 72))).any fun r =>
      r.1.any fun e => e.side = .responder && Timely c1 e &&
      (r.2.step .once (.send .responder [4])).any fun q => q.1.isNone &&
      (q.2.step .once (.deliver 0 (exactSecret 73))).any fun r' => r'.1.any fun e' =>
        e'.side = .initiator && Timely q.2 e') = true := by
    decide +kernel
  obtain ⟨c0, hc0, hany⟩ := (Option.any_eq_true _ _).mp hany
  obtain ⟨c1, hc1, hany⟩ := (Option.any_eq_true _ _).mp hany
  obtain ⟨hsome, hany⟩ := Bool.and_eq_true_iff.mp hany
  obtain ⟨s, hs⟩ := Option.isSome_iff_exists.mp hsome
  obtain ⟨⟨made, c3⟩, hc3, hany⟩ := (Option.any_eq_true _ _).mp hany
  obtain ⟨e, rfl, hany⟩ := (Option.any_eq_true _ _).mp hany
  obtain ⟨hfirst, hany⟩ := Bool.and_eq_true_iff.mp hany
  obtain ⟨hside, htimely⟩ := Bool.and_eq_true_iff.mp hfirst
  obtain ⟨⟨none', c4⟩, hc4, hany⟩ := (Option.any_eq_true _ _).mp hany
  obtain ⟨hnone, hany⟩ := Bool.and_eq_true_iff.mp hany
  obtain rfl := Option.isNone_iff_eq_none.mp hnone
  obtain ⟨⟨made', c5⟩, hc5, hany⟩ := (Option.any_eq_true _ _).mp hany
  obtain ⟨e', rfl, hany⟩ := (Option.any_eq_true _ _).mp hany
  obtain ⟨hside', htimely'⟩ := Bool.and_eq_true_iff.mp hany
  have hlater : c3.follow .once Timely [.send .responder [4]] = some c4 := by
    simp [follow, hc4]
  obtain ⟨hsend, hrest⟩ := recovers_when_timely exact_lawful exact_symbolicDh .once exactAlice
    exactBob exactBob.bundle c0 c1 c1 c3 before [] .responder s _ e exactBob.offers_bundle
    (opened_exact hc0) hc1 hs rfl hc3 (of_decide_eq_true hside) htimely
  obtain ⟨hsend', hrecv'⟩ := hrest _ c4 c5 _ e' hlater hc5 htimely'
  exact ⟨c1, c3, c4, c5, s, e, e', hs, hc3, of_decide_eq_true hside, hc4, hc5,
    of_decide_eq_true hside', hsend, hsend', hrecv'⟩

end Recovery

end Conversation

end Clarity
