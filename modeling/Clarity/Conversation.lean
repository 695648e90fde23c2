/-
  Clarity/Conversation.lean
  =========================
  **Two honest ends on a network that reorders and loses messages.**

  `Conversation.Run` collects the runs of a session that `alice` opened on a bundle
  of `bob`: both ends encrypt whenever they like, and a message in flight is
  delivered at most once, at any time, or never.  `bob` answers the first
  message that reaches him with `Session::respond`; everything else goes to
  `Session::decrypt`.  Deliveries stay within the limits of the ratchet, and fresh
  ratchet keys do not repeat.

    * `Inv` — the simulation: the two ends are ratchets at neighbouring turns of one
      sequence of turns, and every message in flight is a message of a turn whose
      key its receiver has cached or will still derive;
    * `delivered_ok` — in every such run, a delivered message returns exactly the
      plaintext that was encrypted.
-/
import Clarity.SessionSpec
import Clarity.Turns
import Clarity.Sample

namespace Clarity

variable {C : Type} {P : Suite C}

/-! ## 1. The system -/

/-- `bundle` is a bundle of `me`, with a one-time prekey that `me` holds or with
    none. -/
def Account.Offers (me : Account P) (bundle : PreKeyBundle) : Prop :=
  ∃ oneTime me', Handshake.takeNamedPrekey me bundle.oneTimePrekeyId = (.ok oneTime, me') ∧
    bundle = { me.bundle with
      oneTimePrekey := oneTime.map P.publicKey, oneTimePrekeyId := bundle.oneTimePrekeyId }

/-- The bundle an account hands out is one it offers. -/
theorem Account.offers_bundle (me : Account P) : me.Offers me.bundle := by
  cases hfirst : me.oneTimePrekeys.toList.head? with
  | none =>
    have hid : me.bundle.oneTimePrekeyId = none := by simp [Account.bundle, hfirst]
    have hpub : me.bundle.oneTimePrekey = none := by simp [Account.bundle, hfirst]
    refine ⟨none, me, by rw [hid]; rfl, ?_⟩
    rw [Option.map_none, ← hpub]
  | some entry =>
    obtain ⟨id, sk⟩ := entry
    have hid : me.bundle.oneTimePrekeyId = some id := by simp [Account.bundle, hfirst]
    have hpub : me.bundle.oneTimePrekey = some (P.publicKey sk) := by
      simp [Account.bundle, hfirst]
    have hheld : me.oneTimePrekeys[id]? = some sk :=
      Std.ExtTreeMap.mem_toList_iff_getElem?_eq_some.mp (List.mem_of_mem_head? hfirst)
    refine ⟨some sk, { me with oneTimePrekeys := me.oneTimePrekeys.erase id }, ?_, ?_⟩
    · rw [hid]
      simp [Handshake.takeNamedPrekey, Account.takeOneTimePrekey, hheld]
    · rw [Option.map_some, ← hpub]

/-- The signatures of an offered bundle verify. -/
theorem Account.Offers.verifies (hP : P.Lawful) {me : Account P} {bundle : PreKeyBundle}
    (h : me.Offers bundle) : verifyBundle P bundle = .ok () := by
  obtain ⟨oneTime, me', _, hbundle⟩ := h
  rw [hbundle]
  exact verifyBundle_attach hP me _ _

/-- `Session::initiate` succeeds on an offered bundle. -/
theorem Account.Offers.initiate_ok (hP : P.Lawful) {me : Account P} {bundle : PreKeyBundle}
    (h : me.Offers bundle) (my : Account P) (rnd : Session.InitiateRandom P) :
    ∃ s, Session.initiate my bundle rnd = .ok s := by
  have hverify := h.verifies hP
  obtain ⟨oneTime, me', _, hbundle⟩ := h
  obtain ⟨ct, secret, hencap, _⟩ := hP.encapsulate_ok me.kyber rnd.coins
  have hkyber : bundle.kyberPrekey = P.encapsulationKey me.kyber := by rw [hbundle]; rfl
  unfold Session.initiate Handshake.initiate
  rw [hverify, hkyber, hencap]
  exact ⟨_, rfl⟩

/-- A message in flight, with the plaintext it was made from. -/
structure Packet (C : Type) where
  dest : Side
  message : Message C
  plaintext : Bytes

structure Conversation (P : Suite C) where
  session : Side → Option (Session P)
  /-- The account the responder answers from. -/
  account : Account P
  flight : List (Packet C)
  /-- The public ratchet keys used so far. -/
  ratchetKeys : List Bytes32

namespace Conversation

def setSession (c : Conversation P) (side : Side) (s : Session P) : Conversation P :=
  { c with
    session := Function.update c.session side (some s)
    ratchetKeys := s.ratchet.dhSelfPub :: c.ratchetKeys }

/-- A message reaches one end. -/
def receive (c : Conversation P) (dest : Side) (fresh : P.Secret) (m : Message C) :
    Outcome (Conversation P) Bytes :=
  match c.session dest, dest with
  | some s, _ => ((s.decrypt fresh m).1, c.setSession dest (s.decrypt fresh m).2)
  | none, .initiator => (.error .unexpectedMessage, c)
  | none, .responder =>
    match Session.respond c.account fresh m with
    | (.ok (s, plaintext), account) =>
      (.ok plaintext, { c.setSession .responder s with account := account })
    | (.error e, account) => (.error e, { c with account := account })

/-- The delivery stays within `MAX_SKIP` and `MAX_SKIPPED_CACHE`. -/
def Limits (c : Conversation P) (dest : Side) (m : Message C) : Prop :=
  match c.session dest with
  | some s => s.ratchet.WithinLimits m.header
  | none => m.header.n.toNat ≤ MAX_SKIP.toNat

/-- The runs of a session between `alice` and `bob`. -/
inductive Run (alice bob : Account P) (bundle : PreKeyBundle) : Conversation P → Prop where
  | opened {rnd : Session.InitiateRandom P} {s : Session P} :
      Session.initiate alice bundle rnd = .ok s →
      P.publicKey rnd.ratchet ≠ P.publicKey bob.signedPrekey →
      Run alice bob bundle ⟨Function.update (fun _ => none) .initiator (some s), bob, [],
        [P.publicKey rnd.ratchet, P.publicKey bob.signedPrekey]⟩
  | send {c : Conversation P} {s s' : Session P} {m : Message C} (side : Side)
      (plaintext : Bytes) :
      Run alice bob bundle c → c.session side = some s → s.encrypt plaintext = (.ok m, s') →
      s.ratchet.nSend.toNat + 1 < 2 ^ 32 →
      Run alice bob bundle
        { c.setSession side s' with flight := c.flight ++ [⟨side.other, m, plaintext⟩] }
  | drop {c : Conversation P} {front rest : List (Packet C)} {pk : Packet C} :
      Run alice bob bundle c → c.flight = front ++ pk :: rest →
      Run alice bob bundle { c with flight := front ++ rest }
  | deliver {c : Conversation P} {front rest : List (Packet C)} {pk : Packet C}
      (fresh : P.Secret) :
      Run alice bob bundle c → c.flight = front ++ pk :: rest → c.Limits pk.dest pk.message →
      P.publicKey fresh ∉ c.ratchetKeys →
      Run alice bob bundle
        { (c.receive pk.dest fresh pk.message).2 with flight := front ++ rest }

/-! ## 2. The simulation -/

/-- The side that sends at turn `i`. -/
def sender (i : Nat) : Side := if i % 2 = 1 then .initiator else .responder

/-- The packet is message `j` of turn `i`; its receiver has its key, or will derive it. -/
structure Flying (g : Turns P) (turn : Side → Nat) (adPrefix : Bytes) (c : Conversation P)
    (pk : Packet C) (i j : Nat) : Prop where
  sender_eq : sender i = pk.dest.other
  pos : i ≠ 0
  turn_le : i ≤ turn pk.dest.other
  sent : j < g.cnt i
  carries : g.Carries adPrefix i j pk.message.header pk.message.ciphertext pk.plaintext
  awaits : ∀ s u, c.session pk.dest = some s → turn pk.dest = u + 1 →
    DoubleRatchet.Awaits g u s.ratchet i j

/-- Nobody has answered yet: the handshake still works for `c.account`. -/
structure Unanswered (hs : HandshakeHeader) (g : Turns P) (turn : Side → Nat) (adPrefix : Bytes)
    (c : Conversation P) : Prop where
  turn_eq : turn .responder = 0
  root : ∃ me, Handshake.respond c.account hs = (.ok g.root, me) ∧
    me.signedPrekeyById hs.signedPrekeyId = .ok (g.sec 0) ∧
    adPrefix = Clarity.adPrefix hs.identityEd me.identityPublic
  pending : ∀ s, c.session .initiator = some s → s.pendingHandshake = some hs
  preKey : ∀ pk ∈ c.flight,
    pk.message = .preKey hs pk.message.header pk.message.ciphertext

/-- The two ends are ratchets at neighbouring turns of `g`. -/
structure Inv (hs : HandshakeHeader) (adPrefix : Bytes) (g : Turns P) (turn : Side → Nat)
    (c : Conversation P) : Prop where
  cnt_zero : g.cnt 0 = 0
  cnt_lt : ∀ i, g.cnt i < 2 ^ 32
  cnt_above : ∀ side i, turn side < i → sender i = side → g.cnt i = 0
  sender_turn : ∀ side, sender (turn side) = side
  adjacent : turn .initiator = turn .responder + 1 ∨ turn .responder = turn .initiator + 1
  distinct : g.Distinct (max (turn .initiator) (turn .responder))
  known : ∀ i ≤ max (turn .initiator) (turn .responder), g.pub i ∈ c.ratchetKeys
  initiator : c.session .initiator ≠ none
  unanswered : c.session .responder = none → Unanswered hs g turn adPrefix c
  session : ∀ side s, c.session side = some s →
    s.adPrefix = adPrefix ∧ ∃ u, turn side = u + 1 ∧ s.ratchet.AtTurn g u
  flight : ∀ pk ∈ c.flight, ∃ i j, Flying g turn adPrefix c pk i j
  unique : c.flight.Pairwise fun p q => p.dest = q.dest →
    (p.message.header.dhPub, p.message.header.n) ≠ (q.message.header.dhPub, q.message.header.n)

/-! ## 3. Facts about turns -/

@[simp] theorem other_other (side : Side) : side.other.other = side := by cases side <;> rfl

theorem other_ne (side : Side) : side.other ≠ side := by cases side <;> decide

theorem eq_other_of_ne {side side' : Side} (h : side' ≠ side) : side' = side.other := by
  cases side <;> cases side' <;> first | rfl | exact absurd rfl h

theorem sender_succ (i : Nat) : sender (i + 1) = (sender i).other := by
  unfold sender
  rcases Nat.mod_two_eq_zero_or_one i with h | h
  · rw [if_pos (by omega), if_neg (by omega)]
    rfl
  · rw [if_neg (by omega), if_pos h]
    rfl

theorem sender_add_two (i : Nat) : sender (i + 2) = sender i := by
  rw [sender_succ, sender_succ, other_other]

namespace Inv

variable {hs : HandshakeHeader} {ad : Bytes} {g : Turns P} {turn : Side → Nat}
  {c : Conversation P}

theorem turn_other (h : Inv hs ad g turn c) (side : Side) :
    turn side = turn side.other + 1 ∨ turn side.other = turn side + 1 := by
  cases side
  · exact h.adjacent
  · exact h.adjacent.symm

theorem distinct_side (h : Inv hs ad g turn c) (side : Side) :
    g.Distinct (max (turn side) (turn side.other)) := by
  cases side
  · exact h.distinct
  · rw [Nat.max_comm]
    exact h.distinct

theorem known_side (h : Inv hs ad g turn c) (side : Side) :
    ∀ i ≤ max (turn side) (turn side.other), g.pub i ∈ c.ratchetKeys := by
  cases side
  · exact h.known
  · rw [Nat.max_comm]
    exact h.known

/-- A packet cannot be addressed to the initiator before the responder answered. -/
theorem responder_ne_none (h : Inv hs ad g turn c) {pk : Packet C} {i j : Nat}
    (hfly : Flying g turn ad c pk i j) (hsome : c.session pk.dest ≠ none) :
    c.session .responder ≠ none := by
  intro hnone
  cases hdest : pk.dest with
  | responder =>
    rw [hdest] at hsome
    exact hsome hnone
  | initiator =>
    have hle := hfly.turn_le
    rw [hdest] at hle
    have hzero := (h.unanswered hnone).turn_eq
    have hpos := hfly.pos
    change i ≤ turn .responder at hle
    omega

/-- Every packet but one is different from that one. -/
theorem unique_split (h : Inv hs ad g turn c) {front rest : List (Packet C)} {pk pk' : Packet C}
    (hsplit : c.flight = front ++ pk :: rest) (hmem : pk' ∈ front ++ rest)
    (hdest : pk'.dest = pk.dest) {i j i' j' : Nat} (hfly : Flying g turn ad c pk i j)
    (hfly' : Flying g turn ad c pk' i' j') : (i', j') ≠ (i, j) := by
  intro heq
  obtain ⟨rfl, rfl⟩ := Prod.mk.inj heq
  have hslots : (pk'.message.header.dhPub, pk'.message.header.n) =
      (pk.message.header.dhPub, pk.message.header.n) := by
    rw [hfly.carries.header_eq, hfly'.carries.header_eq]
  have hpair := h.unique
  rw [hsplit] at hpair
  obtain ⟨hfront, hrest, hcross⟩ := List.pairwise_append.mp hpair
  rcases List.mem_append.mp hmem with hin | hin
  · exact hcross pk' hin pk (List.mem_cons_self ..) hdest hslots
  · exact (List.pairwise_cons.mp hrest).1 pk' hin hdest.symm hslots.symm

theorem mem_flight {front rest : List (Packet C)} {pk pk' : Packet C}
    (hsplit : c.flight = front ++ pk :: rest) (hmem : pk' ∈ front ++ rest) : pk' ∈ c.flight := by
  rw [hsplit]
  rcases List.mem_append.mp hmem with hin | hin
  · exact List.mem_append_left _ hin
  · exact List.mem_append_right _ (List.mem_cons_of_mem _ hin)

theorem unique_rest (h : Inv hs ad g turn c) {front rest : List (Packet C)} {pk : Packet C}
    (hsplit : c.flight = front ++ pk :: rest) :
    (front ++ rest).Pairwise fun p q => p.dest = q.dest →
      (p.message.header.dhPub, p.message.header.n) ≠
        (q.message.header.dhPub, q.message.header.n) := by
  have hpair := h.unique
  rw [hsplit] at hpair
  exact hpair.sublist (List.Sublist.append_left (List.sublist_cons_self pk rest) front)

/-! ## 4. Each kind of step keeps the invariant -/

theorem drop (h : Inv hs ad g turn c) {front rest : List (Packet C)} {pk : Packet C}
    (hsplit : c.flight = front ++ pk :: rest) :
    Inv hs ad g turn { c with flight := front ++ rest } where
  cnt_zero := h.cnt_zero
  cnt_lt := h.cnt_lt
  cnt_above := h.cnt_above
  sender_turn := h.sender_turn
  adjacent := h.adjacent
  distinct := h.distinct
  known := h.known
  initiator := h.initiator
  unanswered := by
    intro hnone
    have hold := h.unanswered hnone
    exact ⟨hold.turn_eq, hold.root, hold.pending,
      fun pk' hmem => hold.preKey pk' (mem_flight hsplit hmem)⟩
  session := h.session
  flight := by
    intro pk' hmem
    obtain ⟨i, j, hfly⟩ := h.flight pk' (mem_flight hsplit hmem)
    exact ⟨i, j, hfly.sender_eq, hfly.pos, hfly.turn_le, hfly.sent, hfly.carries, hfly.awaits⟩
  unique := h.unique_rest hsplit

/-- The account matters only until it is answered from, and more keys may count as
    used. -/
theorem weaken (h : Inv hs ad g turn c) {account : Account P} {keys : List Bytes32}
    (haccount : c.session .responder = none → account = c.account)
    (hkeys : ∀ k ∈ c.ratchetKeys, k ∈ keys) :
    Inv hs ad g turn { c with account := account, ratchetKeys := keys } where
  cnt_zero := h.cnt_zero
  cnt_lt := h.cnt_lt
  cnt_above := h.cnt_above
  sender_turn := h.sender_turn
  adjacent := h.adjacent
  distinct := h.distinct
  known := fun i hi => hkeys _ (h.known i hi)
  initiator := h.initiator
  unanswered := by
    intro hnone
    have hold := h.unanswered hnone
    rw [haccount hnone]
    exact ⟨hold.turn_eq, hold.root, hold.pending, hold.preKey⟩
  session := h.session
  flight := by
    intro pk hmem
    obtain ⟨i, j, hfly⟩ := h.flight pk hmem
    exact ⟨i, j, hfly.sender_eq, hfly.pos, hfly.turn_le, hfly.sent, hfly.carries, hfly.awaits⟩
  unique := h.unique

/-- A delivery that stays at the current turn of its receiver. -/
theorem stay (h : Inv hs ad g turn c) {front rest : List (Packet C)} {pk : Packet C}
    (hsplit : c.flight = front ++ pk :: rest) {side : Side} {s' : Session P} {u : Nat}
    (hresp : c.session .responder ≠ none) (hu : turn side = u + 1)
    (had : s'.adPrefix = ad) (hat : s'.ratchet.AtTurn g u)
    (hawaits : ∀ pk' ∈ front ++ rest, pk'.dest = side → ∀ i j, Flying g turn ad c pk' i j →
      DoubleRatchet.Awaits g u s'.ratchet i j) :
    Inv hs ad g turn { c.setSession side s' with flight := front ++ rest } where
  cnt_zero := h.cnt_zero
  cnt_lt := h.cnt_lt
  cnt_above := h.cnt_above
  sender_turn := h.sender_turn
  adjacent := h.adjacent
  distinct := h.distinct
  known := fun i hi => List.mem_cons_of_mem _ (h.known i hi)
  initiator := by
    show Function.update c.session side (some s') .initiator ≠ none
    by_cases hside : side = .initiator
    · subst hside
      rw [Function.update_self]
      exact Option.some_ne_none s'
    · rw [Function.update_of_ne (Ne.symm hside)]
      exact h.initiator
  unanswered := by
    intro hnone
    exfalso
    change Function.update c.session side (some s') .responder = none at hnone
    by_cases hside : side = .responder
    · subst hside
      rw [Function.update_self] at hnone
      cases hnone
    · rw [Function.update_of_ne (Ne.symm hside)] at hnone
      exact hresp hnone
  session := by
    intro side' t ht
    change Function.update c.session side (some s') side' = some t at ht
    by_cases hside : side' = side
    · subst hside
      rw [Function.update_self] at ht
      cases ht
      exact ⟨had, u, hu, hat⟩
    · rw [Function.update_of_ne hside] at ht
      exact h.session side' t ht
  flight := by
    intro pk' hmem
    obtain ⟨i, j, hfly⟩ := h.flight pk' (mem_flight hsplit hmem)
    refine ⟨i, j, hfly.sender_eq, hfly.pos, hfly.turn_le, hfly.sent, hfly.carries, ?_⟩
    intro t v ht hv
    change Function.update c.session side (some s') pk'.dest = some t at ht
    by_cases hside : pk'.dest = side
    · rw [hside, Function.update_self] at ht
      cases ht
      rw [hside, hu] at hv
      cases hv
      exact hawaits pk' hmem hside i j hfly
    · rw [Function.update_of_ne hside] at ht
      exact hfly.awaits t v ht hv
  unique := h.unique_rest hsplit

/-- A delivery that opens the next turn: `side` was at turn `m`, the other side at
    `m + 1`, and `side` now sends at turn `m + 2`. -/
theorem turnOver (h : Inv hs ad g turn c) {front rest : List (Packet C)} {pk : Packet C}
    (hsplit : c.flight = front ++ pk :: rest) {side : Side} {s' : Session P} {m : Nat}
    (hturn : turn side = m) (hother : turn side.other = m + 1) {fresh : P.Secret}
    (hfresh : P.publicKey fresh ∉ c.ratchetKeys) (account : Account P) (had : s'.adPrefix = ad)
    (hat : s'.ratchet.AtTurn (g.draw (m + 2) fresh) (m + 1))
    (hawaits : ∀ pk' ∈ front ++ rest, pk'.dest = side → ∀ i j, Flying g turn ad c pk' i j →
      DoubleRatchet.Awaits (g.draw (m + 2) fresh) (m + 1) s'.ratchet i j) :
    Inv hs ad (g.draw (m + 2) fresh) (Function.update turn side (m + 2))
      { c.setSession side s' with flight := front ++ rest, account := account } := by
  have hresp : c.session .responder = none → side = .responder := by
    intro hnone
    by_cases hside : side = .responder
    · exact hside
    · have hzero := (h.unanswered hnone).turn_eq
      have hinit : side = .initiator := eq_other_of_ne hside
      rw [hinit] at hother
      change turn .responder = m + 1 at hother
      omega
  have hmax : max (turn side) (turn side.other) = m + 1 := by omega
  have hmax' : max (Function.update turn side (m + 2) .initiator)
      (Function.update turn side (m + 2) .responder) = m + 2 := by
    cases side
    · rw [Function.update_self, Function.update_of_ne (by decide)]
      change turn .responder = m + 1 at hother
      omega
    · rw [Function.update_self, Function.update_of_ne (by decide)]
      change turn .initiator = m + 1 at hother
      omega
  have hknown := h.known_side side
  have hdist := h.distinct_side side
  rw [hmax] at hknown hdist
  refine ⟨h.cnt_zero, h.cnt_lt, ?_, ?_, ?_, ?_, ?_, ?_, ?_, ?_, ?_, h.unique_rest hsplit⟩
  · intro side' i hlt hsender
    by_cases hside : side' = side
    · subst hside
      rw [Function.update_self] at hlt
      exact h.cnt_above side' i (by omega) hsender
    · rw [Function.update_of_ne hside] at hlt
      exact h.cnt_above side' i hlt hsender
  · intro side'
    by_cases hside : side' = side
    · subst hside
      rw [Function.update_self, sender_add_two, ← hturn]
      exact h.sender_turn side'
    · rw [Function.update_of_ne hside]
      exact h.sender_turn side'
  · cases side
    · rw [Function.update_self, Function.update_of_ne (by decide)]
      exact Or.inl (congrArg (· + 1) hother).symm
    · rw [Function.update_self, Function.update_of_ne (by decide)]
      exact Or.inr (congrArg (· + 1) hother).symm
  · rw [hmax']
    exact hdist.draw (fun i hi heq => hfresh (heq ▸ hknown i hi))
  · rw [hmax']
    intro i hi
    rcases Nat.lt_or_eq_of_le hi with hlt | rfl
    · rw [g.pub_draw_of_lt fresh hlt]
      exact List.mem_cons_of_mem _ (hknown i (by omega))
    · rw [← hat.dhSelfPub]
      exact List.mem_cons_self ..
  · show Function.update c.session side (some s') .initiator ≠ none
    by_cases hside : side = .initiator
    · subst hside
      rw [Function.update_self]
      exact Option.some_ne_none s'
    · rw [Function.update_of_ne (Ne.symm hside)]
      exact h.initiator
  · intro hnone
    exfalso
    change Function.update c.session side (some s') .responder = none at hnone
    by_cases hside : side = .responder
    · subst hside
      rw [Function.update_self] at hnone
      cases hnone
    · rw [Function.update_of_ne (Ne.symm hside)] at hnone
      exact hside (hresp hnone)
  · intro side' t ht
    change Function.update c.session side (some s') side' = some t at ht
    by_cases hside : side' = side
    · subst hside
      rw [Function.update_self] at ht
      cases ht
      refine ⟨had, m + 1, ?_, hat⟩
      rw [Function.update_self]
    · rw [Function.update_of_ne hside] at ht
      obtain ⟨had', u, hu, hat'⟩ := h.session side' t ht
      rw [eq_other_of_ne hside] at hu
      refine ⟨had', u, ?_, hat'.draw fresh (by omega)⟩
      rw [Function.update_of_ne hside, eq_other_of_ne hside]
      exact hu
  · intro pk' hmem
    obtain ⟨i, j, hfly⟩ := h.flight pk' (mem_flight hsplit hmem)
    have hle : i ≤ m + 1 := by
      have := hfly.turn_le
      by_cases hside : pk'.dest = side
      · rw [hside] at this
        omega
      · rw [eq_other_of_ne hside, other_other] at this
        omega
    refine ⟨i, j, hfly.sender_eq, hfly.pos, ?_, hfly.sent, ⟨?_, ?_⟩, ?_⟩
    · by_cases hside : pk'.dest.other = side
      · rw [hside, Function.update_self]
        omega
      · rw [Function.update_of_ne hside]
        exact hfly.turn_le
    · rw [g.pub_draw_of_lt fresh (by omega)]
      exact hfly.carries.header_eq
    · rw [g.key_draw_of_lt fresh (by omega)]
      exact hfly.carries.ciphertext_eq
    · intro t v ht hv
      change Function.update c.session side (some s') pk'.dest = some t at ht
      by_cases hside : pk'.dest = side
      · rw [hside, Function.update_self] at ht hv
        cases ht
        cases hv
        exact hawaits pk' hmem hside i j hfly
      · -- the other receiver is untouched, and its keys do not depend on the new secret
        rw [Function.update_of_ne hside] at ht hv
        intro hbehind
        rw [g.pub_draw_of_lt fresh (by omega), g.key_draw_of_lt fresh (by omega)]
        exact hfly.awaits t v ht hv hbehind

/-- A message is sent at the current turn of `side`. -/
theorem send (h : Inv hs ad g turn c) {side : Side} {s s' : Session P} {plaintext : Bytes}
    {m : Message C} (hsome : c.session side = some s) (henc : s.encrypt plaintext = (.ok m, s'))
    (hlt : s.ratchet.nSend.toNat + 1 < 2 ^ 32) :
    Inv hs ad (g.count (turn side)) turn
      { c.setSession side s' with flight := c.flight ++ [⟨side.other, m, plaintext⟩] } := by
  obtain ⟨had, u, hu, hat⟩ := h.session side s hsome
  obtain ⟨r, hr, rfl, hpre⟩ := Session.encrypt_ok_cases henc
  rw [hat.nSend] at hlt
  obtain ⟨hheader, hcipher, hat'⟩ := hat.encrypt hlt hr
  rw [hu]
  have hcarries : (g.count (u + 1)).Carries ad (u + 1) (g.cnt (u + 1)) m.header m.ciphertext
      plaintext := by
    refine ⟨?_, ?_⟩
    · rw [hheader, show u + 1 - 2 = u - 1 by omega, Turns.cnt_count_of_ne g (by omega),
        ← hat.pn, UInt32.ofNat_toNat]
      rfl
    · rw [Turns.key_count, ← had]
      exact hcipher
  have hother := h.turn_other side
  rw [hu] at hother
  -- counts of earlier turns, which the headers in flight mention, stay the same
  have hcount {pk : Packet C} {i j : Nat} (hfly : Flying g turn ad c pk i j) :
      (g.count (u + 1)).cnt (i - 2) = g.cnt (i - 2) := by
    refine Turns.cnt_count_of_ne g ?_
    intro heq
    have hi : i = u + 1 + 2 := by
      have := hfly.pos
      omega
    have hsender := hfly.sender_eq
    rw [hi, sender_add_two, ← hu, h.sender_turn] at hsender
    have := hfly.turn_le
    rw [← hsender] at this
    omega
  refine ⟨?_, ?_, ?_, h.sender_turn, h.adjacent, h.distinct, ?_, ?_, ?_, ?_, ?_, ?_⟩
  · rw [Turns.cnt_count_of_ne g (by omega)]
    exact h.cnt_zero
  · intro i
    by_cases hi : i = u + 1
    · subst hi
      rw [Turns.cnt_count_self]
      exact hlt
    · rw [Turns.cnt_count_of_ne g hi]
      exact h.cnt_lt i
  · intro side' i hlt' hsender
    have hne : i ≠ u + 1 := by
      intro heq
      rw [heq, ← hu, h.sender_turn] at hsender
      rw [← hsender] at hlt'
      omega
    rw [Turns.cnt_count_of_ne g hne]
    exact h.cnt_above side' i hlt' hsender
  · intro i hi
    exact List.mem_cons_of_mem _ (h.known i hi)
  · show Function.update c.session side _ .initiator ≠ none
    by_cases hside : side = .initiator
    · subst hside
      rw [Function.update_self]
      exact Option.some_ne_none _
    · rw [Function.update_of_ne (Ne.symm hside)]
      exact h.initiator
  · intro hnone
    change Function.update c.session side _ .responder = none at hnone
    by_cases hside : side = .responder
    · subst hside
      rw [Function.update_self] at hnone
      cases hnone
    · rw [Function.update_of_ne (Ne.symm hside)] at hnone
      obtain rfl : side = .initiator := eq_other_of_ne hside
      obtain ⟨hturn, hroot, hpending, hkey⟩ := h.unanswered hnone
      have hpend := hpending s hsome
      refine ⟨hturn, hroot, ?_, ?_⟩
      · intro t ht
        change Function.update c.session .initiator _ .initiator = some t at ht
        rw [Function.update_self] at ht
        cases ht
        exact hpend
      · intro pk hmem
        rcases List.mem_append.mp hmem with hold | hnew
        · exact hkey pk hold
        · cases List.mem_singleton.mp hnew
          exact hpre hs hpend
  · intro side' t ht
    change Function.update c.session side _ side' = some t at ht
    by_cases hside : side' = side
    · subst hside
      rw [Function.update_self] at ht
      cases ht
      exact ⟨had, u, hu, hat'⟩
    · rw [Function.update_of_ne hside] at ht
      obtain ⟨had', v, hv, hatv⟩ := h.session side' t ht
      rw [eq_other_of_ne hside] at hv
      refine ⟨had', v, by rw [eq_other_of_ne hside]; exact hv, ?_⟩
      exact hatv.count_other (by omega) (by omega)
  · intro pk hmem
    obtain ⟨ck, _, _, _, hr'⟩ := DoubleRatchet.encrypt_ok_cases hr
    rcases List.mem_append.mp hmem with hold | hnew
    · obtain ⟨i, j, hfly⟩ := h.flight pk hold
      refine ⟨i, j, hfly.sender_eq, hfly.pos, hfly.turn_le,
        Nat.lt_of_lt_of_le hfly.sent (g.cnt_le_cnt_count _ _), ⟨?_, ?_⟩, ?_⟩
      · rw [Turns.pub_count, hcount hfly]
        exact hfly.carries.header_eq
      · rw [Turns.key_count]
        exact hfly.carries.ciphertext_eq
      · intro t v ht hv
        change Function.update c.session side _ pk.dest = some t at ht
        unfold DoubleRatchet.Awaits
        rw [Turns.pub_count, Turns.key_count]
        by_cases hside : pk.dest = side
        · rw [hside, Function.update_self] at ht
          cases ht
          rw [hr']
          exact hfly.awaits s v (by rw [hside]; exact hsome) hv
        · rw [Function.update_of_ne hside] at ht
          exact hfly.awaits t v ht hv
    · cases List.mem_singleton.mp hnew
      refine ⟨u + 1, g.cnt (u + 1), ?_, Nat.succ_ne_zero u, ?_, ?_, hcarries, ?_⟩
      · rw [← hu, other_other]
        exact h.sender_turn side
      · exact Nat.le_of_eq (by rw [other_other, hu])
      · rw [Turns.cnt_count_self]
        exact Nat.lt_succ_self _
      · -- the receiver cannot have passed a message that was not sent yet
        intro t v ht hv hbehind
        change Function.update c.session side _ side.other = some t at ht
        rw [Function.update_of_ne (other_ne side)] at ht
        obtain ⟨_, v', hv', hatv⟩ := h.session side.other t ht
        rw [hv] at hv'
        cases hv'
        dsimp only at hv
        have hle := hatv.nRecv_le
        exfalso
        rcases hbehind with hlt' | ⟨heq, hlt'⟩
        · omega
        · rw [← heq] at hle
          omega
  · show (c.flight ++ [_]).Pairwise _
    rw [List.pairwise_append]
    refine ⟨h.unique, List.pairwise_singleton _ _, ?_⟩
    intro pk hmem new hnew hdest
    cases List.mem_singleton.mp hnew
    obtain ⟨i, j, hfly⟩ := h.flight pk hmem
    intro heq
    obtain ⟨hp, hn⟩ := Prod.mk.inj heq
    rw [hfly.carries.header_eq, hcarries.header_eq] at hp hn
    dsimp only at hp hn hdest
    rw [Turns.pub_count] at hp
    have hle := hfly.turn_le
    rw [hdest, other_other, hu] at hle
    have hi : i = u + 1 := h.distinct_side side i (u + 1) (by omega) (by omega) hp
    subst hi
    have hn' := congrArg UInt32.toNat hn
    have hsent := hfly.sent
    rw [UInt32.toNat_ofNat', UInt32.toNat_ofNat'] at hn'
    omega

/-- A message in flight belongs to a closed turn, to the turn its receiver is at,
    or to the next one. -/
theorem label_cases (h : Inv hs ad g turn c) {pk : Packet C} {i j u : Nat}
    (hfly : Flying g turn ad c pk i j) (hu : turn pk.dest = u + 1) :
    i < u ∨ i = u ∨ i = u + 2 ∧ turn pk.dest.other = u + 2 := by
  have hle := hfly.turn_le
  have hother := h.turn_other pk.dest
  have hne : i ≠ u + 1 := by
    intro heq
    have hsender := hfly.sender_eq
    rw [heq, ← hu, h.sender_turn] at hsender
    exact other_ne _ hsender.symm
  omega

theorem pub_inj (h : Inv hs ad g turn c) {pk : Packet C} {i j u : Nat}
    (hfly : Flying g turn ad c pk i j) (hu : turn pk.dest = u + 1) {k : Nat} (hk : k ≤ u + 1) :
    (g.pub i = g.pub k → i = k) ∧ (g.pub k = g.pub i → k = i) := by
  have hle := hfly.turn_le
  have hdist := h.distinct_side pk.dest
  exact ⟨fun heq => hdist i k (by omega) (by omega) heq,
    fun heq => hdist k i (by omega) (by omega) heq⟩

/-- The receiver has a session, and the key is behind its chain. -/
theorem deliver_behind (hP : P.Lawful) (h : Inv hs ad g turn c) {front rest : List (Packet C)}
    {pk : Packet C} (hsplit : c.flight = front ++ pk :: rest) {s : Session P}
    (hsome : c.session pk.dest = some s) {i j u : Nat} (hfly : Flying g turn ad c pk i j)
    (hu : turn pk.dest = u + 1) (had : s.adPrefix = ad) (hat : s.ratchet.AtTurn g u)
    (hbehind : i < u ∨ i = u ∧ j < s.ratchet.nRecv.toNat) (fresh : P.Secret) :
    (s.decrypt fresh pk.message).1 = .ok pk.plaintext ∧ Inv hs ad g turn
      { c.setSession pk.dest (s.decrypt fresh pk.message).2 with flight := front ++ rest } := by
  have hdec := DoubleRatchet.receive_behind hP hfly.carries (hfly.awaits s u hsome hu) hbehind fresh
  rw [← had] at hdec
  rw [Session.decrypt_of_ok hdec]
  refine ⟨rfl, h.stay hsplit (h.responder_ne_none hfly ?_) hu had (hat.drop _) ?_⟩
  · rw [hsome]
    exact Option.some_ne_none s
  · intro pk' hmem hdest i' j' hfly'
    have hne := h.unique_split hsplit hmem hdest hfly hfly'
    have haw := hfly'.awaits s u (by rw [hdest]; exact hsome) (by rw [hdest]; exact hu)
    have hj := h.cnt_lt i
    have hj' := h.cnt_lt i'
    have hsent := hfly.sent
    have hsent' := hfly'.sent
    have hpub := (h.pub_inj hfly' (by rw [hdest]; exact hu) (k := i) (by omega)).2
    exact haw.drop hpub (by omega) (by omega) (Ne.symm hne)

/-- The receiver has a session, and the message is further along its chain. -/
theorem deliver_on_chain (hP : P.Lawful) (h : Inv hs ad g turn c) {front rest : List (Packet C)}
    {pk : Packet C} (hsplit : c.flight = front ++ pk :: rest) {s : Session P}
    (hsome : c.session pk.dest = some s) {j u : Nat} (hfly : Flying g turn ad c pk u j)
    (hu : turn pk.dest = u + 1) (had : s.adPrefix = ad) (hat : s.ratchet.AtTurn g u)
    (hahead : s.ratchet.nRecv.toNat ≤ j) (hlimits : s.ratchet.WithinLimits pk.message.header)
    (fresh : P.Secret) :
    (s.decrypt fresh pk.message).1 = .ok pk.plaintext ∧ Inv hs ad g turn
      { c.setSession pk.dest (s.decrypt fresh pk.message).2 with flight := front ++ rest } := by
  have hcnt := h.cnt_lt u
  have hsent := hfly.sent
  have hnone := hat.not_cached (h.distinct_side pk.dest) (i := u) (j := j) (by omega) (by omega)
    (Or.inr ⟨rfl, hahead⟩) (by omega)
  have hdec := DoubleRatchet.receive_on_chain hP hat hfly.pos hfly.carries hahead (by omega) hnone
    hlimits fresh
  have hk : s.ratchet.nRecv.toNat + (j - s.ratchet.nRecv.toNat) = j := by omega
  rw [← had] at hdec
  rw [Session.decrypt_of_ok hdec]
  refine ⟨rfl, h.stay hsplit (h.responder_ne_none hfly ?_) hu had
    (hat.used hfly.pos (by omega) hcnt).2 ?_⟩
  · rw [hsome]
    exact Option.some_ne_none s
  · intro pk' hmem hdest i' j' hfly'
    have hne := h.unique_split hsplit hmem hdest hfly hfly'
    have haw := hfly'.awaits s u (by rw [hdest]; exact hsome) (by rw [hdest]; exact hu)
    have hj' := h.cnt_lt i'
    have hsent' := hfly'.sent
    have hpub := (h.pub_inj hfly' (by rw [hdest]; exact hu) (k := u) (by omega)).1
    exact haw.used hat hfly.pos (by omega) hcnt hpub (by omega) (by rw [hk]; exact hne)

/-- The receiver has a session, and the message opens the next turn. -/
theorem deliver_new (hP : P.Lawful) (h : Inv hs ad g turn c) {front rest : List (Packet C)}
    {pk : Packet C} (hsplit : c.flight = front ++ pk :: rest) {s : Session P}
    (hsome : c.session pk.dest = some s) {j u : Nat} (hfly : Flying g turn ad c pk (u + 2) j)
    (hu : turn pk.dest = u + 1) (hother : turn pk.dest.other = u + 2) (had : s.adPrefix = ad)
    (hat : s.ratchet.AtTurn g u) (hlimits : s.ratchet.WithinLimits pk.message.header)
    {fresh : P.Secret} (hfresh : P.publicKey fresh ∉ c.ratchetKeys) :
    (s.decrypt fresh pk.message).1 = .ok pk.plaintext ∧
      Inv hs ad (g.draw (u + 3) fresh) (Function.update turn pk.dest (u + 3))
        { c.setSession pk.dest (s.decrypt fresh pk.message).2 with flight := front ++ rest } := by
  have hcnt := h.cnt_lt (u + 2)
  have hcntu := h.cnt_lt u
  have hsent := hfly.sent
  have hle := hat.nRecv_le
  have hdist := h.distinct_side pk.dest
  have hn : (UInt32.ofNat j).toNat = j := by
    rw [UInt32.toNat_ofNat', Nat.mod_eq_of_lt (by omega)]
  have hpn : (UInt32.ofNat (g.cnt u)).toNat = g.cnt u := by
    rw [UInt32.toNat_ofNat', Nat.mod_eq_of_lt hcntu]
  have hheader : pk.message.header = ⟨g.pub (u + 2), UInt32.ofNat (g.cnt u), UInt32.ofNat j⟩ :=
    hfly.carries.header_eq
  have hnone := hat.not_cached hdist (i := u + 2) (j := j) (by omega) (by omega)
    (Or.inl (by omega)) (by omega)
  have hrem : s.ratchet.dhRemote ≠ some (g.pub (u + 2)) := by
    rw [hat.dhRemote]
    intro heq
    have := hdist u (u + 2) (by omega) (by omega) (Option.some.inj heq)
    omega
  -- the limits, in terms of the turns
  have hlim := hlimits (by rw [hheader]; exact hnone)
  rw [hheader] at hlim
  dsimp only at hlim
  rw [if_neg hrem, hn] at hlim
  have hgap : s.ratchet.closingGap pk.message.header = g.cnt u - s.ratchet.nRecv.toNat := by
    unfold DoubleRatchet.closingGap
    rw [hheader]
    dsimp only
    rw [hpn, hat.recv]
    by_cases hu0 : u = 0
    · subst hu0
      rw [if_pos rfl, h.cnt_zero]
      simp
    · rw [if_neg hu0]
      rfl
  rw [← hheader, hgap] at hlim
  obtain ⟨hclosing, hnew, hroom⟩ := hlim
  obtain ⟨r1, hclose, hcloses⟩ := hat.close h.cnt_zero hpn hclosing (by omega)
  have hsize := hcloses.size_le
  have hnext : g.cnt (u + 1 + 2) = 0 :=
    h.cnt_above pk.dest (u + 3) (by omega) (by rw [sender_add_two, ← hu]; exact h.sender_turn _)
  have hdec := DoubleRatchet.receive_new hP hcloses.before hfly.carries (by omega) hnone hrem
    (by rw [hheader]; exact hclose) hnew (by omega) hnext fresh
  obtain ⟨hat', hawaits⟩ := hcloses.before.used hP fresh hnext hsent hcnt
  rw [← had] at hdec
  rw [Session.decrypt_of_ok hdec]
  refine ⟨rfl, h.turnOver hsplit hu hother hfresh c.account had hat' ?_⟩
  intro pk' hmem hdest i' j' hfly'
  have hne := h.unique_split hsplit hmem hdest hfly hfly'
  have hu' : turn pk'.dest = u + 1 := by rw [hdest]; exact hu
  have hcase := h.label_cases hfly' hu'
  have haw := hfly'.awaits s u (by rw [hdest]; exact hsome) hu'
  have hj' := h.cnt_lt i'
  have hsent' := hfly'.sent
  refine hawaits i' j' ?_ (by omega) ?_ (by omega) hne
  · intro hlt
    rw [hcloses.lookup i' j' (h.pub_inj hfly' hu' (by omega)).1 (by omega)]
    by_cases hin : i' = u ∧ s.ratchet.nRecv.toNat ≤ j' ∧ j' < g.cnt u
    · rw [if_pos hin]
    · rw [if_neg hin]
      refine haw ?_
      rcases hcase with hc | rfl | ⟨hc, _⟩
      · exact Or.inl hc
      · exact Or.inr ⟨rfl, by omega⟩
      · omega
  · intro heq
    exact hdist i' (u + 2) (by omega) (by omega) heq

/-- The responder answers the first message that reaches him. -/
theorem deliver_first (hP : P.Lawful) (h : Inv hs ad g turn c) {front rest : List (Packet C)}
    {pk : Packet C} (hsplit : c.flight = front ++ pk :: rest) (hdest : pk.dest = .responder)
    (hnone : c.session .responder = none) {i j : Nat} (hfly : Flying g turn ad c pk i j)
    (hlimits : pk.message.header.n.toNat ≤ MAX_SKIP.toNat)
    {fresh : P.Secret} (hfresh : P.publicKey fresh ∉ c.ratchetKeys) :
    ∃ s account, Session.respond c.account fresh pk.message = (.ok (s, pk.plaintext), account) ∧
      Inv hs ad (g.draw 2 fresh) (Function.update turn .responder 2)
        { c.setSession .responder s with flight := front ++ rest, account := account } := by
  obtain ⟨hturn, ⟨me, hroot, hspk, had⟩, _, hpre⟩ := h.unanswered hnone
  have hmem : pk ∈ c.flight := by
    rw [hsplit]
    exact List.mem_append_right _ (List.mem_cons_self ..)
  have hinit : turn .initiator = 1 := by
    have := h.adjacent
    omega
  have hle := hfly.turn_le
  rw [hdest] at hle
  change i ≤ turn .initiator at hle
  obtain rfl : i = 1 := by
    have := hfly.pos
    omega
  have hcnt := h.cnt_lt 1
  have hsent := hfly.sent
  have hn : (UInt32.ofNat j).toNat = j := by
    rw [UInt32.toNat_ofNat', Nat.mod_eq_of_lt (by omega)]
  have hheader := hfly.carries.header_eq
  rw [hheader] at hlimits
  dsimp only at hlimits
  rw [hn] at hlimits
  have hbefore := DoubleRatchet.beforeTurn_initResponder h.cnt_zero
  have hnext : g.cnt (0 + 2) = 0 := h.cnt_above .responder 2 (by omega) rfl
  have hdec := DoubleRatchet.receive_new hP (r := DoubleRatchet.initResponder g.root (g.sec 0))
    hbefore hfly.carries (by omega) (by simp [DoubleRatchet.initResponder])
    (by simp [DoubleRatchet.initResponder]) rfl hlimits
    (by
      have : j ≤ 1000 := hlimits
      simp only [DoubleRatchet.initResponder, Std.ExtTreeMap.size_empty, MAX_SKIPPED_CACHE]
      omega) hnext fresh
  obtain ⟨hat', hawaits⟩ := hbefore.used hP fresh hnext hsent hcnt
  rw [had] at hdec
  have hresp := Session.respond_of_handshake hroot hspk hdec
  rw [← hpre pk hmem] at hresp
  refine ⟨_, me, hresp, h.turnOver hsplit hturn hinit hfresh me had.symm hat' ?_⟩
  intro pk' hmem' hdest' i' j' hfly'
  have hne := h.unique_split hsplit hmem' (by rw [hdest', hdest]) hfly hfly'
  have hle' := hfly'.turn_le
  rw [hdest'] at hle'
  change i' ≤ turn .initiator at hle'
  have hj' := h.cnt_lt i'
  have hsent' := hfly'.sent
  have hpos' := hfly'.pos
  exact hawaits i' j' (fun hlt => by omega) (by omega) (fun _ => by omega) (by omega) hne

end Inv

theorem receive_some {c : Conversation P} {dest : Side} {s : Session P}
    (h : c.session dest = some s) (fresh : P.Secret) (m : Message C) :
    c.receive dest fresh m =
      ((s.decrypt fresh m).1, c.setSession dest (s.decrypt fresh m).2) := by
  unfold receive
  rw [h]

namespace Inv

variable {hs : HandshakeHeader} {ad : Bytes} {g : Turns P} {turn : Side → Nat}
  {c : Conversation P}

/-- **One delivery.**  It returns the plaintext of the packet and keeps the
    invariant, at the same turns or with one more. -/
theorem deliver (hP : P.Lawful) (h : Inv hs ad g turn c) {front rest : List (Packet C)}
    {pk : Packet C} (hsplit : c.flight = front ++ pk :: rest)
    (hlimits : c.Limits pk.dest pk.message) {fresh : P.Secret}
    (hfresh : P.publicKey fresh ∉ c.ratchetKeys) :
    (c.receive pk.dest fresh pk.message).1 = .ok pk.plaintext ∧
      ∃ g' turn', Inv hs ad g' turn'
        { (c.receive pk.dest fresh pk.message).2 with flight := front ++ rest } := by
  have hmem : pk ∈ c.flight := by
    rw [hsplit]
    exact List.mem_append_right _ (List.mem_cons_self ..)
  obtain ⟨i, j, hfly⟩ := h.flight pk hmem
  unfold Limits at hlimits
  cases hsession : c.session pk.dest with
  | none =>
    rw [hsession] at hlimits
    have hdest : pk.dest = .responder := by
      by_cases hd : pk.dest = .responder
      · exact hd
      · have hinit : pk.dest = .initiator := eq_other_of_ne hd
        rw [hinit] at hsession
        exact absurd hsession h.initiator
    rw [hdest] at hsession
    obtain ⟨s, account, hresp, hinv⟩ := h.deliver_first hP hsplit hdest hsession hfly hlimits hfresh
    have hrecv : c.receive pk.dest fresh pk.message =
        (.ok pk.plaintext, { c.setSession .responder s with account := account }) := by
      unfold receive
      rw [hdest, hsession, hresp]
    rw [hrecv]
    exact ⟨rfl, _, _, hinv⟩
  | some s =>
    rw [hsession] at hlimits
    obtain ⟨had, u, hu, hat⟩ := h.session pk.dest s hsession
    rw [receive_some hsession]
    rcases h.label_cases hfly hu with hlt | rfl | ⟨rfl, hother⟩
    · obtain ⟨hok, hinv⟩ := h.deliver_behind hP hsplit hsession hfly hu had hat (Or.inl hlt) fresh
      exact ⟨hok, _, _, hinv⟩
    · by_cases hbehind : j < s.ratchet.nRecv.toNat
      · obtain ⟨hok, hinv⟩ := h.deliver_behind hP hsplit hsession hfly hu had hat
          (Or.inr ⟨rfl, hbehind⟩) fresh
        exact ⟨hok, _, _, hinv⟩
      · obtain ⟨hok, hinv⟩ := h.deliver_on_chain hP hsplit hsession hfly hu had hat
          (Nat.le_of_not_lt hbehind) hlimits fresh
        exact ⟨hok, _, _, hinv⟩
    · obtain ⟨hok, hinv⟩ := h.deliver_new hP hsplit hsession hfly hu hother had hat hlimits hfresh
      exact ⟨hok, _, _, hinv⟩

end Inv

/-! ## 5. Runs -/

/-- Right after `Session::initiate` the initiator is at turn 1, the responder at
    turn 0. -/
theorem inv_opened (hP : P.Lawful) {alice bob : Account P} {bundle : PreKeyBundle}
    (hoffer : bob.Offers bundle) {rnd : Session.InitiateRandom P} {s : Session P}
    (hinit : Session.initiate alice bundle rnd = .ok s)
    (hne : P.publicKey rnd.ratchet ≠ P.publicKey bob.signedPrekey) :
    ∃ hs ad g turn, Inv hs ad g turn ⟨Function.update (fun _ => none) .initiator (some s), bob, [],
      [P.publicKey rnd.ratchet, P.publicKey bob.signedPrekey]⟩ := by
  obtain ⟨_, root, hs, spk, hhs, rfl⟩ := Session.initiate_ok_cases hinit
  obtain ⟨rfl, _, hspkId, _⟩ := Handshake.initiate_header hhs
  obtain ⟨oneTime, me, htake, hbundle⟩ := hoffer
  have hopk : bundle.oneTimePrekey = oneTime.map P.publicKey := by rw [hbundle]
  have hroot := Handshake.respond_initiate hP hhs (by rw [hopk]; exact hbundle) htake hopk
  obtain ⟨pool, rfl⟩ := Handshake.takeNamedPrekey_fields htake
  have hspk : bundle.signedPrekey = P.publicKey bob.signedPrekey := by rw [hbundle]; rfl
  have hid : bundle.signedPrekeyId = bob.signedPrekeyId := by rw [hbundle]; rfl
  have hed : bundle.identityEd = bob.identityPublic := by rw [hbundle]; rfl
  let g : Turns P := ⟨root, fun i => if i = 0 then bob.signedPrekey else rnd.ratchet, fun _ => 0⟩
  let turn : Side → Nat := fun side => Side.casesOn side 1 0
  refine ⟨hs, Clarity.adPrefix hs.identityEd bundle.identityEd, g, turn, rfl,
    fun _ => Nat.two_pow_pos 32, fun _ _ _ _ => rfl, ?_, Or.inl rfl, ?_, ?_, ?_, ?_, ?_, ?_,
    List.Pairwise.nil⟩
  · intro side
    cases side <;> rfl
  · -- the two public keys differ
    intro i j hi hj heq
    change i ≤ 1 at hi
    change j ≤ 1 at hj
    have hcases : ∀ k ≤ 1, k = 0 ∨ k = 1 := fun k hk => by omega
    rcases hcases i hi with rfl | rfl <;> rcases hcases j hj with rfl | rfl
    · rfl
    · exact absurd heq.symm hne
    · exact absurd heq hne
    · rfl
  · intro i hi
    change i ≤ 1 at hi
    have hcases : i = 0 ∨ i = 1 := by omega
    rcases hcases with rfl | rfl
    · exact List.mem_cons_of_mem _ (List.mem_singleton.mpr rfl)
    · exact List.mem_cons_self ..
  · exact Option.some_ne_none _
  · intro _
    refine ⟨rfl, ⟨_, hroot, ?_, ?_⟩, ?_, ?_⟩
    · exact if_pos (hspkId.trans hid)
    · rw [hed]
      rfl
    · intro t ht
      cases ht
      rfl
    · intro pk hmem
      cases hmem
  · intro side t ht
    cases side with
    | initiator =>
      cases ht
      refine ⟨rfl, 0, rfl, ?_⟩
      have hat := DoubleRatchet.atTurn_initInitiator (g := g) rfl rfl
      rw [hspk]
      exact hat
    | responder => cases ht
  · intro pk hmem
    cases hmem

theorem Run.inv (hP : P.Lawful) {alice bob : Account P} {bundle : PreKeyBundle}
    (hoffer : bob.Offers bundle) {c : Conversation P} (hrun : Run alice bob bundle c) :
    ∃ hs ad g turn, Inv hs ad g turn c := by
  induction hrun with
  | opened hinit hne => exact inv_opened hP hoffer hinit hne
  | send side plaintext _ hs henc hlt ih =>
    obtain ⟨_, _, _, _, h⟩ := ih
    exact ⟨_, _, _, _, h.send hs henc hlt⟩
  | drop _ hsplit ih =>
    obtain ⟨_, _, _, _, h⟩ := ih
    exact ⟨_, _, _, _, h.drop hsplit⟩
  | deliver fresh _ hsplit hlimits hfresh ih =>
    obtain ⟨_, _, _, _, h⟩ := ih
    obtain ⟨_, _, _, hinv⟩ := h.deliver hP hsplit hlimits hfresh
    exact ⟨_, _, _, _, hinv⟩

/-- **Conversation correctness.**  In every run, whatever was delivered, delayed or
    lost before, a message in flight that is delivered within the limits returns
    exactly the plaintext it was made from. -/
theorem delivered_ok (hP : P.Lawful) {alice bob : Account P} {bundle : PreKeyBundle}
    (hoffer : bob.Offers bundle) {c : Conversation P} (hrun : Run alice bob bundle c)
    (front rest : List (Packet C)) (pk : Packet C) (hsplit : c.flight = front ++ pk :: rest)
    (hlimits : c.Limits pk.dest pk.message) (fresh : P.Secret)
    (hfresh : P.publicKey fresh ∉ c.ratchetKeys) :
    (c.receive pk.dest fresh pk.message).1 = .ok pk.plaintext := by
  obtain ⟨_, _, _, _, h⟩ := hrun.inv hP hoffer
  exact (h.deliver hP hsplit hlimits hfresh).1

/-- Bob gets Alice's second message before the first, and decrypts it. -/
theorem delivered_ok_sample :
    ∃ (c : Conversation Suite.sample) (front : List (Packet Bytes)) (pk : Packet Bytes),
      Run sampleAlice sampleBob sampleBob.bundle c ∧ c.flight = front ++ [pk] ∧
      front.length = 1 ∧ (c.receive pk.dest (sampleSecret 70) pk.message).1 = .ok [2] := by
  have hoffer := sampleBob.offers_bundle
  obtain ⟨s, hinit⟩ := hoffer.initiate_ok sample_lawful sampleAlice sampleRandom
  obtain ⟨_, root, hs, spk, _, hsession⟩ := Session.initiate_ok_cases hinit
  have hopened : Run sampleAlice sampleBob sampleBob.bundle _ := Run.opened hinit (by decide)
  obtain ⟨ck, hsend⟩ : ∃ ck, s.ratchet.chainSend = some ck := by
    rw [hsession]
    exact ⟨_, rfl⟩
  have hzero : s.ratchet.nSend = 0 := by rw [hsession]; rfl
  have hpub : s.ratchet.dhSelfPub = Bytes32.ofByte 60 := by rw [hsession]; rfl
  obtain ⟨m1, s1, henc1, _, _⟩ := Session.encrypt_of_chain hsend [1]
  obtain ⟨r1, hr1, hs1, _⟩ := Session.encrypt_ok_cases henc1
  obtain ⟨ck1, _, _, _, hr1'⟩ := DoubleRatchet.encrypt_ok_cases hr1
  have hsend1 : s1.ratchet.chainSend = some (Suite.sample.kdfCk ck1).1 := by rw [hs1, hr1']
  have hone : s1.ratchet.nSend = 1 := by
    rw [hs1, hr1']
    show s.ratchet.nSend + 1 = 1
    rw [hzero]
    rfl
  have hpub1 : s1.ratchet.dhSelfPub = s.ratchet.dhSelfPub := by rw [hs1, hr1']
  obtain ⟨m2, s2, henc2, hheader2, _⟩ := Session.encrypt_of_chain hsend1 [2]
  obtain ⟨r2, hr2, hs2, _⟩ := Session.encrypt_ok_cases henc2
  obtain ⟨ck2, _, _, _, hr2'⟩ := DoubleRatchet.encrypt_ok_cases hr2
  have hpub2 : s2.ratchet.dhSelfPub = s1.ratchet.dhSelfPub := by rw [hs2, hr2']
  have hrun1 := Run.send .initiator [1] hopened rfl henc1 (by rw [hzero]; decide)
  have hrun2 := Run.send .initiator [2] hrun1 rfl henc2 (by rw [hone]; decide)
  refine ⟨_, [⟨.responder, m1, [1]⟩], ⟨.responder, m2, [2]⟩, hrun2, rfl, rfl, ?_⟩
  refine delivered_ok sample_lawful hoffer hrun2 [⟨.responder, m1, [1]⟩] []
    ⟨.responder, m2, [2]⟩ rfl ?_ (sampleSecret 70) ?_
  · show m2.header.n.toNat ≤ MAX_SKIP.toNat
    rw [hheader2, hone]
    exact (by decide : (1 : UInt32).toNat ≤ MAX_SKIP.toNat)
  · show Bytes32.ofByte 70 ∉ [s2.ratchet.dhSelfPub, s1.ratchet.dhSelfPub, Bytes32.ofByte 60,
      Bytes32.ofByte 32]
    rw [hpub2, hpub1, hpub]
    decide

end Conversation

end Clarity
