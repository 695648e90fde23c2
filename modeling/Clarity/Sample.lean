/-
  Clarity/Sample.lean
  ===================
  **A concrete suite.**  Statements quantified over suites are instantiated here
  with functions small enough to evaluate: secrets are single bytes, a shared
  value is the bytewise sum of the two public keys (so it commutes), every KDF
  writes its inputs down behind a tag, and a ciphertext is its key, its
  associated data and its plaintext.  `sample_lawful` shows that it satisfies
  every law the real primitives are trusted with; it keeps nothing secret.
-/
import Clarity.Content
import Clarity.Envelope
import Clarity.Storage
import Clarity.Symbolic

namespace Clarity

/-- A byte string behind its length, so that concatenations can be split. -/
def framed (b : Bytes) : Bytes := Codec.leBytes 4 b.length ++ b

/-- Remove a known front part. -/
def unframed (front b : Bytes) : Option Bytes :=
  if b.take front.length = front then some (b.drop front.length) else none

theorem unframed_append (front b : Bytes) : unframed front (front ++ b) = some b := by
  simp [unframed]

/-- The last 32 bytes, with zeros in front of a short message. -/
def lastBytes (msg : Bytes) : Bytes :=
  (List.replicate 32 0 ++ msg).drop msg.length

@[simp] theorem length_lastBytes (msg : Bytes) : (lastBytes msg).length = 32 := by
  rw [lastBytes, List.length_drop, List.length_append, List.length_replicate]
  omega

def Suite.sample : Suite Bytes where
  Secret := UInt8
  Shared := Bytes
  Key := Bytes
  Material := Bytes
  SigningKey := UInt8
  DecapKey := UInt8
  publicKey := Bytes32.ofByte
  diffieHellman s p := List.zipWith (· + ·) (Bytes32.ofByte s).bytes p.bytes
  hmac key data := 1 :: (data ++ key)
  hkdf32 salt ikm info := 2 :: (salt ++ info ++ ikm.flatten)
  hkdf64 salt ikm _ := (3 :: (ikm ++ salt), 4 :: (ikm ++ salt))
  hkdf56 ikm _ := ikm
  xchachaEncrypt m msg aad := framed m ++ framed aad ++ msg
  xchachaDecrypt m c aad := unframed (framed m ++ framed aad) c
  verifyingKey := Bytes32.ofByte
  isVerifyingKey _ := true
  sign k msg := (Bytes32.ofByte k).bytes ++ lastBytes msg
  verify vk msg sig := sig == vk.bytes ++ lastBytes msg
  encapsulationKey k := List.replicate Suite.KYBER_PUBLIC_LEN k
  kemEncapsulate pk coins :=
    let c := coins.bytes.headD 0
    some (List.replicate Suite.KYBER_CIPHERTEXT_LEN c, [pk.headD 0, c])
  kemDecapsulate k ct := some [k, ct.headD 0]

instance : DecidableEq Suite.sample.Shared := inferInstanceAs (DecidableEq Bytes)

theorem sample_lawful : Suite.sample.Lawful where
  dh_comm := by
    intro a b
    exact List.zipWith_comm_of_comm (fun x y => UInt8.add_comm x y)
  decrypt_encrypt := by
    intro m p ad
    exact unframed_append (framed m ++ framed ad) p
  isVerifyingKey_verifyingKey := fun _ => rfl
  length_sign := by
    intro k msg
    simp [Suite.sample, Suite.SIGNATURE_LEN]
  verify_sign := by
    intro k msg
    simp [Suite.sample]
  length_encapsulationKey := by
    intro k
    exact List.length_replicate
  decapsulate_encapsulate := by
    intro k coins
    exact ⟨_, _, rfl, by simp, rfl⟩

theorem sample_tagged : Suite.sample.Tagged := by
  intro m p ad h
  simp [Suite.sample, framed, Codec.leBytes] at h

/-! ## An exact suite

`Suite.sample` forgets which keys a shared value came from.  `Suite.exact` keeps
them, and its KDFs keep their inputs apart. -/

/-- A byte string with its end marked. -/
def delimited : Bytes → Bytes
  | [] => [0]
  | b :: rest => 1 :: b :: delimited rest

theorem delimited_append_inj {a b x y : Bytes} (h : delimited a ++ x = delimited b ++ y) :
    a = b ∧ x = y := by
  induction a generalizing b with
  | nil =>
    cases b with
    | nil => exact ⟨rfl, List.cons.inj h |>.2⟩
    | cons => simp [delimited] at h
  | cons u a ih =>
    cases b with
    | nil => simp [delimited] at h
    | cons v b =>
      simp only [delimited, List.cons_append, List.cons.injEq, true_and] at h
      obtain ⟨rfl, hx⟩ := ih h.2
      exact ⟨by rw [h.1], hx⟩

/-- Two keys in order. -/
def keyPair (p q : Bytes32) : Bytes :=
  if (compare p q).isLE then p.bytes ++ q.bytes else q.bytes ++ p.bytes

theorem keyPair_comm (p q : Bytes32) : keyPair p q = keyPair q p := by
  have hswap : compare p q = (compare q p).swap := Std.OrientedCmp.eq_swap
  unfold keyPair
  rw [hswap]
  cases h : compare q p with
  | lt => rfl
  | eq =>
    rw [Std.LawfulEqOrd.eq_of_compare h]
    rfl
  | gt => rfl

theorem keyPair_inj {p q p' q' : Bytes32} (h : keyPair p q = keyPair p' q') :
    (p = p' ∧ q = q') ∨ (p = q' ∧ q = p') := by
  have hinj {a b c d : Bytes32} (heq : a.bytes ++ b.bytes = c.bytes ++ d.bytes) :
      a = c ∧ b = d := by
    obtain ⟨hl, hr⟩ := List.append_inj heq (by simp)
    exact ⟨Bytes32.ext_bytes hl, Bytes32.ext_bytes hr⟩
  unfold keyPair at h
  split at h <;> split at h <;> have hpair := hinj h <;> tauto

/-- The inputs of a KDF behind a tag. -/
def keyBytes (tag : UInt8) (ikm info key : Bytes) : Bytes :=
  tag :: (delimited ikm ++ (delimited info ++ key))

theorem keyBytes_inj {tag tag' : UInt8} {ikm ikm' info info' key key' : Bytes}
    (h : keyBytes tag ikm info key = keyBytes tag' ikm' info' key') :
    tag = tag' ∧ ikm = ikm' ∧ info = info' ∧ key = key' := by
  obtain ⟨htag, hrest⟩ := List.cons.inj h
  obtain ⟨hikm, hrest⟩ := delimited_append_inj hrest
  obtain ⟨hinfo, hkey⟩ := delimited_append_inj hrest
  exact ⟨htag, hikm, hinfo, hkey⟩

def Suite.exact : Suite Bytes :=
  { Suite.sample with
    diffieHellman := fun s p => keyPair (Suite.sample.publicKey s) p
    hmac := fun key data => keyBytes 1 data [] key
    hkdf64 := fun salt ikm info => (keyBytes 3 ikm info salt, keyBytes 4 ikm info salt) }

instance : DecidableEq Suite.exact.Shared := inferInstanceAs (DecidableEq Bytes)

theorem exact_lawful : Suite.exact.Lawful :=
  { sample_lawful with dh_comm := fun _ _ => keyPair_comm _ _ }

theorem exact_symbolicDh : Suite.exact.SymbolicDh := fun _ _ _ _ h => keyPair_inj h

/-- Byte forms of the sample keys. -/
def sampleCodecs : KeyCodecs Suite.sample where
  key := Codec.vec
  secret := Codec.u8
  signingKey := Codec.u8
  privateBytes k := [k]
  fromPrivateBytes b := b.head?

/-! ## Texts as JSON -/

/-- Printable ASCII that JSON writes as it is. -/
def plainUnit (u : UInt16) : Bool := 0x20 ≤ u && u < 0x7f && u ≠ 0x22 && u ≠ 0x5c

def bytePairs : Text → Bytes
  | [] => []
  | u :: rest => (u / 256).toUInt8 :: u.toUInt8 :: bytePairs rest

def unitPairs : Bytes → Text
  | hi :: lo :: rest => (hi.toUInt16 * 256 + lo.toUInt16) :: unitPairs rest
  | _ => []

def textFront : Bytes := ascii "\x7b\"v\":1,\"t\":\"text\",\"body\":\""

/-- Plain texts as `dart:convert` writes them; other contents behind a tag. -/
def encodeContent : MessageContent → Bytes
  | .text body =>
    if body.all plainUnit then textFront ++ (body.map UInt16.toUInt8 ++ ascii "\"\x7d")
    else 1 :: bytePairs body
  | .timerUpdate none => [2]
  | .timerUpdate (some n) => 3 :: Codec.leBytes 8 n.toUInt64.toNat
  | .unknown => []

def decodeContent : Bytes → Option MessageContent
  | 1 :: rest => some (.text (unitPairs rest))
  | 2 :: _ => some (.timerUpdate none)
  | 3 :: rest => some (.timerUpdate (some (UInt64.ofNat (Codec.ofLeBytes rest)).toInt64))
  | b => (unframed textFront b).map fun rest =>
      .text ((rest.take (rest.length - 2)).map UInt8.toUInt16)

def sampleConvert : DartConvert where
  jsonEncode j :=
    match j with
    | .obj fields => ((MessageContent.ofFields fields).map encodeContent).getD []
    | _ => []
  jsonDecode b := (decodeContent b).bind MessageContent.json
  utf8Decode b := b.map UInt8.toUInt16

theorem unit_of_bytes (u : UInt16) :
    (u / 256).toUInt8.toUInt16 * 256 + u.toUInt8.toUInt16 = u := by
  apply UInt16.toNat_inj.mp
  have hu := u.toNat_lt
  simp
  omega

theorem unitPairs_bytePairs (t : Text) : unitPairs (bytePairs t) = t := by
  induction t with
  | nil => rfl
  | cons u rest ih => rw [bytePairs, unitPairs, unit_of_bytes, ih]

theorem toUInt16_toUInt8_of_plain {u : UInt16} (h : plainUnit u = true) :
    u.toUInt8.toUInt16 = u := by
  simp only [plainUnit, Bool.and_eq_true, decide_eq_true_eq] at h
  obtain ⟨⟨⟨_, hlt⟩, _⟩, _⟩ := h
  have hsmall : u.toNat < 127 := hlt
  apply UInt16.toNat_inj.mp
  simp
  omega

theorem plain_roundtrip {t : Text} (h : t.all plainUnit = true) :
    (t.map UInt16.toUInt8).map UInt8.toUInt16 = t := by
  rw [List.map_map]
  nth_rewrite 2 [← List.map_id t]
  apply List.map_congr_left
  intro u hu
  exact toUInt16_toUInt8_of_plain (List.all_eq_true.mp h u hu)

theorem decodeContent_front (b : Bytes) : decodeContent (textFront ++ b) =
    some (.text ((b.take (b.length - 2)).map UInt8.toUInt16)) := by
  have hhead : textFront = 123 :: textFront.tail := rfl
  have hdec : decodeContent (textFront ++ b) = (unframed textFront (textFront ++ b)).map
      fun rest => .text ((rest.take (rest.length - 2)).map UInt8.toUInt16) := by
    rw [hhead]
    rfl
  rw [hdec, unframed_append]
  rfl

theorem decodeContent_encodeContent {c : MessageContent} (h : c ≠ .unknown) :
    decodeContent (encodeContent c) = some c := by
  cases c with
  | text body =>
    simp only [encodeContent]
    by_cases hplain : body.all plainUnit = true
    · rw [if_pos hplain, decodeContent_front]
      have hback : (ascii "\"\x7d").length = 2 := rfl
      rw [List.length_append, hback, Nat.add_sub_cancel, List.take_left, plain_roundtrip hplain]
    · rw [if_neg hplain]
      simp [decodeContent, unitPairs_bytePairs]
  | timerUpdate seconds =>
    cases seconds with
    | none => rfl
    | some n =>
      simp [encodeContent, decodeContent, Codec.ofLeBytes_leBytes]
  | unknown => exact absurd rfl h

theorem sampleConvert_lawful : sampleConvert.Lawful := by
  intro c j hj
  have hc : c ≠ .unknown := by
    rintro rfl
    cases hj
  have hfields : sampleConvert.jsonEncode j = encodeContent c := by
    cases c with
    | text body =>
      cases hj
      rfl
    | timerUpdate seconds =>
      cases hj
      cases seconds <;> rfl
    | unknown => exact absurd rfl hc
  show (decodeContent (sampleConvert.jsonEncode j)).bind MessageContent.json = some j
  rw [hfields, decodeContent_encodeContent hc]
  exact hj

/-! ## A short conversation

Alice opens a session on Bob's bundle and encrypts two messages; Bob responds to
the first one.  Counterexamples and witnesses start from here. -/

/-- Alice's and Bob's sessions, Bob's account after the handshake, and the two
    messages. -/
structure Talk {C : Type} (P : Suite C) where
  alice : Session P
  bob : Session P
  bobAccount : Account P
  first : Message C
  second : Message C

def talk {C : Type} {P : Suite C} (alice bob : Account P) (rnd : Session.InitiateRandom P)
    (fresh : P.Secret) : Option (Talk P) := do
  let alice ← (Session.initiate alice bob.bundle rnd).toOption
  let (first, alice) ← (alice.encrypt [1]).toOption
  let (second, alice) ← (alice.encrypt [2]).toOption
  let ((bob, _), bobAccount) ← (Session.respond bob fresh first).toOption
  some { alice, bob, bobAccount, first, second }

theorem talk_reachable {C : Type} {P : Suite C} {alice bob : Account P}
    {rnd : Session.InitiateRandom P} {fresh : P.Secret} {t : Talk P}
    (h : talk alice bob rnd fresh = some t) : t.bob.Reachable := by
  simp only [talk, Option.bind_eq_bind, Option.bind_eq_some_iff] at h
  obtain ⟨_, _, ⟨_, _⟩, _, ⟨_, _⟩, _, ⟨⟨_, _⟩, _⟩, hrespond, ht⟩ := h
  cases ht
  exact .responded (Outcome.toOption_eq_some_iff.mp hrespond)

/-- The secret that is a given byte. -/
def sampleSecret (n : UInt8) : Suite.sample.Secret := n

/-- An account whose secrets are derived from one byte. -/
def sampleAccount (k : UInt8) (prekeys : List UInt8) : Account Suite.sample :=
  Account.generateWithPrekeys (P := Suite.sample) k (k + 1) (k + 2) (k + 3) prekeys

def sampleAlice : Account Suite.sample := sampleAccount 10 [20, 21]
def sampleBob : Account Suite.sample := sampleAccount 30 [40, 41]

def sampleRandom : Session.InitiateRandom Suite.sample where
  ephemeral := sampleSecret 50
  coins := Bytes32.ofByte 7
  ratchet := sampleSecret 60

def sampleTalk : Option (Talk Suite.sample) :=
  talk sampleAlice sampleBob sampleRandom (sampleSecret 70)

/-! The same accounts with the free key schedule. -/

def freeAccount (k : UInt8) (prekeys : List UInt8) : Account Suite.sample.free :=
  Account.generateWithPrekeys (P := Suite.sample.free) k (k + 1) (k + 2) (k + 3) prekeys

def freeAlice : Account Suite.sample.free := freeAccount 10 [20, 21]
def freeBob : Account Suite.sample.free := freeAccount 30 [40, 41]

def freeSecret (n : UInt8) : Suite.sample.free.Secret := n

def freeRandom : Session.InitiateRandom Suite.sample.free where
  ephemeral := freeSecret 50
  coins := Bytes32.ofByte 7
  ratchet := freeSecret 60

def freeTalk : Option (Talk Suite.sample.free) :=
  talk freeAlice freeBob freeRandom (freeSecret 70)

end Clarity
