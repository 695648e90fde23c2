/-
  Clarity/Canonical.lean
  ======================
  **What the wire decoders accept** (`core/src/wire.rs`, `mesh/src/frame.rs`).

  The decoders hand their input to `bincode::deserialize`, which ignores whatever follows
  the value.  So a byte string that decodes begins with the encoding of the value, and any
  bytes may follow; apart from them the formats are canonical.

    * `DecodesFront` — what all three decoders do;
    * `decoders_accept_encodings` — that they do it.
-/
import Clarity.Wire
import Clarity.Mesh

namespace Clarity

/-! ## 1. Decoders that ignore leftover bytes -/

/-- What decodes is an encoding, with anything after it. -/
def DecodesFront {α ε : Type} (Fits : α → Prop) (encode : α → Bytes)
    (decode : Bytes → Except ε α) : Prop :=
  ∀ b m, decode b = .ok m ↔ Fits m ∧ ∃ rest, b = encode m ++ rest

section Front

variable {α ε : Type} {Fits : α → Prop} {encode : α → Bytes} {decode : Bytes → Except ε α}

/-- A decoder that reads a codec off the front of its input. -/
def Codec.decodeFront (c : Codec α) (e : ε) (b : Bytes) : Except ε α :=
  match c.dec b with
  | some (m, _) => .ok m
  | none => .error e

theorem Codec.decodesFront (c : Codec α) (e : ε) (hfits : ∀ m, c.Valid m ↔ Fits m) :
    DecodesFront Fits c.enc (c.decodeFront e) := by
  intro b m
  rw [← hfits]
  unfold Codec.decodeFront
  constructor
  · intro h
    split at h
    · rename_i m' rest hdec
      obtain rfl := Except.ok.inj h
      obtain ⟨hvalid, hb⟩ := c.enc_of_dec hdec
      exact ⟨hvalid, rest, hb⟩
    · exact nomatch h
  · rintro ⟨hm, rest, rfl⟩
    rw [c.dec_enc hm]

/-- No two values share an encoding. -/
theorem DecodesFront.injective (h : DecodesFront Fits encode decode) {m m' : α} (hm : Fits m)
    (hm' : Fits m') (heq : encode m = encode m') : m = m' := by
  have hleft := (h (encode m) m).mpr ⟨hm, [], (List.append_nil _).symm⟩
  have hright := (h (encode m) m').mpr ⟨hm', [], by rw [heq, List.append_nil]⟩
  rw [hleft] at hright
  exact Except.ok.inj hright

end Front

/-! ## 2. Lengths

A `Vec` is never longer than its length field can say. -/

def Message.Fits : Message Bytes → Prop
  | .preKey handshake _ ciphertext =>
    handshake.kyberCiphertext.length < 2 ^ 64 ∧ ciphertext.length < 2 ^ 64
  | .normal _ ciphertext => ciphertext.length < 2 ^ 64

def PreKeyBundle.Fits (b : PreKeyBundle) : Prop :=
  b.identityDhSig.length < 2 ^ 64 ∧ b.signedPrekeySig.length < 2 ^ 64 ∧
    b.kyberPrekey.length < 2 ^ 64 ∧ b.kyberPrekeySig.length < 2 ^ 64

def MeshFrame.Fits (frame : MeshFrame) : Prop := frame.payload.length < 2 ^ 64

theorem Message.codec_valid_iff (m : Message Bytes) : Message.codec.Valid m ↔ m.Fits := by
  cases m with
  | preKey handshake header ciphertext =>
    constructor
    · rintro ⟨⟨-, -, -, -, -, -, hkem⟩, -, hciphertext⟩
      exact ⟨hkem, hciphertext⟩
    · rintro ⟨hkem, hciphertext⟩
      exact ⟨HandshakeHeader.codec_valid hkem, RatchetHeader.codec_valid header, hciphertext⟩
  | normal header ciphertext =>
    constructor
    · rintro ⟨-, hciphertext⟩
      exact hciphertext
    · intro hciphertext
      exact ⟨RatchetHeader.codec_valid header, hciphertext⟩

theorem PreKeyBundle.codec_valid_iff (b : PreKeyBundle) : PreKeyBundle.codec.Valid b ↔ b.Fits := by
  constructor
  · rintro ⟨-, -, hdh, -, -, hprekey, hkyber, -, hsig, -, -⟩
    exact ⟨hdh, hprekey, hkyber, hsig⟩
  · rintro ⟨hdh, hprekey, hkyber, hsig⟩
    exact PreKeyBundle.codec_valid hdh hprekey hkyber hsig

/-! ## 3. Mesh frames -/

/-- A `[u8; n]`: the bytes themselves. -/
def Codec.array (n : Nat) : Codec (Vector UInt8 n) where
  Valid _ := True
  enc v := v.toList
  dec b :=
    if h : n ≤ b.length then some (⟨(b.take n).toArray, by simp [h]⟩, b.drop n) else none
  dec_enc := by
    intro v _ rest
    have hlen : n ≤ (v.toList ++ rest).length := by simp
    rw [dif_pos hlen]
    have hfront : (v.toList ++ rest).take n = v.toList := List.take_left' (Vector.length_toList ..)
    have hrest : (v.toList ++ rest).drop n = rest := List.drop_left' (Vector.length_toList ..)
    simp only [hfront, hrest, Option.some.injEq, Prod.mk.injEq, and_true]
    exact Vector.toList_inj.mp rfl
  enc_of_dec := by
    intro b v rest h
    split at h
    · obtain ⟨rfl, rfl⟩ := Prod.mk.inj (Option.some.inj h)
      exact ⟨trivial, (List.take_append_drop n b).symm⟩
    · exact nomatch h

inductive MeshError where
  | decode (text : String)
deriving DecidableEq

namespace MeshFrame

def codec : Codec MeshFrame :=
  ((Codec.array 16).pair (Codec.bytes32.pair (Codec.u8.pair Codec.vec))).imap
    (fun f => (f.msgId, f.recipient, f.ttl, f.payload))
    (fun p => some ⟨p.1, p.2.1, p.2.2.1, p.2.2.2⟩)
    (fun _ => rfl)
    (by
      intro a f h
      obtain rfl := Option.some.inj h
      rfl)

/-- `MeshFrame::encode`. -/
def encode (frame : MeshFrame) : Bytes := codec.enc frame

/-- `MeshFrame::decode`. -/
def decode (bytes : Bytes) : Except MeshError MeshFrame :=
  match codec.dec bytes with
  | some (frame, _) => .ok frame
  | none => .error (.decode bincodeError)

theorem codec_valid_iff (frame : MeshFrame) : codec.Valid frame ↔ frame.Fits := by
  constructor
  · rintro ⟨-, -, -, hpayload⟩
    exact hpayload
  · intro hpayload
    exact ⟨trivial, trivial, Codec.u8_valid _, hpayload⟩

end MeshFrame

/-! ## 4. The three formats -/

theorem PreKeyBundle.decode_eq :
    PreKeyBundle.decode = PreKeyBundle.codec.decodeFront (.wire bincodeError) := by
  funext bytes
  unfold PreKeyBundle.decode Codec.decodeFront
  cases PreKeyBundle.codec.dec bytes <;> rfl

theorem MeshFrame.decode_eq :
    MeshFrame.decode = MeshFrame.codec.decodeFront (.decode bincodeError) := by
  funext bytes
  unfold MeshFrame.decode Codec.decodeFront
  cases MeshFrame.codec.dec bytes <;> rfl

/-- A version byte, and the body after it. -/
theorem Message.decode_cons (version : UInt8) (body : Bytes) :
    Message.decode (version :: body) =
      if version ≠ PROTOCOL_VERSION then
        .error (.wire ("unsupported version " ++ toString version.toNat))
      else Message.codec.decodeFront (.wire bincodeError) body := by
  simp only [Message.decode]
  unfold Codec.decodeFront
  cases Message.codec.dec body <;> rfl

theorem Message.decodesFront : DecodesFront Message.Fits Message.encode Message.decode := by
  intro b m
  have hbody := Message.codec.decodesFront (Error.wire bincodeError) Message.codec_valid_iff
  cases b with
  | nil =>
    constructor
    · intro h
      cases h
    · rintro ⟨-, rest, h⟩
      cases h
  | cons version body =>
    simp only [Message.decode_cons, Message.encode, List.cons_append, List.cons.injEq]
    by_cases hversion : version = PROTOCOL_VERSION
    · rw [if_neg (not_not.mpr hversion)]
      apply (hbody body m).trans
      simp only [hversion, true_and]
    · rw [if_pos hversion]
      constructor
      · intro h
        cases h
      · rintro ⟨-, rest, h, -⟩
        exact absurd h hversion

/-- **What the decoders accept.**  A byte string decodes to a value if and only if it begins
    with the encoding of the value. -/
theorem decoders_accept_encodings :
    DecodesFront Message.Fits Message.encode Message.decode ∧
    DecodesFront PreKeyBundle.Fits PreKeyBundle.encode PreKeyBundle.decode ∧
    DecodesFront MeshFrame.Fits MeshFrame.encode MeshFrame.decode :=
  ⟨Message.decodesFront,
    PreKeyBundle.decode_eq ▸ PreKeyBundle.codec.decodesFront _ PreKeyBundle.codec_valid_iff,
    MeshFrame.decode_eq ▸ MeshFrame.codec.decodesFront _ MeshFrame.codec_valid_iff⟩

/-- A message, a bundle and a frame decode with a byte after them. -/
theorem decoders_ignore_leftovers :
    (∃ m : Message Bytes, m.encode ++ [0] ≠ m.encode ∧ Message.decode (m.encode ++ [0]) = .ok m) ∧
    (∃ b : PreKeyBundle, b.encode ++ [0] ≠ b.encode ∧
      PreKeyBundle.decode (b.encode ++ [0]) = .ok b) ∧
    ∃ f : MeshFrame, f.encode ++ [0] ≠ f.encode ∧ MeshFrame.decode (f.encode ++ [0]) = .ok f := by
  refine ⟨⟨.normal ⟨.ofByte 1, 0, 0⟩ [7], by simp, by decide +kernel⟩,
    ⟨⟨.ofByte 1, .ofByte 2, [], .ofByte 3, 0, [], [], 0, [], none, none⟩, by simp,
      by decide +kernel⟩,
    ⟨⟨Vector.replicate 16 7, .ofByte 2, 2, [42]⟩, by simp, by decide +kernel⟩⟩

end Clarity
