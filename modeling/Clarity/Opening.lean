/-
  Clarity/Opening.lean
  ====================
  **What `open_envelope` accepts.**  The recipient's code cuts the blob and the plaintext in
  it at fixed offsets and at a length that the sender chose; `openEnvelopeSliced` follows it
  slice by slice, and has no result where a slice is out of range.

    * `openEnvelopeSliced_eq` — that never happens;
    * `openEnvelope_eq_ok_iff` — accepted is what was sealed to the recipient, with any
      padding, and nothing else;
    * `envelopes_open_exactly` — both, of every byte string.
-/
import Clarity.Slices
import Clarity.Host

namespace Clarity

/-! ## 1. `open_envelope`, slice by slice -/

/-- `[u8; 32]::copy_from_slice`, which panics on any other length. -/
def copyFromSlice (b : Bytes) : Option Bytes32 := if h : b.length = 32 then some ⟨b, h⟩ else none

/-- Subtraction that panics below zero. -/
def checkedSub (a b : Nat) : Option Nat := if b ≤ a then some (a - b) else none

/-- The part of `open_envelope` after decryption. -/
def parseInnerSliced (inner : Bytes) : Option (Result OpenedEnvelope) :=
  if inner.length < INNER_PREFIX_LEN + LEN_PREFIX then some (.error .decrypt)
  else do
    let senderEd ← (Slice.get inner 0 32).bind copyFromSlice
    let senderDh ← (Slice.get inner 32 64).bind copyFromSlice
    let payloadLen ← Slice.u32 inner INNER_PREFIX_LEN
    let start := INNER_PREFIX_LEN + LEN_PREFIX
    let room ← checkedSub inner.length start
    if payloadLen > room then some (.error .decrypt)
    else
      let payload ← Slice.get inner start (start + payloadLen)
      some (.ok ⟨senderEd, senderDh, payload⟩)

variable {P : Suite Bytes}

/-- `open_envelope`; `none` where an index, a slice or a subtraction would panic. -/
def openEnvelopeSliced (recipient : Account P) (blob : Bytes) :
    Option (Result OpenedEnvelope) :=
  if blob.length ≤ HEADER_LEN then some (.error .decrypt)
  else do
    let version ← blob[0]?
    if version ≠ SEALED_ENVELOPE_VERSION then some (.error .decrypt)
    else
      let ephPub ← (Slice.get blob 1 HEADER_LEN).bind copyFromSlice
      let ciphertext ← Slice.get blob HEADER_LEN blob.length
      let sealKey := deriveSealKey (P.diffieHellman recipient.dhIdentity ephPub) ephPub
        recipient.identityDhPublic
      match P.aeadOpen sealKey ciphertext ephPub.bytes with
      | .error e => some (.error e)
      | .ok inner => parseInnerSliced inner

theorem copyFromSlice_bytes (a : Bytes32) : copyFromSlice a.bytes = some a := by
  unfold copyFromSlice
  rw [dif_pos a.length_eq]

/-! ## 2. The plaintext -/

/-- Keys, length field, payload. -/
def innerCodec : Codec ((Bytes32 × Bytes32) × Nat) :=
  (Codec.bytes32.pair Codec.bytes32).pair (Codec.le LEN_PREFIX)

/-- A plaintext that is long enough has the three fields in front. -/
theorem inner_split {inner : Bytes} (h : INNER_PREFIX_LEN + LEN_PREFIX ≤ inner.length) :
    ∃ (senderEd senderDh : Bytes32) (len rest : Bytes), len.length = LEN_PREFIX ∧
      inner = senderEd.bytes ++ (senderDh.bytes ++ (len ++ rest)) := by
  unfold INNER_PREFIX_LEN LEN_PREFIX at *
  refine ⟨⟨inner.take 32, ?_⟩, ⟨(inner.drop 32).take 32, ?_⟩, (inner.drop 64).take 4,
    inner.drop 68, ?_, ?_⟩
  · simp only [List.length_take]
    omega
  · simp only [List.length_take, List.length_drop]
    omega
  · simp only [List.length_take, List.length_drop]
    omega
  · have hlast : (inner.drop 64).take 4 ++ inner.drop 68 = (inner.drop 32).drop 32 := by
      rw [List.drop_drop]
      have hdrop : inner.drop 68 = (inner.drop 64).drop 4 := by rw [List.drop_drop]
      rw [hdrop, List.take_append_drop]
    simp only [hlast, List.take_append_drop]

theorem parseInner_short {inner : Bytes} (h : inner.length < INNER_PREFIX_LEN + LEN_PREFIX) :
    parseInner inner = .error .decrypt := by
  unfold parseInner
  split
  · rfl
  · rename_i senderEd senderDh payloadLen rest hdec
    obtain ⟨-, hinner⟩ := Codec.enc_of_dec _ hdec
    have hlen := congrArg List.length hinner
    simp only [Codec.pair, Codec.bytes32, Codec.le, List.length_append, Bytes32.length_bytes,
      Codec.length_leBytes] at hlen
    unfold INNER_PREFIX_LEN at h
    omega

theorem parseInner_fields (senderEd senderDh : Bytes32) {len : Bytes}
    (hlen : len.length = LEN_PREFIX) (rest : Bytes) :
    parseInner (senderEd.bytes ++ (senderDh.bytes ++ (len ++ rest))) =
      if Codec.ofLeBytes len > rest.length then .error .decrypt
      else .ok ⟨senderEd, senderDh, rest.take (Codec.ofLeBytes len)⟩ := by
  have hvalid : (Codec.bytes32.pair (Codec.bytes32.pair (Codec.le LEN_PREFIX))).Valid
      (senderEd, senderDh, Codec.ofLeBytes len) := ⟨trivial, trivial, hlen ▸ Codec.ofLeBytes_lt len⟩
  have hdec := Codec.dec_enc _ hvalid rest
  have henc : (Codec.bytes32.pair (Codec.bytes32.pair (Codec.le LEN_PREFIX))).enc
      (senderEd, senderDh, Codec.ofLeBytes len) ++ rest =
        senderEd.bytes ++ (senderDh.bytes ++ (len ++ rest)) := by
    simp only [Codec.pair, Codec.bytes32, Codec.le, List.append_assoc]
    rw [← hlen, Codec.leBytes_ofLeBytes]
  rw [henc] at hdec
  unfold parseInner
  rw [hdec]

theorem parseInnerSliced_eq (inner : Bytes) : parseInnerSliced inner = some (parseInner inner) := by
  unfold parseInnerSliced
  split
  · rename_i hshort
    rw [parseInner_short hshort]
  · rename_i hlong
    obtain ⟨senderEd, senderDh, len, rest, hlen, rfl⟩ := inner_split (Nat.not_lt.mp hlong)
    have hed := Slice.get_append [] senderEd.bytes (senderDh.bytes ++ (len ++ rest))
    have hdh := Slice.get_append senderEd.bytes senderDh.bytes (len ++ rest)
    have hfield := Slice.get_append (senderEd.bytes ++ senderDh.bytes) len rest
    have hsize : (senderEd.bytes ++ (senderDh.bytes ++ (len ++ rest))).length =
        INNER_PREFIX_LEN + LEN_PREFIX + rest.length := by
      simp only [List.length_append, Bytes32.length_bytes, hlen, INNER_PREFIX_LEN, LEN_PREFIX]
      omega
    have hu32 : Slice.u32 (senderEd.bytes ++ (senderDh.bytes ++ (len ++ rest)))
        INNER_PREFIX_LEN = some (Codec.ofLeBytes len) := by
      simp only [List.length_append, Bytes32.length_bytes, hlen, List.append_assoc] at hfield
      unfold Slice.u32 INNER_PREFIX_LEN
      rw [show (64 : Nat) + 4 = 32 + 32 + LEN_PREFIX from rfl, show (64 : Nat) = 32 + 32 from rfl,
        hfield, Option.map_some]
    simp only [List.length_nil, List.nil_append, Bytes32.length_bytes, Nat.zero_add] at hed hdh
    rw [hed, hdh, hu32, hsize, parseInner_fields _ _ hlen]
    have hroom : checkedSub (INNER_PREFIX_LEN + LEN_PREFIX + rest.length)
        (INNER_PREFIX_LEN + LEN_PREFIX) = some rest.length := by
      unfold checkedSub
      rw [if_pos (Nat.le_add_right ..), Nat.add_sub_cancel_left]
    simp only [Option.bind_some, copyFromSlice_bytes, hroom, bind]
    split
    · rfl
    · rename_i hfits
      have hpayload := Slice.get_append (senderEd.bytes ++ senderDh.bytes ++ len)
        (rest.take (Codec.ofLeBytes len)) (rest.drop (Codec.ofLeBytes len))
      have hstart : (senderEd.bytes ++ senderDh.bytes ++ len).length =
          INNER_PREFIX_LEN + LEN_PREFIX := by
        simp only [List.length_append, Bytes32.length_bytes, hlen, INNER_PREFIX_LEN]
      rw [List.take_append_drop, hstart, List.length_take_of_le (Nat.not_lt.mp hfits)] at hpayload
      simp only [List.append_assoc] at hpayload
      rw [hpayload, Option.bind_some]

/-- **What a plaintext says.** -/
theorem parseInner_eq_ok_iff (inner : Bytes) (o : OpenedEnvelope) :
    parseInner inner = .ok o ↔ o.payload.length < 2 ^ 32 ∧ ∃ padding : Bytes,
      inner = o.senderIdentityEd.bytes ++ (o.senderIdentityDh.bytes ++
        (Codec.leBytes LEN_PREFIX o.payload.length ++ (o.payload ++ padding))) := by
  constructor
  · intro h
    have hlong : INNER_PREFIX_LEN + LEN_PREFIX ≤ inner.length := by
      apply Nat.not_lt.mp
      intro hshort
      rw [parseInner_short hshort] at h
      exact nomatch h
    obtain ⟨senderEd, senderDh, len, rest, hlen, rfl⟩ := inner_split hlong
    rw [parseInner_fields _ _ hlen] at h
    split at h
    · exact nomatch h
    · rename_i hfits
      obtain rfl := Except.ok.inj h
      have hpayload : (rest.take (Codec.ofLeBytes len)).length = Codec.ofLeBytes len :=
        List.length_take_of_le (Nat.not_lt.mp hfits)
      refine ⟨?_, rest.drop (Codec.ofLeBytes len), ?_⟩
      · show (rest.take (Codec.ofLeBytes len)).length < 2 ^ 32
        rw [hpayload]
        exact lt_of_lt_of_eq (Codec.ofLeBytes_lt len) (by rw [hlen]; rfl)
      · show _ = senderEd.bytes ++ (senderDh.bytes ++
          (Codec.leBytes LEN_PREFIX (rest.take (Codec.ofLeBytes len)).length ++ _))
        rw [hpayload, ← hlen, Codec.leBytes_ofLeBytes, List.take_append_drop]
  · rintro ⟨hsmall, padding, rfl⟩
    have hback : Codec.ofLeBytes (Codec.leBytes LEN_PREFIX o.payload.length) =
        o.payload.length := by
      rw [Codec.ofLeBytes_leBytes]
      exact Nat.mod_eq_of_lt hsmall
    rw [parseInner_fields _ _ (Codec.length_leBytes ..), hback, if_neg (by simp), List.take_left]

/-! ## 3. The blob -/

theorem openEnvelopeSliced_eq (recipient : Account P) (blob : Bytes) :
    openEnvelopeSliced recipient blob = some (openEnvelope recipient blob) := by
  unfold openEnvelopeSliced openEnvelope
  by_cases hshort : blob.length ≤ HEADER_LEN
  · rw [if_pos hshort, if_pos (Or.inl hshort)]
  · rw [if_neg hshort]
    cases blob with
    | nil => exact absurd (Nat.zero_le _) hshort
    | cons version body =>
      have hbody : 32 ≤ body.length := by
        rw [List.length_cons] at hshort
        unfold HEADER_LEN at hshort
        omega
      by_cases hversion : version = SEALED_ENVELOPE_VERSION
      · have hguard : ¬ ((version :: body).length ≤ HEADER_LEN ∨
            (version :: body).head? ≠ some SEALED_ENVELOPE_VERSION) := by
          rintro (h | h)
          · exact hshort h
          · exact h (congrArg some hversion)
        have heph : (body.take 32).length = 32 := List.length_take_of_le hbody
        have hfirst := Slice.get_append [version] (body.take 32) (body.drop 32)
        have hrest := Slice.get_append (version :: body.take 32) (body.drop 32) []
        rw [List.take_append_drop, heph] at hfirst
        rw [List.append_nil, List.cons_append, List.take_append_drop, List.length_cons, heph,
          List.length_drop] at hrest
        have hend : 32 + 1 + (body.length - 32) = (version :: body).length := by
          rw [List.length_cons]
          omega
        rw [hend] at hrest
        have hdec : Codec.bytes32.dec body = some (⟨body.take 32, heph⟩, body.drop 32) :=
          dif_pos hbody
        have hcopy : copyFromSlice (body.take 32) = some ⟨body.take 32, heph⟩ := dif_pos heph
        rw [if_neg hguard, List.drop_one, List.tail_cons, hdec]
        have hfirst' : Slice.get (version :: body) 1 HEADER_LEN = some (body.take 32) := hfirst
        have hrest' : Slice.get (version :: body) HEADER_LEN (version :: body).length =
          some (body.drop 32) := hrest
        simp only [List.getElem?_cons_zero, bind, Option.bind_some, hversion, ne_eq,
          not_true_eq_false, if_false]
        rw [hversion] at hfirst' hrest'
        rw [hfirst', Option.bind_some, hcopy, Option.bind_some, hrest', Option.bind_some]
        split
        · rename_i e hopen
          rw [hopen]
        · rename_i inner hopen
          rw [hopen, parseInnerSliced_eq]
      · have hguard : (version :: body).head? ≠ some SEALED_ENVELOPE_VERSION :=
          fun h => hversion (Option.some.inj h)
        rw [if_pos (Or.inr hguard)]
        simp only [List.getElem?_cons_zero, bind, Option.bind_some]
        exact if_pos hversion

/-- The ciphertexts that open are the ones that were sealed. -/
def Suite.OpensSealed (P : Suite Bytes) : Prop :=
  ∀ m c ad p, P.xchachaDecrypt m c ad = some p ↔ c = P.xchachaEncrypt m p ad

theorem aeadOpen_eq_ok_iff (hopens : P.OpensSealed) (key : P.Key) (c ad p : Bytes) :
    P.aeadOpen key c ad = .ok p ↔ c = P.aeadSeal key p ad := by
  unfold Suite.aeadOpen Suite.aeadSeal
  rw [← hopens]
  cases P.xchachaDecrypt (P.deriveMessageMaterial key) c ad with
  | none => simp
  | some p' => simp

/-- `blob` is a version byte, an ephemeral key, and the sealing, to `recipient`, of what
    `o` says and some padding. -/
def SealedTo (recipient : Account P) (blob : Bytes) (o : OpenedEnvelope) : Prop :=
  ∃ (eph : Bytes32) (padding : Bytes), blob = 2 :: (eph.bytes ++ P.aeadSeal
    (deriveSealKey (P.diffieHellman recipient.dhIdentity eph) eph recipient.identityDhPublic)
    (o.senderIdentityEd.bytes ++ (o.senderIdentityDh.bytes ++
      (Codec.leBytes 4 o.payload.length ++ (o.payload ++ padding)))) eph.bytes)

theorem openEnvelope_eq_ok_iff (hopens : P.OpensSealed) (htag : P.Tagged)
    (recipient : Account P) (blob : Bytes) (o : OpenedEnvelope) :
    openEnvelope recipient blob = .ok o ↔
      o.payload.length < 2 ^ 32 ∧ SealedTo recipient blob o := by
  unfold openEnvelope
  constructor
  · intro h
    split at h
    · exact nomatch h
    · rename_i hguard
      obtain ⟨hlen, hhead⟩ := not_or.mp hguard
      cases blob with
      | nil => exact absurd (Nat.zero_le _) hlen
      | cons version body =>
        have hversion := Option.some.inj (not_not.mp hhead)
        rw [List.drop_one, List.tail_cons] at h
        cases hdec : Codec.bytes32.dec body with
        | none => simp [hdec] at h
        | some p =>
          obtain ⟨-, hbody⟩ := Codec.enc_of_dec _ (a := p.1) hdec
          simp only [hdec] at h
          cases hopen : P.aeadOpen (deriveSealKey (P.diffieHellman recipient.dhIdentity p.1) p.1
              recipient.identityDhPublic) p.2 p.1.bytes with
          | error e => simp [hopen] at h
          | ok inner =>
            simp only [hopen] at h
            obtain ⟨hsmall, padding, hinner⟩ := (parseInner_eq_ok_iff inner o).mp h
            have hct := (aeadOpen_eq_ok_iff hopens ..).mp hopen
            refine ⟨hsmall, p.1, padding, ?_⟩
            rw [hbody, hct, hinner, hversion]
            rfl
  · rintro ⟨hsmall, eph, padding, rfl⟩
    generalize hinner : o.senderIdentityEd.bytes ++ (o.senderIdentityDh.bytes ++
      (Codec.leBytes 4 o.payload.length ++ (o.payload ++ padding))) = inner
    generalize hct : P.aeadSeal (deriveSealKey (P.diffieHellman recipient.dhIdentity eph) eph
      recipient.identityDhPublic) inner eph.bytes = ciphertext
    have hne : 0 < ciphertext.length := by
      rw [← hct]
      exact List.length_pos_iff.mpr (htag _ _ _)
    have hguard : ¬ ((2 :: (eph.bytes ++ ciphertext)).length ≤ HEADER_LEN ∨
        (2 :: (eph.bytes ++ ciphertext)).head? ≠ some SEALED_ENVELOPE_VERSION) := by
      rintro (h | h)
      · simp only [List.length_cons, List.length_append, Bytes32.length_bytes, HEADER_LEN] at h
        omega
      · exact h rfl
    have hdec : Codec.bytes32.dec (eph.bytes ++ ciphertext) = some (eph, ciphertext) :=
      Codec.bytes32.dec_enc trivial ciphertext
    have hopen := (aeadOpen_eq_ok_iff hopens ..).mpr hct.symm
    rw [if_neg hguard, List.drop_one, List.tail_cons, hdec]
    simp only [hopen]
    exact (parseInner_eq_ok_iff inner o).mpr ⟨hsmall, padding, hinner.symm⟩

theorem sealedTo_sealEnvelope
    (hcomm : ∀ a b, P.diffieHellman a (P.publicKey b) = P.diffieHellman b (P.publicKey a))
    (sender recipient : Account P) (payload : Bytes) (eph : P.Secret) :
    SealedTo recipient (sealEnvelope sender recipient.identityDhPublic payload eph)
      ⟨sender.identityPublic, sender.identityDhPublic, payload⟩ := by
  have hroom := le_bucket payload.length
  have hlen : (sender.identityPublic.bytes ++ sender.identityDhPublic.bytes ++
      Codec.leBytes LEN_PREFIX payload.length ++ payload).length ≤
        INNER_PREFIX_LEN + bucket payload.length := by
    simp only [List.length_append, Bytes32.length_bytes, Codec.length_leBytes, INNER_PREFIX_LEN]
    omega
  refine ⟨P.publicKey eph, List.replicate (INNER_PREFIX_LEN + bucket payload.length -
    (sender.identityPublic.bytes ++ sender.identityDhPublic.bytes ++
      Codec.leBytes LEN_PREFIX payload.length ++ payload).length) 0, ?_⟩
  have hshared : P.diffieHellman recipient.dhIdentity (P.publicKey eph) =
      P.diffieHellman eph recipient.identityDhPublic := hcomm _ _
  unfold sealEnvelope envelopeInner
  rw [resize_eq hlen, hshared]
  simp only [List.append_assoc]
  rfl

theorem openEnvelope_eq_error (recipient : Account P) (blob : Bytes) {e : Error}
    (h : openEnvelope recipient blob = .error e) : e = .decrypt := by
  unfold openEnvelope at h
  split at h
  · exact (Except.error.inj h).symm
  · split at h
    · exact (Except.error.inj h).symm
    · rename_i ephPub ciphertext _
      simp only at h
      split at h
      · rename_i e' hopen
        unfold Suite.aeadOpen at hopen
        split at hopen
        · exact nomatch hopen
        · rw [← Except.error.inj h, ← Except.error.inj hopen]
      · unfold parseInner at h
        split at h
        · exact (Except.error.inj h).symm
        · split at h
          · exact (Except.error.inj h).symm
          · exact nomatch h

/-! ## 4. Exact acceptance -/

/-- **Envelopes open to exactly what was sealed.**  What an account seals to another, the
    other opens; what opens was sealed to the account that opens it; and everything else is
    refused as undecryptable.  No access of the code is out of range. -/
theorem envelopes_open_exactly
    (hcomm : ∀ a b, P.diffieHellman a (P.publicKey b) = P.diffieHellman b (P.publicKey a))
    (hopens : P.OpensSealed) (htag : P.Tagged) :
    (∀ (sender recipient : Account P) (payload : Bytes) (eph : P.Secret),
      payload.length < 2 ^ 32 →
      openEnvelopeSliced recipient
          (sealEnvelope sender recipient.identityDhPublic payload eph) =
        some (.ok ⟨sender.identityPublic, sender.identityDhPublic, payload⟩)) ∧
    ∀ (recipient : Account P) (blob : Bytes),
      (∀ o, openEnvelopeSliced recipient blob = some (.ok o) ↔
        o.payload.length < 2 ^ 32 ∧ SealedTo recipient blob o) ∧
      ((∀ o, ¬ (o.payload.length < 2 ^ 32 ∧ SealedTo recipient blob o)) →
        openEnvelopeSliced recipient blob = some (.error .decrypt)) := by
  refine ⟨?_, ?_⟩
  · intro sender recipient payload eph hsmall
    rw [openEnvelopeSliced_eq]
    apply congrArg some
    apply (openEnvelope_eq_ok_iff hopens htag recipient _ _).mpr
    exact ⟨hsmall, sealedTo_sealEnvelope hcomm sender recipient payload eph⟩
  · intro recipient blob
    refine ⟨?_, ?_⟩
    · intro o
      rw [openEnvelopeSliced_eq, Option.some.injEq]
      exact openEnvelope_eq_ok_iff hopens htag recipient blob o
    · intro hnone
      rw [openEnvelopeSliced_eq]
      cases hopen : openEnvelope recipient blob with
      | error e => rw [openEnvelope_eq_error recipient blob hopen]
      | ok o =>
        exact absurd ((openEnvelope_eq_ok_iff hopens htag recipient blob o).mp hopen) (hnone o)

section Sample

theorem fixed_opensSealed : Suite.fixed.OpensSealed := by
  intro m c ad p
  constructor
  · intro h
    exact unframed_eq_some h
  · rintro rfl
    exact unframed_append _ p

theorem fixed_tagged : Suite.fixed.Tagged := by
  intro m p ad h
  have hfront : delimited m.bytes = [] :=
    (List.append_eq_nil_iff.mp (List.append_eq_nil_iff.mp h).1).1
  cases hbytes : m.bytes with
  | nil => rw [hbytes] at hfront; exact nomatch hfront
  | cons b rest => rw [hbytes] at hfront; exact nomatch hfront

/-- Bob opens what Alice sealed to him, and refuses two bytes. -/
theorem envelopes_open_exactly_fixed :
    openEnvelopeSliced (Account.generate (fixedGenerate 30)) (sealEnvelope
        (Account.generate (fixedGenerate 10)) (Account.generate (fixedGenerate 30)).identityDhPublic
        [42] (Bytes32.ofByte 60)) =
      some (.ok ⟨(Account.generate (fixedGenerate 10)).identityPublic,
        (Account.generate (fixedGenerate 10)).identityDhPublic, [42]⟩) ∧
    openEnvelopeSliced (Account.generate (fixedGenerate 30)) [2, 0] = some (.error .decrypt) := by
  have hcomm : ∀ a b, Suite.fixed.diffieHellman a (Suite.fixed.publicKey b) =
      Suite.fixed.diffieHellman b (Suite.fixed.publicKey a) := fun a b =>
    List.zipWith_comm_of_comm (fun x y => UInt8.add_comm x y)
  have exact := envelopes_open_exactly hcomm fixed_opensSealed fixed_tagged
  refine ⟨exact.1 _ _ _ _ (by decide), (exact.2 _ _).2 ?_⟩
  rintro o ⟨-, eph, padding, hblob⟩
  have hlen := congrArg List.length hblob
  simp only [List.length_cons, List.length_append, Bytes32.length_bytes, List.length_nil] at hlen
  omega

end Sample

end Clarity
