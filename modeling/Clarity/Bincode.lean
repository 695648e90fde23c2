/-
  Clarity/Bincode.lean
  ====================
  **Self-delimiting binary codecs** in the style of `bincode` 1.3 with fixed-width
  integers: little-endian `u32`/`u64`, raw arrays, `u64` length prefixes for
  vectors, one-byte option tags and `u32` variant tags.

  A `Codec` carries its own correctness: encoding followed by anything decodes
  to the value and hands back the rest, and whatever decodes was encoded.  The
  combinators below build codecs for structures from codecs for their fields,
  so no format ever needs a round-trip proof of its own.
-/
import Clarity.Base

namespace Clarity

/-- A prefix code for the values that satisfy `Valid` (a vector has to fit its
    length field; most types have no constraint). -/
structure Codec (α : Type) where
  Valid : α → Prop
  enc : α → Bytes
  dec : Bytes → Option (α × Bytes)
  dec_enc : ∀ {a}, Valid a → ∀ rest, dec (enc a ++ rest) = some (a, rest)
  enc_of_dec : ∀ {b a rest}, dec b = some (a, rest) → Valid a ∧ b = enc a ++ rest

namespace Codec

variable {α β : Type}

/-- Decoding the whole of an encoding leaves nothing over. -/
theorem dec_enc_nil (c : Codec α) {a : α} (h : c.Valid a) : c.dec (c.enc a) = some (a, []) := by
  have := c.dec_enc h []
  rwa [List.append_nil] at this

/-- Two values with one encoding, whatever follows it, are the same value. -/
theorem enc_append_inj (c : Codec α) {a b : α} (ha : c.Valid a) (hb : c.Valid b)
    {r s : Bytes} (h : c.enc a ++ r = c.enc b ++ s) : a = b ∧ r = s := by
  have h1 := c.dec_enc ha r
  rw [h, c.dec_enc hb s] at h1
  simp only [Option.some.injEq, Prod.mk.injEq] at h1
  exact ⟨h1.1.symm, h1.2.symm⟩

/-! ## Fixed-width pieces -/

/-- Exactly `n` bytes, taken off the front. -/
def takeExact (n : Nat) (b : Bytes) : Option (Bytes × Bytes) :=
  if n ≤ b.length then some (b.take n, b.drop n) else none

theorem takeExact_append {n : Nat} {a : Bytes} (h : a.length = n) (rest : Bytes) :
    takeExact n (a ++ rest) = some (a, rest) := by
  subst h
  simp [takeExact]

theorem takeExact_eq_some {n : Nat} {b a rest : Bytes} (h : takeExact n b = some (a, rest)) :
    a.length = n ∧ b = a ++ rest := by
  unfold takeExact at h
  split at h
  · simp only [Option.some.injEq, Prod.mk.injEq] at h
    obtain ⟨rfl, rfl⟩ := h
    exact ⟨List.length_take_of_le ‹n ≤ b.length›, (List.take_append_drop n b).symm⟩
  · cases h

/-- A `[u8; 32]`: the bytes themselves. -/
def bytes32 : Codec Bytes32 where
  Valid _ := True
  enc a := a.bytes
  dec b := if h : 32 ≤ b.length then some (⟨b.take 32, by simp [h]⟩, b.drop 32) else none
  dec_enc := by
    intro a _ rest
    have hlen : 32 ≤ (a.bytes ++ rest).length := by simp
    simp only [dif_pos hlen, Option.some.injEq, Prod.mk.injEq]
    refine ⟨Bytes32.ext_bytes ?_, ?_⟩
    · show List.take 32 (a.bytes ++ rest) = a.bytes
      rw [List.take_append_of_le_length (by simp), List.take_of_length_le (by simp)]
    · rw [List.drop_append_of_le_length (by simp), List.drop_of_length_le (by simp)]
      rfl
  enc_of_dec := by
    intro b a rest h
    split at h
    · simp only [Option.some.injEq, Prod.mk.injEq] at h
      obtain ⟨rfl, rfl⟩ := h
      exact ⟨trivial, (List.take_append_drop 32 b).symm⟩
    · cases h

/-- The `w` low-order bytes of a number, least significant first
    (`to_le_bytes`). -/
def leBytes : Nat → Nat → Bytes
  | 0, _ => []
  | w + 1, n => (n % 256).toUInt8 :: leBytes w (n / 256)

/-- The number a little-endian byte string stands for (`from_le_bytes`). -/
def ofLeBytes : Bytes → Nat
  | [] => 0
  | b :: bs => b.toNat + 256 * ofLeBytes bs

@[simp] theorem length_leBytes (w n : Nat) : (leBytes w n).length = w := by
  induction w generalizing n with
  | zero => rfl
  | succ w ih => simp [leBytes, ih]

theorem ofLeBytes_leBytes (w n : Nat) : ofLeBytes (leBytes w n) = n % 256 ^ w := by
  induction w generalizing n with
  | zero => simp [leBytes, ofLeBytes, Nat.mod_one]
  | succ w ih =>
    have hbyte : ((n % 256).toUInt8).toNat = n % 256 := by simp
    rw [leBytes, ofLeBytes, ih, hbyte, Nat.pow_succ, Nat.mul_comm (256 ^ w), Nat.mod_mul]

theorem leBytes_ofLeBytes (b : Bytes) : leBytes b.length (ofLeBytes b) = b := by
  induction b with
  | nil => rfl
  | cons x bs ih =>
    have hx : x.toNat < 256 := x.toNat_lt
    have hmod : (x.toNat + 256 * ofLeBytes bs) % 256 = x.toNat := by omega
    have hdiv : (x.toNat + 256 * ofLeBytes bs) / 256 = ofLeBytes bs := by omega
    simp only [List.length_cons, ofLeBytes, leBytes, hmod, hdiv, ih]
    simp

theorem ofLeBytes_lt (b : Bytes) : ofLeBytes b < 256 ^ b.length := by
  induction b with
  | nil => simp [ofLeBytes]
  | cons x bs ih =>
    have hx : x.toNat < 256 := x.toNat_lt
    rw [ofLeBytes, List.length_cons, Nat.pow_succ]
    omega

/-- Every number below `256 ^ w`, in `w` little-endian bytes. -/
def le (w : Nat) : Codec Nat where
  Valid n := n < 256 ^ w
  enc n := leBytes w n
  dec b := (takeExact w b).map fun p => (ofLeBytes p.1, p.2)
  dec_enc := by
    intro n hn rest
    rw [takeExact_append (length_leBytes w n), Option.map_some, ofLeBytes_leBytes,
      Nat.mod_eq_of_lt hn]
  enc_of_dec := by
    intro b n rest h
    simp only [Option.map_eq_some_iff, Prod.mk.injEq] at h
    obtain ⟨⟨a, r⟩, ha, rfl, rfl⟩ := h
    obtain ⟨hlen, rfl⟩ := takeExact_eq_some ha
    refine ⟨hlen ▸ ofLeBytes_lt a, ?_⟩
    rw [← hlen, leBytes_ofLeBytes]

/-! ## Combinators -/

/-- Carry a codec along an injection `f` with left inverse `g` that recognises
    the image. -/
def imap (c : Codec α) (f : β → α) (g : α → Option β)
    (hgf : ∀ b, g (f b) = some b) (hfg : ∀ {a b}, g a = some b → a = f b) : Codec β where
  Valid b := c.Valid (f b)
  enc b := c.enc (f b)
  dec bs := (c.dec bs).bind fun p => (g p.1).map fun b => (b, p.2)
  dec_enc := by
    intro b hb rest
    rw [c.dec_enc hb, Option.bind_some, hgf, Option.map_some]
  enc_of_dec := by
    intro bs b rest h
    simp only [Option.bind_eq_some_iff, Option.map_eq_some_iff, Prod.mk.injEq] at h
    obtain ⟨⟨a, r⟩, hdec, b', hg, rfl, rfl⟩ := h
    have hab := hfg hg
    obtain ⟨hv, hbs⟩ := c.enc_of_dec hdec
    exact ⟨hab ▸ hv, hab ▸ hbs⟩

/-- A `u32`. -/
def u32 : Codec UInt32 :=
  (le 4).imap (fun n => n.toNat) (fun n => if n < 2 ^ 32 then some (UInt32.ofNat n) else none)
    (by
      intro n
      rw [if_pos n.toNat_lt, UInt32.ofNat_toNat])
    (by
      intro n m h
      split at h
      · simp only [Option.some.injEq] at h
        subst h
        exact (UInt32.toNat_ofNat_of_lt' ‹_›).symm
      · cases h)

theorem u32_valid (n : UInt32) : u32.Valid n := by
  show n.toNat < 256 ^ 4
  exact n.toNat_lt

/-- A `u8`. -/
def u8 : Codec UInt8 :=
  (le 1).imap (fun n => n.toNat) (fun n => if n < 2 ^ 8 then some (UInt8.ofNat n) else none)
    (by
      intro n
      rw [if_pos n.toNat_lt, UInt8.ofNat_toNat])
    (by
      intro n m h
      split at h
      · simp only [Option.some.injEq] at h
        subst h
        exact (UInt8.toNat_ofNat_of_lt' ‹_›).symm
      · cases h)

theorem u8_valid (n : UInt8) : u8.Valid n := by
  show n.toNat < 256 ^ 1
  exact n.toNat_lt

/-- One value after another. -/
def pair (c : Codec α) (d : Codec β) : Codec (α × β) where
  Valid p := c.Valid p.1 ∧ d.Valid p.2
  enc p := c.enc p.1 ++ d.enc p.2
  dec b := (c.dec b).bind fun p => (d.dec p.2).map fun q => ((p.1, q.1), q.2)
  dec_enc := by
    intro p hp rest
    rw [List.append_assoc, c.dec_enc hp.1, Option.bind_some, d.dec_enc hp.2, Option.map_some]
  enc_of_dec := by
    intro b p rest h
    simp only [Option.bind_eq_some_iff, Option.map_eq_some_iff, Prod.mk.injEq] at h
    obtain ⟨⟨a, r⟩, hc, ⟨q, s⟩, hd, rfl, rfl⟩ := h
    obtain ⟨ha, rfl⟩ := c.enc_of_dec hc
    obtain ⟨hq, hr⟩ := d.enc_of_dec hd
    have hr' : r = d.enc q ++ s := hr
    subst hr'
    exact ⟨⟨ha, hq⟩, (List.append_assoc _ _ _).symm⟩

/-- A `Vec<u8>`: a `u64` length, then the bytes. -/
def vec : Codec Bytes where
  Valid v := v.length < 256 ^ 8
  enc v := (le 8).enc v.length ++ v
  dec b := ((le 8).dec b).bind fun p => takeExact p.1 p.2
  dec_enc := by
    intro v hv rest
    rw [List.append_assoc, (le 8).dec_enc hv, Option.bind_some, takeExact_append rfl]
  enc_of_dec := by
    intro b v rest h
    simp only [Option.bind_eq_some_iff] at h
    obtain ⟨⟨n, r⟩, hn, hv⟩ := h
    obtain ⟨hlt, rfl⟩ := (le 8).enc_of_dec hn
    obtain ⟨rfl, hr⟩ := takeExact_eq_some hv
    have hr' : r = v ++ rest := hr
    subst hr'
    exact ⟨hlt, (List.append_assoc _ _ _).symm⟩

/-- `n` values, one after another. -/
def decMany (c : Codec α) : Nat → Bytes → Option (List α × Bytes)
  | 0, b => some ([], b)
  | n + 1, b => (c.dec b).bind fun p => (c.decMany n p.2).map fun q => (p.1 :: q.1, q.2)

theorem decMany_flatMap (c : Codec α) {l : List α} (h : ∀ a ∈ l, c.Valid a) (rest : Bytes) :
    c.decMany l.length (l.flatMap c.enc ++ rest) = some (l, rest) := by
  induction l with
  | nil => rfl
  | cons a l ih =>
    have ha := c.dec_enc (h a (List.mem_cons_self ..)) (l.flatMap c.enc ++ rest)
    have hl := ih fun b hb => h b (List.mem_cons_of_mem _ hb)
    rw [List.flatMap_cons, List.append_assoc, List.length_cons, decMany, ha, Option.bind_some, hl,
      Option.map_some]

theorem decMany_eq_some (c : Codec α) {n : Nat} {b rest : Bytes} {l : List α}
    (h : c.decMany n b = some (l, rest)) :
    l.length = n ∧ (∀ a ∈ l, c.Valid a) ∧ b = l.flatMap c.enc ++ rest := by
  induction n generalizing b l with
  | zero =>
    simp only [decMany, Option.some.injEq, Prod.mk.injEq] at h
    obtain ⟨rfl, rfl⟩ := h
    exact ⟨rfl, by simp, rfl⟩
  | succ n ih =>
    simp only [decMany, Option.bind_eq_some_iff, Option.map_eq_some_iff, Prod.mk.injEq] at h
    obtain ⟨⟨a, r⟩, ha, ⟨l', s⟩, hl, rfl, rfl⟩ := h
    obtain ⟨hv, rfl⟩ := c.enc_of_dec ha
    obtain ⟨hlen, hvs, hr⟩ := ih hl
    have hr' : r = l'.flatMap c.enc ++ s := hr
    subst hr'
    refine ⟨by rw [List.length_cons, hlen], ?_, ?_⟩
    · intro x hx
      rcases List.mem_cons.mp hx with rfl | hx
      · exact hv
      · exact hvs x hx
    · rw [List.flatMap_cons, List.append_assoc]

/-- A `Vec<T>`: a `u64` length, then the values. -/
def list (c : Codec α) : Codec (List α) where
  Valid l := l.length < 256 ^ 8 ∧ ∀ a ∈ l, c.Valid a
  enc l := (le 8).enc l.length ++ l.flatMap c.enc
  dec b := ((le 8).dec b).bind fun p => c.decMany p.1 p.2
  dec_enc := by
    intro l hl rest
    rw [List.append_assoc, (le 8).dec_enc hl.1, Option.bind_some, decMany_flatMap c hl.2]
  enc_of_dec := by
    intro b l rest h
    simp only [Option.bind_eq_some_iff] at h
    obtain ⟨⟨n, r⟩, hn, hl⟩ := h
    obtain ⟨hlt, rfl⟩ := (le 8).enc_of_dec hn
    obtain ⟨rfl, hv, hr⟩ := c.decMany_eq_some hl
    have hr' : r = l.flatMap c.enc ++ rest := hr
    subst hr'
    exact ⟨⟨hlt, hv⟩, (List.append_assoc _ _ _).symm⟩

/-- An `Option`: a zero byte, or a one byte and the value. -/
def option (c : Codec α) : Codec (Option α) where
  Valid o := ∀ a ∈ o, c.Valid a
  enc o :=
    match o with
    | none => [0]
    | some a => 1 :: c.enc a
  dec b :=
    match b with
    | [] => none
    | tag :: b =>
      if tag = 0 then some (none, b)
      else if tag = 1 then (c.dec b).map fun p => (some p.1, p.2)
      else none
  dec_enc := by
    intro o ho rest
    cases o with
    | none => rfl
    | some a =>
      have ha := c.dec_enc (ho a rfl) rest
      simp [ha]
  enc_of_dec := by
    intro b o rest h
    cases b with
    | nil => cases h
    | cons tag b =>
      dsimp only at h
      split at h
      · simp only [Option.some.injEq, Prod.mk.injEq] at h
        obtain ⟨rfl, rfl⟩ := h
        subst tag
        exact ⟨by simp, rfl⟩
      · split at h
        · simp only [Option.map_eq_some_iff, Prod.mk.injEq] at h
          obtain ⟨⟨a, r⟩, ha, rfl, rfl⟩ := h
          obtain ⟨hv, rfl⟩ := c.enc_of_dec ha
          subst tag
          refine ⟨?_, rfl⟩
          intro a' ha'
          cases ha'
          exact hv
        · cases h

/-- A two-variant enum: the `u32` variant index, then the fields. -/
def either (c : Codec α) (d : Codec β) : Codec (α ⊕ β) where
  Valid v :=
    match v with
    | .inl a => c.Valid a
    | .inr b => d.Valid b
  enc v :=
    match v with
    | .inl a => (le 4).enc 0 ++ c.enc a
    | .inr b => (le 4).enc 1 ++ d.enc b
  dec bs :=
    ((le 4).dec bs).bind fun p =>
      if p.1 = 0 then (c.dec p.2).map fun q => (.inl q.1, q.2)
      else if p.1 = 1 then (d.dec p.2).map fun q => (.inr q.1, q.2)
      else none
  dec_enc := by
    intro v hv rest
    cases v with
    | inl a =>
      rw [List.append_assoc, (le 4).dec_enc (show (0 : Nat) < 256 ^ 4 by decide), Option.bind_some,
        if_pos rfl, c.dec_enc hv, Option.map_some]
    | inr b =>
      rw [List.append_assoc, (le 4).dec_enc (show (1 : Nat) < 256 ^ 4 by decide), Option.bind_some,
        if_neg Nat.one_ne_zero, if_pos rfl, d.dec_enc hv, Option.map_some]
  enc_of_dec := by
    intro bs v rest h
    simp only [Option.bind_eq_some_iff] at h
    obtain ⟨⟨tag, r⟩, htag, h⟩ := h
    obtain ⟨_, rfl⟩ := (le 4).enc_of_dec htag
    dsimp only at h
    split at h
    · simp only [Option.map_eq_some_iff, Prod.mk.injEq] at h
      obtain ⟨⟨a, s⟩, ha, rfl, rfl⟩ := h
      obtain ⟨hv, rfl⟩ := c.enc_of_dec ha
      subst tag
      exact ⟨hv, (List.append_assoc _ _ _).symm⟩
    · split at h
      · simp only [Option.map_eq_some_iff, Prod.mk.injEq] at h
        obtain ⟨⟨b, s⟩, hb, rfl, rfl⟩ := h
        obtain ⟨hv, rfl⟩ := d.enc_of_dec hb
        subst tag
        exact ⟨hv, (List.append_assoc _ _ _).symm⟩
      · cases h

end Codec

end Clarity
