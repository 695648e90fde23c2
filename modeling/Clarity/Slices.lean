/-
  Clarity/Slices.lean
  ===================
  **Readers that walk a byte string by its offset.**  A decoder of `Clarity.Bincode` hands
  back the rest of its input; a hand-written reader keeps the whole input and an offset, and
  asks for the bytes between two offsets, which may not all be there.

    * `Slice.get` — the bytes between two offsets;
    * `Reads` — a reader does at every offset what a codec does on the rest of the input,
      and moves on by as much;
    * `Reads.pair`, `Reads.repeatN`, `Reads.list` — readers one after another, and in a loop;
    * `Reads.readAll_eq_some_iff` — what a reader makes of a whole input.

  So a format that is read by offset has the round trip of its codec.
-/
import Clarity.Bincode

namespace Clarity

/-! ## 1. Slices -/

/-- The elements from offset `i` to offset `j`; `none` where they are not all there. -/
def Slice.get {α : Type} (b : List α) (i j : Nat) : Option (List α) :=
  if i ≤ j ∧ j ≤ b.length then some ((b.drop i).take (j - i)) else none

/-- A little-endian `u32` at offset `i`. -/
def Slice.u32 (b : Bytes) (i : Nat) : Option Nat := (Slice.get b i (i + 4)).map Codec.ofLeBytes

theorem Slice.get_append {α : Type} (front m rest : List α) :
    Slice.get (front ++ (m ++ rest)) front.length (front.length + m.length) = some m := by
  unfold Slice.get
  rw [if_pos (by simp), List.drop_left, Nat.add_sub_cancel_left, List.take_left]

theorem Slice.get_eq_some {α : Type} {b m : List α} {i j : Nat} (h : Slice.get b i j = some m) :
    m.length = j - i ∧ i ≤ j ∧ j ≤ b.length ∧ b = b.take i ++ (m ++ b.drop j) := by
  unfold Slice.get at h
  split at h
  · rename_i hin
    obtain rfl := Option.some.inj h
    refine ⟨?_, hin.1, hin.2, ?_⟩
    · simp only [List.length_take, List.length_drop]
      omega
    · have hj : b.drop j = (b.drop i).drop (j - i) := by
        rw [List.drop_drop, Nat.add_sub_cancel' hin.1]
      rw [hj, List.take_append_drop, List.take_append_drop]
  · cases h

/-! ## 2. Readers -/

variable {α β : Type}

/-- `r` reads the codec `c`: the offset it hands back is where the rest begins. -/
def Reads (c : Codec α) (r : Bytes → Nat → Option (α × Nat)) : Prop :=
  ∀ b i, i ≤ b.length → r b i = (c.dec (b.drop i)).map fun p => (p.1, b.length - p.2.length)

/-- Where the rest of the input begins again. -/
theorem Codec.drop_of_dec {c : Codec α} {b rest : Bytes} {i : Nat} {a : α}
    (h : c.dec (b.drop i) = some (a, rest)) : b.drop (b.length - rest.length) = rest := by
  obtain ⟨-, hdrop⟩ := c.enc_of_dec h
  have hsuffix : rest <:+ b := by
    apply List.IsSuffix.trans _ (List.drop_suffix i b)
    exact ⟨c.enc a, hdrop.symm⟩
  exact (List.suffix_iff_eq_drop.mp hsuffix).symm

theorem Reads.some_iff {c : Codec α} {r : Bytes → Nat → Option (α × Nat)} (h : Reads c r)
    {b : Bytes} {i j : Nat} {a : α} (hi : i ≤ b.length) :
    r b i = some (a, j) ↔ j ≤ b.length ∧ c.dec (b.drop i) = some (a, b.drop j) := by
  rw [h b i hi]
  constructor
  · intro heq
    obtain ⟨⟨a', rest⟩, hdec, hout⟩ := Option.map_eq_some_iff.mp heq
    obtain ⟨rfl, rfl⟩ := Prod.mk.inj hout
    refine ⟨Nat.sub_le .., ?_⟩
    rw [Codec.drop_of_dec hdec]
    exact hdec
  · rintro ⟨hj, hdec⟩
    rw [hdec, Option.map_some, List.length_drop, Nat.sub_sub_self hj]

/-- Reading what was written, at the offset it was written at. -/
theorem Reads.append {c : Codec α} {r : Bytes → Nat → Option (α × Nat)} (h : Reads c r) {a : α}
    (ha : c.Valid a) (front rest : Bytes) :
    r (front ++ (c.enc a ++ rest)) front.length =
      some (a, front.length + (c.enc a).length) := by
  rw [h _ _ (by simp), List.drop_left, c.dec_enc ha, Option.map_some]
  simp only [List.length_append]
  congr 2
  omega

/-- One reader after another. -/
def andRead (r : Bytes → Nat → Option (α × Nat)) (s : Bytes → Nat → Option (β × Nat))
    (b : Bytes) (i : Nat) : Option ((α × β) × Nat) :=
  (r b i).bind fun p => (s b p.2).map fun q => ((p.1, q.1), q.2)

/-- `n` times the same reader. -/
def repeatN (r : Bytes → Nat → Option (α × Nat)) : Nat → Bytes → Nat → Option (List α × Nat)
  | 0, _, i => some ([], i)
  | n + 1, b, i => (r b i).bind fun p => (repeatN r n b p.2).map fun q => (p.1 :: q.1, q.2)

theorem Reads.pair {c : Codec α} {d : Codec β} {r : Bytes → Nat → Option (α × Nat)}
    {s : Bytes → Nat → Option (β × Nat)} (hr : Reads c r) (hs : Reads d s) :
    Reads (c.pair d) (andRead r s) := by
  intro b i hi
  unfold andRead
  rw [hr b i hi]
  simp only [Codec.pair]
  cases hdec : c.dec (b.drop i) with
  | none => rfl
  | some p =>
    have hnext := hs b (b.length - p.2.length) (Nat.sub_le ..)
    rw [Codec.drop_of_dec (a := p.1) hdec] at hnext
    simp only [Option.map_some, Option.bind_some, hnext, Option.map_map]
    rfl

/-- `n` values, one after another. -/
def Codec.times (n : Nat) (c : Codec α) : Codec (List α) where
  Valid l := l.length = n ∧ ∀ a ∈ l, c.Valid a
  enc l := l.flatMap c.enc
  dec b := c.decMany n b
  dec_enc := by
    rintro l ⟨rfl, hl⟩ rest
    exact c.decMany_flatMap hl rest
  enc_of_dec := by
    intro b l rest h
    obtain ⟨hlen, hl, hb⟩ := c.decMany_eq_some h
    exact ⟨⟨hlen, hl⟩, hb⟩

theorem Reads.repeatN {c : Codec α} {r : Bytes → Nat → Option (α × Nat)} (h : Reads c r)
    (n : Nat) : Reads (c.times n) (Clarity.repeatN r n) := by
  intro b i hi
  simp only [Codec.times]
  induction n generalizing i with
  | zero =>
    simp only [Clarity.repeatN, Codec.decMany, Option.map_some, List.length_drop]
    rw [Nat.sub_sub_self hi]
  | succ n ih =>
    simp only [Clarity.repeatN, Codec.decMany]
    rw [h b i hi]
    cases hdec : c.dec (b.drop i) with
    | none => rfl
    | some p =>
      have hnext := ih (b.length - p.2.length) (Nat.sub_le ..)
      rw [Codec.drop_of_dec (a := p.1) hdec] at hnext
      simp only [Option.map_some, Option.bind_some, hnext, Option.map_map]
      rfl

/-- Reading the whole input. -/
def readAll (r : Bytes → Nat → Option (α × Nat)) (b : Bytes) : Option α :=
  (r b 0).bind fun p => if p.2 = b.length then some p.1 else none

/-- **Forward and back**: the whole input is read exactly where it is an encoding. -/
theorem Reads.readAll_eq_some_iff {c : Codec α} {r : Bytes → Nat → Option (α × Nat)}
    (h : Reads c r) {b : Bytes} {a : α} : readAll r b = some a ↔ c.Valid a ∧ b = c.enc a := by
  unfold readAll
  constructor
  · intro hread
    obtain ⟨⟨a', j⟩, hr, hend⟩ := Option.bind_eq_some_iff.mp hread
    split at hend
    · rename_i hj
      obtain rfl := Option.some.inj hend
      obtain ⟨-, hdec⟩ := (h.some_iff (Nat.zero_le _)).mp hr
      obtain ⟨hvalid, hb⟩ := c.enc_of_dec hdec
      have hj' : j = b.length := hj
      rw [hj', List.drop_length, List.append_nil, List.drop_zero] at hb
      exact ⟨hvalid, hb⟩
    · exact nomatch hend
  · rintro ⟨hvalid, rfl⟩
    have hr := h.append hvalid [] []
    rw [List.append_nil, List.nil_append, List.length_nil, Nat.zero_add] at hr
    rw [hr, Option.bind_some, if_pos rfl]

/-! ## 3. Numbers and byte strings -/

/-- A byte string after its length in 32 bits. -/
def Codec.vec32 : Codec Bytes where
  Valid v := v.length < 256 ^ 4
  enc v := (Codec.le 4).enc v.length ++ v
  dec b := ((Codec.le 4).dec b).bind fun p => Codec.takeExact p.1 p.2
  dec_enc := by
    intro v hv rest
    rw [List.append_assoc, (Codec.le 4).dec_enc hv, Option.bind_some, Codec.takeExact_append rfl]
  enc_of_dec := by
    intro b v rest h
    obtain ⟨⟨n, r⟩, hn, hv⟩ := Option.bind_eq_some_iff.mp h
    obtain ⟨hlt, rfl⟩ := (Codec.le 4).enc_of_dec hn
    obtain ⟨rfl, hr⟩ := Codec.takeExact_eq_some hv
    have hr' : r = v ++ rest := hr
    rw [hr']
    exact ⟨hlt, (List.append_assoc ..).symm⟩

theorem Slice.get_eq_takeExact {b : Bytes} {i : Nat} (hi : i ≤ b.length) (n : Nat) :
    Slice.get b i (i + n) = (Codec.takeExact n (b.drop i)).map Prod.fst := by
  unfold Slice.get Codec.takeExact
  have hiff : (i ≤ i + n ∧ i + n ≤ b.length) ↔ n ≤ (b.drop i).length := by
    rw [List.length_drop]
    omega
  by_cases h : n ≤ (b.drop i).length
  · rw [if_pos (hiff.mpr h), if_pos h, Nat.add_sub_cancel_left, Option.map_some]
  · rw [if_neg (fun h' => h (hiff.mp h')), if_neg h, Option.map_none]

/-- The next four bytes as a number. -/
def readU32 (b : Bytes) (i : Nat) : Option (Nat × Nat) :=
  (Slice.u32 b i).map fun n => (n, i + 4)

/-- A length and as many bytes. -/
def readBytes (b : Bytes) (i : Nat) : Option (Bytes × Nat) :=
  (readU32 b i).bind fun p => (Slice.get b p.2 (p.2 + p.1)).map fun v => (v, p.2 + p.1)

theorem reads_u32 : Reads (Codec.le 4) readU32 := by
  intro b i hi
  unfold readU32 Slice.u32 Codec.le
  rw [Slice.get_eq_takeExact hi]
  simp only [Option.map_map]
  cases htake : Codec.takeExact 4 (b.drop i) with
  | none => rfl
  | some p =>
    obtain ⟨hlen, hdrop⟩ := Codec.takeExact_eq_some (a := p.1) htake
    have hsum := congrArg List.length hdrop
    simp only [List.length_drop, List.length_append] at hsum
    simp only [Option.map_some, Function.comp]
    congr 2
    omega

theorem reads_bytes : Reads Codec.vec32 readBytes := by
  intro b i hi
  unfold readBytes
  rw [reads_u32 b i hi]
  simp only [Codec.vec32]
  cases hlen : (Codec.le 4).dec (b.drop i) with
  | none => rfl
  | some p =>
    have hrest := Codec.drop_of_dec (a := p.1) hlen
    simp only [Option.map_some, Option.bind_some]
    rw [Slice.get_eq_takeExact (Nat.sub_le ..), hrest]
    cases htake : Codec.takeExact p.1 p.2 with
    | none => rfl
    | some q =>
      obtain ⟨hq, hsplit⟩ := Codec.takeExact_eq_some (a := q.1) htake
      have hsum := congrArg List.length hsplit
      rw [List.length_append] at hsum
      have hle : p.2.length ≤ b.length := by
        rw [← hrest, List.length_drop]
        exact Nat.sub_le ..
      simp only [Option.map_some]
      congr 2
      omega

/-- A list after its length in 32 bits. -/
def Codec.list32 (c : Codec α) : Codec (List α) where
  Valid l := l.length < 256 ^ 4 ∧ ∀ a ∈ l, c.Valid a
  enc l := (Codec.le 4).enc l.length ++ l.flatMap c.enc
  dec b := ((Codec.le 4).dec b).bind fun p => c.decMany p.1 p.2
  dec_enc := by
    intro l hl rest
    rw [List.append_assoc, (Codec.le 4).dec_enc hl.1, Option.bind_some, c.decMany_flatMap hl.2]
  enc_of_dec := by
    intro b l rest h
    obtain ⟨⟨n, r⟩, hn, hl⟩ := Option.bind_eq_some_iff.mp h
    obtain ⟨hlt, rfl⟩ := (Codec.le 4).enc_of_dec hn
    obtain ⟨rfl, hv, hr⟩ := c.decMany_eq_some hl
    have hr' : r = l.flatMap c.enc ++ rest := hr
    rw [hr']
    exact ⟨⟨hlt, hv⟩, (List.append_assoc ..).symm⟩

/-- A count and as many values. -/
def readList (r : Bytes → Nat → Option (α × Nat)) (b : Bytes) (i : Nat) :
    Option (List α × Nat) :=
  (readU32 b i).bind fun p => repeatN r p.1 b p.2

theorem Reads.list {c : Codec α} {r : Bytes → Nat → Option (α × Nat)} (h : Reads c r) :
    Reads c.list32 (readList r) := by
  intro b i hi
  unfold readList
  rw [reads_u32 b i hi]
  simp only [Codec.list32]
  cases hlen : (Codec.le 4).dec (b.drop i) with
  | none => rfl
  | some p =>
    have hmany := h.repeatN p.1 b (b.length - p.2.length) (Nat.sub_le ..)
    rw [Codec.drop_of_dec (a := p.1) hlen] at hmany
    simp only [Option.map_some, Option.bind_some]
    exact hmany

end Clarity
