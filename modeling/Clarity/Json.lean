/-
  Clarity/Json.lean
  =================
  **JSON text**, as far as a reader and a writer of one type of value have to agree.

  A `JsonCodec` is what a caller relies on: what was written is read back, and a text that
  is cut off anywhere is not read as something else.  Every `Codec` gives one
  (`Codec.json`), because no encoding is a proper beginning of another; the pieces below
  are the compact JSON texts that need no escapes.

    * `Codec.json` — a codec as a reader and a writer of whole texts;
    * `Codec.quoted`, `Codec.number`, `Codec.bracketed` — strings, numbers, arrays.
-/
import Clarity.Bincode
import Mathlib.Data.List.TakeWhile

namespace Clarity

/-- A writer and a reader of JSON texts of one type, for the values that are `Plain`. -/
structure JsonCodec (α : Type) where
  Plain : α → Prop
  write : α → Bytes
  read : Bytes → Except String α
  read_write : ∀ {a}, Plain a → read (write a) = .ok a
  read_cut : ∀ {a n}, Plain a → n < (write a).length →
    ∃ message, read ((write a).take n) = .error message

namespace Codec

variable {α : Type}

/-! ## 1. Whole texts -/

/-- The text is one encoding and nothing after it. -/
def json (c : Codec α) : JsonCodec α where
  Plain := c.Valid
  write := c.enc
  read b := match c.dec b with
    | some (a, []) => .ok a
    | _ => .error "invalid JSON"
  read_write := by
    intro a ha
    rw [c.dec_enc_nil ha]
  read_cut := by
    intro a n ha hn
    cases hdec : c.dec ((c.enc a).take n) with
    | none => exact ⟨_, rfl⟩
    | some p =>
      obtain ⟨b, rest⟩ := p
      obtain ⟨hb, htake⟩ := c.enc_of_dec hdec
      -- The whole text is then the encoding of `b`, what is left of the cut, and the rest.
      have hwhole : c.enc a ++ [] = c.enc b ++ (rest ++ (c.enc a).drop n) := by
        rw [List.append_nil, ← List.append_assoc, ← htake, List.take_append_drop]
      obtain ⟨-, hnil⟩ := c.enc_append_inj ha hb hwhole
      have hdrop : (c.enc a).drop n = [] := (List.append_eq_nil_iff.mp hnil.symm).2
      exact absurd (List.drop_eq_nil_iff.mp hdrop) (Nat.not_le.mpr hn)

/-! ## 2. Pieces -/

/-- Fixed text: brackets, names, separators. -/
def literal (text : Bytes) : Codec Unit where
  Valid _ := True
  enc _ := text
  dec b := if text <+: b then some ((), b.drop text.length) else none
  dec_enc := by
    intro _ _ rest
    rw [if_pos (List.prefix_append text rest), List.drop_left]
  enc_of_dec := by
    intro b _ rest h
    split at h
    · obtain ⟨-, rfl⟩ := Prod.mk.inj (Option.some.inj h)
      exact ⟨trivial, (List.prefix_iff_eq_append.mp ‹_›).symm⟩
    · cases h

/-- A value between fixed texts. -/
def between (c : Codec α) (before after : Bytes) : Codec α :=
  ((literal before).pair (c.pair (literal after))).imap (fun a => ((), a, ())) (fun p => some p.2.1)
    (fun _ => rfl)
    (by
      intro p a h
      obtain rfl := Option.some.inj h
      rfl)

theorem between_valid {c : Codec α} {before after : Bytes} {a : α} :
    (c.between before after).Valid a ↔ c.Valid a :=
  ⟨fun h => h.2.1, fun h => ⟨trivial, h, trivial⟩⟩

/-- The bytes that stand for themselves between quotes. -/
def plainByte (b : UInt8) : Bool := 32 ≤ b && b < 128 && b ≠ 34 && b ≠ 92

/-- The characters of these bytes. -/
def plainChar (c : Char) : Bool := c.toNat < 128 && plainByte c.toNat.toUInt8

theorem byte_of_plainChar {c : Char} (h : plainChar c = true) :
    plainByte c.toNat.toUInt8 = true ∧ Char.ofNat c.toNat.toUInt8.toNat = c := by
  obtain ⟨hlt, hplain⟩ := Bool.and_eq_true_iff.mp h
  have hsmall : c.toNat < 2 ^ 8 := by
    have := of_decide_eq_true hlt
    omega
  refine ⟨hplain, ?_⟩
  rw [show c.toNat.toUInt8.toNat = c.toNat from UInt8.toNat_ofNat_of_lt' hsmall, Char.ofNat_toNat]

theorem char_of_plainByte {b : UInt8} (h : plainByte b = true) :
    plainChar (Char.ofNat b.toNat) = true ∧ (Char.ofNat b.toNat).toNat.toUInt8 = b := by
  have hlt : b.toNat < 128 := by
    simp only [plainByte, Bool.and_eq_true, decide_eq_true_eq] at h
    exact UInt8.lt_iff_toNat_lt.mp h.1.1.2
  have hchar : (Char.ofNat b.toNat).toNat = b.toNat := by
    have hvalid : b.toNat.isValidChar := .inl (by omega)
    have haux : Char.ofNat b.toNat = Char.ofNatAux b.toNat hvalid := dif_pos hvalid
    rw [haux]
    rfl
  have hbyte : (Char.ofNat b.toNat).toNat.toUInt8 = b := by
    rw [hchar]
    exact UInt8.ofNat_toNat
  refine ⟨?_, hbyte⟩
  rw [plainChar, hbyte, h, hchar, Bool.and_true]
  exact decide_eq_true hlt

theorem chars_ascii {s : String} (h : ∀ c ∈ s.toList, plainChar c = true) :
    String.ofList ((ascii s).map fun b => Char.ofNat b.toNat) = s := by
  have hmap : (ascii s).map (fun b => Char.ofNat b.toNat) = s.toList := by
    rw [ascii, List.map_map]
    exact (List.map_congr_left fun c hc => (byte_of_plainChar (h c hc)).2).trans (List.map_id _)
  rw [hmap, String.ofList_toList]

/-- The run of bytes that satisfy `p`, and the byte after it. -/
theorem takeWhile_append_stop {p : UInt8 → Bool} {front : Bytes} (stop : UInt8)
    (hfront : ∀ b ∈ front, p b = true) (hstop : p stop = false) (rest : Bytes) :
    (front ++ stop :: rest).takeWhile p = front ∧
      (front ++ stop :: rest).dropWhile p = stop :: rest := by
  refine ⟨?_, ?_⟩
  · rw [List.takeWhile_append_of_pos hfront, List.takeWhile_cons_of_neg (by simp [hstop]),
      List.append_nil]
  · rw [List.dropWhile_append_of_pos hfront, List.dropWhile_cons_of_neg (by simp [hstop])]

/-- A string and its closing quote. -/
def untilQuote : Codec String where
  Valid s := ∀ c ∈ s.toList, plainChar c = true
  enc s := ascii s ++ [34]
  dec b := match b.dropWhile plainByte with
    | 34 :: rest => some (String.ofList ((b.takeWhile plainByte).map fun b => Char.ofNat b.toNat), rest)
    | _ => none
  dec_enc := by
    intro s hs rest
    have hfront : ∀ b ∈ ascii s, plainByte b = true := by
      intro b hb
      obtain ⟨c, hc, rfl⟩ := List.mem_map.mp hb
      exact (byte_of_plainChar (hs c hc)).1
    obtain ⟨htake, hdrop⟩ := takeWhile_append_stop 34 hfront rfl rest
    rw [List.append_assoc, List.singleton_append]
    simp only [htake, hdrop, chars_ascii hs]
  enc_of_dec := by
    intro b s rest h
    split at h
    · rename_i tail hdrop
      obtain ⟨rfl, rfl⟩ := Prod.mk.inj (Option.some.inj h)
      have hplain : ∀ x ∈ b.takeWhile plainByte, plainByte x = true :=
        fun x hx => List.mem_takeWhile_imp hx
      have hback : ascii (String.ofList ((b.takeWhile plainByte).map fun b => Char.ofNat b.toNat)) =
          b.takeWhile plainByte := by
        rw [ascii, String.toList_ofList, List.map_map]
        exact (List.map_congr_left fun x hx => (char_of_plainByte (hplain x hx)).2).trans
          (List.map_id _)
      refine ⟨?_, ?_⟩
      · intro c hc
        rw [String.toList_ofList] at hc
        obtain ⟨x, hx, rfl⟩ := List.mem_map.mp hc
        exact (char_of_plainByte (hplain x hx)).1
      · rw [hback, List.append_assoc, List.singleton_append, ← hdrop, List.takeWhile_append_dropWhile]
    · cases h

/-- A string without escapes. -/
def quoted : Codec String := untilQuote.between [34] []

theorem quoted_valid {s : String} : quoted.Valid s ↔ ∀ c ∈ s.toList, plainChar c = true :=
  between_valid

def digitByte (b : UInt8) : Bool := 48 ≤ b && b ≤ 57

theorem digitByte_of_isDigit {c : Char} (h : c.isDigit = true) :
    digitByte c.toNat.toUInt8 = true ∧ Char.ofNat c.toNat.toUInt8.toNat = c := by
  have hbounds : 48 ≤ c.toNat ∧ c.toNat ≤ 57 := by
    simp only [Char.isDigit, Bool.and_eq_true, decide_eq_true_eq] at h
    exact h
  have hsmall : c.toNat.toUInt8.toNat = c.toNat :=
    UInt8.toNat_ofNat_of_lt' (show c.toNat < 2 ^ 8 by omega)
  refine ⟨?_, by rw [hsmall, Char.ofNat_toNat]⟩
  simp only [digitByte, Bool.and_eq_true, decide_eq_true_eq, UInt8.le_iff_toNat_le, hsmall]
  exact hbounds

/-- The decimal digits of a number. -/
def decimal (n : Nat) : Bytes := (Nat.toDigits 10 n).map fun c => c.toNat.toUInt8

def ofDecimal (digits : Bytes) : Nat :=
  Nat.ofDigitChars 10 (digits.map fun b => Char.ofNat b.toNat) 0

theorem digitByte_of_mem_decimal {n : Nat} {b : UInt8} (h : b ∈ decimal n) :
    digitByte b = true := by
  obtain ⟨c, hc, rfl⟩ := List.mem_map.mp h
  exact (digitByte_of_isDigit (Nat.isDigit_of_mem_toDigits (by decide) (by decide) hc)).1

theorem ofDecimal_decimal (n : Nat) : ofDecimal (decimal n) = n := by
  have hmap : (decimal n).map (fun b => Char.ofNat b.toNat) = Nat.toDigits 10 n := by
    rw [decimal, List.map_map]
    refine (List.map_congr_left fun c hc => ?_).trans (List.map_id _)
    exact (digitByte_of_isDigit (Nat.isDigit_of_mem_toDigits (by decide) (by decide) hc)).2
  rw [ofDecimal, hmap, Nat.ofDigitChars_ten_toDigits]

/-- A `u32` in decimal, and the comma after it. -/
def number : Codec UInt32 where
  Valid _ := True
  enc n := decimal n.toNat ++ [44]
  dec b := match b.dropWhile digitByte with
    | 44 :: rest =>
      if ofDecimal (b.takeWhile digitByte) < 2 ^ 32 ∧
          decimal (ofDecimal (b.takeWhile digitByte)) = b.takeWhile digitByte then
        some (UInt32.ofNat (ofDecimal (b.takeWhile digitByte)), rest)
      else none
    | _ => none
  dec_enc := by
    intro n _ rest
    obtain ⟨htake, hdrop⟩ := takeWhile_append_stop 44
      (fun b hb => digitByte_of_mem_decimal (n := n.toNat) hb) rfl rest
    rw [List.append_assoc, List.singleton_append]
    simp only [htake, hdrop, ofDecimal_decimal]
    rw [if_pos ⟨n.toNat_lt, trivial⟩, UInt32.ofNat_toNat]
  enc_of_dec := by
    intro b n rest h
    split at h
    · rename_i tail hdrop
      split at h
      · rename_i hcond
        obtain ⟨rfl, rfl⟩ := Prod.mk.inj (Option.some.inj h)
        refine ⟨trivial, ?_⟩
        rw [UInt32.toNat_ofNat_of_lt' hcond.1, hcond.2, List.append_assoc, List.singleton_append,
          ← hdrop, List.takeWhile_append_dropWhile]
      · cases h
    · cases h

/-- The rest of an array after a value; `n` bounds how many values there are. -/
def decMore (c : Codec α) : Nat → Bytes → Option (List α × Bytes)
  | 0, b => if b.head? = some 93 then some ([], b.tail) else none
  | n + 1, b =>
    if b.head? = some 93 then some ([], b.tail)
    else if b.head? = some 44 then
      (c.dec b.tail).bind fun p => (c.decMore n p.2).map fun q => (p.1 :: q.1, q.2)
    else none

def encMore (c : Codec α) (l : List α) : Bytes := l.flatMap (fun a => 44 :: c.enc a) ++ [93]

theorem encMore_cons (c : Codec α) (a : α) (l : List α) :
    c.encMore (a :: l) = 44 :: (c.enc a ++ c.encMore l) := by
  rw [encMore, List.flatMap_cons, List.cons_append, List.cons_append, List.append_assoc, encMore]

theorem length_le_encMore (c : Codec α) (l : List α) : l.length ≤ (c.encMore l).length := by
  induction l with
  | nil => exact Nat.zero_le _
  | cons a l ih =>
    rw [encMore_cons, List.length_cons, List.length_cons, List.length_append]
    omega

theorem decMore_encMore (c : Codec α) {l : List α} (h : ∀ a ∈ l, c.Valid a) {n : Nat}
    (hn : l.length ≤ n) (rest : Bytes) : c.decMore n (c.encMore l ++ rest) = some (l, rest) := by
  induction l generalizing n with
  | nil => cases n <;> rfl
  | cons a l ih =>
    obtain ⟨ha, hl⟩ := List.forall_mem_cons.mp h
    cases n with
    | zero => exact absurd hn (by simp)
    | succ n =>
      have hopen : (44 :: (c.enc a ++ (c.encMore l ++ rest))).head? = some 44 := rfl
      rw [encMore_cons, List.cons_append, List.append_assoc, decMore, hopen, if_neg (by decide),
        if_pos rfl, List.tail_cons, c.dec_enc ha, Option.bind_some,
        ih hl (Nat.le_of_succ_le_succ hn), Option.map_some]

theorem eq_cons_tail {b : Bytes} {x : UInt8} (h : b.head? = some x) : b = x :: b.tail := by
  obtain ⟨tail, rfl⟩ := List.head?_eq_some_iff.mp h
  rfl

theorem decMore_eq_some (c : Codec α) {n : Nat} {b rest : Bytes} {l : List α}
    (h : c.decMore n b = some (l, rest)) :
    (∀ a ∈ l, c.Valid a) ∧ b = c.encMore l ++ rest := by
  have hend : ∀ {b : Bytes}, b.head? = some 93 → some (([] : List α), b.tail) = some (l, rest) →
      (∀ a ∈ l, c.Valid a) ∧ b = c.encMore l ++ rest := by
    intro b hb heq
    obtain ⟨rfl, rfl⟩ := Prod.mk.inj (Option.some.inj heq)
    exact ⟨by simp, eq_cons_tail hb⟩
  induction n generalizing b l with
  | zero =>
    rw [decMore] at h
    split at h
    · exact hend ‹_› h
    · cases h
  | succ n ih =>
    rw [decMore] at h
    split at h
    · exact hend ‹_› h
    · split at h
      · simp only [Option.bind_eq_some_iff, Option.map_eq_some_iff, Prod.mk.injEq] at h
        obtain ⟨⟨a, r⟩, ha, ⟨l', s⟩, hl, rfl, rfl⟩ := h
        obtain ⟨hv, htail⟩ := c.enc_of_dec ha
        obtain ⟨hvs, hr⟩ := ih hl fun hb heq => by
          obtain ⟨rfl, rfl⟩ := Prod.mk.inj (Option.some.inj heq)
          exact ⟨by simp, eq_cons_tail hb⟩
        have hr' : r = c.encMore l' ++ s := hr
        refine ⟨List.forall_mem_cons.mpr ⟨hv, hvs⟩, ?_⟩
        rw [eq_cons_tail ‹b.head? = some 44›, htail, hr', encMore_cons, List.cons_append,
          List.append_assoc]
      · cases h

/-- An array of values that all begin with one byte, which is not the end of an array. -/
def bracketed (c : Codec α) (first : UInt8) (hfirst : first ≠ 93)
    (hc : ∀ a, (c.enc a).head? = some first) : Codec (List α) where
  Valid l := ∀ a ∈ l, c.Valid a
  enc
    | [] => [91, 93]
    | a :: l => 91 :: (c.enc a ++ c.encMore l)
  dec b :=
    if b.head? = some 91 then
      if b.tail.head? = some 93 then some ([], b.tail.tail)
      else (c.dec b.tail).bind fun p =>
        (c.decMore p.2.length p.2).map fun q => (p.1 :: q.1, q.2)
    else none
  dec_enc := by
    intro l hl rest
    cases l with
    | nil => rfl
    | cons a l =>
      obtain ⟨ha, htail⟩ := List.forall_mem_cons.mp hl
      have hopen : (91 :: (c.enc a ++ (c.encMore l ++ rest))).head? = some 91 := rfl
      have hhead : (c.enc a ++ (c.encMore l ++ rest)).head? = some first := by
        rw [List.head?_append, hc a, Option.some_or]
      have hnot : (c.enc a ++ (c.encMore l ++ rest)).head? ≠ some 93 := by
        rw [hhead]
        exact fun heq => hfirst (Option.some.inj heq)
      have hroom : l.length ≤ (c.encMore l ++ rest).length := by
        have := c.length_le_encMore l
        rw [List.length_append]
        omega
      rw [List.cons_append, List.append_assoc, hopen, if_pos rfl, List.tail_cons, if_neg hnot,
        c.dec_enc ha, Option.bind_some, c.decMore_encMore htail hroom, Option.map_some]
  enc_of_dec := by
    intro b l rest h
    split at h
    · split at h
      · obtain ⟨rfl, rfl⟩ := Prod.mk.inj (Option.some.inj h)
        refine ⟨by simp, ?_⟩
        rw [eq_cons_tail ‹b.head? = some 91›, eq_cons_tail ‹b.tail.head? = some 93›]
        rfl
      · simp only [Option.bind_eq_some_iff, Option.map_eq_some_iff, Prod.mk.injEq] at h
        obtain ⟨⟨a, r⟩, ha, ⟨l', s⟩, hl, rfl, rfl⟩ := h
        obtain ⟨hv, htail⟩ := c.enc_of_dec ha
        obtain ⟨hvs, hr⟩ := c.decMore_eq_some hl
        have hr' : r = c.encMore l' ++ s := hr
        refine ⟨List.forall_mem_cons.mpr ⟨hv, hvs⟩, ?_⟩
        rw [eq_cons_tail ‹b.head? = some 91›, htail, hr', List.cons_append, List.append_assoc]
    · cases h

end Codec

end Clarity
