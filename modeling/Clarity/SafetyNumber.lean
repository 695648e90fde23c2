/-
  Clarity/SafetyNumber.lean
  =========================
  **Safety numbers** (`core/src/safety.rs`): the digits that two contacts read to each
  other.

  Each identity is hashed 5200 times into a fingerprint; the smaller fingerprint comes
  first, and each is written as six groups of five digits.  The hash is a parameter, any
  function to 64 bytes.

    * `ordered_comm` — ordering a pair does not depend on how it was given, ties
      included;
    * `toNat_chunkValue` — a group's number, with no bit lost in the `u64`;
    * `isGroup_padLeft` — it is written with five digits, zeros in front;
    * `toList_safetyNumber` — the whole string.
-/
import Clarity.Content
import Mathlib.Data.List.Induction
import Mathlib.Logic.Function.Iterate

namespace Clarity

/-- `[u8; 64]`: a SHA-512 digest. -/
structure Bytes64 where
  bytes : Bytes
  length_eq : bytes.length = 64
deriving DecidableEq

namespace Bytes64

theorem ext_bytes {a b : Bytes64} (h : a.bytes = b.bytes) : a = b := by
  cases a
  cases b
  simpa using h

instance : Ord Bytes64 := ⟨compareOn Bytes64.bytes⟩

instance : Std.TransOrd Bytes64 :=
  inferInstanceAs (Std.TransCmp (compareOn Bytes64.bytes))

instance : Std.LawfulEqOrd Bytes64 where
  eq_of_compare h := ext_bytes (Std.LawfulEqOrd.eq_of_compare (α := Bytes) h)

end Bytes64

/-! ## 1. The two in order -/

section Ordered

variable {α : Type} [Ord α]

/-- The pair with the smaller one first: `if a <= b { (a, b) } else { (b, a) }`. -/
def ordered (a b : α) : α × α := if (compare a b).isLE then (a, b) else (b, a)

theorem ordered_perm (a b : α) : [(ordered a b).1, (ordered a b).2].Perm [a, b] := by
  unfold ordered
  split
  · exact List.Perm.refl _
  · exact List.Perm.swap a b []

variable [Std.OrientedOrd α]

theorem isLE_ordered (a b : α) : (compare (ordered a b).1 (ordered a b).2).isLE := by
  unfold ordered
  split
  · assumption
  · rename_i hle
    have hlt : compare b a = .lt := Std.OrientedCmp.lt_of_not_isLE hle
    rw [hlt]
    rfl

theorem ordered_comm [Std.LawfulEqOrd α] (a b : α) : ordered a b = ordered b a := by
  unfold ordered
  by_cases hab : (compare a b).isLE
  · by_cases hba : (compare b a).isLE
    · -- a tie: the two are equal
      have heq : a = b := Std.LawfulEqOrd.eq_of_compare (Std.OrientedCmp.isLE_antisymm hab hba)
      rw [heq]
    · rw [if_pos hab, if_neg hba]
  · have hba : (compare b a).isLE := by
      rw [Std.OrientedCmp.lt_of_not_isLE hab]
      rfl
    rw [if_neg hab, if_pos hba]

end Ordered

/-! ## 2. The functions of the source -/

/-- Iteration count for the fingerprint hash. -/
def ITERATIONS : Nat := 5200

/-- Groups of digits taken from each identity's fingerprint. -/
def CHUNKS_PER_IDENTITY : Nat := 6

/-- Iterated hash of a single identity key, domain-separated. -/
def fingerprint (sha512 : Bytes → Bytes64) (identity : Bytes32) : Bytes64 :=
  (fun digest => sha512 (digest.bytes ++ identity.bytes))^[ITERATIONS - 1]
    (sha512 (ascii "Clarity-safety-number-v1" ++ identity.bytes))

/-- `(acc << 8) | u64::from(byte)`. -/
def pushByte (acc : UInt64) (b : UInt8) : UInt64 := (acc <<< 8) ||| b.toUInt64

/-- Five bytes as a big-endian integer, and its remainder. -/
def chunkValue (fingerprint : Bytes64) (chunkIndex : Nat) : UInt64 :=
  let start := chunkIndex * 5
  let acc := (List.range 5).foldl
    (fun acc i => pushByte acc (fingerprint.bytes.getD (start + i) 0)) 0
  acc % 100000

/-- Encode a fingerprint as groups of five decimal digits. -/
def pushDigits (out : String) (fingerprint : Bytes64) : String :=
  (List.range CHUNKS_PER_IDENTITY).foldl
    (fun out chunkIndex =>
      (if 0 < chunkIndex then out.push ' ' else out) ++
        padLeft 5 (chunkValue fingerprint chunkIndex).toNat) out

/-- The 60-digit safety number for a pair of identity keys. -/
def safetyNumber (sha512 : Bytes → Bytes64) (identityA identityB : Bytes32) : String :=
  let (first, second) := ordered (fingerprint sha512 identityA) (fingerprint sha512 identityB)
  pushDigits ((pushDigits "" first).push ' ') second

/-! ## 3. One group -/

/-- Five decimal digits. -/
def IsGroup (group : List Char) : Prop := group.length = 5 ∧ ∀ c ∈ group, c.isDigit

/-- The number that a list of bytes is in base 256, most significant byte first. -/
def bigEndian (bytes : Bytes) : Nat := bytes.foldl (fun acc b => 256 * acc + b.toNat) 0

/-- One more byte under the seven that a `u64` can take. -/
theorem toNat_pushByte {acc : UInt64} (h : acc.toNat < 2 ^ 56) (b : UInt8) :
    (pushByte acc b).toNat = 256 * acc.toNat + b.toNat := by
  have hb : b.toNat < 2 ^ 8 := b.toNat_lt
  have hshift : (acc <<< 8).toNat = acc.toNat <<< 8 := by
    rw [UInt64.toNat_shiftLeft]
    refine Nat.mod_eq_of_lt ?_
    show acc.toNat <<< 8 < 2 ^ 64
    rw [Nat.shiftLeft_eq]
    omega
  rw [pushByte, UInt64.toNat_or, hshift, UInt8.toNat_toUInt64, ← Nat.shiftLeft_add_eq_or_of_lt hb,
    Nat.shiftLeft_eq]
  omega

/-- As many bytes as fit are pushed without a loss. -/
theorem toNat_foldl_pushByte {bytes : Bytes} (h : bytes.length ≤ 7) :
    (bytes.foldl pushByte 0).toNat = bigEndian bytes ∧
      bigEndian bytes < 256 ^ bytes.length := by
  induction bytes using List.reverseRecOn with
  | nil => exact ⟨rfl, Nat.one_pos⟩
  | append_singleton bytes b ih =>
    rw [List.length_append, List.length_singleton] at h
    obtain ⟨hvalue, hlt⟩ := ih (by omega)
    have hb : b.toNat < 256 := b.toNat_lt
    have hroom : bigEndian bytes < 2 ^ 56 := by
      calc bigEndian bytes < 256 ^ bytes.length := hlt
        _ ≤ 256 ^ 6 := Nat.pow_le_pow_right (by decide) (by omega)
        _ ≤ 2 ^ 56 := by decide
    have hsnoc : bigEndian (bytes ++ [b]) = 256 * bigEndian bytes + b.toNat := by
      simp [bigEndian, List.foldl_append]
    refine ⟨?_, ?_⟩
    · rw [List.foldl_append, List.foldl_cons, List.foldl_nil, hsnoc,
        toNat_pushByte (by rw [hvalue]; exact hroom), hvalue]
    · rw [hsnoc, List.length_append, List.length_singleton, Nat.pow_succ]
      omega

/-- The five bytes of a group. -/
def chunkBytes (fingerprint : Bytes64) (chunkIndex : Nat) : Bytes :=
  (List.range 5).map fun i => fingerprint.bytes.getD (chunkIndex * 5 + i) 0

/-- The groups read the fingerprint from its start, without a gap. -/
theorem chunkBytes_eq (fingerprint : Bytes64) {chunkIndex : Nat} (h : chunkIndex < 12) :
    chunkBytes fingerprint chunkIndex = (fingerprint.bytes.drop (chunkIndex * 5)).take 5 := by
  have hlen := fingerprint.length_eq
  apply List.ext_getElem
  · simp only [chunkBytes, List.length_map, List.length_range, List.length_take, List.length_drop]
    omega
  · intro i hi _
    simp only [chunkBytes, List.length_map, List.length_range] at hi
    have hin : chunkIndex * 5 + i < fingerprint.bytes.length := by omega
    simp [chunkBytes, List.getD_eq_getElem?_getD, hin]

theorem toNat_chunkValue (fingerprint : Bytes64) (chunkIndex : Nat) :
    (chunkValue fingerprint chunkIndex).toNat =
      bigEndian (chunkBytes fingerprint chunkIndex) % 100000 := by
  have hfold : (chunkBytes fingerprint chunkIndex).foldl pushByte 0 =
      (List.range 5).foldl
        (fun acc i => pushByte acc (fingerprint.bytes.getD (chunkIndex * 5 + i) 0)) 0 :=
    List.foldl_map
  have hlen : (chunkBytes fingerprint chunkIndex).length ≤ 7 := by simp [chunkBytes]
  have hvalue := (toNat_foldl_pushByte hlen).1
  rw [chunkValue, ← hfold, UInt64.toNat_mod, hvalue]
  rfl

theorem toList_padLeft (width n : Nat) :
    (padLeft width n).toList =
      List.replicate (width - (Nat.toDigits 10 n).length) '0' ++ Nat.toDigits 10 n := by
  have hdigits : (toString n).toList = Nat.toDigits 10 n := Nat.toList_repr
  rw [padLeft, String.toList_append, String.toList_ofList, hdigits, ← String.length_toList,
    hdigits]

/-- A number below 100000 takes five digits, and they are its own. -/
theorem isGroup_padLeft {n : Nat} (h : n < 100000) :
    IsGroup (padLeft 5 n).toList ∧ Nat.ofDigitChars 10 (padLeft 5 n).toList 0 = n := by
  have hlen : (Nat.toDigits 10 n).length ≤ 5 :=
    (Nat.length_toDigits_le_iff (by decide) (by decide)).mpr h
  rw [toList_padLeft]
  refine ⟨⟨?_, ?_⟩, ?_⟩
  · rw [List.length_append, List.length_replicate]
    omega
  · intro c hc
    rcases List.mem_append.mp hc with hzero | hdigit
    · rw [List.eq_of_mem_replicate hzero]
      rfl
    · exact Nat.isDigit_of_mem_toDigits (by decide) (by decide) hdigit
  · rw [Nat.ofDigitChars_append, Nat.ofDigitChars_replicate_zero, Nat.mul_zero,
      Nat.ofDigitChars_ten_toDigits]

/-! ## 4. Groups with a space between them -/

theorem intercalate_append {sep : List Char} {xs ys : List (List Char)} (hx : xs ≠ [])
    (hy : ys ≠ []) :
    sep.intercalate (xs ++ ys) = sep.intercalate xs ++ sep ++ sep.intercalate ys := by
  induction xs with
  | nil => exact absurd rfl hx
  | cons x xs ih =>
    cases xs with
    | nil =>
      rw [List.singleton_append, List.intercalate_cons_of_ne_nil hy, List.intercalate_singleton,
        List.append_assoc]
    | cons x' xs =>
      rw [List.cons_append, List.intercalate_cons_of_ne_nil (by simp), ih (by simp),
        List.intercalate_cons_cons]
      simp only [List.append_assoc]

/-- Of `k` groups there are `6 k - 1` characters, `5 k` of them digits. -/
theorem length_intercalate_groups {gs : List (List Char)} (hne : gs ≠ [])
    (h : ∀ g ∈ gs, IsGroup g) :
    ([' '].intercalate gs).length + 1 = 6 * gs.length ∧
      (([' '].intercalate gs).filter Char.isDigit).length = 5 * gs.length := by
  induction gs with
  | nil => exact absurd rfl hne
  | cons g gs ih =>
    obtain ⟨hlen, hdigits⟩ := h g List.mem_cons_self
    have hall : (g.filter Char.isDigit).length = 5 := by
      rw [List.filter_eq_self.mpr hdigits, hlen]
    cases gs with
    | nil =>
      rw [List.intercalate_singleton, hlen, hall]
      exact ⟨rfl, rfl⟩
    | cons g' gs =>
      obtain ⟨hlength, hcount⟩ := ih (by simp) fun g'' hg => h g'' (List.mem_cons_of_mem _ hg)
      have hspace : ([' '].filter Char.isDigit).length = 0 := rfl
      rw [List.intercalate_cons_cons]
      simp only [List.length_append, List.filter_append, List.length_cons] at hlength hcount ⊢
      simp only [List.length_nil, hlen, hall, hspace]
      omega

/-! ## 5. The string -/

/-- The digit encoding of a fingerprint: six groups, each the remainder of five bytes. -/
structure Encodes (fingerprint : Bytes64) (gs : List (List Char)) : Prop where
  length : gs.length = CHUNKS_PER_IDENTITY
  group : ∀ g ∈ gs, IsGroup g
  value : ∀ i < CHUNKS_PER_IDENTITY, (gs[i]?).map (Nat.ofDigitChars 10 · 0) =
    some (bigEndian ((fingerprint.bytes.drop (i * 5)).take 5) % 100000)

/-- The six groups of a fingerprint, as the source writes them. -/
def groups (fingerprint : Bytes64) : List (List Char) :=
  (List.range CHUNKS_PER_IDENTITY).map fun chunkIndex =>
    (padLeft 5 (chunkValue fingerprint chunkIndex).toNat).toList

theorem chunkValue_lt (fingerprint : Bytes64) (chunkIndex : Nat) :
    (chunkValue fingerprint chunkIndex).toNat < 100000 := by
  rw [toNat_chunkValue]
  exact Nat.mod_lt _ (by decide)

theorem encodes_groups (fingerprint : Bytes64) : Encodes fingerprint (groups fingerprint) := by
  refine ⟨?_, ?_, ?_⟩
  · simp [groups]
  · intro g hg
    obtain ⟨chunkIndex, -, rfl⟩ := List.mem_map.mp hg
    exact (isGroup_padLeft (chunkValue_lt fingerprint chunkIndex)).1
  · intro i hi
    have hvalue := (isGroup_padLeft (chunkValue_lt fingerprint i)).2
    have hbytes := chunkBytes_eq fingerprint (Nat.lt_trans hi (by decide : 6 < 12))
    rw [← hbytes, ← toNat_chunkValue, ← hvalue]
    simp [groups, hi]

theorem groups_ne_nil (fingerprint : Bytes64) : groups fingerprint ≠ [] := by
  simp [groups, CHUNKS_PER_IDENTITY]

theorem toList_pushDigits (out : String) (fingerprint : Bytes64) :
    (pushDigits out fingerprint).toList =
      out.toList ++ [' '].intercalate (groups fingerprint) := by
  simp [pushDigits, groups, CHUNKS_PER_IDENTITY, List.range_succ, List.intercalate,
    List.intersperse]

theorem toList_safetyNumber (sha512 : Bytes → Bytes64) (a b : Bytes32) :
    (safetyNumber sha512 a b).toList = [' '].intercalate
      (groups (ordered (fingerprint sha512 a) (fingerprint sha512 b)).1 ++
        groups (ordered (fingerprint sha512 a) (fingerprint sha512 b)).2) := by
  rw [intercalate_append (groups_ne_nil _) (groups_ne_nil _), safetyNumber, toList_pushDigits,
    String.toList_push, toList_pushDigits, String.toList_empty, List.nil_append]

/-- **Safety numbers do not depend on the order, and have one format.**  Both contacts
    see the same string: the digits of the smaller fingerprint and then those of the
    other, in twelve groups of five, 71 characters in all. -/
theorem safetyNumber_symmetric (sha512 : Bytes → Bytes64) (a b : Bytes32) :
    safetyNumber sha512 a b = safetyNumber sha512 b a ∧
    ∃ (first second : Bytes64) (left right : List (List Char)),
      [first, second].Perm [fingerprint sha512 a, fingerprint sha512 b] ∧
      (compare first second).isLE ∧
      Encodes first left ∧ Encodes second right ∧
      (left ++ right).length = 12 ∧ (∀ g ∈ left ++ right, IsGroup g) ∧
      (safetyNumber sha512 a b).toList = [' '].intercalate (left ++ right) ∧
      (safetyNumber sha512 a b).length = 71 ∧
      ((safetyNumber sha512 a b).toList.filter Char.isDigit).length = 60 := by
  have hfirst := encodes_groups (ordered (fingerprint sha512 a) (fingerprint sha512 b)).1
  have hsecond := encodes_groups (ordered (fingerprint sha512 a) (fingerprint sha512 b)).2
  have htext := toList_safetyNumber sha512 a b
  have hcount : (groups (ordered (fingerprint sha512 a) (fingerprint sha512 b)).1 ++
      groups (ordered (fingerprint sha512 a) (fingerprint sha512 b)).2).length = 12 := by
    rw [List.length_append, hfirst.length, hsecond.length]
    rfl
  have hgroups : ∀ g ∈ groups (ordered (fingerprint sha512 a) (fingerprint sha512 b)).1 ++
      groups (ordered (fingerprint sha512 a) (fingerprint sha512 b)).2, IsGroup g := by
    intro g hg
    rcases List.mem_append.mp hg with hg | hg
    · exact hfirst.group g hg
    · exact hsecond.group g hg
  obtain ⟨hlength, hdigits⟩ := length_intercalate_groups
    (List.append_ne_nil_of_left_ne_nil (groups_ne_nil _) _) hgroups
  rw [hcount, ← htext] at hlength hdigits
  refine ⟨?_, _, _, _, _, ordered_perm _ _, isLE_ordered _ _, hfirst, hsecond, hcount, hgroups,
    htext, ?_, hdigits⟩
  · rw [safetyNumber, safetyNumber, ordered_comm]
  · rw [← String.length_toList]
    omega

end Clarity
