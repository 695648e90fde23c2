/-
  Clarity/ByteLists.lean
  ======================
  **Lists across the FFI.**  `encode_byte_list` of the Rust library writes what
  `decodeByteList` of the app reads, with an offset into the buffer
  (`ffi/src/lib.rs`, `ffi/clarity.dart`).

    * `decodeByteList_eq` — walking by offset is decoding the rest again and again;
    * `byte_lists_agree` — a list that fits comes back, from all of its bytes.
-/
import Clarity.Mailbox
import Clarity.Slices

namespace Clarity

/-- `decodeByteList` with the offset it ends at; `none` for a `RangeError`. -/
def decodeByteListAt (bytes : Bytes) : Option (List Bytes × Nat) :=
  if bytes.length < 4 then some ([], 0)
  else readList readBytes bytes 0

theorem encodeByteList_eq (items : List Bytes) :
    encodeByteList items = Codec.vec32.list32.enc items := rfl

theorem decodeItems_eq (count : Nat) (data : Bytes) :
    decodeItems count data = (Codec.vec32.decMany count data).map Prod.fst := by
  induction count generalizing data with
  | zero => rfl
  | succ count ih =>
    simp only [decodeItems, Codec.decMany, Codec.vec32, Codec.le, Codec.takeExact]
    by_cases hfour : data.length < 4
    · rw [if_pos hfour, if_neg (Nat.not_le.mpr hfour)]
      rfl
    · rw [if_neg hfour, if_pos (Nat.not_lt.mp hfour)]
      simp only [Option.map_some, Option.bind_some]
      by_cases hlen : (data.drop 4).length < Codec.ofLeBytes (data.take 4)
      · rw [if_pos hlen, if_neg (Nat.not_le.mpr hlen)]
        rfl
      · rw [if_neg hlen, if_pos (Nat.not_lt.mp hlen)]
        simp only [Option.bind_some, ih, Option.map_map]
        rfl

/-- The two ways to read a list. -/
theorem decodeByteList_eq (bytes : Bytes) :
    decodeByteList bytes = (decodeByteListAt bytes).map Prod.fst := by
  unfold decodeByteList decodeByteListAt
  by_cases hfour : bytes.length < 4
  · rw [if_pos hfour, if_pos hfour]
    rfl
  · rw [if_neg hfour, if_neg hfour]
    rw [reads_bytes.list bytes 0 (Nat.zero_le _), decodeItems_eq, List.drop_zero, Option.map_map]
    simp only [Codec.list32, Codec.le, Codec.takeExact]
    rw [if_pos (Nat.not_lt.mp hfour), Option.map_some, Option.bind_some]
    rfl

/-- **The two sides agree.**  The app reads back exactly the list that was written, and
    reads the whole buffer for it. -/
theorem byte_lists_agree {items : List Bytes} (hcount : items.length < 2 ^ 32)
    (hsize : ∀ item ∈ items, item.length < 2 ^ 32) :
    decodeByteListAt (encodeByteList items) = some (items, (encodeByteList items).length) := by
  have hfour : ¬ (encodeByteList items).length < 4 := by
    simp [encodeByteList]
  have hread := reads_bytes.list.append (a := items) ⟨hcount, hsize⟩ [] []
  rw [List.append_nil, List.nil_append, List.length_nil, Nat.zero_add] at hread
  unfold decodeByteListAt
  rw [if_neg hfour]
  exact hread

theorem byte_lists_agree_three :
    decodeByteListAt (encodeByteList [[1, 2, 3], [], [255]]) =
      some ([[1, 2, 3], [], [255]], 20) :=
  byte_lists_agree (by decide) (by decide)

end Clarity
