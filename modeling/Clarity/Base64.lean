/-
  Clarity/Base64.lean
  ===================
  **Base64 with padding**, as a pair of functions with the two facts a caller relies on
  (`Base64Engine`), and one such pair: groups of three bytes as four digits of six bits.

    * `decodeChars_encodeChars` — decoding inverts encoding;
    * `mem_alphabet_of_mem_encodeChars` — what is written is in the alphabet.
-/
import Mathlib.Data.List.Basic

namespace Clarity

namespace Base64

/-- The sixty-four digits, and the padding. -/
def alphabet : List Char :=
  "ABCDEFGHIJKLMNOPQRSTUVWXYZabcdefghijklmnopqrstuvwxyz0123456789+/=".toList

end Base64

/-- A base64 engine: its decoder inverts its encoder, and it stays in the alphabet. -/
structure Base64Engine where
  encode : List UInt8 → String
  decode : String → Except String (List UInt8)
  decode_encode : ∀ b, decode (encode b) = .ok b
  alphabet : ∀ b, ∀ c ∈ (encode b).toList, c ∈ Base64.alphabet

theorem Base64Engine.encode_injective (e : Base64Engine) {a b : List UInt8}
    (h : e.encode a = e.encode b) : a = b := by
  have hdecode := congrArg e.decode h
  rw [e.decode_encode, e.decode_encode] at hdecode
  exact Except.ok.inj hdecode

namespace Base64

/-! ## 1. Digits -/

def digit (n : Nat) : Char :=
  if n < 26 then Char.ofNat (65 + n)
  else if n < 52 then Char.ofNat (71 + n)
  else if n < 62 then Char.ofNat (n - 4)
  else if n = 62 then '+'
  else '/'

def value (c : Char) : Option Nat :=
  if 65 ≤ c.toNat ∧ c.toNat ≤ 90 then some (c.toNat - 65)
  else if 97 ≤ c.toNat ∧ c.toNat ≤ 122 then some (c.toNat - 71)
  else if 48 ≤ c.toNat ∧ c.toNat ≤ 57 then some (c.toNat + 4)
  else if c = '+' then some 62
  else if c = '/' then some 63
  else none

theorem value_digit {n : Nat} (h : n < 64) : value (digit n) = some n := by
  revert n
  decide

theorem digit_ne_pad {n : Nat} (h : n < 64) : digit n ≠ '=' := by
  revert n
  decide

theorem digit_mem_alphabet {n : Nat} (h : n < 64) : digit n ∈ alphabet := by
  revert n
  decide

/-! ## 2. Groups -/

def encodeChars : List UInt8 → List Char
  | [] => []
  | [a] => [digit (a.toNat / 4), digit (a.toNat % 4 * 16), '=', '=']
  | [a, b] =>
    [digit (a.toNat / 4), digit (a.toNat % 4 * 16 + b.toNat / 16), digit (b.toNat % 16 * 4), '=']
  | a :: b :: c :: rest =>
    digit (a.toNat / 4) :: digit (a.toNat % 4 * 16 + b.toNat / 16) ::
      digit (b.toNat % 16 * 4 + c.toNat / 64) :: digit (c.toNat % 64) :: encodeChars rest

/-- A last group of two digits, its four unused bits zero. -/
def lastOne (w x : Char) : Option (List UInt8) := do
  let w ← value w
  let x ← value x
  if x % 16 = 0 then some [UInt8.ofNat (w * 4 + x / 16)] else none

/-- A last group of three digits, its two unused bits zero. -/
def lastTwo (w x y : Char) : Option (List UInt8) := do
  let w ← value w
  let x ← value x
  let y ← value y
  if y % 4 = 0 then some [UInt8.ofNat (w * 4 + x / 16), UInt8.ofNat (x % 16 * 16 + y / 4)]
  else none

def decodeChars : List Char → Option (List UInt8)
  | [] => some []
  | w :: x :: y :: z :: rest =>
    if z = '=' then
      if rest ≠ [] then none
      else if y = '=' then lastOne w x
      else lastTwo w x y
    else do
      let w ← value w
      let x ← value x
      let y ← value y
      let z ← value z
      let bytes ← decodeChars rest
      some (UInt8.ofNat (w * 4 + x / 16) :: UInt8.ofNat (x % 16 * 16 + y / 4) ::
        UInt8.ofNat (y % 4 * 64 + z) :: bytes)
  | _ => none

theorem ofNat_eq {n : Nat} {a : UInt8} (h : n = a.toNat) : UInt8.ofNat n = a := by
  rw [h, UInt8.ofNat_toNat]

theorem decodeChars_encodeChars (bytes : List UInt8) :
    decodeChars (encodeChars bytes) = some bytes := by
  induction bytes using encodeChars.induct with
  | case1 => rfl
  | case2 a =>
    have ha := a.toNat_lt
    have hw : a.toNat / 4 < 64 := by omega
    have hx : a.toNat % 4 * 16 < 64 := by omega
    have hout : UInt8.ofNat (a.toNat / 4 * 4 + a.toNat % 4 * 16 / 16) = a := ofNat_eq (by omega)
    have hbits : a.toNat % 4 * 16 % 16 = 0 := by omega
    simp only [encodeChars, decodeChars, lastOne, value_digit hw, value_digit hx, hout, hbits,
      if_true, ne_eq, not_true, if_false, Option.bind_eq_bind, Option.bind_some]
  | case3 a b =>
    have ha := a.toNat_lt
    have hb := b.toNat_lt
    have hw : a.toNat / 4 < 64 := by omega
    have hx : a.toNat % 4 * 16 + b.toNat / 16 < 64 := by omega
    have hy : b.toNat % 16 * 4 < 64 := by omega
    have hfirst : UInt8.ofNat (a.toNat / 4 * 4 + (a.toNat % 4 * 16 + b.toNat / 16) / 16) = a :=
      ofNat_eq (by omega)
    have hsecond : UInt8.ofNat ((a.toNat % 4 * 16 + b.toNat / 16) % 16 * 16 +
        b.toNat % 16 * 4 / 4) = b := ofNat_eq (by omega)
    have hbits : b.toNat % 16 * 4 % 4 = 0 := by omega
    simp only [encodeChars, decodeChars, lastTwo, if_neg (digit_ne_pad hy), value_digit hw,
      value_digit hx, value_digit hy, hfirst, hsecond, hbits, if_true, ne_eq, not_true,
      if_false, Option.bind_eq_bind, Option.bind_some]
  | case4 a b c rest ih =>
    have ha := a.toNat_lt
    have hb := b.toNat_lt
    have hc := c.toNat_lt
    have hw : a.toNat / 4 < 64 := by omega
    have hx : a.toNat % 4 * 16 + b.toNat / 16 < 64 := by omega
    have hy : b.toNat % 16 * 4 + c.toNat / 64 < 64 := by omega
    have hz : c.toNat % 64 < 64 := by omega
    have hfirst : UInt8.ofNat (a.toNat / 4 * 4 + (a.toNat % 4 * 16 + b.toNat / 16) / 16) = a :=
      ofNat_eq (by omega)
    have hsecond : UInt8.ofNat ((a.toNat % 4 * 16 + b.toNat / 16) % 16 * 16 +
        (b.toNat % 16 * 4 + c.toNat / 64) / 4) = b := ofNat_eq (by omega)
    have hthird : UInt8.ofNat ((b.toNat % 16 * 4 + c.toNat / 64) % 4 * 64 + c.toNat % 64) = c :=
      ofNat_eq (by omega)
    simp only [encodeChars, decodeChars, if_neg (digit_ne_pad hz), value_digit hw,
      value_digit hx, value_digit hy, value_digit hz, hfirst, hsecond, hthird, ih,
      Option.bind_eq_bind, Option.bind_some]

theorem mem_alphabet_of_mem_encodeChars {bytes : List UInt8} {c : Char}
    (h : c ∈ encodeChars bytes) : c ∈ alphabet := by
  have hpad : '=' ∈ alphabet := by decide
  induction bytes using encodeChars.induct with
  | case1 => exact absurd h List.not_mem_nil
  | case2 a =>
    have ha := a.toNat_lt
    simp only [encodeChars, List.mem_cons, List.not_mem_nil, or_false] at h
    rcases h with rfl | rfl | rfl | rfl
    · exact digit_mem_alphabet (by omega)
    · exact digit_mem_alphabet (by omega)
    · exact hpad
    · exact hpad
  | case3 a b =>
    have ha := a.toNat_lt
    have hb := b.toNat_lt
    simp only [encodeChars, List.mem_cons, List.not_mem_nil, or_false] at h
    rcases h with rfl | rfl | rfl | rfl
    · exact digit_mem_alphabet (by omega)
    · exact digit_mem_alphabet (by omega)
    · exact digit_mem_alphabet (by omega)
    · exact hpad
  | case4 a b c' rest ih =>
    have ha := a.toNat_lt
    have hb := b.toNat_lt
    have hc := c'.toNat_lt
    simp only [encodeChars, List.mem_cons] at h
    rcases h with rfl | rfl | rfl | rfl | h
    · exact digit_mem_alphabet (by omega)
    · exact digit_mem_alphabet (by omega)
    · exact digit_mem_alphabet (by omega)
    · exact digit_mem_alphabet (by omega)
    · exact ih h

end Base64

/-- Standard base64. -/
def Base64Engine.standard : Base64Engine where
  encode b := String.ofList (Base64.encodeChars b)
  decode s := match Base64.decodeChars s.toList with
    | some b => .ok b
    | none => .error "invalid base64"
  decode_encode b := by rw [String.toList_ofList, Base64.decodeChars_encodeChars]
  alphabet b c h := by
    rw [String.toList_ofList] at h
    exact Base64.mem_alphabet_of_mem_encodeChars h

example : Base64Engine.standard.encode [0xfb, 0xef, 0xbe, 0x01] = "++++AQ==" := by decide

end Clarity
