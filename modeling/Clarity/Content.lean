/-
  Clarity/Content.lean
  ====================
  **What the encrypted bytes say** (`app/lib/src/services/content.dart`): chat texts
  and timer updates as versioned JSON objects, and the forgiving decoder.

  Strings are Dart's: lists of UTF-16 code units.  The text form of JSON belongs to
  `dart:convert`, so `DartConvert` takes it as a parameter; what is relied on is
  that the objects written here are read back (`DartConvert.Lawful`).

    * `decode_encode` — a text or a timer update survives the trip.
-/
import Clarity.Base

namespace Clarity

/-- A Dart `String`. -/
abbrev Text := List UInt16

/-- A Dart string literal. -/
def utf16 (s : String) : Text := s.toList.map fun c => c.toNat.toUInt16

/-- What `jsonDecode` returns.  A double is its exact value, `none` an infinity. -/
inductive Json where
  | null
  | bool (b : Bool)
  | int (n : Int64)
  | double (value : Option Rat)
  | str (s : Text)
  | arr (items : List Json)
  | obj (fields : List (Text × Json))

namespace Json

/-- `v == 1`; in Dart the double `1.0` equals the integer. -/
def isOne : Json → Bool
  | int n => n = 1
  | double (some q) => q = 1
  | _ => false

/-- `map[name]`, null when absent. -/
def field (fields : List (Text × Json)) (name : Text) : Json := (fields.lookup name).getD null

end Json

/-- Part of `dart:convert`. -/
structure DartConvert where
  -- `utf8.encode(jsonEncode(value))`
  jsonEncode : Json → Bytes
  -- `jsonDecode(utf8.decode(bytes))`, `none` for a `FormatException`
  jsonDecode : Bytes → Option Json
  -- `utf8.decode(bytes, allowMalformed: true)`
  utf8Decode : Bytes → Text

/-- Typed message content. -/
inductive MessageContent where
  | text (body : Text)
  | timerUpdate (seconds : Option Int64)
  | unknown
deriving DecidableEq

namespace MessageContent

/-- The object a content is sent as; unknown content is receive-only. -/
def json : MessageContent → Option Json
  | text body => some (.obj
      [(utf16 "v", .int 1), (utf16 "t", .str (utf16 "text")), (utf16 "body", .str body)])
  | timerUpdate seconds => some (.obj
      [(utf16 "v", .int 1), (utf16 "t", .str (utf16 "timer")),
        (utf16 "seconds", match seconds with
          | some n => .int n
          | none => .null)])
  | unknown => none

def encode (D : DartConvert) (c : MessageContent) : Option Bytes := c.json.map D.jsonEncode

/-- Interpret a v1 object; `none` where a field has the wrong type. -/
def ofFields (fields : List (Text × Json)) : Option MessageContent :=
  match Json.field fields (utf16 "t") with
  | .str t =>
    if t = utf16 "text" then
      match Json.field fields (utf16 "body") with
      | .null => some (text [])
      | .str body => some (text body)
      | _ => none
    else if t = utf16 "timer" then
      match Json.field fields (utf16 "seconds") with
      | .null => some (timerUpdate none)
      | .int n => some (timerUpdate (some n))
      | _ => none
    else some unknown
  | _ => some unknown

/-- Interpret decrypted plaintext.  What is not a v1 object is plain text. -/
def decode (D : DartConvert) (plaintext : Bytes) : MessageContent :=
  match D.jsonDecode plaintext with
  | some (.obj fields) =>
    if (Json.field fields (utf16 "v")).isOne then
      (ofFields fields).getD (text (D.utf8Decode plaintext))
    else text (D.utf8Decode plaintext)
  | _ => text (D.utf8Decode plaintext)

end MessageContent

/-- `jsonDecode` reads back what `jsonEncode` wrote. -/
def DartConvert.Lawful (D : DartConvert) : Prop :=
  ∀ (c : MessageContent) (j : Json), c.json = some j → D.jsonDecode (D.jsonEncode j) = some j

theorem MessageContent.decode_encode {D : DartConvert} (hD : D.Lawful) {c : MessageContent}
    {b : Bytes} (h : c.encode D = some b) : decode D b = c := by
  simp only [encode, Option.map_eq_some_iff] at h
  obtain ⟨j, hj, rfl⟩ := h
  have hread := hD c j hj
  cases c with
  | text body =>
    cases hj
    unfold decode
    rw [hread]
    rfl
  | timerUpdate seconds =>
    cases hj
    unfold decode
    rw [hread]
    cases seconds <;> rfl
  | unknown => cases hj

/-- The bytes a chat text is sent as. -/
def textBytes (D : DartConvert) (body : Text) : Bytes :=
  D.jsonEncode (.obj
    [(utf16 "v", .int 1), (utf16 "t", .str (utf16 "text")), (utf16 "body", .str body)])

theorem MessageContent.encode_text (D : DartConvert) (body : Text) :
    (text body).encode D = some (textBytes D body) := rfl

/-! ## Retention labels -/

/-- `Duration(seconds: s)`, in microseconds; 64-bit arithmetic wraps. -/
def durationMicros (seconds : Int64) : Int64 := seconds * 1000000

/-- A number in at least `width` digits. -/
def padLeft (width n : Nat) : String :=
  let digits := toString n
  String.ofList (List.replicate (width - digits.length) '0') ++ digits

/-- `Duration.toString`. -/
def durationText (micros : Int64) : String :=
  let sign := if micros < 0 then "-" else ""
  let us := micros.toInt.natAbs
  sign ++ toString (us / 3600000000) ++ ":" ++ padLeft 2 (us / 60000000 % 60) ++ ":" ++
    padLeft 2 (us / 1000000 % 60) ++ "." ++ padLeft 6 (us % 1000000)

def retentionLabel : Option Int64 → String
  | none => "off"
  | some s =>
    if s = 3600 then "1 hour"
    else if s = 86400 then "1 day"
    else if s = 604800 then "1 week"
    else durationText (durationMicros s)

end Clarity
