/-
  Clarity/QueryString.lean
  ========================
  **Keys in a query string** (`query_param`, `url_decode`, `handle_bundle` and
  `handle_poll` in `relay/src/server.rs`, `unb64_key` in `relay/src/protocol.rs`).

  The server takes its query strings apart by hand.  A key arrives as base64, which uses
  three characters that mean something else in a query: `+` is a space there, `/` may be
  escaped, and `=` is also what separates a name from its value.  Encoders differ in what
  they escape; `UrlEncodes` allows every one of them that escapes `+`.

  The decoder is an index loop, and a slice of a `str` panics unless both ends are
  character boundaries; `Panic` is that outcome.

    * `urlDecodeFrom_encodes` — the loop, at any point of an encoded value;
    * `queryKey_of_carries` — what the handlers take the key to be.
-/
import Clarity.Base64
import Clarity.Sending

namespace Clarity

/-! ## 1. The functions of the source -/

/-- A slice of a `str` that does not end on a character boundary. -/
inductive Panic where
  | charBoundary
deriving DecidableEq

/-- `str::is_char_boundary`: the end, or a byte that does not continue a character. -/
def isCharBoundary (bytes : Bytes) (i : Nat) : Bool :=
  match bytes[i]? with
  | some b => b < 128 || 192 ≤ b
  | none => i == bytes.length

/-- The value of a hexadecimal digit of either case. -/
def hexDigit (b : UInt8) : Option Nat :=
  if 48 ≤ b.toNat ∧ b.toNat ≤ 57 then some (b.toNat - 48)
  else if 65 ≤ b.toNat ∧ b.toNat ≤ 70 then some (b.toNat - 55)
  else if 97 ≤ b.toNat ∧ b.toNat ≤ 102 then some (b.toNat - 87)
  else none

/-- `u8::from_str_radix(src, 16)`: one sign `+` may stand before the digits. -/
def fromStrRadix16 (src : Bytes) : Option UInt8 := do
  let digits := if src.head? = some 43 ∧ 1 < src.length then src.tail else src
  let value ← digits.foldlM (fun acc b => do
    let digit ← hexDigit b
    if acc * 16 + digit < 256 then some (acc * 16 + digit) else none) 0
  if digits.isEmpty then none else some (UInt8.ofNat value)

/-- `byte as char`. -/
def byteChar (b : UInt8) : Char := Char.ofNat b.toNat

/-- The loop of `url_decode`, from index `i` on. -/
def urlDecodeFrom (bytes : Bytes) (i : Nat) (out : String) : Except Panic String :=
  if h : i < bytes.length then
    if bytes[i] = 37 ∧ i + 2 < bytes.length then
      if isCharBoundary bytes (i + 1) && isCharBoundary bytes (i + 3) then
        match fromStrRadix16 ((bytes.drop (i + 1)).take 2) with
        | some byte => urlDecodeFrom bytes (i + 3) (out.push (byteChar byte))
        | none => urlDecodeFrom bytes (i + 1) (out.push '%')
      else .error .charBoundary
    else if bytes[i] = 43 then urlDecodeFrom bytes (i + 1) (out.push ' ')
    else urlDecodeFrom bytes (i + 1) (out.push (byteChar bytes[i]))
  else .ok out
termination_by bytes.length - i

/-- Minimal percent-decoding sufficient for base64 query values. -/
def urlDecode (s : Bytes) : Except Panic String := urlDecodeFrom s 0 ""

/-- `pair.splitn(2, '=')`. -/
def splitPair (pair : Bytes) : Bytes × Option Bytes :=
  match pair.dropWhile (· ≠ 61) with
  | [] => (pair, none)
  | _ :: rest => (pair.takeWhile (· ≠ 61), some rest)

/-- The loop of `query_param`, over the pairs that are left. -/
def findParam (key : Bytes) : List Bytes → Except Panic (Option String)
  | [] => .ok none
  | pair :: rest =>
    if (splitPair pair).1 = key then (urlDecode ((splitPair pair).2.getD [])).map some
    else findParam key rest

def queryParam (query key : Bytes) : Except Panic (Option String) :=
  findParam key (query.splitOn 38)

/-- `unb64_key`, on the text. -/
def unb64KeyText (engine : Base64Engine) (s : String) : Except String Bytes32 := do
  let bytes ← engine.decode s
  unb64Key bytes

/-- `query_param(query, name).and_then(|s| unb64_key(&s).ok())`. -/
def queryKey (engine : Base64Engine) (query name : Bytes) : Except Panic (Option Bytes32) :=
  (queryParam query name).map fun raw => raw.bind fun s => (unb64KeyText engine s).toOption

/-- `GET /bundle`: the base64 of the bundle, or the error. -/
def handleBundle (engine : Base64Engine) (keys : Directory) (query : Bytes) :
    Except Panic (Except RequestError String × Directory) := do
  match ← queryKey engine query (ascii "identity") with
  | none => return (.error ⟨400, "missing identity"⟩, keys)
  | some identity =>
    match keys.fetchBundle identity with
    | (some bundle, keys) => return (.ok (engine.encode (PreKeyBundle.codec.enc bundle)), keys)
    | (none, keys) => return (.error ⟨404, "unknown identity"⟩, keys)

/-- `GET /poll`: the base64 of each message, or the error. -/
def handlePoll (engine : Base64Engine) (store : RelayStore) (query : Bytes) (now : UInt64) :
    Except Panic (Except RequestError (List String) × RelayStore) := do
  match ← queryKey engine query (ascii "recipient") with
  | none => return (.error ⟨400, "missing recipient"⟩, store)
  | some recipient =>
    return (.ok ((store.pollAt recipient now).1.map engine.encode), (store.pollAt recipient now).2)

/-! ## 2. Encoded values -/

/-- `raw` is an URL-encoding of `text`: every character is escaped, in either case of
    its hexadecimal digits, or stands for itself; `+` does not. -/
inductive UrlEncodes : List Char → Bytes → Prop where
  | nil : UrlEncodes [] []
  | literal {c : Char} {text : List Char} {raw : Bytes} :
      c ≠ '+' → UrlEncodes text raw → UrlEncodes (c :: text) (c.toNat.toUInt8 :: raw)
  | escape {c : Char} {text : List Char} {raw : Bytes} {high low : UInt8} {u v : Nat} :
      hexDigit high = some u → hexDigit low = some v → c.toNat = u * 16 + v →
      UrlEncodes text raw → UrlEncodes (c :: text) (37 :: high :: low :: raw)

/-- What the loop relies on: the base64 characters are ASCII, none of them is `%` or `&`,
    and only `+` is written as `+`. -/
theorem alphabet_bytes {c : Char} (h : c ∈ Base64.alphabet) :
    c.toNat.toUInt8 < 128 ∧ c.toNat.toUInt8 ≠ 37 ∧ c.toNat.toUInt8 ≠ 38 ∧
      byteChar c.toNat.toUInt8 = c ∧ (c ≠ '+' → c.toNat.toUInt8 ≠ 43) := by
  have hall : (Base64.alphabet.all fun c => decide (c.toNat.toUInt8 < 128 ∧
      c.toNat.toUInt8 ≠ 37 ∧ c.toNat.toUInt8 ≠ 38 ∧ byteChar c.toNat.toUInt8 = c ∧
      (c ≠ '+' → c.toNat.toUInt8 ≠ 43))) = true := by decide
  exact of_decide_eq_true (List.all_eq_true.mp hall c h)

theorem toNat_lt_of_mem_alphabet {c : Char} (h : c ∈ Base64.alphabet) : c.toNat < 128 := by
  have hall : (Base64.alphabet.all fun c => decide (c.toNat < 128)) = true := by decide
  exact of_decide_eq_true (List.all_eq_true.mp hall c h)

theorem hexDigit_bounds {b : UInt8} {v : Nat} (h : hexDigit b = some v) :
    b < 128 ∧ b ≠ 38 ∧ b ≠ 43 ∧ v < 16 := by
  have hnum : 48 ≤ b.toNat ∧ b.toNat < 128 ∧ v < 16 := by
    unfold hexDigit at h
    split at h
    · have := Option.some.inj h
      omega
    · split at h
      · have := Option.some.inj h
        omega
      · split at h
        · have := Option.some.inj h
          omega
        · exact nomatch h
  obtain ⟨hlow, hhigh, hv⟩ := hnum
  refine ⟨UInt8.lt_iff_toNat_lt.mpr hhigh, ?_, ?_, hv⟩
  · rintro rfl
    exact absurd hlow (by decide)
  · rintro rfl
    exact absurd hlow (by decide)

/-- Two digits of either case are read back. -/
theorem fromStrRadix16_pair {high low : UInt8} {u v : Nat} (hu : hexDigit high = some u)
    (hv : hexDigit low = some v) : fromStrRadix16 [high, low] = some (UInt8.ofNat (u * 16 + v)) := by
  obtain ⟨-, -, hplus, hu16⟩ := hexDigit_bounds hu
  obtain ⟨-, -, -, hv16⟩ := hexDigit_bounds hv
  have hfirst : u < 256 := by omega
  have hboth : u * 16 + v < 256 := by omega
  simp [fromStrRadix16, hplus, hu, hv, hfirst, hboth]

namespace UrlEncodes

variable {text : List Char} {raw : Bytes}

/-- An encoded value is ASCII and has no `&` in it. -/
theorem bytes (h : UrlEncodes text raw) (halphabet : ∀ c ∈ text, c ∈ Base64.alphabet) :
    ∀ b ∈ raw, b < 128 ∧ b ≠ 38 := by
  induction h with
  | nil => exact fun b hb => absurd hb List.not_mem_nil
  | @literal c text raw _ _ ih =>
    obtain ⟨hc, htext⟩ := List.forall_mem_cons.mp halphabet
    obtain ⟨hascii, -, hamp, -, -⟩ := alphabet_bytes hc
    exact List.forall_mem_cons.mpr ⟨⟨hascii, hamp⟩, ih htext⟩
  | @escape c text raw high low u v hu hv _ _ ih =>
    obtain ⟨-, htext⟩ := List.forall_mem_cons.mp halphabet
    obtain ⟨hhigh, hhighAmp, -, -⟩ := hexDigit_bounds hu
    obtain ⟨hlow, hlowAmp, -, -⟩ := hexDigit_bounds hv
    exact List.forall_mem_cons.mpr ⟨⟨by decide, by decide⟩, List.forall_mem_cons.mpr
      ⟨⟨hhigh, hhighAmp⟩, List.forall_mem_cons.mpr ⟨⟨hlow, hlowAmp⟩, ih htext⟩⟩⟩

end UrlEncodes

/-- The upper-case digit of a value below 16. -/
def hexUpper (n : Nat) : UInt8 := if n < 10 then UInt8.ofNat (48 + n) else UInt8.ofNat (55 + n)

/-- An encoder that escapes some of the characters. -/
def percentEncode (escaped : Char → Bool) (text : List Char) : Bytes :=
  text.flatMap fun c =>
    if escaped c then [37, hexUpper (c.toNat / 16), hexUpper (c.toNat % 16)]
    else [c.toNat.toUInt8]

theorem hexDigit_hexUpper {n : Nat} (h : n < 16) : hexDigit (hexUpper n) = some n := by
  revert n
  decide

/-- Every encoder that escapes `+` is allowed for. -/
theorem urlEncodes_percentEncode {escaped : Char → Bool} (hplus : escaped '+' = true)
    {text : List Char} (halphabet : ∀ c ∈ text, c ∈ Base64.alphabet) :
    UrlEncodes text (percentEncode escaped text) := by
  induction text with
  | nil => exact .nil
  | cons c text ih =>
    obtain ⟨hc, htext⟩ := List.forall_mem_cons.mp halphabet
    rw [percentEncode, List.flatMap_cons]
    by_cases hesc : escaped c = true
    · have hlt := toNat_lt_of_mem_alphabet hc
      rw [if_pos hesc]
      exact .escape (hexDigit_hexUpper (by omega)) (hexDigit_hexUpper (by omega)) (by omega)
        (ih htext)
    · have hne : c ≠ '+' := by
        rintro rfl
        exact hesc hplus
      rw [if_neg hesc]
      exact .literal hne (ih htext)

/-! ## 3. The loop -/

theorem push_append_ofList (out : String) (c : Char) (text : List Char) :
    out.push c ++ String.ofList text = out ++ String.ofList (c :: text) := by
  apply String.toList_inj.mp
  simp

/-- Past the end of the string, or at an ASCII byte, there is a character boundary. -/
theorem isCharBoundary_append (front : Bytes) {raw : Bytes} (h : ∀ b ∈ raw, b < 128) :
    isCharBoundary (front ++ raw) front.length = true := by
  unfold isCharBoundary
  rw [List.getElem?_append_right (Nat.le_refl _), Nat.sub_self]
  cases raw with
  | nil => simp
  | cons b raw =>
    have hb : b < 128 := h b List.mem_cons_self
    simp [hb]

theorem urlDecodeFrom_literal (front raw : Bytes) {b : UInt8} (hpercent : b ≠ 37) (hplus : b ≠ 43)
    (out : String) :
    urlDecodeFrom (front ++ b :: raw) front.length out =
      urlDecodeFrom ((front ++ [b]) ++ raw) (front ++ [b]).length (out.push (byteChar b)) := by
  rw [urlDecodeFrom]
  simp [hpercent, hplus]

/-- An escape is taken even when it ends the string: the two bytes after the `%` are
    there exactly when `i + 2` is an index. -/
theorem urlDecodeFrom_escape (front raw : Bytes) {high low : UInt8} {u v : Nat}
    (hu : hexDigit high = some u) (hv : hexDigit low = some v) (hraw : ∀ b ∈ raw, b < 128)
    (out : String) :
    urlDecodeFrom (front ++ 37 :: high :: low :: raw) front.length out =
      urlDecodeFrom ((front ++ [37, high, low]) ++ raw) (front ++ [37, high, low]).length
        (out.push (byteChar (UInt8.ofNat (u * 16 + v)))) := by
  obtain ⟨hhigh, -, -, -⟩ := hexDigit_bounds hu
  obtain ⟨hlow, -, -, -⟩ := hexDigit_bounds hv
  have hfirst : isCharBoundary (front ++ 37 :: high :: low :: raw) (front.length + 1) = true := by
    have hrest : ∀ b ∈ high :: low :: raw, b < 128 :=
      List.forall_mem_cons.mpr ⟨hhigh, List.forall_mem_cons.mpr ⟨hlow, hraw⟩⟩
    have h := isCharBoundary_append (front ++ [37]) hrest
    simpa using h
  have hlast : isCharBoundary (front ++ 37 :: high :: low :: raw) (front.length + 3) = true := by
    have h := isCharBoundary_append (front ++ [37, high, low]) hraw
    simpa using h
  rw [urlDecodeFrom]
  simp [hfirst, hlast, fromStrRadix16_pair hu hv]

/-- **The loop reads an encoded value back**, from every point of it. -/
theorem urlDecodeFrom_encodes {text : List Char} {raw : Bytes} (h : UrlEncodes text raw)
    (halphabet : ∀ c ∈ text, c ∈ Base64.alphabet) (front : Bytes) (out : String) :
    urlDecodeFrom (front ++ raw) front.length out = .ok (out ++ String.ofList text) := by
  induction h generalizing front out with
  | nil =>
    rw [urlDecodeFrom]
    simp
  | @literal c text raw hplus _ ih =>
    obtain ⟨hc, htext⟩ := List.forall_mem_cons.mp halphabet
    obtain ⟨-, hpercent, -, hchar, hbyte⟩ := alphabet_bytes hc
    rw [urlDecodeFrom_literal front raw hpercent (hbyte hplus), ih htext, hchar,
      push_append_ofList]
  | @escape c text raw high low u v hu hv hc hrest ih =>
    obtain ⟨-, htext⟩ := List.forall_mem_cons.mp halphabet
    have hraw : ∀ b ∈ raw, b < 128 := fun b hb => (hrest.bytes htext b hb).1
    have hchar : byteChar (UInt8.ofNat (u * 16 + v)) = c := by
      have hu16 := (hexDigit_bounds hu).2.2.2
      have hv16 := (hexDigit_bounds hv).2.2.2
      have hlt : u * 16 + v < 2 ^ 8 := by omega
      rw [byteChar, UInt8.toNat_ofNat_of_lt' hlt, ← hc, Char.ofNat_toNat]
    rw [urlDecodeFrom_escape front raw hu hv hraw, ih htext, hchar, push_append_ofList]

/-! ## 4. The query -/

/-- The name of a parameter ends at its first `=`, its value does not. -/
theorem splitPair_append {name : Bytes} (h : (61 : UInt8) ∉ name) (raw : Bytes) :
    splitPair (name ++ 61 :: raw) = (name, some raw) := by
  have hname : ∀ b ∈ name, (decide (b ≠ 61)) = true := by
    intro b hb
    exact decide_eq_true fun heq => h (heq ▸ hb)
  have hdrop : (name ++ 61 :: raw).dropWhile (· ≠ 61) = 61 :: raw := by
    rw [List.dropWhile_append_of_pos hname]
    rfl
  have htake : (name ++ 61 :: raw).takeWhile (· ≠ 61) = name := by
    rw [List.takeWhile_append_of_pos hname, List.takeWhile_cons_of_neg (by decide),
      List.append_nil]
  simp only [splitPair, hdrop, htake]

/-- Parameters with other names are passed over, whatever their values are. -/
theorem findParam_append {key : Bytes} {before : List Bytes}
    (h : ∀ pair ∈ before, (splitPair pair).1 ≠ key) (rest : List Bytes) :
    findParam key (before ++ rest) = findParam key rest := by
  induction before with
  | nil => rfl
  | cons pair before ih =>
    obtain ⟨hpair, hbefore⟩ := List.forall_mem_cons.mp h
    rw [List.cons_append, findParam, if_neg hpair, ih hbefore]

/-- A query whose first parameter of a name holds an encoding of a key's base64. -/
def Carries (engine : Base64Engine) (name : Bytes) (key : Bytes32) (query : Bytes) : Prop :=
  ∃ (before after : List Bytes) (raw : Bytes),
    query = [38].intercalate (before ++ (name ++ 61 :: raw) :: after) ∧
    (∀ pair ∈ before ++ after, 38 ∉ pair) ∧
    (∀ pair ∈ before, (splitPair pair).1 ≠ name) ∧
    UrlEncodes (engine.encode key.bytes).toList raw

/-- The two names the server looks for; neither has a separator in it. -/
def keyNames : List Bytes := [ascii "recipient", ascii "identity"]

theorem separator_notMem {name : Bytes} (h : name ∈ keyNames) :
    (38 : UInt8) ∉ name ∧ (61 : UInt8) ∉ name := by
  revert name
  decide

theorem queryParam_of_carries {engine : Base64Engine} {name query : Bytes} {key : Bytes32}
    (hname : name ∈ keyNames) (h : Carries engine name key query) :
    queryParam query name = .ok (some (engine.encode key.bytes)) := by
  obtain ⟨before, after, raw, rfl, hsep, hbefore, hraw⟩ := h
  obtain ⟨hamp, heq⟩ := separator_notMem hname
  have halphabet := engine.alphabet key.bytes
  have hpairs : ∀ pair ∈ before ++ (name ++ 61 :: raw) :: after, (38 : UInt8) ∉ pair := by
    intro pair hpair
    rcases List.mem_append.mp hpair with hpair | hpair
    · exact hsep pair (List.mem_append_left _ hpair)
    · rcases List.mem_cons.mp hpair with rfl | hpair
      · intro hmem
        rcases List.mem_append.mp hmem with hmem | hmem
        · exact hamp hmem
        · rcases List.mem_cons.mp hmem with hmem | hmem
          · exact absurd hmem (by decide)
          · exact (hraw.bytes halphabet 38 hmem).2 rfl
      · exact hsep pair (List.mem_append_right _ hpair)
  have hdecode : urlDecode raw = .ok (engine.encode key.bytes) := by
    have h := urlDecodeFrom_encodes hraw halphabet [] ""
    simpa [urlDecode] using h
  rw [queryParam, List.splitOn_intercalate 38 hpairs (by simp), findParam_append hbefore,
    findParam, splitPair_append heq]
  simp only [if_true, Option.getD_some, hdecode]
  rfl

theorem unb64KeyText_encode (engine : Base64Engine) (key : Bytes32) :
    unb64KeyText engine (engine.encode key.bytes) = .ok key := by
  rw [unb64KeyText, engine.decode_encode]
  exact unb64Key_bytes key

theorem queryKey_of_carries {engine : Base64Engine} {name query : Bytes} {key : Bytes32}
    (hname : name ∈ keyNames) (h : Carries engine name key query) :
    queryKey engine query name = .ok (some key) := by
  rw [queryKey, queryParam_of_carries hname h]
  show Except.ok ((unb64KeyText engine (engine.encode key.bytes)).toOption) = _
  rw [unb64KeyText_encode]
  rfl

/-- A poll drains the mailbox of the key that its query carries. -/
theorem handlePoll_of_carries {engine : Base64Engine} {query : Bytes} {key : Bytes32}
    (h : Carries engine (ascii "recipient") key query) (store : RelayStore) (now : UInt64) :
    handlePoll engine store query now =
      .ok (.ok ((store.pollAt key now).1.map engine.encode), (store.pollAt key now).2) := by
  rw [handlePoll, queryKey_of_carries (by decide) h]
  rfl

/-- A fetch takes from the entry of the key that its query carries. -/
theorem handleBundle_of_carries {engine : Base64Engine} {query : Bytes} {key : Bytes32}
    (h : Carries engine (ascii "identity") key query) (keys : Directory) :
    handleBundle engine keys query = .ok (match keys.fetchBundle key with
      | (some bundle, keys) => (.ok (engine.encode (PreKeyBundle.codec.enc bundle)), keys)
      | (none, keys) => (.error ⟨404, "unknown identity"⟩, keys)) := by
  rw [handleBundle, queryKey_of_carries (by decide) h]
  show (match keys.fetchBundle key with
    | (some bundle, keys) => _
    | (none, keys) => _) = _
  cases keys.fetchBundle key with
  | mk bundle keys =>
    cases bundle <;> rfl

/-- **Keys survive the query string.**  However its base64 is escaped, and whatever
    stands before it, the key the server acts on is the key the client meant; so two keys
    are never taken for one mailbox or one directory entry. -/
theorem keys_survive_query (engine : Base64Engine) {name query : Bytes} {key : Bytes32}
    (hname : name ∈ keyNames) (h : Carries engine name key query) :
    (queryParam query name).map (·.map (unb64KeyText engine)) = .ok (some (.ok key)) ∧
    queryKey engine query name = .ok (some key) ∧
    ∀ {query' : Bytes} {key' : Bytes32}, Carries engine name key' query' → key' ≠ key →
      queryKey engine query' name ≠ queryKey engine query name := by
  refine ⟨?_, queryKey_of_carries hname h, ?_⟩
  · rw [queryParam_of_carries hname h]
    show Except.ok (some (unb64KeyText engine (engine.encode key.bytes))) = _
    rw [unb64KeyText_encode]
  · intro query' key' h' hne heq
    rw [queryKey_of_carries hname h, queryKey_of_carries hname h'] at heq
    exact hne (Option.some.inj (Except.ok.inj heq))

/-- A key whose base64 has all three characters in it. -/
def awkwardKey : Bytes32 := ⟨List.replicate 32 0xfb, List.length_replicate⟩

/-- The value of a client that escapes all three. -/
def awkwardValue : Bytes :=
  percentEncode (fun c => !c.isAlphanum) (Base64Engine.standard.encode awkwardKey.bytes).toList

theorem carries_awkwardValue : Carries Base64Engine.standard (ascii "recipient") awkwardKey
    (ascii "v=1&recipient=" ++ awkwardValue) := by
  refine ⟨[ascii "v=1"], [], awkwardValue, ?_, by decide, by decide,
    urlEncodes_percentEncode (by decide) (Base64Engine.standard.alphabet _)⟩
  generalize awkwardValue = raw
  have htext : ascii "v=1&recipient=" = ascii "v=1" ++ [38] ++ ascii "recipient" ++ [61] := by
    decide
  simp [htext, List.intercalate_cons_cons]

theorem keys_survive_query_awkward :
    queryKey Base64Engine.standard (ascii "v=1&recipient=" ++ awkwardValue) (ascii "recipient") =
      .ok (some awkwardKey) :=
  (keys_survive_query Base64Engine.standard (by decide) carries_awkwardValue).2.1

end Clarity
