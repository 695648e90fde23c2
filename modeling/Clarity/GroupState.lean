/-
  Clarity/GroupState.lean
  =======================
  **A group client at rest** (`export_state`, `import_state` and their framing in
  `group/src/lib.rs`).

  Every length is written in 32 bits, whatever it is, so a client comes back if and only if
  its identity, its public key and its whole store fit their length fields.  Key pairs are
  OpenMLS's (`SignatureKeyPairs`).

    * `unframe_eq_some_iff`, `parseStore_eq_some_iff` — the two formats, forward and back;
    * `importState_exportState_iff` — when a client comes back;
    * `state_codec` — both together.
-/
import Clarity.Slices
import Mathlib.Data.Finmap

namespace Clarity

/-! ## 1. Framing -/

/-- Length-prefix each field and concatenate. -/
def frame (fields : List Bytes) : Bytes :=
  fields.flatMap fun f => Codec.leBytes 4 f.length ++ f

/-- Exactly `count` fields; `none` if malformed. -/
def unframe (bytes : Bytes) (count : Nat) : Option (List Bytes) :=
  readAll (repeatN readBytes count) bytes

theorem unframe_eq_some_iff {bytes : Bytes} {count : Nat} {fields : List Bytes} :
    unframe bytes count = some fields ↔
      (fields.length = count ∧ ∀ f ∈ fields, f.length < 2 ^ 32) ∧ bytes = frame fields :=
  (reads_bytes.repeatN count).readAll_eq_some_iff

/-! ## 2. The client -/

/-- The provider's `MemoryStorage`. -/
abbrev KeyStore := Finmap fun _ : Bytes => Bytes

/-- `SignatureKeyPair` of OpenMLS, for the one ciphersuite. -/
structure SignatureKeyPairs where
  SignatureKeyPair : Type
  publicKey : SignatureKeyPair → Bytes
  read : KeyStore → Bytes → Option SignatureKeyPair

structure GroupClient (S : SignatureKeyPairs) where
  values : KeyStore
  signer : S.SignatureKeyPair
  identity : Bytes

namespace GroupClient

variable {S : SignatureKeyPairs}

/-- The credential: the identity, and the key its signatures verify under. -/
def credential (c : GroupClient S) : Bytes × Bytes := (c.identity, S.publicKey c.signer)

/-- The store, its entries in some order. -/
def storeBytes (order : List (Bytes × Bytes)) : Bytes :=
  Codec.leBytes 4 order.length ++ order.flatMap fun e =>
    (Codec.leBytes 4 e.1.length ++ e.1) ++ (Codec.leBytes 4 e.2.length ++ e.2)

/-- `export_state`, where the store iterates in the order `order`. -/
def exportState (c : GroupClient S) (order : List (Bytes × Bytes)) : Bytes :=
  frame [c.identity, S.publicKey c.signer, storeBytes order]

/-- The entries of a store section, which has to end with the last of them. -/
def parseStore (section_ : Bytes) : Option (List (Bytes × Bytes)) :=
  readAll (readList (andRead readBytes readBytes)) section_

def insertAll (entries : List (Bytes × Bytes)) : KeyStore :=
  entries.foldl (fun values e => values.insert e.1 e.2) ∅

/-- `import_state`; `none` for `Error::State`. -/
def importState (bytes : Bytes) : Option (GroupClient S) :=
  match unframe bytes 3 with
  | some [identity, publicKey, section_] =>
    (parseStore section_).bind fun entries =>
      (S.read (insertAll entries) publicKey).map fun signer =>
        ⟨insertAll entries, signer, identity⟩
  | _ => none

/-- `order` lists a store: each entry once. -/
structure Iterates (order : List (Bytes × Bytes)) (values : KeyStore) : Prop where
  nodup : (order.map Prod.fst).Nodup
  lookup : ∀ k v, (k, v) ∈ order ↔ values.lookup k = some v

/-! ## 3. The store section -/

/-- The count, the keys and the values fit their length fields. -/
def FitsSection (entries : List (Bytes × Bytes)) : Prop :=
  entries.length < 2 ^ 32 ∧ ∀ e ∈ entries, e.1.length < 2 ^ 32 ∧ e.2.length < 2 ^ 32

theorem storeBytes_eq (entries : List (Bytes × Bytes)) :
    storeBytes entries = (Codec.vec32.pair Codec.vec32).list32.enc entries := rfl

theorem parseStore_eq_some_iff {section_ : Bytes} {entries : List (Bytes × Bytes)} :
    parseStore section_ = some entries ↔
      FitsSection entries ∧ section_ = storeBytes entries :=
  (reads_bytes.pair reads_bytes).list.readAll_eq_some_iff

/-- A store section with bytes left over. -/
theorem parseStore_leftover {entries : List (Bytes × Bytes)} (h : FitsSection entries)
    {extra : Bytes} (hextra : extra ≠ []) : parseStore (storeBytes entries ++ extra) = none := by
  rw [Option.eq_none_iff_forall_ne_some]
  intro entries' hparse
  obtain ⟨hfits, heq⟩ := parseStore_eq_some_iff.mp hparse
  have heq' : storeBytes entries ++ extra = storeBytes entries' ++ [] := by
    rw [heq, List.append_nil]
  exact hextra ((Codec.vec32.pair Codec.vec32).list32.enc_append_inj h hfits heq').2

/-- A store section with bytes missing. -/
theorem parseStore_missing {entries : List (Bytes × Bytes)} (h : FitsSection entries)
    {section_ missing : Bytes} (hmissing : missing ≠ [])
    (hsection : section_ ++ missing = storeBytes entries) : parseStore section_ = none := by
  rw [Option.eq_none_iff_forall_ne_some]
  intro entries' hparse
  obtain ⟨hfits, rfl⟩ := parseStore_eq_some_iff.mp hparse
  have heq : storeBytes entries' ++ missing = storeBytes entries ++ [] := by
    rw [hsection, List.append_nil]
  exact hmissing ((Codec.vec32.pair Codec.vec32).list32.enc_append_inj hfits h heq).2

theorem length_le_of_mem {entries : List (Bytes × Bytes)} {e : Bytes × Bytes}
    (h : e ∈ entries) : e.1.length + e.2.length ≤ (storeBytes entries).length := by
  obtain ⟨front, back, rfl⟩ := List.append_of_mem h
  simp only [storeBytes, List.flatMap_append, List.flatMap_cons, List.length_append]
  omega

theorem length_le_storeBytes (entries : List (Bytes × Bytes)) :
    entries.length ≤ (storeBytes entries).length := by
  have hpart : entries.length ≤ (entries.flatMap fun e =>
      (Codec.leBytes 4 e.1.length ++ e.1) ++ (Codec.leBytes 4 e.2.length ++ e.2)).length := by
    induction entries with
    | nil => exact Nat.le_refl _
    | cons e entries ih =>
      simp only [List.flatMap_cons, List.length_append, List.length_cons, Codec.length_leBytes]
        at ih ⊢
      omega
  unfold storeBytes
  rw [List.length_append]
  omega

/-- Whatever is in a section of less than 4 GiB fits. -/
theorem fitsSection_of_length {entries : List (Bytes × Bytes)}
    (h : (storeBytes entries).length < 2 ^ 32) : FitsSection entries := by
  refine ⟨Nat.lt_of_le_of_lt (length_le_storeBytes entries) h, ?_⟩
  intro e he
  have hle := length_le_of_mem he
  omega

/-! ## 4. The store -/

theorem lookup_insertAll {entries : List (Bytes × Bytes)} {values : KeyStore}
    (hnodup : (entries.map Prod.fst).Nodup) (k v : Bytes) :
    (entries.foldl (fun values e => values.insert e.1 e.2) values).lookup k = some v ↔
      (k, v) ∈ entries ∨ (k ∉ entries.map Prod.fst ∧ values.lookup k = some v) := by
  induction entries generalizing values with
  | nil => simp
  | cons e entries ih =>
    obtain ⟨hfresh, hnodup'⟩ := List.nodup_cons.mp hnodup
    rw [List.foldl_cons, ih hnodup']
    simp only [List.mem_cons, List.map_cons, not_or]
    by_cases hk : k = e.1
    · have hnot : ∀ w, (k, w) ∉ entries := by
        intro w hw
        apply hfresh
        rw [← hk]
        exact List.mem_map_of_mem (f := Prod.fst) hw
      rw [hk, Finmap.lookup_insert]
      constructor
      · rintro (h | ⟨-, h⟩)
        · exact absurd (hk ▸ h) (hnot v)
        · exact Or.inl (Or.inl (Prod.ext rfl (Option.some.inj h).symm))
      · rintro ((h | h) | h)
        · refine Or.inr ⟨hfresh, ?_⟩
          rw [← h]
        · exact absurd (hk ▸ h) (hnot v)
        · exact absurd rfl h.1.1
    · rw [Finmap.lookup_insert_of_ne _ hk]
      constructor
      · rintro (h | ⟨hnot, h⟩)
        · exact Or.inl (Or.inr h)
        · exact Or.inr ⟨⟨hk, hnot⟩, h⟩
      · rintro ((h | h) | ⟨⟨-, hnot⟩, h⟩)
        · exact absurd (congrArg Prod.fst h) hk
        · exact Or.inl h
        · exact Or.inr ⟨hnot, h⟩

theorem insertAll_eq {order : List (Bytes × Bytes)} {values : KeyStore}
    (h : Iterates order values) : insertAll order = values := by
  apply Finmap.ext_lookup
  intro k
  apply Option.ext
  intro v
  unfold insertAll
  rw [lookup_insertAll h.nodup, ← h.lookup]
  simp

theorem iterates_insertAll {order : List (Bytes × Bytes)} (h : (order.map Prod.fst).Nodup) :
    Iterates order (insertAll order) := by
  refine ⟨h, ?_⟩
  intro k v
  unfold insertAll
  rw [lookup_insertAll h]
  simp

/-! ## 5. There and back -/

/-- What a store takes: a count, and two lengths for each entry. -/
def storeSize (order : List (Bytes × Bytes)) : Nat :=
  4 + (order.map fun e => 8 + e.1.length + e.2.length).sum

theorem length_storeBytes (order : List (Bytes × Bytes)) :
    (storeBytes order).length = storeSize order := by
  simp only [storeBytes, storeSize, List.length_append, Codec.length_leBytes, List.length_flatMap]
  congr 3
  funext e
  omega

/-- Identity, public key and store fit their length fields. -/
def FitsState (c : GroupClient S) (order : List (Bytes × Bytes)) : Prop :=
  c.identity.length < 2 ^ 32 ∧ (S.publicKey c.signer).length < 2 ^ 32 ∧
    storeSize order < 2 ^ 32

/-- Three framed fields, the first of which came back. -/
theorem frame_three_inj {identity p p' s s' : Bytes}
    (h : frame [identity, p, s] = frame [identity, p', s']) (hp : p'.length < 2 ^ 32)
    (hs : s'.length < 2 ^ 32) : p.length < 2 ^ 32 ∧ s.length < 2 ^ 32 := by
  have hrest : Codec.leBytes 4 p.length ++ (p ++ (Codec.leBytes 4 s.length ++ s)) =
      Codec.leBytes 4 p'.length ++ (p' ++ (Codec.leBytes 4 s'.length ++ s')) := by
    simp only [frame, List.flatMap_cons, List.flatMap_nil, List.append_nil,
      List.append_assoc] at h
    exact List.append_cancel_left (List.append_cancel_left h)
  have hfield := (List.append_inj hrest (by simp)).1
  have hmod := congrArg Codec.ofLeBytes hfield
  rw [Codec.ofLeBytes_leBytes, Codec.ofLeBytes_leBytes] at hmod
  have hlen := congrArg List.length hrest
  simp only [List.length_append, Codec.length_leBytes] at hlen
  omega

theorem importState_exportState (c : GroupClient S) {order : List (Bytes × Bytes)}
    (horder : Iterates order c.values) (hread : S.read c.values (S.publicKey c.signer) = some c.signer)
    (hfits : FitsState c order) : importState (c.exportState order) = some c := by
  obtain ⟨hidentity, hpublic, hstore⟩ := hfits
  rw [← length_storeBytes] at hstore
  have hunframe : unframe (c.exportState order) 3 =
      some [c.identity, S.publicKey c.signer, storeBytes order] := by
    apply unframe_eq_some_iff.mpr
    refine ⟨⟨rfl, ?_⟩, rfl⟩
    simp only [List.forall_mem_cons]
    exact ⟨hidentity, hpublic, hstore, fun _ h => absurd h List.not_mem_nil⟩
  have hparse : parseStore (storeBytes order) = some order :=
    parseStore_eq_some_iff.mpr ⟨fitsSection_of_length hstore, rfl⟩
  unfold importState
  rw [hunframe]
  simp only [hparse, Option.bind_some, insertAll_eq horder, hread, Option.map_some]

/-- **When a client comes back.** -/
theorem importState_exportState_iff (c : GroupClient S) {order : List (Bytes × Bytes)}
    (horder : Iterates order c.values)
    (hread : S.read c.values (S.publicKey c.signer) = some c.signer) :
    importState (c.exportState order) = some c ↔ FitsState c order := by
  refine ⟨?_, importState_exportState c horder hread⟩
  intro h
  unfold importState at h
  split at h
  · rename_i identity publicKey section_ hunframe
    obtain ⟨⟨-, hsizes⟩, hframe⟩ := unframe_eq_some_iff.mp hunframe
    obtain ⟨entries, -, h⟩ := Option.bind_eq_some_iff.mp h
    obtain ⟨signer, -, hc⟩ := Option.map_eq_some_iff.mp h
    have hidentity : identity = c.identity := congrArg GroupClient.identity hc
    rw [hidentity] at hsizes hframe
    simp only [List.forall_mem_cons] at hsizes
    obtain ⟨hi, hp, hs, -⟩ := hsizes
    obtain ⟨hpublic, hstore⟩ := frame_three_inj hframe hp hs
    exact ⟨hi, hpublic, length_storeBytes order ▸ hstore⟩
  · exact nomatch h

/-- **The state codec.**  Framing is exact in both directions; a client comes back from its
    state if and only if its parts fit their length fields; and a store section that is not
    exactly a store is rejected. -/
theorem state_codec (S : SignatureKeyPairs) :
    (∀ fields : List Bytes, (∀ f ∈ fields, f.length < 2 ^ 32) →
      unframe (frame fields) fields.length = some fields) ∧
    (∀ bytes count fields, unframe bytes count = some fields → frame fields = bytes) ∧
    (∀ (c : GroupClient S) (order : List (Bytes × Bytes)), Iterates order c.values →
      S.read c.values (S.publicKey c.signer) = some c.signer →
      (importState (c.exportState order) = some c ↔ FitsState c order)) ∧
    ∀ bytes identity publicKey section_,
      unframe bytes 3 = some [identity, publicKey, section_] →
      ∀ entries extra, FitsSection entries → extra ≠ [] →
        section_ = storeBytes entries ++ extra ∨ section_ ++ extra = storeBytes entries →
        importState (S := S) bytes = none := by
  refine ⟨?_, ?_, fun c _ => importState_exportState_iff c, ?_⟩
  · intro fields hsizes
    exact unframe_eq_some_iff.mpr ⟨⟨rfl, hsizes⟩, rfl⟩
  · intro bytes count fields h
    exact (unframe_eq_some_iff.mp h).2.symm
  · intro bytes identity publicKey section_ hunframe entries extra hfits hextra hsection
    have hparse : parseStore section_ = none := by
      rcases hsection with rfl | hmissing
      · exact parseStore_leftover hfits hextra
      · exact parseStore_missing hfits hextra hmissing
    unfold importState
    rw [hunframe]
    simp only [hparse, Option.bind_none]

section Sample

/-- Key pairs that are their public keys, stored under them. -/
def sampleKeyPairs : SignatureKeyPairs where
  SignatureKeyPair := Bytes
  publicKey pair := pair
  read values publicKey :=
    (values.lookup publicKey).bind fun pair => if pair = publicKey then some pair else none

/-- A client with its key pair in its store. -/
def clientNamed (identity : Bytes) : GroupClient sampleKeyPairs :=
  ⟨insertAll [([9], [9])], ([9] : Bytes), identity⟩

theorem iterates_clientNamed (identity : Bytes) :
    Iterates [([9], [9])] (clientNamed identity).values :=
  iterates_insertAll (List.nodup_singleton _)

theorem read_clientNamed (identity : Bytes) :
    sampleKeyPairs.read (clientNamed identity).values
      (sampleKeyPairs.publicKey (clientNamed identity).signer) =
        some (clientNamed identity).signer := by
  have hstored : (insertAll [([9], [9])]).lookup [9] = some [9] := Finmap.lookup_insert _
  show ((insertAll [([9], [9])]).lookup [9]).bind _ = some ([9] : Bytes)
  rw [hstored]
  rfl

theorem state_codec_named :
    importState ((clientNamed [1, 2]).exportState [([9], [9])]) = some (clientNamed [1, 2]) :=
  ((state_codec sampleKeyPairs).2.2.1 _ _ (iterates_clientNamed _) (read_clientNamed _)).mpr
    ⟨by decide, by decide, by decide⟩

/-- A client whose identity is 4 GiB long does not come back. -/
theorem long_identity_lost :
    importState ((clientNamed (List.replicate (2 ^ 32) 0)).exportState [([9], [9])]) ≠
      some (clientNamed (List.replicate (2 ^ 32) 0)) := by
  intro h
  obtain ⟨hidentity, -⟩ :=
    (importState_exportState_iff _ (iterates_clientNamed _) (read_clientNamed _)).mp h
  have hlen : (clientNamed (List.replicate (2 ^ 32) 0)).identity.length = 2 ^ 32 :=
    List.length_replicate
  rw [hlen] at hidentity
  exact absurd hidentity (Nat.lt_irrefl _)

end Sample

end GroupClient

end Clarity
