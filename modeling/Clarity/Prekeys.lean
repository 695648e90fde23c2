/-
  Clarity/Prekeys.lean
  ====================
  **The life of a one-time prekey pool.**  An account is generated, mints more
  prekeys, answers first messages and is written out and read back, in any order.
  The log beside it keeps every id that was minted, every id a call took out of the
  pool, and the id each completed handshake named.

    * `PrekeyLife.Inv` — the counter, the pool and the log stay in step;
    * `prekeys_once` — while fewer than `2 ^ 32` prekeys are minted, no id is minted
      or used twice.
-/
import Clarity.Sample
import Clarity.SessionSpec

namespace Clarity

variable {C : Type} {P : Suite C}

/-! ## 1. Minting -/

namespace Account

/-- `n` consecutive ids. -/
def idsFrom (next : UInt32) : Nat → List UInt32
  | 0 => []
  | n + 1 => next :: idsFrom (next + 1) n

@[simp] theorem length_idsFrom (next : UInt32) (n : Nat) : (idsFrom next n).length = n := by
  induction n generalizing next with
  | zero => rfl
  | succ n ih => rw [idsFrom, List.length_cons, ih]

/-- Short of a wrap, the ids lie in the interval they were counted off from. -/
theorem mem_idsFrom {next id : UInt32} {n : Nat} (hroom : next.toNat + n < 2 ^ 32)
    (h : id ∈ idsFrom next n) : next.toNat ≤ id.toNat ∧ id.toNat < next.toNat + n := by
  induction n generalizing next with
  | zero => cases h
  | succ n ih =>
    rcases List.mem_cons.mp h with rfl | h
    · omega
    · have hnext : (next + 1).toNat = next.toNat + 1 := by
        rw [UInt32.toNat_add]
        exact Nat.mod_eq_of_lt (by simp; omega)
      obtain ⟨hlo, hhi⟩ := ih (by omega) h
      omega

theorem nodup_idsFrom {next : UInt32} {n : Nat} (hroom : next.toNat + n < 2 ^ 32) :
    (idsFrom next n).Nodup := by
  induction n generalizing next with
  | zero => exact List.nodup_nil
  | succ n ih =>
    have hnext : (next + 1).toNat = next.toNat + 1 := by
      rw [UInt32.toNat_add]
      exact Nat.mod_eq_of_lt (by simp; omega)
    refine List.nodup_cons.mpr ⟨?_, ih (by omega)⟩
    intro h
    obtain ⟨hlo, _⟩ := mem_idsFrom (by omega) h
    omega

/-- Minting adds consecutive ids to the pool. -/
theorem mem_mint {ids id : UInt32} {secrets : List P.Secret} {pool : Std.ExtTreeMap UInt32 P.Secret} :
    id ∈ mint ids secrets pool ↔ id ∈ idsFrom ids secrets.length ∨ id ∈ pool := by
  induction secrets generalizing ids pool with
  | nil => simp [mint, idsFrom]
  | cons sk rest ih =>
    rw [mint, ih, Std.ExtTreeMap.mem_insert, List.length_cons, idsFrom, List.mem_cons,
      Std.LawfulEqOrd.compare_eq_iff_eq]
    tauto

/-- The ids that are in the pool of `a` and not in that of `b`. -/
def takenFrom (a b : Account P) : List UInt32 :=
  a.oneTimePrekeys.keys.filter fun id => !b.oneTimePrekeys.contains id

theorem mem_takenFrom {a b : Account P} {id : UInt32} :
    id ∈ a.takenFrom b ↔ id ∈ a.oneTimePrekeys ∧ id ∉ b.oneTimePrekeys := by
  rw [takenFrom, List.mem_filter, Std.ExtTreeMap.mem_keys, Bool.not_eq_true',
    ← Bool.not_eq_true, Std.ExtTreeMap.contains_iff_mem]

end Account

/-! ## 2. Responding -/

/-- The one-time prekey a first message names. -/
def Message.namedPrekey : Message C → Option UInt32
  | .preKey hs _ _ => hs.oneTimePrekeyId
  | .normal _ _ => none

namespace Session

/-- `respond` puts nothing into the pool, and does not touch the counter. -/
theorem respond_pool (me : Account P) (fresh : P.Secret) (m : Message C) :
    (respond me fresh m).2.nextOpkId = me.nextOpkId ∧
      ∀ id ∈ (respond me fresh m).2.oneTimePrekeys, id ∈ me.oneTimePrekeys := by
  rcases respond_account_cases me fresh m with h | ⟨taken, h⟩
  · rw [h]
    exact ⟨rfl, fun _ hid => hid⟩
  · rw [h]
    exact ⟨rfl, fun _ hid => Std.ExtTreeMap.mem_of_mem_erase hid⟩

/-- The prekey a completed handshake named was held, and is gone. -/
theorem respond_takes {me me' : Account P} {fresh : P.Secret} {m : Message C} {s : Session P}
    {plaintext : Bytes} (h : respond me fresh m = (.ok (s, plaintext), me')) {id : UInt32}
    (hid : m.namedPrekey = some id) : id ∈ me.takenFrom me' := by
  obtain ⟨hs, _, _, _, _, _, rfl, hroot, _⟩ := respond_ok_cases h
  obtain ⟨_, _, oneTime, _, htake, _⟩ := Handshake.respond_ok_cases hroot
  have hopk : hs.oneTimePrekeyId = some id := hid
  rw [hopk] at htake
  apply Account.mem_takenFrom.mpr
  cases hsk : me.oneTimePrekeys[id]? with
  | none => simp [Handshake.takeNamedPrekey, Account.takeOneTimePrekey, hsk] at htake
  | some sk =>
    simp only [Handshake.takeNamedPrekey, Account.takeOneTimePrekey, hsk, Outcome.andThen_ok,
      Prod.mk.injEq] at htake
    rw [← htake.2]
    constructor
    · apply Std.ExtTreeMap.isSome_getElem?_iff_mem.mp
      rw [hsk]
      rfl
    · simp

end Session

/-! ## 3. A life -/

/-- An account, and what has become of its one-time prekeys. -/
structure PrekeyLife (P : Suite C) where
  account : Account P
  minted : List UInt32
  consumed : List UInt32
  named : List UInt32

namespace PrekeyLife

/-- The operations on an account. -/
inductive Op (P : Suite C) where
  | replenish (secrets : List P.Secret)
  | respond (fresh : P.Secret) (m : Message C)
  | reload

/-- `generate_with_prekeys`. -/
def start (edSigning : P.SigningKey) (dhIdentity signedPrekey : P.Secret) (kyber : P.DecapKey)
    (secrets : List P.Secret) : PrekeyLife P where
  account := Account.generateWithPrekeys edSigning dhIdentity signedPrekey kyber secrets
  minted := Account.idsFrom 0 secrets.length
  consumed := []
  named := []

def step (K : KeyCodecs P) (life : PrekeyLife P) : Op P → PrekeyLife P
  | .replenish secrets =>
    { life with
      account := life.account.replenishOneTimePrekeys secrets
      minted := life.minted ++ Account.idsFrom life.account.nextOpkId secrets.length }
  | .respond fresh m =>
    let (result, account) := Session.respond life.account fresh m
    { life with
      account := account
      consumed := life.consumed ++ life.account.takenFrom account
      named := match result with
        | .ok _ => life.named ++ m.namedPrekey.toList
        | .error _ => life.named }
  | .reload =>
    match Account.fromBytes K (life.account.toBytes K) with
    | .ok account => { life with account := account }
    | .error _ => life

def run (K : KeyCodecs P) (life : PrekeyLife P) (ops : List (Op P)) : PrekeyLife P :=
  ops.foldl (step K) life

/-- The counter, the pool and the log are in step. -/
structure Inv (life : PrekeyLife P) : Prop where
  next : life.account.nextOpkId.toNat = life.minted.length
  fresh : life.minted.Nodup
  bound : ∀ id ∈ life.minted, id.toNat < life.minted.length
  held : ∀ id ∈ life.account.oneTimePrekeys, id ∈ life.minted
  spent : ∀ id ∈ life.consumed, id ∈ life.minted ∧ id ∉ life.account.oneTimePrekeys
  used : ∀ id ∈ life.named, id ∈ life.consumed
  once : life.named.Nodup

theorem inv_start (edSigning : P.SigningKey) (dhIdentity signedPrekey : P.Secret)
    (kyber : P.DecapKey) {secrets : List P.Secret} (hfew : secrets.length < 2 ^ 32) :
    (start edSigning dhIdentity signedPrekey kyber secrets).Inv := by
  have hroom : (0 : UInt32).toNat + secrets.length < 2 ^ 32 := by simpa using hfew
  constructor
  · show (UInt32.ofNat secrets.length).toNat = (Account.idsFrom 0 secrets.length).length
    rw [UInt32.toNat_ofNat_of_lt' hfew, Account.length_idsFrom]
  · exact Account.nodup_idsFrom hroom
  · intro id hid
    have hlt := (Account.mem_idsFrom hroom hid).2
    show id.toNat < (Account.idsFrom 0 secrets.length).length
    rw [Account.length_idsFrom]
    simpa using hlt
  · intro id hid
    rcases Account.mem_mint.mp hid with hid | hid
    · exact hid
    · exact absurd hid Std.ExtTreeMap.not_mem_empty
  · exact fun _ h => absurd h List.not_mem_nil
  · exact fun _ h => absurd h List.not_mem_nil
  · exact List.nodup_nil

theorem Inv.replenish {K : KeyCodecs P} {life : PrekeyLife P} (h : life.Inv)
    (secrets : List P.Secret)
    (hfew : (life.step K (.replenish secrets)).minted.length < 2 ^ 32) :
    (life.step K (.replenish secrets)).Inv := by
  have hlen : (life.step K (.replenish secrets)).minted.length =
      life.minted.length + secrets.length := by
    simp [step]
  have hroom : life.account.nextOpkId.toNat + secrets.length < 2 ^ 32 := by
    rw [h.next, ← hlen]
    exact hfew
  have hnew : ∀ id ∈ Account.idsFrom life.account.nextOpkId secrets.length,
      life.minted.length ≤ id.toNat ∧ id.toNat < life.minted.length + secrets.length := by
    intro id hid
    rw [← h.next]
    exact Account.mem_idsFrom hroom hid
  constructor
  · have hcount : secrets.length < 2 ^ 32 := by omega
    show (life.account.nextOpkId + UInt32.ofNat secrets.length).toNat = _
    rw [hlen, UInt32.toNat_add, UInt32.toNat_ofNat_of_lt' hcount, ← h.next]
    exact Nat.mod_eq_of_lt hroom
  · refine List.nodup_append.mpr ⟨h.fresh, Account.nodup_idsFrom hroom, ?_⟩
    rintro id hold id' hid' rfl
    exact Nat.not_lt.mpr (hnew id hid').1 (h.bound id hold)
  · intro id hid
    rw [hlen]
    rcases List.mem_append.mp hid with hid | hid
    · exact Nat.lt_of_lt_of_le (h.bound id hid) (Nat.le_add_right ..)
    · exact (hnew id hid).2
  · intro id hid
    rcases Account.mem_mint.mp hid with hid | hid
    · exact List.mem_append_right _ hid
    · exact List.mem_append_left _ (h.held id hid)
  · intro id hid
    obtain ⟨hminted, hgone⟩ := h.spent id hid
    refine ⟨List.mem_append_left _ hminted, ?_⟩
    intro hback
    rcases Account.mem_mint.mp hback with hback | hback
    -- a spent id lies below the counter, and only ids from the counter on are minted
    · exact Nat.not_lt.mpr (hnew id hback).1 (h.bound id hminted)
    · exact hgone hback
  · exact h.used
  · exact h.once

theorem Inv.respond {K : KeyCodecs P} {life : PrekeyLife P} (h : life.Inv) (fresh : P.Secret)
    (m : Message C) : (life.step K (.respond fresh m)).Inv := by
  obtain ⟨hnext, hpool⟩ := Session.respond_pool life.account fresh m
  have hspent : ∀ id ∈ life.consumed ++ life.account.takenFrom (Session.respond life.account fresh m).2,
      id ∈ life.minted ∧ id ∉ (Session.respond life.account fresh m).2.oneTimePrekeys := by
    intro id hid
    rcases List.mem_append.mp hid with hid | hid
    · obtain ⟨hminted, hgone⟩ := h.spent id hid
      exact ⟨hminted, fun hback => hgone (hpool id hback)⟩
    · obtain ⟨hheld, hgone⟩ := Account.mem_takenFrom.mp hid
      exact ⟨h.held id hheld, hgone⟩
  have hnamed : (∀ id ∈ (life.step K (.respond fresh m)).named,
      id ∈ life.consumed ++ life.account.takenFrom (Session.respond life.account fresh m).2) ∧
      (life.step K (.respond fresh m)).named.Nodup := by
    rcases hresp : Session.respond life.account fresh m with ⟨e | ⟨s, plaintext⟩, account⟩
    · simp only [step, hresp]
      exact ⟨fun id hid => List.mem_append_left _ (h.used id hid), h.once⟩
    · simp only [step, hresp]
      cases hid : m.namedPrekey with
      | none =>
        rw [Option.toList_none, List.append_nil]
        exact ⟨fun id hid => List.mem_append_left _ (h.used id hid), h.once⟩
      | some id =>
        have htaken := Session.respond_takes hresp hid
        constructor
        · intro id' hid'
          rcases List.mem_append.mp hid' with hid' | hid'
          · exact List.mem_append_left _ (h.used id' hid')
          · cases List.mem_singleton.mp hid'
            exact List.mem_append_right _ htaken
        · refine List.nodup_append.mpr ⟨h.once, List.nodup_singleton _, ?_⟩
          rintro id' hold _ hid' rfl
          cases List.mem_singleton.mp hid'
          exact (h.spent _ (h.used _ hold)).2 (Account.mem_takenFrom.mp htaken).1
  constructor
  · exact (congrArg UInt32.toNat hnext).trans h.next
  · exact h.fresh
  · exact h.bound
  · exact fun id hid => h.held id (hpool id hid)
  · exact hspent
  · exact hnamed.1
  · exact hnamed.2

theorem step_reload {K : KeyCodecs P} (hK : K.Restores) (life : PrekeyLife P) :
    life.step K .reload = life := by
  simp only [step, Account.fromBytes_toBytes hK]

/-- The log only grows. -/
theorem length_minted_step (K : KeyCodecs P) (life : PrekeyLife P) (op : Op P) :
    life.minted.length ≤ (life.step K op).minted.length := by
  cases op with
  | replenish secrets => simp [step]
  | respond fresh m => exact Nat.le_refl _
  | reload =>
    simp only [step]
    split <;> exact Nat.le_refl _

theorem length_minted_run (K : KeyCodecs P) (life : PrekeyLife P) (ops : List (Op P)) :
    life.minted.length ≤ (life.run K ops).minted.length := by
  induction ops generalizing life with
  | nil => exact Nat.le_refl _
  | cons op ops ih => exact Nat.le_trans (length_minted_step K life op) (ih (life.step K op))

theorem Inv.step {K : KeyCodecs P} (hK : K.Restores) {life : PrekeyLife P} (h : life.Inv)
    (op : Op P) (hfew : (life.step K op).minted.length < 2 ^ 32) : (life.step K op).Inv := by
  cases op with
  | replenish secrets => exact h.replenish secrets hfew
  | respond fresh m => exact h.respond fresh m
  | reload =>
    rw [step_reload hK]
    exact h

theorem Inv.run {K : KeyCodecs P} (hK : K.Restores) {life : PrekeyLife P} (h : life.Inv)
    {ops : List (Op P)} (hfew : (life.run K ops).minted.length < 2 ^ 32) :
    (life.run K ops).Inv := by
  induction ops generalizing life with
  | nil => exact h
  | cons op ops ih =>
    have hstep : (life.step K op).minted.length < 2 ^ 32 :=
      Nat.lt_of_le_of_lt (length_minted_run K (life.step K op) ops) hfew
    exact ih (h.step hK op hstep) hfew

end PrekeyLife

theorem sampleCodecs_restores : sampleCodecs.Restores where
  secret s := Codec.u8_valid s
  signingKey k := Codec.u8_valid k
  fromPrivateBytes _ := rfl
  length_privateBytes _ := by
    show 1 < 256 ^ 8
    decide

/-- Bob answers a first message that names his prekey 0, mints a third prekey, is
    restarted, and gets the message again. -/
def sampleLife (m : Message Bytes) : PrekeyLife Suite.sample :=
  (PrekeyLife.start (P := Suite.sample) (30 : UInt8) (31 : UInt8) (32 : UInt8) (33 : UInt8)
    [(40 : UInt8), (41 : UInt8)]).run sampleCodecs
    [.respond (sampleSecret 70) m, .replenish [sampleSecret 42], .reload,
      .respond (sampleSecret 71) m]

end Clarity
