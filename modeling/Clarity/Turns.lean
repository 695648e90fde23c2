/-
  Clarity/Turns.lean
  ==================
  **A conversation as a sequence of turns.**

  Seen from outside, the two ratchets of a session walk through one sequence of
  sending turns.  Turn `i + 1` belongs to the owner of ratchet secret `i + 1`; its
  root key and its chain come from the root key of turn `i` and the DH value of
  the secrets `i + 1` and `i`.  The initiator sends at odd turns, the responder
  at even ones, and secret 0 is the responder's signed prekey.

  `AtTurn` says how the state of one ratchet represents this: the ratchet sends at
  turn `u + 1` and receives at turn `u`.  The lemmas of this file follow
  `AtTurn` through `encrypt`, through the three ways a message finds its key, and
  through a DH ratchet step.
-/
import Clarity.RatchetSpec

namespace Clarity

variable {C : Type}

/-! ## 1. The sequence of turns -/

/-- The secrets drawn and the number of messages sent at each turn. -/
structure Turns (P : Suite C) where
  root : P.Key
  sec : Nat → P.Secret
  cnt : Nat → Nat

namespace Turns

variable {P : Suite C}

def pub (g : Turns P) (i : Nat) : Bytes32 := P.publicKey (g.sec i)

def rootAt (g : Turns P) : Nat → P.Key
  | 0 => g.root
  | i + 1 => (P.kdfRk (g.rootAt i) (P.diffieHellman (g.sec (i + 1)) (g.pub i))).1

def chainAt (g : Turns P) : Nat → P.Key
  | 0 => g.root
  | i + 1 => (P.kdfRk (g.rootAt i) (P.diffieHellman (g.sec (i + 1)) (g.pub i))).2

theorem rootAt_succ (g : Turns P) (i : Nat) : g.rootAt (i + 1) =
    (P.kdfRk (g.rootAt i) (P.diffieHellman (g.sec (i + 1)) (g.pub i))).1 := rfl

theorem chainAt_succ (g : Turns P) (i : Nat) : g.chainAt (i + 1) =
    (P.kdfRk (g.rootAt i) (P.diffieHellman (g.sec (i + 1)) (g.pub i))).2 := rfl

/-- The message key of message `j` of turn `i`. -/
def key (g : Turns P) (i j : Nat) : P.Key := messageKeyAt P (g.chainAt i) j

/-- The same turns, with secret `k` drawn. -/
def draw (g : Turns P) (k : Nat) (s : P.Secret) : Turns P :=
  { g with sec := Function.update g.sec k s }

/-- The same turns, with one more message sent at turn `i`. -/
def count (g : Turns P) (i : Nat) : Turns P :=
  { g with cnt := Function.update g.cnt i (g.cnt i + 1) }

@[simp] theorem sec_draw_self (g : Turns P) (k : Nat) (s : P.Secret) : (g.draw k s).sec k = s :=
  Function.update_self ..

theorem sec_draw_of_ne (g : Turns P) {k i : Nat} (s : P.Secret) (h : i ≠ k) :
    (g.draw k s).sec i = g.sec i :=
  Function.update_of_ne h ..

theorem pub_draw_of_lt (g : Turns P) {k i : Nat} (s : P.Secret) (h : i < k) :
    (g.draw k s).pub i = g.pub i := by
  unfold pub
  rw [sec_draw_of_ne g s (Nat.ne_of_lt h)]

/-- What was derived before the new secret does not depend on it. -/
theorem rootAt_draw_of_lt (g : Turns P) {k i : Nat} (s : P.Secret) (h : i < k) :
    (g.draw k s).rootAt i = g.rootAt i := by
  induction i with
  | zero => rfl
  | succ i ih =>
    rw [rootAt, rootAt, ih (by omega), sec_draw_of_ne g s (Nat.ne_of_lt h),
      pub_draw_of_lt g s (by omega)]

theorem chainAt_draw_of_lt (g : Turns P) {k i : Nat} (s : P.Secret) (h : i < k) :
    (g.draw k s).chainAt i = g.chainAt i := by
  cases i with
  | zero => rfl
  | succ i =>
    rw [chainAt, chainAt, rootAt_draw_of_lt g s (by omega), sec_draw_of_ne g s (Nat.ne_of_lt h),
      pub_draw_of_lt g s (by omega)]

theorem key_draw_of_lt (g : Turns P) {k i : Nat} (s : P.Secret) (h : i < k) (j : Nat) :
    (g.draw k s).key i j = g.key i j := by
  unfold key
  rw [chainAt_draw_of_lt g s h]

@[simp] theorem cnt_draw (g : Turns P) (k : Nat) (s : P.Secret) : (g.draw k s).cnt = g.cnt := rfl

@[simp] theorem pub_count (g : Turns P) (i : Nat) : (g.count i).pub = g.pub := rfl

@[simp] theorem rootAt_count (g : Turns P) (i : Nat) : (g.count i).rootAt = g.rootAt := by
  funext j
  induction j with
  | zero => rfl
  | succ j ih =>
    rw [rootAt, rootAt, ih]
    rfl

@[simp] theorem chainAt_count (g : Turns P) (i : Nat) : (g.count i).chainAt = g.chainAt := by
  funext j
  cases j with
  | zero => rfl
  | succ j =>
    rw [chainAt, chainAt, rootAt_count]
    rfl

@[simp] theorem key_count (g : Turns P) (i : Nat) : (g.count i).key = g.key := by
  funext j k
  unfold key
  rw [chainAt_count]

@[simp] theorem cnt_count_self (g : Turns P) (i : Nat) : (g.count i).cnt i = g.cnt i + 1 :=
  Function.update_self ..

theorem cnt_count_of_ne (g : Turns P) {i j : Nat} (h : j ≠ i) : (g.count i).cnt j = g.cnt j :=
  Function.update_of_ne h ..

theorem cnt_le_cnt_count (g : Turns P) (i j : Nat) : g.cnt j ≤ (g.count i).cnt j := by
  by_cases h : j = i
  · subst h
    rw [cnt_count_self]
    omega
  · exact Nat.le_of_eq (cnt_count_of_ne g h).symm

/-- The public keys up to `top` are pairwise distinct. -/
def Distinct (g : Turns P) (top : Nat) : Prop :=
  ∀ i j, i ≤ top → j ≤ top → g.pub i = g.pub j → i = j

theorem Distinct.draw {g : Turns P} {top : Nat} (h : g.Distinct top) {s : P.Secret}
    (hs : ∀ i ≤ top, g.pub i ≠ P.publicKey s) : (g.draw (top + 1) s).Distinct (top + 1) := by
  have hnew : (g.draw (top + 1) s).pub (top + 1) = P.publicKey s := by
    unfold pub
    rw [sec_draw_self]
  intro i j hi hj heq
  rcases Nat.lt_or_eq_of_le hi with hi' | rfl
  · rw [pub_draw_of_lt g s hi'] at heq
    rcases Nat.lt_or_eq_of_le hj with hj' | rfl
    · rw [pub_draw_of_lt g s hj'] at heq
      exact h i j (by omega) (by omega) heq
    · rw [hnew] at heq
      exact absurd heq (hs i (by omega))
  · rw [hnew] at heq
    rcases Nat.lt_or_eq_of_le hj with hj' | rfl
    · rw [pub_draw_of_lt g s hj'] at heq
      exact absurd heq.symm (hs j (by omega))
    · rfl

end Turns

/-! ## 2. A ratchet at a turn -/

namespace DoubleRatchet

variable {P : Suite C}

/-- `r` sends at turn `u + 1` and receives at turn `u`; what it cached belongs to
    messages it has passed over. -/
structure AtTurn (g : Turns P) (u : Nat) (r : DoubleRatchet P) : Prop where
  rootKey : r.rootKey = g.rootAt (u + 1)
  dhSelf : r.dhSelf = g.sec (u + 1)
  dhSelfPub : r.dhSelfPub = g.pub (u + 1)
  dhRemote : r.dhRemote = some (g.pub u)
  send : r.chainSend = some (chainKeyAt P (g.chainAt (u + 1)) (g.cnt (u + 1)))
  nSend : r.nSend.toNat = g.cnt (u + 1)
  pn : r.pn.toNat = g.cnt (u - 1)
  recv : r.chainRecv = if u = 0 then none else some (chainKeyAt P (g.chainAt u) r.nRecv.toNat)
  nRecv_le : r.nRecv.toNat ≤ g.cnt u
  cached : ∀ (pub : Bytes32) (n : UInt32) (k : P.Key), r.skipped[(pub, n)]? = some k →
    ∃ i, pub = g.pub i ∧ (i < u ∨ i = u ∧ n.toNat < r.nRecv.toNat)

/-- If message `j` of turn `i` lies behind the receiving chain, its key is cached. -/
def Awaits (g : Turns P) (u : Nat) (r : DoubleRatchet P) (i j : Nat) : Prop :=
  i < u ∨ i = u ∧ j < r.nRecv.toNat →
    r.skipped[(g.pub i, UInt32.ofNat j)]? = some (g.key i j)

namespace AtTurn

variable {g : Turns P} {u : Nat} {r : DoubleRatchet P}

/-- Messages of turns the ratchet does not take part in do not concern it. -/
theorem count_other (h : AtTurn g u r) {i : Nat} (hsend : u + 1 ≠ i) (hpn : u - 1 ≠ i) :
    AtTurn (g.count i) u r where
  rootKey := by rw [Turns.rootAt_count]; exact h.rootKey
  dhSelf := h.dhSelf
  dhSelfPub := h.dhSelfPub
  dhRemote := h.dhRemote
  send := by rw [Turns.chainAt_count, Turns.cnt_count_of_ne g hsend]; exact h.send
  nSend := by rw [Turns.cnt_count_of_ne g hsend]; exact h.nSend
  pn := by rw [Turns.cnt_count_of_ne g hpn]; exact h.pn
  recv := by rw [Turns.chainAt_count]; exact h.recv
  nRecv_le := Nat.le_trans h.nRecv_le (g.cnt_le_cnt_count i u)
  cached := h.cached

theorem draw (h : AtTurn g u r) {k : Nat} (s : P.Secret) (hk : u + 1 < k) :
    AtTurn (g.draw k s) u r where
  rootKey := by rw [g.rootAt_draw_of_lt s hk]; exact h.rootKey
  dhSelf := by rw [g.sec_draw_of_ne s (Nat.ne_of_lt hk)]; exact h.dhSelf
  dhSelfPub := by rw [g.pub_draw_of_lt s hk]; exact h.dhSelfPub
  dhRemote := by rw [g.pub_draw_of_lt s (by omega)]; exact h.dhRemote
  send := by rw [g.chainAt_draw_of_lt s hk]; exact h.send
  nSend := h.nSend
  pn := h.pn
  recv := by rw [g.chainAt_draw_of_lt s (by omega)]; exact h.recv
  nRecv_le := h.nRecv_le
  cached := by
    intro pub n key hkey
    obtain ⟨i, hpub, hi⟩ := h.cached pub n key hkey
    refine ⟨i, ?_, hi⟩
    rw [g.pub_draw_of_lt s (by omega)]
    exact hpub

/-- Sending: the message is the next one of turn `u + 1`. -/
theorem encrypt (h : AtTurn g u r) (hlt : g.cnt (u + 1) + 1 < 2 ^ 32) {plaintext adPrefix : Bytes}
    {header : RatchetHeader} {ciphertext : C} {r' : DoubleRatchet P}
    (henc : r.encrypt plaintext adPrefix = (.ok (header, ciphertext), r')) :
    header = ⟨g.pub (u + 1), r.pn, UInt32.ofNat (g.cnt (u + 1))⟩ ∧
      ciphertext = P.aeadSeal (g.key (u + 1) (g.cnt (u + 1))) plaintext
        (associatedData adPrefix header) ∧
      AtTurn (g.count (u + 1)) u r' := by
  obtain ⟨ck, hck, hheader, hc, hr'⟩ := encrypt_ok_cases henc
  rw [h.send] at hck
  cases hck
  have hn : r.nSend = UInt32.ofNat (g.cnt (u + 1)) := by
    rw [← h.nSend, UInt32.ofNat_toNat]
  refine ⟨?_, hc, ?_⟩
  · rw [hheader, h.dhSelfPub, hn]
  · subst hr'
    refine ⟨?_, h.dhSelf, h.dhSelfPub, h.dhRemote, ?_, ?_, ?_, ?_, ?_, h.cached⟩
    · rw [Turns.rootAt_count]
      exact h.rootKey
    · rw [Turns.chainAt_count, Turns.cnt_count_self, kdfCk_chainKeyAt]
    · rw [Turns.cnt_count_self, UInt32.toNat_add, h.nSend, UInt32.toNat_one]
      omega
    · rw [Turns.cnt_count_of_ne g (by omega)]
      exact h.pn
    · rw [Turns.chainAt_count]
      exact h.recv
    · rw [Turns.cnt_count_of_ne g (by omega)]
      exact h.nRecv_le

/-- A slot of the cache extended by `k` keys of the receiving chain: an old one, or
    one of the new. -/
theorem cached_withCached (h : AtTurn g u r) {k : Nat} (hk : r.nRecv.toNat + k < 2 ^ 32)
    {pub : Bytes32} {n : UInt32} {key : P.Key}
    (hkey : (r.withCached (g.pub u) (chainKeyAt P (g.chainAt u) r.nRecv.toNat)
      k).skipped[(pub, n)]? = some key) :
    (∃ i, pub = g.pub i ∧ (i < u ∨ i = u ∧ n.toNat < r.nRecv.toNat)) ∨
      pub = g.pub u ∧ n.toNat < r.nRecv.toNat + k := by
  simp only [DoubleRatchet.withCached, getElem?_cacheKeys P _ k _ _ _ (by omega : k ≤ 2 ^ 32)]
    at hkey
  by_cases hslot : pub = g.pub u ∧ (n - r.nRecv).toNat < k
  · obtain ⟨hpub, hlt⟩ := hslot
    refine Or.inr ⟨hpub, ?_⟩
    rw [UInt32.toNat_sub] at hlt
    have := n.toNat_lt
    omega
  · rw [if_neg hslot] at hkey
    exact Or.inl (h.cached pub n key hkey)

/-- Dropping a cached key. -/
theorem drop (h : AtTurn g u r) (slot : Bytes32 × UInt32) :
    AtTurn g u { r with skipped := r.skipped.erase slot } where
  rootKey := h.rootKey
  dhSelf := h.dhSelf
  dhSelfPub := h.dhSelfPub
  dhRemote := h.dhRemote
  send := h.send
  nSend := h.nSend
  pn := h.pn
  recv := h.recv
  nRecv_le := h.nRecv_le
  cached := by
    intro pub n k hk
    simp only [Std.ExtTreeMap.getElem?_erase] at hk
    split at hk
    · cases hk
    · exact h.cached pub n k hk

/-- Using the key of the message `k` places ahead on the receiving chain. -/
theorem used (h : AtTurn g u r) (hu : u ≠ 0) {k : Nat} (hk : r.nRecv.toNat + k < g.cnt u)
    (hcnt : g.cnt u < 2 ^ 32) :
    (r.used (g.pub u) (chainKeyAt P (g.chainAt u) r.nRecv.toNat) k).nRecv.toNat =
        r.nRecv.toNat + k + 1 ∧
      AtTurn g u (r.used (g.pub u) (chainKeyAt P (g.chainAt u) r.nRecv.toNat) k) := by
  have hn : (r.used (g.pub u) (chainKeyAt P (g.chainAt u) r.nRecv.toNat) k).nRecv.toNat =
      r.nRecv.toNat + k + 1 := by
    show (r.nRecv + UInt32.ofNat k + 1).toNat = _
    rw [UInt32.toNat_add, UInt32.toNat_add, UInt32.toNat_ofNat', UInt32.toNat_one]
    omega
  refine ⟨hn, h.rootKey, h.dhSelf, h.dhSelfPub, h.dhRemote, h.send, h.nSend, h.pn, ?_, ?_, ?_⟩
  · rw [if_neg hu, hn]
    show some (chainKeyAt P (chainKeyAt P (g.chainAt u) r.nRecv.toNat) (k + 1)) = _
    rw [chainKeyAt_add, Nat.add_assoc]
  · rw [hn]
    exact hk
  · intro pub n key hkey
    rw [hn]
    rcases h.cached_withCached (by omega) hkey with ⟨i, hpub, hi⟩ | ⟨hpub, hlt⟩
    · exact ⟨i, hpub, by omega⟩
    · exact ⟨u, hpub, Or.inr ⟨rfl, by omega⟩⟩

end AtTurn

/-! ## 3. What a ratchet still has to receive -/

/-- The cache extended by `k` keys of the receiving chain, read at a message. -/
theorem getElem?_withCached (g : Turns P) (r : DoubleRatchet P) {u i j k : Nat}
    (hpub : g.pub i = g.pub u → i = u) (hj : j < 2 ^ 32) (hk : r.nRecv.toNat + k < 2 ^ 32) :
    (r.withCached (g.pub u) (chainKeyAt P (g.chainAt u) r.nRecv.toNat)
        k).skipped[(g.pub i, UInt32.ofNat j)]? =
      if i = u ∧ r.nRecv.toNat ≤ j ∧ j < r.nRecv.toNat + k then some (g.key i j)
      else r.skipped[(g.pub i, UInt32.ofNat j)]? := by
  simp only [withCached, getElem?_cacheKeys P _ k _ _ _ (by omega : k ≤ 2 ^ 32)]
  have hsub : (UInt32.ofNat j - r.nRecv).toNat = (2 ^ 32 - r.nRecv.toNat + j) % 2 ^ 32 := by
    rw [UInt32.toNat_sub, UInt32.toNat_ofNat', Nat.mod_eq_of_lt hj]
  have hlt := r.nRecv.toNat_lt
  by_cases hin : i = u ∧ r.nRecv.toNat ≤ j ∧ j < r.nRecv.toNat + k
  · obtain ⟨rfl, hle, hlt'⟩ := hin
    have hidx : (UInt32.ofNat j - r.nRecv).toNat = j - r.nRecv.toNat := by omega
    rw [if_pos ⟨rfl, by omega⟩, if_pos ⟨rfl, hle, hlt'⟩, hidx, messageKeyAt_add,
      Nat.add_sub_cancel' hle]
    rfl
  · have hout : ¬ (g.pub i = g.pub u ∧ (UInt32.ofNat j - r.nRecv).toNat < k) := by
      rintro ⟨heq, hidx⟩
      have hi := hpub heq
      omega
    rw [if_neg hout, if_neg hin]

namespace Awaits

variable {g : Turns P} {u : Nat} {r : DoubleRatchet P} {i j : Nat}

/-- Another message's slot was dropped. -/
theorem drop (h : Awaits g u r i j) {i' j' : Nat} (hpub : g.pub i' = g.pub i → i' = i)
    (hj : j < 2 ^ 32) (hj' : j' < 2 ^ 32) (hne : (i', j') ≠ (i, j)) :
    Awaits g u { r with skipped := r.skipped.erase (g.pub i', UInt32.ofNat j') } i j := by
  intro hbehind
  have hold := h hbehind
  simp only [Std.ExtTreeMap.getElem?_erase]
  rw [if_neg, hold]
  simp only [Std.LawfulEqCmp.compare_eq_iff_eq, Prod.mk.injEq]
  rintro ⟨hp, hn⟩
  have hn' := congrArg UInt32.toNat hn
  rw [UInt32.toNat_ofNat', UInt32.toNat_ofNat', Nat.mod_eq_of_lt hj, Nat.mod_eq_of_lt hj'] at hn'
  exact hne (Prod.ext (hpub hp) hn')

/-- The chain was moved past another message. -/
theorem used (h : Awaits g u r i j) (hr : AtTurn g u r) (hu : u ≠ 0) {k : Nat}
    (hk : r.nRecv.toNat + k < g.cnt u) (hcnt : g.cnt u < 2 ^ 32)
    (hpub : g.pub i = g.pub u → i = u) (hj : j < 2 ^ 32)
    (hne : (i, j) ≠ (u, r.nRecv.toNat + k)) :
    Awaits g u (r.used (g.pub u) (chainKeyAt P (g.chainAt u) r.nRecv.toNat) k) i j := by
  intro hbehind
  rw [(hr.used hu hk hcnt).1] at hbehind
  show (r.withCached (g.pub u) _ k).skipped[(g.pub i, UInt32.ofNat j)]? = _
  rw [getElem?_withCached g r hpub hj (by omega)]
  by_cases hin : i = u ∧ r.nRecv.toNat ≤ j ∧ j < r.nRecv.toNat + k
  · rw [if_pos hin]
  · rw [if_neg hin]
    refine h ?_
    rcases hbehind with hlt | ⟨rfl, hlt⟩
    · exact Or.inl hlt
    · refine Or.inr ⟨rfl, ?_⟩
      have hne' : j ≠ r.nRecv.toNat + k := fun heq => hne (by rw [heq])
      omega

end Awaits

/-! ## 4. Moving on to a new receiving turn -/

/-- `r` stands before a DH ratchet step that opens the receiving turn `m + 1`. -/
structure BeforeTurn (g : Turns P) (m : Nat) (r : DoubleRatchet P) : Prop where
  rootKey : r.rootKey = g.rootAt m
  dhSelf : r.dhSelf = g.sec m
  nSend : r.nSend.toNat = g.cnt m
  cached : ∀ (pub : Bytes32) (n : UInt32) (k : P.Key), r.skipped[(pub, n)]? = some k →
    ∃ i ≤ m, pub = g.pub i

theorem beforeTurn_initResponder {g : Turns P} (h0 : g.cnt 0 = 0) :
    BeforeTurn g 0 (initResponder g.root (g.sec 0)) where
  rootKey := rfl
  dhSelf := rfl
  nSend := h0.symm
  cached := by
    intro pub n k hk
    simp [initResponder] at hk

theorem atTurn_initInitiator {g : Turns P} (h0 : g.cnt 0 = 0) (h1 : g.cnt 1 = 0) :
    AtTurn g 0 (initInitiator (g.sec 1) g.root (g.pub 0)) where
  rootKey := rfl
  dhSelf := rfl
  dhSelfPub := rfl
  dhRemote := rfl
  send := by
    rw [h1]
    rfl
  nSend := h1.symm
  pn := h0.symm
  recv := rfl
  nRecv_le := Nat.zero_le _
  cached := by
    intro pub n k hk
    simp [initInitiator] at hk

/-- The DH ratchet step: the new receiving chain is the chain the other side sends
    on, because Diffie-Hellman commutes. -/
theorem BeforeTurn.dhRatchet (hP : P.Lawful) {g : Turns P} {m : Nat} {r : DoubleRatchet P}
    (h : BeforeTurn g m r) (fresh : P.Secret) (hcnt : g.cnt (m + 2) = 0) :
    r.newChain (g.pub (m + 1)) = g.chainAt (m + 1) ∧
      AtTurn (g.draw (m + 2) fresh) (m + 1) (r.dhRatchet fresh (g.pub (m + 1))) := by
  have hshared : P.diffieHellman r.dhSelf (g.pub (m + 1)) =
      P.diffieHellman (g.sec (m + 1)) (g.pub m) := by
    rw [h.dhSelf]
    exact hP.dh_comm _ _
  have hchain : r.newChain (g.pub (m + 1)) = g.chainAt (m + 1) := by
    unfold newChain
    rw [hshared, h.rootKey]
    rfl
  have hroot : (P.kdfRk r.rootKey (P.diffieHellman r.dhSelf (g.pub (m + 1)))).1 =
      g.rootAt (m + 1) := by
    rw [hshared, h.rootKey]
    rfl
  have hpub : (g.draw (m + 2) fresh).pub (m + 1) = g.pub (m + 1) :=
    g.pub_draw_of_lt fresh (Nat.lt_succ_self _)
  have hrootDraw : (g.draw (m + 2) fresh).rootAt (m + 1) = g.rootAt (m + 1) :=
    g.rootAt_draw_of_lt fresh (Nat.lt_succ_self _)
  refine ⟨hchain, ?_, ?_, ?_, ?_, ?_, ?_, h.nSend, ?_, Nat.zero_le _, ?_⟩
  · show (P.kdfRk (P.kdfRk r.rootKey _).1 (P.diffieHellman fresh (g.pub (m + 1)))).1 = _
    rw [hroot, Turns.rootAt_succ (g.draw (m + 2) fresh), hrootDraw, hpub, Turns.sec_draw_self]
  · exact (g.sec_draw_self (m + 2) fresh).symm
  · show P.publicKey fresh = P.publicKey ((g.draw (m + 2) fresh).sec (m + 2))
    rw [Turns.sec_draw_self]
  · rw [hpub]
    rfl
  · show some (P.kdfRk (P.kdfRk r.rootKey _).1 (P.diffieHellman fresh (g.pub (m + 1)))).2 = _
    rw [hroot, Turns.cnt_draw, hcnt, chainKeyAt_zero, Turns.chainAt_succ (g.draw (m + 2) fresh),
      hrootDraw, hpub, Turns.sec_draw_self]
  · rw [Turns.cnt_draw, hcnt]
    rfl
  · rw [if_neg (Nat.succ_ne_zero m), g.chainAt_draw_of_lt fresh (Nat.lt_succ_self _)]
    exact congrArg some hchain
  · intro pub n k hk
    obtain ⟨i, hi, hpub'⟩ := h.cached pub n k hk
    refine ⟨i, ?_, Or.inl (by omega)⟩
    rw [g.pub_draw_of_lt fresh (by omega)]
    exact hpub'

/-- The state after the first message of the new turn, its number being `j`. -/
theorem BeforeTurn.used (hP : P.Lawful) {g : Turns P} {m j : Nat} {r : DoubleRatchet P}
    (h : BeforeTurn g m r) (fresh : P.Secret) (hnext : g.cnt (m + 2) = 0)
    (hj : j < g.cnt (m + 1)) (hcnt : g.cnt (m + 1) < 2 ^ 32) :
    AtTurn (g.draw (m + 2) fresh) (m + 1)
        ((r.dhRatchet fresh (g.pub (m + 1))).used (g.pub (m + 1)) (g.chainAt (m + 1)) j) ∧
      ∀ i' j', (i' < m + 1 → r.skipped[(g.pub i', UInt32.ofNat j')]? = some (g.key i' j')) →
        i' ≤ m + 1 → (g.pub i' = g.pub (m + 1) → i' = m + 1) → j' < 2 ^ 32 →
        (i', j') ≠ (m + 1, j) →
        Awaits (g.draw (m + 2) fresh) (m + 1)
          ((r.dhRatchet fresh (g.pub (m + 1))).used (g.pub (m + 1)) (g.chainAt (m + 1)) j) i' j' := by
  have hat := (h.dhRatchet hP fresh hnext).2
  have hzero : (r.dhRatchet fresh (g.pub (m + 1))).nRecv.toNat = 0 := rfl
  have hpub : (g.draw (m + 2) fresh).pub (m + 1) = g.pub (m + 1) :=
    g.pub_draw_of_lt fresh (Nat.lt_succ_self _)
  have hchain : (g.draw (m + 2) fresh).chainAt (m + 1) = g.chainAt (m + 1) :=
    g.chainAt_draw_of_lt fresh (Nat.lt_succ_self _)
  have hused := hat.used (k := j) (Nat.succ_ne_zero m) (by rw [hzero, Nat.zero_add]; exact hj) hcnt
  rw [hpub, hchain, hzero, chainKeyAt_zero] at hused
  refine ⟨hused.2, ?_⟩
  intro i' j' hold hle hinj hj' hne
  have haw : Awaits (g.draw (m + 2) fresh) (m + 1) (r.dhRatchet fresh (g.pub (m + 1))) i' j' := by
    intro hbehind
    rw [hzero] at hbehind
    rw [g.pub_draw_of_lt fresh (by omega), g.key_draw_of_lt fresh (by omega)]
    exact hold (by omega)
  have hstep := haw.used hat (k := j) (Nat.succ_ne_zero m)
    (by rw [hzero, Nat.zero_add]; exact hj) hcnt
    (by rw [g.pub_draw_of_lt fresh (by omega), hpub]; exact hinj) hj'
    (by rw [hzero, Nat.zero_add]; exact hne)
  rw [hpub, hchain, hzero, chainKeyAt_zero] at hstep
  exact hstep

/-- `r1` is `r` with its receiving chain closed: the keys up to the last message
    of the turn are cached. -/
structure Closes (g : Turns P) (u : Nat) (r r1 : DoubleRatchet P) : Prop where
  before : BeforeTurn g (u + 1) r1
  size_le : r1.skipped.size ≤ r.skipped.size + (g.cnt u - r.nRecv.toNat)
  lookup : ∀ i j, (g.pub i = g.pub u → i = u) → j < 2 ^ 32 →
    r1.skipped[(g.pub i, UInt32.ofNat j)]? =
      if i = u ∧ r.nRecv.toNat ≤ j ∧ j < g.cnt u then some (g.key i j)
      else r.skipped[(g.pub i, UInt32.ofNat j)]?

theorem AtTurn.close {g : Turns P} {u : Nat} {r : DoubleRatchet P} (h : AtTurn g u r)
    (h0 : g.cnt 0 = 0) {pn : UInt32} (hpn : pn.toNat = g.cnt u)
    (hgap : g.cnt u - r.nRecv.toNat ≤ 1000)
    (hroom : r.skipped.size + (g.cnt u - r.nRecv.toNat) ≤ MAX_SKIPPED_CACHE) :
    ∃ r1, r.skipMessageKeys pn = (.ok (), r1) ∧ Closes g u r r1 := by
  have hle := h.nRecv_le
  by_cases hu : u = 0
  · -- nothing was received yet, and turn 0 has no messages
    subst hu
    have hrecv : r.chainRecv = none := by rw [h.recv, if_pos rfl]
    refine ⟨r, by simp [skipMessageKeys, hrecv], ⟨h.rootKey, h.dhSelf, h.nSend, ?_⟩, ?_, ?_⟩
    · intro pub n k hk
      obtain ⟨i, hpub, hi⟩ := h.cached pub n k hk
      exact ⟨i, by omega, hpub⟩
    · omega
    · intro i j _ _
      rw [if_neg (by omega)]
  · have hrecv : r.chainRecv = some (chainKeyAt P (g.chainAt u) r.nRecv.toNat) := by
      rw [h.recv, if_neg hu]
    have hnle : r.nRecv ≤ pn := by
      rw [UInt32.le_iff_toNat_le, hpn]
      exact hle
    have hg : r.gap pn = g.cnt u - r.nRecv.toNat := by
      unfold gap
      rw [UInt32.toNat_sub_of_le _ _ hnle, hpn]
    have hpnlt := pn.toNat_lt
    have hskip := skipMessageKeys_of_room hrecv h.dhRemote hnle
      (UInt32.le_iff_toNat_le.mpr (by
        show r.gap pn ≤ 1000
        omega)) (by rw [hg]; exact hroom)
    rw [hg] at hskip
    refine ⟨_, hskip, ⟨h.rootKey, h.dhSelf, h.nSend, ?_⟩, size_withCached_le _ _ _ _, ?_⟩
    · intro pub n k hk
      rcases h.cached_withCached (by omega) hk with ⟨i, hpub, hi⟩ | ⟨hpub, _⟩
      · exact ⟨i, by omega, hpub⟩
      · exact ⟨u, by omega, hpub⟩
    · intro i j hpub hj
      have hlast : r.nRecv.toNat + (g.cnt u - r.nRecv.toNat) = g.cnt u := by omega
      have hlook := getElem?_withCached g r (k := g.cnt u - r.nRecv.toNat) hpub hj (by omega)
      rw [hlast] at hlook
      exact hlook

end DoubleRatchet

/-! ## 5. Receiving a message -/

/-- The header and ciphertext of message `j` of turn `i`. -/
structure Turns.Carries {P : Suite C} (g : Turns P) (adPrefix : Bytes) (i j : Nat)
    (header : RatchetHeader) (ciphertext : C) (plaintext : Bytes) : Prop where
  header_eq : header = ⟨g.pub i, UInt32.ofNat (g.cnt (i - 2)), UInt32.ofNat j⟩
  ciphertext_eq : ciphertext =
    P.aeadSeal (g.key i j) plaintext (associatedData adPrefix header)

namespace DoubleRatchet

variable {P : Suite C}

/-- How many keys of the current receiving chain a message under a new ratchet
    key makes `decrypt` pass over. -/
def closingGap (r : DoubleRatchet P) (header : RatchetHeader) : Nat :=
  if r.chainRecv.isSome then header.pn.toNat - r.nRecv.toNat else 0

/-- The message stays within `MAX_SKIP` on each chain, and the cache has room for
    the keys to be passed over. -/
def WithinLimits (r : DoubleRatchet P) (header : RatchetHeader) : Prop :=
  r.skipped[(header.dhPub, header.n)]? = none →
    if r.dhRemote = some header.dhPub then
      header.n.toNat - r.nRecv.toNat ≤ MAX_SKIP.toNat ∧
        r.skipped.size + (header.n.toNat - r.nRecv.toNat) ≤ MAX_SKIPPED_CACHE
    else
      r.closingGap header ≤ MAX_SKIP.toNat ∧ header.n.toNat ≤ MAX_SKIP.toNat ∧
        r.skipped.size + r.closingGap header + header.n.toNat ≤ MAX_SKIPPED_CACHE

instance (r : DoubleRatchet P) (header : RatchetHeader) : Decidable (r.WithinLimits header) :=
  inferInstanceAs (Decidable (_ → ite _ _ _))

variable {g : Turns P} {u i j : Nat} {r : DoubleRatchet P} {adPrefix plaintext : Bytes}
  {header : RatchetHeader} {ciphertext : C}

/-- A message ahead of the receiving chain has no cached key. -/
theorem AtTurn.not_cached (h : AtTurn g u r) {top : Nat} (hdist : g.Distinct top) (hi : i ≤ top)
    (hu : u ≤ top) (hahead : u < i ∨ i = u ∧ r.nRecv.toNat ≤ j) (hj : j < 2 ^ 32) :
    r.skipped[(g.pub i, UInt32.ofNat j)]? = none := by
  cases hslot : r.skipped[(g.pub i, UInt32.ofNat j)]? with
  | none => rfl
  | some k =>
    exfalso
    obtain ⟨i', hpub, hi'⟩ := h.cached _ _ k hslot
    have heq := hdist i i' hi (by omega) hpub
    rw [UInt32.toNat_ofNat', Nat.mod_eq_of_lt hj] at hi'
    omega

/-- A late message: its key is in the cache. -/
theorem receive_behind (hP : P.Lawful) (hmsg : g.Carries adPrefix i j header ciphertext plaintext)
    (haw : Awaits g u r i j) (hbehind : i < u ∨ i = u ∧ j < r.nRecv.toNat) (fresh : P.Secret) :
    r.decrypt fresh header ciphertext adPrefix =
      (.ok plaintext, { r with skipped := r.skipped.erase (g.pub i, UInt32.ofNat j) }) := by
  have hslot : r.skipped[(header.dhPub, header.n)]? = some (g.key i j) := by
    rw [hmsg.header_eq]
    exact haw hbehind
  rw [decrypt_cached hslot, hmsg.ciphertext_eq, hP.aeadOpen_aeadSeal, hmsg.header_eq]

/-- A message further along the chain of the current turn. -/
theorem receive_on_chain (hP : P.Lawful) (h : AtTurn g u r) (hu : u ≠ 0)
    (hmsg : g.Carries adPrefix u j header ciphertext plaintext) (hle : r.nRecv.toNat ≤ j)
    (hj : j < 2 ^ 32) (hnone : r.skipped[(g.pub u, UInt32.ofNat j)]? = none)
    (hlimits : r.WithinLimits header) (fresh : P.Secret) :
    r.decrypt fresh header ciphertext adPrefix =
      (.ok plaintext, r.used (g.pub u) (chainKeyAt P (g.chainAt u) r.nRecv.toNat)
        (j - r.nRecv.toNat)) := by
  obtain ⟨hheader, hcipher⟩ := hmsg
  have hslot : r.skipped[(header.dhPub, header.n)]? = none := by
    rw [hheader]
    exact hnone
  subst hheader
  have hn : (UInt32.ofNat j).toNat = j := by rw [UInt32.toNat_ofNat', Nat.mod_eq_of_lt hj]
  have hlim := hlimits hnone
  rw [if_pos h.dhRemote] at hlim
  dsimp only at hlim
  rw [hn] at hlim
  have hnle : r.nRecv ≤ UInt32.ofNat j := by
    rw [UInt32.le_iff_toNat_le, hn]
    exact hle
  have hg : r.gap (UInt32.ofNat j) = j - r.nRecv.toNat := by
    unfold gap
    rw [UInt32.toNat_sub_of_le _ _ hnle, hn]
  have hrecv : r.chainRecv = some (chainKeyAt P (g.chainAt u) r.nRecv.toNat) := by
    rw [h.recv, if_neg hu]
  have hskip : UInt32.ofNat j - r.nRecv ≤ MAX_SKIP := by
    rw [UInt32.le_iff_toNat_le, UInt32.toNat_sub_of_le _ _ hnle, hn]
    exact hlim.1
  have hdec : r.decrypt fresh ⟨g.pub u, UInt32.ofNat (g.cnt (u - 2)), UInt32.ofNat j⟩ ciphertext
      adPrefix = _ :=
    decrypt_on_chain hslot h.dhRemote hrecv hnle hskip (by rw [hg]; exact hlim.2) fresh ciphertext
      adPrefix
  rw [hg, messageKeyAt_add, Nat.add_sub_cancel' hle] at hdec
  rw [hdec, hcipher]
  congr 1
  exact hP.aeadOpen_aeadSeal _ _ _

/-- The first message of a new turn to arrive: the old chain is closed and a DH
    ratchet step opens the new one. -/
theorem receive_new (hP : P.Lawful) {m : Nat} {r1 : DoubleRatchet P} (hbefore : BeforeTurn g m r1)
    (hmsg : g.Carries adPrefix (m + 1) j header ciphertext plaintext) (hj : j < 2 ^ 32)
    (hnone : r.skipped[(g.pub (m + 1), UInt32.ofNat j)]? = none)
    (hrem : r.dhRemote ≠ some (g.pub (m + 1)))
    (hclose : r.skipMessageKeys header.pn = (.ok (), r1)) (hgap : j ≤ MAX_SKIP.toNat)
    (hroom : r1.skipped.size + j ≤ MAX_SKIPPED_CACHE) (hnext : g.cnt (m + 2) = 0)
    (fresh : P.Secret) :
    r.decrypt fresh header ciphertext adPrefix =
      (.ok plaintext, (r1.dhRatchet fresh (g.pub (m + 1))).used (g.pub (m + 1))
        (g.chainAt (m + 1)) j) := by
  obtain ⟨hheader, hcipher⟩ := hmsg
  subst hheader
  have hn : (UInt32.ofNat j).toNat = j := by rw [UInt32.toNat_ofNat', Nat.mod_eq_of_lt hj]
  have hskip : UInt32.ofNat j ≤ MAX_SKIP := by
    rw [UInt32.le_iff_toNat_le, hn]
    exact hgap
  have hdec : r.decrypt fresh ⟨g.pub (m + 1), UInt32.ofNat (g.cnt (m + 1 - 2)), UInt32.ofNat j⟩
      ciphertext adPrefix = _ :=
    decrypt_new_chain hnone hrem hclose hskip (by rw [hn]; exact hroom) fresh ciphertext adPrefix
  dsimp only at hdec
  rw [hn, (hbefore.dhRatchet hP fresh hnext).1] at hdec
  rw [hdec, hcipher]
  congr 1
  exact hP.aeadOpen_aeadSeal _ _ _

end DoubleRatchet

end Clarity
