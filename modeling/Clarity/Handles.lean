/-
  Clarity/Handles.lean
  ====================
  **A program that uses the Dart wrapper** (`app/lib/src/ffi/clarity.dart`) calls it in any
  order, on objects that it made and may have disposed.

  `World.run` runs the calls on the heap, through the C ABI.  `Values.run` runs them on the
  accounts and sessions themselves.  In both, `none` is undefined behaviour.

    * `Refines` — every object that is not disposed has its own block, and nothing else is
      allocated;
    * `call_refines` — one call;
    * `wrapper_is_values` and `wrapper_frees` — whole programs.
-/
import Clarity.Ffi
import Clarity.Http
import Clarity.Sample
import Mathlib.Algebra.Order.BigOperators.Group.List
import Mathlib.Algebra.Order.Group.Nat

namespace Clarity.Ffi

open Native

/-! ## 1. Programs -/

/-- An object of the wrapper. -/
inductive Handle where
  | account (n : Nat)
  | session (n : Nat)
deriving DecidableEq

inductive Call (P : Suite Bytes) where
  | generateAccount (rnd : Account.GenerateRandom P)
  | restoreAccount (bytes : Bytes)
  | restoreSession (bytes : Bytes)
  | inboxId (identity : Bytes) (epoch : UInt64)
  | bundleIdentityKeys (bundle : Bytes)
  | safetyNumber (idA idB : Bytes)
  | identityPublic (account : Nat)
  | bundleBase (account : Nat)
  | oneTimePublics (account : Nat)
  | serializeAccount (account : Nat)
  | initiateSession (account : Nat) (bundle : Bytes) (rnd : Session.InitiateRandom P)
  | respondToSession (account : Nat) (firstMessage : Bytes) (fresh : P.Secret)
  | oneTimeRemaining (account : Nat)
  | replenishOneTimePrekeys (account : Nat) (secrets : List P.Secret)
  | sealEnvelope (account : Nat) (recipientIdentityDh payload : Bytes) (eph : P.Secret)
  | openEnvelope (account : Nat) (blob : Bytes)
  | encrypt (session : Nat) (plaintext : Bytes)
  | decrypt (session : Nat) (message : Bytes) (fresh : P.Secret)
  | serializeSession (session : Nat)
  | disposeAccount (account : Nat)
  | disposeSession (session : Nat)

/-- What a call returns. -/
inductive Reply where
  | object (handle : Handle)
  | joined (session : Handle) (plaintext : Bytes)
  | bytes (data : Bytes)
  | keys (identityEd identityDh : Bytes)
  | opened (senderIdentityEd senderIdentityDh payload : Bytes)
  | text (s : String)
  | count (n : UInt32)
  | done
deriving DecidableEq

/-- The objects of a program: how many it made, and their native pointers. -/
structure Objects where
  next : Nat
  ptr : Handle → Option Nat

def Objects.add (o : Objects) (handle : Handle) (p : Nat) : Objects :=
  ⟨o.next + 1, Function.update o.ptr handle (some p)⟩

theorem Objects.ptr_add_of_ne (o : Objects) {handle handle' : Handle} (hne : handle' ≠ handle)
    {p : Nat} : (o.add handle p).ptr handle' = o.ptr handle' :=
  Function.update_of_ne hne _ _

def Objects.disposed (o : Objects) (handle : Handle) : Objects :=
  { o with ptr := Function.update o.ptr handle none }

theorem Objects.ptr_disposed (o : Objects) (handle handle' : Handle) :
    (o.disposed handle).ptr handle' = if handle' = handle then none else o.ptr handle' :=
  Function.update_apply o.ptr handle none handle'

theorem Objects.disposed_again {o : Objects} {handle : Handle} (h : o.ptr handle = none) :
    o.disposed handle = o := by
  unfold Objects.disposed
  rw [← h, Function.update_eq_self]

structure World (P : Suite Bytes) where
  objects : Objects
  heap : Heap (Block P)

variable {P : Suite Bytes}

def World.start : World P := ⟨⟨0, fun _ => none⟩, ∅⟩

/-- What a call of the wrapper does, and the objects after it. -/
def runCall (L : Library P) (o : Objects) : Call P → Ffi P (Reply × Objects)
  | .generateAccount rnd => do
    let p ← clarityAccountGenerate L rnd
    pure (.object (.account o.next), o.add (.account o.next) p)
  | .restoreAccount bytes => do
    let p ← restoreAccount L bytes
    pure (.object (.account o.next), o.add (.account o.next) p)
  | .restoreSession bytes => do
    let p ← restoreSession L bytes
    pure (.object (.session o.next), o.add (.session o.next) p)
  | .inboxId identity epoch => do
    let inbox ← inboxIdOf L identity epoch
    pure (.bytes inbox, o)
  | .bundleIdentityKeys bundle => do
    let keys ← bundleKeys L bundle
    pure (.keys keys.1 keys.2, o)
  | .safetyNumber idA idB => do
    let number ← safetyNumberOf L idA idB
    pure (.text number, o)
  | .identityPublic n => do
    let identity ← identityPublic L (o.ptr (.account n))
    pure (.bytes identity, o)
  | .bundleBase n => do
    let bundle ← bundleBase L (o.ptr (.account n))
    pure (.bytes bundle, o)
  | .oneTimePublics n => do
    let publics ← oneTimePublics L (o.ptr (.account n))
    pure (.bytes publics, o)
  | .serializeAccount n => do
    let bytes ← serializeAccount L (o.ptr (.account n))
    pure (.bytes bytes, o)
  | .initiateSession n bundle rnd => do
    let p ← initiate L (o.ptr (.account n)) bundle rnd
    pure (.object (.session o.next), o.add (.session o.next) p)
  | .respondToSession n firstMessage fresh => do
    let (p, plaintext) ← respondToSession L (o.ptr (.account n)) firstMessage fresh
    pure (.joined (.session o.next) plaintext, o.add (.session o.next) p)
  | .oneTimeRemaining n => do
    let remaining ← oneTimeRemaining (o.ptr (.account n))
    pure (.count remaining, o)
  | .replenishOneTimePrekeys n secrets => do
    replenishOneTimePrekeys (o.ptr (.account n)) secrets
    pure (.done, o)
  | .sealEnvelope n recipientIdentityDh payload eph => do
    let blob ← sealTo L (o.ptr (.account n)) recipientIdentityDh payload eph
    pure (.bytes blob, o)
  | .openEnvelope n blob => do
    let (senderEd, senderDh, payload) ← openSealed L (o.ptr (.account n)) blob
    pure (.opened senderEd senderDh payload, o)
  | .encrypt n plaintext => do
    let message ← encrypt L (o.ptr (.session n)) plaintext
    pure (.bytes message, o)
  | .decrypt n message fresh => do
    let plaintext ← decrypt L (o.ptr (.session n)) message fresh
    pure (.bytes plaintext, o)
  | .serializeSession n => do
    let bytes ← serializeSession L (o.ptr (.session n))
    pure (.bytes bytes, o)
  | .disposeAccount n => do
    dispose clarityAccountFree (o.ptr (.account n))
    pure (.done, o.disposed (.account n))
  | .disposeSession n => do
    dispose claritySessionFree (o.ptr (.session n))
    pure (.done, o.disposed (.session n))

/-- A call; the objects are as before when it throws. -/
def World.call (L : Library P) (w : World P) (c : Call P) :
    Option (Except Thrown Reply × World P) :=
  match runCall L w.objects c w.heap with
  | none => none
  | some (.error e, heap) => some (.error e, { w with heap })
  | some (.ok (reply, objects), heap) => some (.ok reply, ⟨objects, heap⟩)

/-- A program: what its calls return or throw, in order. -/
def World.run (L : Library P) : World P → List (Call P) →
    Option (List (Except Thrown Reply) × World P)
  | w, [] => some ([], w)
  | w, c :: calls => do
    let (reply, w) ← w.call L c
    let (replies, w) ← w.run L calls
    some (reply :: replies, w)

/-! ## 2. The same programs, on values -/

/-- The accounts and sessions that are not disposed. -/
structure Values (P : Suite Bytes) where
  next : Nat
  account : Nat → Option (Account P)
  session : Nat → Option (Session P)

namespace Values

def start : Values P := ⟨0, fun _ => none, fun _ => none⟩

def setAccount (v : Values P) (n : Nat) (a : Option (Account P)) : Values P :=
  { v with account := Function.update v.account n a }

def setSession (v : Values P) (n : Nat) (s : Option (Session P)) : Values P :=
  { v with session := Function.update v.session n s }

def newAccount (v : Values P) : Except Thrown (Account P) → Except Thrown Reply × Values P
  | .error e => (.error e, v)
  | .ok a => (.ok (.object (.account v.next)), { v.setAccount v.next (some a) with next := v.next + 1 })

def newSession (v : Values P) : Except Thrown (Session P) → Except Thrown Reply × Values P
  | .error e => (.error e, v)
  | .ok s => (.ok (.object (.session v.next)), { v.setSession v.next (some s) with next := v.next + 1 })

def withAccount (v : Values P) (n : Nat) (k : Account P → Except Thrown Reply × Values P) :
    Except Thrown Reply × Values P :=
  match v.account n with
  | none => (.error (.stateError "Account already disposed"), v)
  | some a => k a

def withSession (v : Values P) (n : Nat) (k : Session P → Except Thrown Reply × Values P) :
    Except Thrown Reply × Values P :=
  match v.session n with
  | none => (.error (.stateError "Session already disposed"), v)
  | some s => k s

/-- A key that is too short has no value. -/
def call (L : Library P) (v : Values P) : Call P → Option (Except Thrown Reply × Values P)
  | .generateAccount rnd => some (v.newAccount (.ok (Account.generate rnd)))
  | .restoreAccount bytes =>
    some (v.newAccount (restored "failed to restore account" (Account.fromBytes L.keys bytes)))
  | .restoreSession bytes =>
    some (v.newSession (restored "failed to restore session" (Session.deserialize L.keys bytes)))
  | .inboxId identity epoch => do
    let id ← keyOf identity
    some (.ok (.bytes (Clarity.inboxId L.sha256 id epoch).bytes), v)
  | .bundleIdentityKeys bundle =>
    some ((Clarity.bundleIdentityKeys P bundle).map fun keys => .keys keys.1.bytes keys.2.bytes, v)
  | .safetyNumber idA idB => do
    let a ← keyOf idA
    let b ← keyOf idB
    some (.ok (.text (Clarity.safetyNumber L.sha512 a b)), v)
  | .identityPublic n =>
    some (v.withAccount n fun a => (.ok (.bytes a.identityPublic.bytes), v))
  | .bundleBase n => some (v.withAccount n fun a => (.ok (.bytes a.bundleBase.encode), v))
  | .oneTimePublics n =>
    some (v.withAccount n fun a => (.ok (.bytes (L.publicsJson a.oneTimePrekeyPublics)), v))
  | .serializeAccount n => some (v.withAccount n fun a => (.ok (.bytes (a.toBytes L.keys)), v))
  | .initiateSession n bundle rnd =>
    some (v.withAccount n fun a => v.newSession (Clarity.initiateSession a bundle rnd))
  | .respondToSession n firstMessage fresh =>
    some (v.withAccount n fun a =>
      match respondValue a firstMessage fresh with
      | (.error e, a) => (.error e, v.setAccount n a)
      | (.ok (s, plaintext), a) =>
        (.ok (.joined (.session v.next) plaintext),
          { (v.setAccount n a).setSession v.next (some s) with next := v.next + 1 }))
  | .oneTimeRemaining n =>
    some (v.withAccount n fun a => (.ok (.count (UInt32.ofNat a.oneTimePrekeysRemaining)), v))
  | .replenishOneTimePrekeys n secrets =>
    some (v.withAccount n fun a => (.ok .done, v.setAccount n (a.replenishOneTimePrekeys secrets)))
  | .sealEnvelope n recipientIdentityDh payload eph =>
    match v.account n with
    | none => some (.error (.stateError "Account already disposed"), v)
    | some a => do
      let dh ← keyOf recipientIdentityDh
      some (.ok (.bytes (Clarity.sealEnvelope a dh payload eph)), v)
  | .openEnvelope n blob =>
    some (v.withAccount n fun a =>
      ((openValue a blob).map fun r => .opened r.1 r.2.1 r.2.2, v))
  | .encrypt n plaintext =>
    some (v.withSession n fun s =>
      ((encryptValue s plaintext).1.map .bytes, v.setSession n (encryptValue s plaintext).2))
  | .decrypt n message fresh =>
    some (v.withSession n fun s =>
      ((decryptValue s message fresh).1.map .bytes, v.setSession n (decryptValue s message fresh).2))
  | .serializeSession n => some (v.withSession n fun s => (.ok (.bytes (s.serialize L.keys)), v))
  | .disposeAccount n => some (.ok .done, v.setAccount n none)
  | .disposeSession n => some (.ok .done, v.setSession n none)

def run (L : Library P) : Values P → List (Call P) → Option (List (Except Thrown Reply) × Values P)
  | v, [] => some ([], v)
  | v, c :: calls => do
    let (reply, v) ← v.call L c
    let (replies, v) ← v.run L calls
    some (reply :: replies, v)

/-- The block that an object should have. -/
def block (v : Values P) : Handle → Option (Block P)
  | .account n => (v.account n).map .account
  | .session n => (v.session n).map .session

variable {v : Values P} {n : Nat}

theorem withAccount_cases {k : Account P → Except Thrown Reply × Values P} {r : Except Thrown Reply}
    {v' : Values P} (h : v.withAccount n k = (r, v')) :
    (∃ e, r = .error e ∧ v' = v) ∨ ∃ a, v.account n = some a ∧ k a = (r, v') := by
  unfold withAccount at h
  cases ha : v.account n with
  | none =>
    rw [ha] at h
    cases h
    exact .inl ⟨_, rfl, rfl⟩
  | some a =>
    rw [ha] at h
    exact .inr ⟨a, rfl, h⟩

theorem withSession_cases {k : Session P → Except Thrown Reply × Values P} {r : Except Thrown Reply}
    {v' : Values P} (h : v.withSession n k = (r, v')) :
    (∃ e, r = .error e ∧ v' = v) ∨ ∃ s, v.session n = some s ∧ k s = (r, v') := by
  unfold withSession at h
  cases hs : v.session n with
  | none =>
    rw [hs] at h
    cases h
    exact .inl ⟨_, rfl, rfl⟩
  | some s =>
    rw [hs] at h
    exact .inr ⟨s, rfl, h⟩

theorem block_setAccount (a : Option (Account P)) :
    (v.setAccount n a).block = Function.update v.block (.account n) (a.map .account) := by
  funext handle
  cases handle with
  | account m =>
    show (Function.update v.account n a m).map Block.account = _
    by_cases hm : m = n
    · rw [hm, Function.update_self, Function.update_self]
    · rw [Function.update_of_ne hm, Function.update_of_ne (by simpa using hm), block]
  | session m => rw [Function.update_of_ne (by simp), block, setAccount, block]

theorem block_setSession (s : Option (Session P)) :
    (v.setSession n s).block = Function.update v.block (.session n) (s.map .session) := by
  funext handle
  cases handle with
  | session m =>
    show (Function.update v.session n s m).map Block.session = _
    by_cases hm : m = n
    · rw [hm, Function.update_self, Function.update_self]
    · rw [Function.update_of_ne hm, Function.update_of_ne (by simpa using hm), block]
  | account m => rw [Function.update_of_ne (by simp), block, setSession, block]

end Values

/-! ## 3. One call -/

/-- Every object that is not disposed has its own block, which holds its value; nothing
    else is allocated. -/
structure Refines (w : World P) (v : Values P) : Prop where
  next : w.objects.next = v.next
  blocks : Represents w.objects.ptr v.block w.heap
  unmade : ∀ n, v.next ≤ n →
    w.objects.ptr (.account n) = none ∧ w.objects.ptr (.session n) = none

/-- Both are undefined, or return the same and refine again. -/
def Agree : Option (Except Thrown Reply × World P) → Option (Except Thrown Reply × Values P) →
    Prop :=
  Option.Rel fun x y => x.1 = y.1 ∧ Refines x.2 y.2

namespace Refines

variable {L : Library P} {w : World P} {v : Values P} {n p : Nat} {c : Call P}

/-- An account that is disposed has neither a pointer nor a value. -/
theorem account (hr : Refines w v) (n : Nat) :
    w.objects.ptr (.account n) = none ∧ v.account n = none ∨
    ∃ p a, w.objects.ptr (.account n) = some p ∧ v.account n = some a ∧
      w.heap[p]? = some (.account a) ∧ p ≠ 0 := by
  rcases hr.blocks.cases (.account n) with ⟨hptr, hval⟩ | ⟨p, block, hptr, hval, hp⟩
  · exact .inl ⟨hptr, Option.map_eq_none_iff.mp hval⟩
  · obtain ⟨a, ha, rfl⟩ := Option.map_eq_some_iff.mp hval
    have := hr.blocks.valid hp
    exact .inr ⟨p, a, hptr, ha, hp, by omega⟩

theorem session (hr : Refines w v) (n : Nat) :
    w.objects.ptr (.session n) = none ∧ v.session n = none ∨
    ∃ p s, w.objects.ptr (.session n) = some p ∧ v.session n = some s ∧
      w.heap[p]? = some (.session s) ∧ p ≠ 0 := by
  rcases hr.blocks.cases (.session n) with ⟨hptr, hval⟩ | ⟨p, block, hptr, hval, hp⟩
  · exact .inl ⟨hptr, Option.map_eq_none_iff.mp hval⟩
  · obtain ⟨s, hs, rfl⟩ := Option.map_eq_some_iff.mp hval
    have := hr.blocks.valid hp
    exact .inr ⟨p, s, hptr, hs, hp, by omega⟩

theorem setAccount (hr : Refines w v) (hptr : w.objects.ptr (.account n) = some p)
    (a : Account P) :
    Refines { w with heap := w.heap.insert p (.account a) } (v.setAccount n (some a)) where
  next := hr.next
  blocks := by
    rw [Values.block_setAccount]
    exact hr.blocks.update hptr (.account a)
  unmade := hr.unmade

theorem setSession (hr : Refines w v) (hptr : w.objects.ptr (.session n) = some p)
    (s : Session P) :
    Refines { w with heap := w.heap.insert p (.session s) } (v.setSession n (some s)) where
  next := hr.next
  blocks := by
    rw [Values.block_setSession]
    exact hr.blocks.update hptr (.session s)
  unmade := hr.unmade

theorem newAccount (hr : Refines w v) (hp : w.heap[p]? = none) (hvalid : 2 ≤ p) (a : Account P) :
    Refines ⟨w.objects.add (.account w.objects.next) p, w.heap.insert p (.account a)⟩
      { v.setAccount v.next (some a) with next := v.next + 1 } where
  next := congrArg (· + 1) hr.next
  blocks := by
    show Represents _ (v.setAccount v.next (some a)).block _
    rw [Values.block_setAccount, hr.next]
    exact hr.blocks.add (hr.unmade _ (Nat.le_refl _)).1 hp hvalid (.account a)
  unmade m hm := by
    have hle : v.next ≤ m := Nat.le_of_succ_le hm
    have hne : m ≠ w.objects.next := hr.next ▸ Nat.ne_of_gt hm
    rw [Objects.ptr_add_of_ne _ (by simpa using hne), Objects.ptr_add_of_ne _ (by simp)]
    exact hr.unmade m hle

theorem newSession (hr : Refines w v) (hp : w.heap[p]? = none) (hvalid : 2 ≤ p) (s : Session P) :
    Refines ⟨w.objects.add (.session w.objects.next) p, w.heap.insert p (.session s)⟩
      { v.setSession v.next (some s) with next := v.next + 1 } where
  next := congrArg (· + 1) hr.next
  blocks := by
    show Represents _ (v.setSession v.next (some s)).block _
    rw [Values.block_setSession, hr.next]
    exact hr.blocks.add (hr.unmade _ (Nat.le_refl _)).2 hp hvalid (.session s)
  unmade m hm := by
    have hle : v.next ≤ m := Nat.le_of_succ_le hm
    have hne : m ≠ w.objects.next := hr.next ▸ Nat.ne_of_gt hm
    rw [Objects.ptr_add_of_ne _ (by simp), Objects.ptr_add_of_ne _ (by simpa using hne)]
    exact hr.unmade m hle

theorem unmade_disposed (hr : Refines w v) (handle : Handle) (m : Nat) (hm : v.next ≤ m) :
    (w.objects.disposed handle).ptr (.account m) = none ∧
      (w.objects.disposed handle).ptr (.session m) = none := by
  rw [Objects.ptr_disposed, Objects.ptr_disposed, (hr.unmade m hm).1, (hr.unmade m hm).2, ite_self,
    ite_self]
  exact ⟨rfl, rfl⟩

theorem disposeAccount (hr : Refines w v) (hptr : w.objects.ptr (.account n) = some p) :
    Refines ⟨w.objects.disposed (.account n), w.heap.erase p⟩ (v.setAccount n none) where
  next := hr.next
  blocks := by
    rw [Values.block_setAccount]
    exact hr.blocks.remove hptr
  unmade := hr.unmade_disposed (.account n)

theorem disposeSession (hr : Refines w v) (hptr : w.objects.ptr (.session n) = some p) :
    Refines ⟨w.objects.disposed (.session n), w.heap.erase p⟩ (v.setSession n none) where
  next := hr.next
  blocks := by
    rw [Values.block_setSession]
    exact hr.blocks.remove hptr
  unmade := hr.unmade_disposed (.session n)

end Refines

section OneCall

variable {L : Library P} {w : World P} {v : Values P} {n p : Nat} {c : Call P} {α : Type}
  {heap : Heap (Block P)}

theorem call_throws {m : Ffi P α} {k : α → Ffi P (Reply × Objects)} {e : Thrown}
    (hrun : runCall L w.objects c = m >>= k) (hm : m w.heap = some (.error e, heap)) :
    w.call L c = some (.error e, { w with heap }) := by
  rw [World.call, hrun, bind_throws hm]

theorem call_returns {m : Ffi P α} {k : α → Ffi P (Reply × Objects)} {a : α} {reply : Reply}
    {objects : Objects} (hrun : runCall L w.objects c = m >>= k)
    (hm : m w.heap = some (.ok a, heap)) (hk : k a = pure (reply, objects)) :
    w.call L c = some (.ok reply, ⟨objects, heap⟩) := by
  rw [World.call, hrun, bind_run hm, hk, pure_run]

theorem call_undefined {m : Ffi P α} {k : α → Ffi P (Reply × Objects)}
    (hrun : runCall L w.objects c = m >>= k) (hm : m w.heap = none) : w.call L c = none := by
  rw [World.call, hrun, bind_undefined hm]

/-- A call that leaves the objects as they are. -/
theorem call_replies {m : Ffi P α} {f : α → Reply} {r : Except Thrown α}
    (hrun : runCall L w.objects c = m >>= fun a => pure (f a, w.objects))
    (hm : m w.heap = some (r, heap)) : w.call L c = some (r.map f, { w with heap }) := by
  cases r with
  | error e => exact call_throws hrun hm
  | ok a => exact call_returns hrun hm rfl

/-- A call that reads an account. -/
theorem agree_readAccount (hr : Refines w v) (m : Option Nat → Ffi P α) (f : α → Reply)
    (value : Account P → Except Thrown α)
    (hrun : runCall L w.objects c =
      m (w.objects.ptr (.account n)) >>= fun a => pure (f a, w.objects))
    (hval : v.call L c = some (v.withAccount n fun a => ((value a).map f, v)))
    (hdisposed : ∀ h, m none h = some (.error (.stateError "Account already disposed"), h))
    (hlive : ∀ h p a, h[p]? = some (.account a) → p ≠ 0 → m (some p) h = some (value a, h)) :
    Agree (w.call L c) (v.call L c) := by
  rw [hval, Values.withAccount]
  rcases hr.account n with ⟨hptr, hnone⟩ | ⟨p, a, hptr, hsome, hp, h0⟩
  · rw [hptr] at hrun
    rw [hnone, call_throws hrun (hdisposed w.heap)]
    exact .some ⟨rfl, hr⟩
  · rw [hptr] at hrun
    rw [hsome, call_replies hrun (hlive _ p a hp h0)]
    exact .some ⟨rfl, hr⟩

/-- A call that steps a session. -/
theorem agree_stepSession (hr : Refines w v) (m : Option Nat → Ffi P α) (f : α → Reply)
    (value : Session P → Except Thrown α × Session P)
    (hrun : runCall L w.objects c =
      m (w.objects.ptr (.session n)) >>= fun a => pure (f a, w.objects))
    (hval : v.call L c =
      some (v.withSession n fun s => ((value s).1.map f, v.setSession n (some (value s).2))))
    (hdisposed : ∀ h, m none h = some (.error (.stateError "Session already disposed"), h))
    (hlive : ∀ h p s, h[p]? = some (.session s) → p ≠ 0 →
      m (some p) h = some ((value s).1, h.insert p (.session (value s).2))) :
    Agree (w.call L c) (v.call L c) := by
  rw [hval, Values.withSession]
  rcases hr.session n with ⟨hptr, hnone⟩ | ⟨p, s, hptr, hsome, hp, h0⟩
  · rw [hptr] at hrun
    rw [hnone, call_throws hrun (hdisposed w.heap)]
    exact .some ⟨rfl, hr⟩
  · have hrefines := hr.setSession hptr (value s).2
    rw [hptr] at hrun
    rw [hsome, call_replies hrun (hlive _ p s hp h0)]
    exact .some ⟨rfl, hrefines⟩

end OneCall

/-- **One call**: what the heap does is what the values do. -/
theorem call_refines {L : Library P} {w : World P} {v : Values P} (hr : Refines w v) (c : Call P) :
    Agree (w.call L c) (v.call L c) := by
  cases c with
  | generateAccount rnd =>
    have hunused := L.allocator.unused w.heap
    have hrefines := hr.newAccount hunused (L.allocator.two_le w.heap) (Account.generate rnd)
    rw [call_returns (m := clarityAccountGenerate L rnd) rfl rfl rfl, Values.call, Values.newAccount,
      ← hr.next]
    rw [← hr.next] at hrefines
    exact .some ⟨rfl, hrefines⟩
  | restoreAccount bytes =>
    rw [Values.call, restored]
    cases hparse : Account.fromBytes L.keys bytes with
    | error e =>
      rw [call_throws (m := restoreAccount L bytes) rfl (makeHandle_fails hparse w.heap)]
      exact .some ⟨rfl, hr⟩
    | ok a =>
      obtain ⟨new, htwo, hunused, hrun⟩ := makeHandle_run .account
        "failed to restore account" hparse w.heap
      have hrefines := hr.newAccount hunused htwo a
      rw [call_returns (m := restoreAccount L bytes) rfl hrun rfl]
      refine .some ⟨?_, hrefines⟩
      rw [hr.next]
      rfl
  | restoreSession bytes =>
    rw [Values.call, restored]
    cases hparse : Session.deserialize L.keys bytes with
    | error e =>
      rw [call_throws (m := restoreSession L bytes) rfl (makeHandle_fails hparse w.heap)]
      exact .some ⟨rfl, hr⟩
    | ok s =>
      obtain ⟨new, htwo, hunused, hrun⟩ := makeHandle_run .session
        "failed to restore session" hparse w.heap
      have hrefines := hr.newSession hunused htwo s
      rw [call_returns (m := restoreSession L bytes) rfl hrun rfl]
      refine .some ⟨?_, hrefines⟩
      rw [hr.next]
      rfl
  | inboxId identity epoch =>
    rw [Values.call]
    cases hid : keyOf identity with
    | none =>
      rw [call_undefined (m := inboxIdOf L identity epoch) rfl (inboxIdOf_undefined hid epoch w.heap)]
      exact .none
    | some id =>
      rw [call_replies (f := .bytes) rfl (inboxIdOf_run hid epoch w.heap)]
      exact .some ⟨rfl, hr⟩
  | bundleIdentityKeys bundle =>
    rw [Values.call, call_replies (f := fun keys => .keys keys.1 keys.2) rfl
      (bundleKeys_run L bundle w.heap)]
    refine .some ⟨?_, hr⟩
    cases Clarity.bundleIdentityKeys P bundle with
    | error e => rfl
    | ok keys => rfl
  | safetyNumber idA idB =>
    rw [Values.call]
    cases ha : keyOf idA with
    | none =>
      rw [call_undefined (m := safetyNumberOf L idA idB) rfl
        (safetyNumberOf_undefined (.inl ha) w.heap)]
      exact .none
    | some a =>
      cases hb : keyOf idB with
      | none =>
        rw [call_undefined (m := safetyNumberOf L idA idB) rfl
          (safetyNumberOf_undefined (.inr hb) w.heap)]
        exact .none
      | some b =>
        rw [call_replies (f := .text) rfl (safetyNumberOf_run ha hb w.heap)]
        exact .some ⟨rfl, hr⟩
  | identityPublic n =>
    exact agree_readAccount hr (identityPublic L) .bytes (fun a => .ok a.identityPublic.bytes) rfl rfl
      (fun h => withBlock_throws rfl fun _ _ => rfl) fun h p a hp h0 => identityPublic_run hp h0
  | bundleBase n =>
    exact agree_readAccount hr (bundleBase L) .bytes (fun a => .ok a.bundleBase.encode) rfl rfl
      (fun h => rfl) fun h p a hp h0 => bundleBase_run hp h0
  | oneTimePublics n =>
    exact agree_readAccount hr (oneTimePublics L) .bytes
      (fun a => .ok (L.publicsJson a.oneTimePrekeyPublics)) rfl rfl
      (fun h => rfl) fun h p a hp h0 => oneTimePublics_run hp h0
  | serializeAccount n =>
    exact agree_readAccount hr (serializeAccount L) .bytes (fun a => .ok (a.toBytes L.keys)) rfl rfl
      (fun h => rfl) fun h p a hp h0 => serializeAccount_run hp h0
  | initiateSession n bundle rnd =>
    rw [Values.call, Values.withAccount]
    rcases hr.account n with ⟨hptr, hnone⟩ | ⟨p, a, hptr, hsome, hp, h0⟩
    · rw [hnone, call_throws (m := initiate L (w.objects.ptr (.account n)) bundle rnd) rfl (by
        rw [hptr]
        exact withBlock_throws rfl fun _ _ => rfl)]
      exact .some ⟨rfl, hr⟩
    · rw [hsome]
      simp only
      cases hs : Clarity.initiateSession a bundle rnd with
      | error e =>
        rw [call_throws (m := initiate L (w.objects.ptr (.account n)) bundle rnd) rfl (by
          rw [hptr]
          exact initiate_fails hp h0 hs)]
        exact .some ⟨rfl, hr⟩
      | ok s =>
        obtain ⟨new, htwo, hunused, hrun⟩ := initiate_run (L := L) hp h0 hs
        have hrefines := hr.newSession hunused htwo s
        rw [call_returns (m := initiate L (w.objects.ptr (.account n)) bundle rnd) rfl
          (hptr ▸ hrun) rfl]
        refine .some ⟨?_, hrefines⟩
        rw [hr.next]
        rfl
  | respondToSession n firstMessage fresh =>
    rw [Values.call, Values.withAccount]
    rcases hr.account n with ⟨hptr, hnone⟩ | ⟨p, a, hptr, hsome, hp, h0⟩
    · rw [hnone, call_throws
        (m := respondToSession L (w.objects.ptr (.account n)) firstMessage fresh) rfl (by
          rw [hptr]
          exact withBlock_throws rfl fun _ _ => withBlock_throws rfl fun _ _ => rfl)]
      exact .some ⟨rfl, hr⟩
    · rw [hsome]
      simp only
      rcases hvalue : respondValue a firstMessage fresh with ⟨e | ⟨s, plaintext⟩, a'⟩
      · have hrefines := hr.setAccount hptr a'
        rw [call_throws
          (m := respondToSession L (w.objects.ptr (.account n)) firstMessage fresh) rfl (by
            rw [hptr]
            exact respondToSession_fails hp h0 hvalue)]
        exact .some ⟨rfl, hrefines⟩
      · obtain ⟨new, htwo, hunused, hrun⟩ := respondToSession_run (L := L) hp h0 hvalue
        have hset := hr.setAccount hptr a'
        have hunused' : (w.heap.insert p (.account a'))[new]? = none := by
          rw [Heap.get_insert_of_ne _ (Heap.ne_of_get hp hunused), hunused]
        have hrefines := hset.newSession hunused' htwo s
        rw [call_returns
          (m := respondToSession L (w.objects.ptr (.account n)) firstMessage fresh) rfl
          (hptr ▸ hrun) rfl]
        refine .some ⟨?_, hrefines⟩
        rw [hr.next]
  | oneTimeRemaining n =>
    exact agree_readAccount hr oneTimeRemaining .count
      (fun a => .ok (UInt32.ofNat a.oneTimePrekeysRemaining)) rfl rfl
      (fun h => rfl) fun h p a hp h0 => oneTimeRemaining_run hp h0
  | replenishOneTimePrekeys n secrets =>
    rw [Values.call, Values.withAccount]
    rcases hr.account n with ⟨hptr, hnone⟩ | ⟨p, a, hptr, hsome, hp, h0⟩
    · rw [hnone, call_throws (m := replenishOneTimePrekeys (w.objects.ptr (.account n)) secrets) rfl
        (by
          rw [hptr]
          rfl)]
      exact .some ⟨rfl, hr⟩
    · have hrefines := hr.setAccount hptr (a.replenishOneTimePrekeys secrets)
      rw [hsome, call_returns (m := replenishOneTimePrekeys (w.objects.ptr (.account n)) secrets) rfl
        (hptr ▸ replenishOneTimePrekeys_run hp h0 secrets) rfl]
      exact .some ⟨rfl, hrefines⟩
  | sealEnvelope n recipientIdentityDh payload eph =>
    rw [Values.call]
    rcases hr.account n with ⟨hptr, hnone⟩ | ⟨p, a, hptr, hsome, hp, h0⟩
    · rw [hnone, call_throws
        (m := sealTo L (w.objects.ptr (.account n)) recipientIdentityDh payload eph) rfl (by
          rw [hptr]
          exact withBlock_throws rfl fun _ _ => withBlock_throws rfl fun _ _ => rfl)]
      exact .some ⟨rfl, hr⟩
    · rw [hsome]
      simp only
      cases hdh : keyOf recipientIdentityDh with
      | none =>
        rw [call_undefined
          (m := sealTo L (w.objects.ptr (.account n)) recipientIdentityDh payload eph) rfl
          (hptr ▸ sealTo_undefined hp h0 hdh payload eph)]
        exact .none
      | some dh =>
        rw [call_returns
          (m := sealTo L (w.objects.ptr (.account n)) recipientIdentityDh payload eph) rfl
          (hptr ▸ sealTo_run hp h0 hdh payload eph) rfl]
        exact .some ⟨rfl, hr⟩
  | openEnvelope n blob =>
    exact agree_readAccount hr (fun object => openSealed L object blob)
      (fun r => .opened r.1 r.2.1 r.2.2) (fun a => openValue a blob) rfl rfl
      (fun h => withBlock_throws rfl fun _ _ => withBlock_throws rfl fun _ _ =>
        withBlock_throws rfl fun _ _ => rfl) fun h p a hp h0 => openSealed_run hp h0 blob
  | encrypt n plaintext =>
    exact agree_stepSession hr (fun object => encrypt L object plaintext) .bytes
      (fun s => encryptValue s plaintext) rfl rfl (fun h => withBlock_throws rfl fun _ _ => rfl)
      fun h p s hp h0 => encrypt_run hp h0 plaintext
  | decrypt n message fresh =>
    exact agree_stepSession hr (fun object => decrypt L object message fresh) .bytes
      (fun s => decryptValue s message fresh) rfl rfl (fun h => withBlock_throws rfl fun _ _ => rfl)
      fun h p s hp h0 => decrypt_run hp h0 message fresh
  | serializeSession n =>
    rw [Values.call, Values.withSession]
    rcases hr.session n with ⟨hptr, hnone⟩ | ⟨p, s, hptr, hsome, hp, h0⟩
    · rw [hnone, call_throws (m := serializeSession L (w.objects.ptr (.session n))) rfl (by
        rw [hptr]
        rfl)]
      exact .some ⟨rfl, hr⟩
    · rw [hsome, call_returns (m := serializeSession L (w.objects.ptr (.session n))) rfl
        (hptr ▸ serializeSession_run hp h0) rfl]
      exact .some ⟨rfl, hr⟩
  | disposeAccount n =>
    rw [Values.call]
    rcases hr.account n with ⟨hptr, hnone⟩ | ⟨p, a, hptr, hsome, hp, h0⟩
    · rw [call_returns (m := dispose clarityAccountFree (w.objects.ptr (.account n))) rfl (by
        rw [hptr]
        rfl) rfl, Objects.disposed_again hptr, Values.setAccount, ← hnone, Function.update_eq_self]
      exact .some ⟨rfl, hr⟩
    · have hrefines := hr.disposeAccount hptr
      rw [call_returns (m := dispose clarityAccountFree (w.objects.ptr (.account n))) rfl (by
        rw [hptr]
        exact free_run Block.account? hp rfl h0) rfl]
      exact .some ⟨rfl, hrefines⟩
  | disposeSession n =>
    rw [Values.call]
    rcases hr.session n with ⟨hptr, hnone⟩ | ⟨p, s, hptr, hsome, hp, h0⟩
    · rw [call_returns (m := dispose claritySessionFree (w.objects.ptr (.session n))) rfl (by
        rw [hptr]
        rfl) rfl, Objects.disposed_again hptr, Values.setSession, ← hnone, Function.update_eq_self]
      exact .some ⟨rfl, hr⟩
    · have hrefines := hr.disposeSession hptr
      rw [call_returns (m := dispose claritySessionFree (w.objects.ptr (.session n))) rfl (by
        rw [hptr]
        exact free_run Block.session? hp rfl h0) rfl]
      exact .some ⟨rfl, hrefines⟩

/-! ## 4. Programs -/

/-- A key is long enough, or it is not looked at. -/
def Values.Fits (v : Values P) : Call P → Prop
  | .inboxId identity _ => 32 ≤ identity.length
  | .safetyNumber idA idB => 32 ≤ idA.length ∧ 32 ≤ idB.length
  | .sealEnvelope n recipientIdentityDh _ _ =>
    v.account n = none ∨ 32 ≤ recipientIdentityDh.length
  | _ => True

/-- Each call of a program fits the objects that it finds. -/
def Values.FitsAlong (L : Library P) : Values P → List (Call P) → Prop
  | _, [] => True
  | v, c :: calls => v.Fits c ∧ ∀ r ∈ v.call L c, r.2.FitsAlong L calls

theorem isSome_keyOf (data : Bytes) : (keyOf data).isSome ↔ 32 ≤ data.length := by
  rw [Option.isSome_iff_ne_none, ne_eq, keyOf_eq_none, Nat.not_lt]

theorem Values.isSome_call (L : Library P) (v : Values P) (c : Call P) :
    (v.call L c).isSome ↔ v.Fits c := by
  cases c with
  | inboxId identity epoch =>
    rw [Fits, ← isSome_keyOf, call]
    cases keyOf identity <;> simp
  | safetyNumber idA idB =>
    rw [Fits, ← isSome_keyOf, ← isSome_keyOf, call]
    cases keyOf idA <;> cases keyOf idB <;> simp
  | sealEnvelope n recipientIdentityDh payload eph =>
    rw [Fits, ← isSome_keyOf, call]
    cases v.account n <;> cases keyOf recipientIdentityDh <;> simp
  | _ => exact ⟨fun _ => trivial, fun _ => rfl⟩

theorem Values.isSome_run (L : Library P) (v : Values P) (calls : List (Call P)) :
    (v.run L calls).isSome ↔ v.FitsAlong L calls := by
  induction calls generalizing v with
  | nil => exact ⟨fun _ => trivial, fun _ => rfl⟩
  | cons c calls ih =>
    rw [FitsAlong, ← isSome_call L, run]
    cases hcall : v.call L c with
    | none => simp
    | some r =>
      simp only [Option.bind_eq_bind, Option.bind_some, Option.isSome_some, Option.mem_def,
        Option.some.injEq, forall_eq', true_and, ← ih]
      cases r.2.run L calls <;> rfl

theorem run_refines (L : Library P) {w : World P} {v : Values P} (hr : Refines w v)
    (calls : List (Call P)) :
    Option.Rel (fun x y => x.1 = y.1 ∧ Refines x.2 y.2) (w.run L calls) (v.run L calls) := by
  induction calls generalizing w v with
  | nil => exact .some ⟨rfl, hr⟩
  | cons c calls ih =>
    have hcall := call_refines (L := L) hr c
    rw [World.run, Values.run]
    generalize w.call L c = x at hcall ⊢
    generalize v.call L c = y at hcall ⊢
    cases hcall with
    | none => exact .none
    | @some x y hxy =>
      obtain ⟨reply, w'⟩ := x
      obtain ⟨reply', v'⟩ := y
      obtain ⟨rfl, hr'⟩ := hxy
      have hrun := ih hr'
      simp only [Option.bind_eq_bind, Option.bind_some]
      generalize w'.run L calls = x at hrun ⊢
      generalize v'.run L calls = y at hrun ⊢
      cases hrun with
      | none => exact .none
      | @some x y hxy => exact .some ⟨congrArg (reply :: ·) hxy.1, hxy.2⟩

theorem refines_start : Refines (World.start : World P) Values.start where
  next := rfl
  blocks := by
    have hblock : (Values.start : Values P).block = fun _ => none := by
      funext handle
      cases handle <;> rfl
    rw [hblock]
    exact .empty
  unmade _ _ := ⟨rfl, rfl⟩

/-- **Programs compute on values.**  Whatever a program calls, in whatever order and on
    whatever objects, it runs into undefined behaviour exactly when some call passes a key
    of less than 32 bytes, and has an object to use it with.  Otherwise each call returns
    or throws what it would on the accounts and sessions themselves, and every object that
    is not disposed holds its value. -/
theorem wrapper_is_values (L : Library P) (calls : List (Call P)) :
    ((World.start.run L calls).isSome ↔ Values.start.FitsAlong L calls) ∧
    ∀ replies w, World.start.run L calls = some (replies, w) →
      ∃ v, Values.start.run L calls = some (replies, v) ∧
        ∀ handle, ((w.objects.ptr handle).bind fun p => w.heap[p]?) = v.block handle := by
  have hrun := run_refines L refines_start calls
  rw [← Values.isSome_run]
  generalize World.start.run L calls = x at hrun ⊢
  generalize Values.start.run L calls = y at hrun ⊢
  cases hrun with
  | none =>
    refine ⟨Iff.rfl, ?_⟩
    intro replies w hw
    cases hw
  | @some x y hxy =>
    refine ⟨⟨fun _ => rfl, fun _ => rfl⟩, ?_⟩
    intro replies w hw
    obtain ⟨replies', v⟩ := y
    obtain rfl := Option.some.inj hw
    obtain ⟨rfl, hr⟩ := hxy
    exact ⟨v, rfl, fun handle => (hr.blocks.block handle).symm⟩

/-! ## 5. What is left -/

/-- The objects a program holds: those that its calls returned and that it did not dispose. -/
def holding (live : List Handle) (c : Call P) (r : Except Thrown Reply) : List Handle :=
  match c, r with
  | .disposeAccount n, _ => live.erase (.account n)
  | .disposeSession n, _ => live.erase (.session n)
  | _, .ok (.object handle) => handle :: live
  | _, .ok (.joined handle _) => handle :: live
  | _, _ => live

def held : List Handle → List (Call P) → List (Except Thrown Reply) → List Handle
  | live, c :: calls, r :: replies => held (holding live c r) calls replies
  | live, _, _ => live

/-- A list of the objects that are not disposed. -/
structure Values.Lists (v : Values P) (live : List Handle) : Prop where
  nodup : live.Nodup
  mem : ∀ handle, handle ∈ live ↔ (v.block handle).isSome
  unmade : ∀ n, v.next ≤ n → v.account n = none ∧ v.session n = none

namespace Values.Lists

variable {L : Library P} {v v' : Values P} {live : List Handle} {n : Nat}

theorem setAccount (h : v.Lists live) {a : Account P} (ha : v.account n = some a) (b : Account P) :
    (v.setAccount n (some b)).Lists live where
  nodup := h.nodup
  mem handle := by
    rw [h.mem, block_setAccount, Function.update_apply]
    split
    · rename_i heq
      rw [heq, block, ha]
      exact ⟨fun _ => rfl, fun _ => rfl⟩
    · rfl
  unmade m hm := by
    have hne : m ≠ n := by
      rintro rfl
      rw [(h.unmade m hm).1] at ha
      cases ha
    exact ⟨(Function.update_of_ne hne _ _).trans (h.unmade m hm).1, (h.unmade m hm).2⟩

theorem setSession (h : v.Lists live) {s : Session P} (hs : v.session n = some s) (t : Session P) :
    (v.setSession n (some t)).Lists live where
  nodup := h.nodup
  mem handle := by
    rw [h.mem, block_setSession, Function.update_apply]
    split
    · rename_i heq
      rw [heq, block, hs]
      exact ⟨fun _ => rfl, fun _ => rfl⟩
    · rfl
  unmade m hm := by
    have hne : m ≠ n := by
      rintro rfl
      rw [(h.unmade m hm).2] at hs
      cases hs
    exact ⟨(h.unmade m hm).1, (Function.update_of_ne hne _ _).trans (h.unmade m hm).2⟩

theorem newAccount (h : v.Lists live) (a : Account P) :
    ({ v.setAccount v.next (some a) with next := v.next + 1 } : Values P).Lists
      (.account v.next :: live) where
  nodup := by
    refine List.nodup_cons.mpr ⟨?_, h.nodup⟩
    rw [h.mem, block, (h.unmade _ (Nat.le_refl _)).1]
    simp
  mem handle := by
    show _ ↔ ((v.setAccount v.next (some a)).block handle).isSome
    rw [block_setAccount, Function.update_apply, List.mem_cons, h.mem]
    split <;> simp_all
  unmade m hm := by
    have hne : m ≠ v.next := Nat.ne_of_gt hm
    have hm := h.unmade m (Nat.le_of_succ_le hm)
    exact ⟨(Function.update_of_ne hne _ _).trans hm.1, hm.2⟩

theorem newSession (h : v.Lists live) (s : Session P) :
    ({ v.setSession v.next (some s) with next := v.next + 1 } : Values P).Lists
      (.session v.next :: live) where
  nodup := by
    refine List.nodup_cons.mpr ⟨?_, h.nodup⟩
    rw [h.mem, block, (h.unmade _ (Nat.le_refl _)).2]
    simp
  mem handle := by
    show _ ↔ ((v.setSession v.next (some s)).block handle).isSome
    rw [block_setSession, Function.update_apply, List.mem_cons, h.mem]
    split <;> simp_all
  unmade m hm := by
    have hne : m ≠ v.next := Nat.ne_of_gt hm
    have hm := h.unmade m (Nat.le_of_succ_le hm)
    exact ⟨hm.1, (Function.update_of_ne hne _ _).trans hm.2⟩

theorem disposeAccount (h : v.Lists live) (n : Nat) :
    (v.setAccount n none).Lists (live.erase (.account n)) where
  nodup := h.nodup.erase _
  mem handle := by
    rw [block_setAccount, Function.update_apply, h.nodup.mem_erase_iff, h.mem]
    split <;> simp_all
  unmade m hm := by
    refine ⟨?_, (h.unmade m hm).2⟩
    show Function.update v.account n none m = none
    rw [Function.update_apply, (h.unmade m hm).1, ite_self]

theorem disposeSession (h : v.Lists live) (n : Nat) :
    (v.setSession n none).Lists (live.erase (.session n)) where
  nodup := h.nodup.erase _
  mem handle := by
    rw [block_setSession, Function.update_apply, h.nodup.mem_erase_iff, h.mem]
    split <;> simp_all
  unmade m hm := by
    refine ⟨(h.unmade m hm).1, ?_⟩
    show Function.update v.session n none m = none
    rw [Function.update_apply, (h.unmade m hm).2, ite_self]

/-- One call: what it returned or disposed. -/
theorem call (h : v.Lists live) {c : Call P} {r : Except Thrown Reply}
    (hcall : v.call L c = some (r, v')) : v'.Lists (holding live c r) := by
  cases c with
  | generateAccount rnd =>
    cases hcall
    exact h.newAccount _
  | restoreAccount bytes =>
    rw [Values.call, restored] at hcall
    cases hparse : Account.fromBytes L.keys bytes with
    | error e =>
      rw [hparse] at hcall
      cases hcall
      exact h
    | ok a =>
      rw [hparse] at hcall
      cases hcall
      exact h.newAccount a
  | restoreSession bytes =>
    rw [Values.call, restored] at hcall
    cases hparse : Session.deserialize L.keys bytes with
    | error e =>
      rw [hparse] at hcall
      cases hcall
      exact h
    | ok s =>
      rw [hparse] at hcall
      cases hcall
      exact h.newSession s
  | inboxId identity epoch =>
    rw [Values.call] at hcall
    obtain ⟨id, -, heq⟩ := Option.bind_eq_some_iff.mp hcall
    cases heq
    exact h
  | bundleIdentityKeys bundle =>
    rw [Values.call] at hcall
    cases hkeys : Clarity.bundleIdentityKeys P bundle with
    | error e =>
      rw [hkeys] at hcall
      cases hcall
      exact h
    | ok keys =>
      rw [hkeys] at hcall
      cases hcall
      exact h
  | safetyNumber idA idB =>
    rw [Values.call] at hcall
    obtain ⟨a, -, hcall⟩ := Option.bind_eq_some_iff.mp hcall
    obtain ⟨b, -, heq⟩ := Option.bind_eq_some_iff.mp hcall
    cases heq
    exact h
  | identityPublic n | bundleBase n | oneTimePublics n | serializeAccount n | oneTimeRemaining n =>
    rcases Values.withAccount_cases (Option.some.inj hcall) with ⟨e, rfl, rfl⟩ | ⟨a, -, heq⟩
    · exact h
    · cases heq
      exact h
  | initiateSession n bundle rnd =>
    rcases Values.withAccount_cases (Option.some.inj hcall) with ⟨e, rfl, rfl⟩ | ⟨a, -, heq⟩
    · exact h
    · cases hs : Clarity.initiateSession a bundle rnd with
      | error e =>
        rw [hs] at heq
        cases heq
        exact h
      | ok s =>
        rw [hs] at heq
        cases heq
        exact h.newSession s
  | respondToSession n firstMessage fresh =>
    rcases Values.withAccount_cases (Option.some.inj hcall) with ⟨e, rfl, rfl⟩ | ⟨a, ha, heq⟩
    · exact h
    · rcases hvalue : respondValue a firstMessage fresh with ⟨e | ⟨s, plaintext⟩, a'⟩
      · rw [hvalue] at heq
        cases heq
        exact h.setAccount ha a'
      · rw [hvalue] at heq
        cases heq
        exact (h.setAccount ha a').newSession s
  | replenishOneTimePrekeys n secrets =>
    rcases Values.withAccount_cases (Option.some.inj hcall) with ⟨e, rfl, rfl⟩ | ⟨a, ha, heq⟩
    · exact h
    · cases heq
      exact h.setAccount ha _
  | sealEnvelope n recipientIdentityDh payload eph =>
    rw [Values.call] at hcall
    cases ha : v.account n with
    | none =>
      rw [ha] at hcall
      cases hcall
      exact h
    | some a =>
      rw [ha] at hcall
      obtain ⟨dh, -, heq⟩ := Option.bind_eq_some_iff.mp hcall
      cases heq
      exact h
  | openEnvelope n blob =>
    rcases Values.withAccount_cases (Option.some.inj hcall) with ⟨e, rfl, rfl⟩ | ⟨a, -, heq⟩
    · exact h
    · cases hopen : openValue a blob with
      | error e =>
        rw [hopen] at heq
        cases heq
        exact h
      | ok opened =>
        rw [hopen] at heq
        cases heq
        exact h
  | encrypt n plaintext =>
    rcases Values.withSession_cases (Option.some.inj hcall) with ⟨e, rfl, rfl⟩ | ⟨s, hs, heq⟩
    · exact h
    · rcases hvalue : encryptValue s plaintext with ⟨e | message, s'⟩
      · rw [hvalue] at heq
        cases heq
        exact h.setSession hs s'
      · rw [hvalue] at heq
        cases heq
        exact h.setSession hs s'
  | decrypt n message fresh =>
    rcases Values.withSession_cases (Option.some.inj hcall) with ⟨e, rfl, rfl⟩ | ⟨s, hs, heq⟩
    · exact h
    · rcases hvalue : decryptValue s message fresh with ⟨e | plaintext, s'⟩
      · rw [hvalue] at heq
        cases heq
        exact h.setSession hs s'
      · rw [hvalue] at heq
        cases heq
        exact h.setSession hs s'
  | serializeSession n =>
    rcases Values.withSession_cases (Option.some.inj hcall) with ⟨e, rfl, rfl⟩ | ⟨s, -, heq⟩
    · exact h
    · cases heq
      exact h
  | disposeAccount n =>
    cases hcall
    exact h.disposeAccount n
  | disposeSession n =>
    cases hcall
    exact h.disposeSession n

theorem run (h : v.Lists live) {calls : List (Call P)} {replies : List (Except Thrown Reply)}
    (hrun : v.run L calls = some (replies, v')) : v'.Lists (held live calls replies) := by
  induction calls generalizing v live replies with
  | nil =>
    cases hrun
    exact h
  | cons c calls ih =>
    obtain ⟨⟨reply, v₁⟩, hcall, hrun⟩ := Option.bind_eq_some_iff.mp hrun
    obtain ⟨⟨replies, v₂⟩, hrun, heq⟩ := Option.bind_eq_some_iff.mp hrun
    cases heq
    exact ih (h.call hcall) hrun

end Values.Lists

theorem lists_start : (Values.start : Values P).Lists [] where
  nodup := List.nodup_nil
  mem handle := by cases handle <;> simp [Values.block, Values.start]
  unmade _ _ := ⟨rfl, rfl⟩

/-- **Nothing leaks.**  However a program ends up where it is, with calls that threw and
    buffers that came and went, as many blocks are allocated as it holds objects, each
    held object has a block of its own, and nothing is freed twice.  A program that has
    disposed of what it made leaves an empty heap. -/
theorem wrapper_frees (L : Library P) {calls : List (Call P)}
    {replies : List (Except Thrown Reply)} {w : World P}
    (hrun : World.start.run L calls = some (replies, w)) :
    w.heap.size = (held [] calls replies).length ∧
    (∀ handle, handle ∈ held [] calls replies ↔ (w.objects.ptr handle).isSome) ∧
    (∀ handle handle' p, w.objects.ptr handle = some p → w.objects.ptr handle' = some p →
      handle = handle') ∧
    (∀ handle p, w.objects.ptr handle = some p → ∃ block, w.heap[p]? = some block) ∧
    (held [] calls replies = [] → w.heap = ∅) := by
  have hrefines := run_refines L refines_start calls
  rw [hrun] at hrefines
  generalize hy : Values.start.run L calls = y at hrefines
  cases hrefines with
  | @some _ y hxy =>
    obtain ⟨replies', v⟩ := y
    obtain ⟨rfl, hr⟩ := hxy
    have hlists := lists_start.run hy
    have hsize := hr.blocks.size_eq hlists.nodup hlists.mem
    refine ⟨hsize, ?_, fun _ _ _ => hr.blocks.distinct, ?_, ?_⟩
    · intro handle
      rw [hlists.mem]
      rcases hr.blocks.cases handle with ⟨hptr, hval⟩ | ⟨p, block, hptr, hval, -⟩
      · rw [hptr, hval]
        exact Iff.rfl
      · rw [hptr, hval]
        exact Iff.rfl
    · intro handle p hp
      exact Option.isSome_iff_exists.mp (hr.blocks.live hp)
    · intro hnil
      rw [hnil] at hsize
      exact Std.ExtTreeMap.eq_empty_iff_size_eq_zero.mpr hsize

/-- An allocator that gives out an address beyond those in use. -/
def sumAllocator (V : Type) : Allocator V where
  fresh h := h.keys.sum + 2
  unused h := by
    apply Std.ExtTreeMap.getElem?_eq_none
    intro hmem
    have hle := List.le_sum_of_mem (Std.ExtTreeMap.mem_keys.mpr hmem)
    omega
  two_le h := Nat.le_add_left 2 _

def sampleLibrary : Library Suite.sample where
  allocator := sumAllocator _
  junk n := List.replicate n 0xaa
  length_junk _ := List.length_replicate
  junkCell := ⟨0xaaaa, 0xaaaa⟩
  keys := sampleCodecs
  sha256 b := Bytes32.ofByte b.length.toUInt8
  sha512 b := ⟨List.replicate 64 b.length.toUInt8, List.length_replicate⟩
  publicsJson l := ascii "[" ++ (ascii ",").intercalate (l.map fun e =>
    Http.oneTimeCodec.enc ⟨e.1, Base64Engine.standard.encode e.2.bytes⟩) ++ ascii "]"

/-- A program that also restores what is not an account, responds to what is not a message,
    and uses and disposes of what it has disposed of. -/
def lifetime : List (Call Suite.sample) :=
  [.generateAccount
    { edSigning := (10 : UInt8), dhIdentity := sampleSecret 11, signedPrekey := sampleSecret 12
      kyber := (13 : UInt8), oneTimePrekeys := List.replicate 100 (sampleSecret 20)
      length_oneTimePrekeys := List.length_replicate },
    .restoreAccount [],
    .initiateSession 0 sampleBob.bundleBase.encode sampleRandom,
    .encrypt 1 [7],
    .respondToSession 0 [1, 2, 3] (sampleSecret 70),
    .disposeAccount 0,
    .sealEnvelope 0 [1] [] (sampleSecret 71),
    .disposeSession 1,
    .disposeSession 1]

/-- It leaves nothing behind. -/
theorem wrapper_frees_lifetime :
    ∃ replies w, World.start.run sampleLibrary lifetime = some (replies, w) ∧ w.heap = ∅ := by
  have hheld : (Values.start.run sampleLibrary lifetime).map (fun r => held [] lifetime r.1) =
      some [] := by decide +kernel
  obtain ⟨⟨replies, v⟩, hvalues, hnil⟩ := Option.map_eq_some_iff.mp hheld
  have hrefines := run_refines sampleLibrary refines_start lifetime
  rw [hvalues] at hrefines
  generalize hx : World.start.run sampleLibrary lifetime = x at hrefines ⊢
  cases hrefines with
  | @some x _ hxy =>
    obtain ⟨replies', w⟩ := x
    obtain ⟨rfl, -⟩ := hxy
    exact ⟨replies', w, rfl, (wrapper_frees sampleLibrary hx).2.2.2.2 hnil⟩

end Clarity.Ffi
